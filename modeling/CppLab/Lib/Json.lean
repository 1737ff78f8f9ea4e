import Mathlib

/-!
# JSON texts

A parser for JSON over the characters of a text. A number is a rational, a string
its characters, an object its members in order, names repeated or not.

Values nest, so their parser has fuel; `parse` gives it more than twice the length of
the text, and `parse_of_value` says that other fuel finds nothing else. `widths` says
that nothing is read that is shorter as a text than as a value.
-/

namespace CppLab.Json

inductive Value
  | null
  | bool (b : Bool)
  | number (q : ℚ)
  | string (s : List Char)
  | array (items : List Value)
  | object (members : List (List Char × Value))

/-- A member of an object: the last one of the name. -/
def Value.field (name : List Char) : Value → Option Value
  | .object members => members.reverse.lookup name
  | _ => none

/-! ## Strings -/

/-- A character that may stand in a string as it is. -/
def plain (c : Char) : Bool := ' ' ≤ c && c ≠ '"' && c ≠ '\\'

def hexDigit (c : Char) : Option Nat :=
  if '0' ≤ c ∧ c ≤ '9' then some (c.toNat - '0'.toNat)
  else if 'a' ≤ c ∧ c ≤ 'f' then some (c.toNat - 'a'.toNat + 10)
  else if 'A' ≤ c ∧ c ≤ 'F' then some (c.toNat - 'A'.toNat + 10)
  else none

/-- Four hexadecimal digits. -/
def hex4 : List Char → Option (Nat × List Char)
  | a :: b :: c :: d :: t => do
      let a ← hexDigit a
      let b ← hexDigit b
      let c ← hexDigit c
      let d ← hexDigit d
      some (((a * 16 + b) * 16 + c) * 16 + d, t)
  | _ => none

/-- `\u` and four digits. -/
def unit (t : List Char) : Option (Nat × List Char) :=
  if ['\\', 'u'] <+: t then hex4 (t.drop 2) else none

/-- A character in UTF-16, one unit or two. -/
def unicode (t : List Char) : Option (Char × List Char) := do
  let (high, t) ← unit t
  if 0xD800 ≤ high ∧ high < 0xDC00 then
    let (low, t) ← unit t
    if 0xDC00 ≤ low ∧ low < 0xE000 then
      some (Char.ofNat (0x10000 + (high - 0xD800) * 0x400 + (low - 0xDC00)), t)
    else none
  else if 0xDC00 ≤ high ∧ high < 0xE000 then none
  else some (Char.ofNat high, t)

/-- What stands for a character after a backslash. -/
def escapes : List (Char × Char) :=
  [('"', '"'), ('\\', '\\'), ('/', '/'), ('b', '\x08'), ('f', '\x0c'), ('n', '\n'), ('r', '\r'),
    ('t', '\t')]

/-- A backslash and what follows it. -/
def escape : List Char → Option (Char × List Char)
  | '\\' :: e :: t =>
      if e = 'u' then unicode ('\\' :: e :: t) else (escapes.lookup e).map fun c => (c, t)
  | _ => none

/-- A character of a string. -/
def character : List Char → Option (Char × List Char)
  | [] => none
  | c :: t => if plain c then some (c, t) else escape (c :: t)

theorem hex4_eq_some {t rest : List Char} {n : Nat} (h : hex4 t = some (n, rest)) :
    ∃ raw, raw.length = 4 ∧ t = raw ++ rest := by
  rcases t with _ | ⟨a, _ | ⟨b, _ | ⟨c, _ | ⟨d, t⟩⟩⟩⟩
  · cases h
  · cases h
  · cases h
  · cases h
  · simp only [hex4, bind, Option.bind_eq_some_iff] at h
    obtain ⟨_, -, _, -, _, -, _, -, same⟩ := h
    cases same
    exact ⟨[a, b, c, d], rfl, rfl⟩

theorem unit_eq_some {t rest : List Char} {n : Nat} (h : unit t = some (n, rest)) :
    ∃ raw, 2 ≤ raw.length ∧ t = raw ++ rest := by
  obtain ⟨⟨tail, rfl⟩, digits⟩ := Option.ite_none_right_eq_some.mp h
  obtain ⟨raw, -, split⟩ := hex4_eq_some digits
  refine ⟨['\\', 'u'] ++ raw, by simp, ?_⟩
  rw [List.append_assoc, ← split]
  rfl

theorem unicode_eq_some {t rest : List Char} {c : Char} (h : unicode t = some (c, rest)) :
    ∃ raw, 2 ≤ raw.length ∧ t = raw ++ rest := by
  obtain ⟨⟨high, t₁⟩, first, after⟩ := Option.bind_eq_some_iff.mp h
  obtain ⟨raw, two, rfl⟩ := unit_eq_some first
  dsimp only at after
  split at after
  · obtain ⟨⟨low, t₂⟩, second, last⟩ := Option.bind_eq_some_iff.mp after
    obtain ⟨raw', -, rfl⟩ := unit_eq_some second
    obtain ⟨-, same⟩ := Option.ite_none_right_eq_some.mp last
    obtain ⟨-, rfl⟩ := Prod.mk.inj (Option.some.inj same)
    refine ⟨raw ++ raw', ?_, (List.append_assoc ..).symm⟩
    rw [List.length_append]
    omega
  · obtain ⟨-, same⟩ := Option.ite_none_left_eq_some.mp after
    cases same
    exact ⟨raw, two, rfl⟩

theorem escape_eq_some {t rest : List Char} {c : Char} (h : escape t = some (c, rest)) :
    ∃ raw, 2 ≤ raw.length ∧ t = raw ++ rest := by
  rw [escape.eq_def] at h
  split at h
  · rename_i e t
    split at h
    · exact unicode_eq_some h
    · obtain ⟨d, -, same⟩ := Option.map_eq_some_iff.mp h
      cases same
      exact ⟨['\\', e], Nat.le_refl 2, rfl⟩
  · cases h

/-- A character stands for itself or takes two characters or more. -/
theorem character_eq_some {t rest : List Char} {c : Char} (h : character t = some (c, rest)) :
    (plain c = true ∧ t = c :: rest) ∨ ∃ raw, 2 ≤ raw.length ∧ t = raw ++ rest := by
  cases t with
  | nil => cases h
  | cons d t =>
      rw [character] at h
      split at h
      · rename_i plain
        cases h
        exact .inl ⟨plain, rfl⟩
      · exact .inr (escape_eq_some h)

theorem character_shorter {t rest : List Char} {c : Char} (h : character t = some (c, rest)) :
    rest.length < t.length := by
  rcases character_eq_some h with ⟨-, rfl⟩ | ⟨raw, two, rfl⟩
  · exact Nat.lt_succ_self _
  · rw [List.length_append]
    omega

/-- A string after its opening quote, and what follows the closing one. -/
def string (t : List Char) : Option (List Char × List Char) :=
  if t.head? = some '"' then some ([], t.tail)
  else
    match _h : character t with
    | none => none
    | some (c, rest) => (string rest).map fun r => (c :: r.1, r.2)
termination_by t.length
decreasing_by exact character_shorter _h

/-- A string is no longer than what it was written as, and as long only if it was
written as it is. -/
theorem string_eq_some {t s rest : List Char} (h : string t = some (s, rest)) :
    ∃ raw, t = raw ++ '"' :: rest ∧ s.length ≤ raw.length ∧
      (raw.length ≤ s.length → raw = s ∧ ∀ c ∈ s, plain c = true) := by
  induction t using string.induct generalizing s with
  | case1 t quote =>
      -- the closing quote
      rw [string, if_pos quote] at h
      cases h
      refine ⟨[], ?_, Nat.le_refl 0, ?_⟩
      · exact (List.cons_head?_tail quote).symm
      · intro _
        exact ⟨rfl, fun c member => by cases member⟩
  | case2 t other bad =>
      -- no character of a string
      rw [string, if_neg other] at h
      split at h
      · cases h
      · rename_i good
        rw [bad] at good
        cases good
  | case3 t other c u good ih =>
      rw [string, if_neg other] at h
      split at h
      · cases h
      · rename_i d v good'
        rw [good] at good'
        cases good'
        obtain ⟨⟨s, rest⟩, inner, same⟩ := Option.map_eq_some_iff.mp h
        cases same
        obtain ⟨raw, rfl, short, tight⟩ := ih inner
        rcases character_eq_some good with ⟨plain, rfl⟩ | ⟨first, two, rfl⟩
        · refine ⟨c :: raw, rfl, Nat.succ_le_succ short, ?_⟩
          intro long
          obtain ⟨rfl, all⟩ := tight (Nat.le_of_succ_le_succ long)
          refine ⟨rfl, ?_⟩
          intro x member
          rcases List.mem_cons.mp member with rfl | member
          · exact plain
          · exact all x member
        · -- an escape takes two characters or more for one
          have grows : (c :: s).length < (first ++ raw).length := by
            rw [List.length_append, List.length_cons]
            change s.length ≤ raw.length at short
            omega
          refine ⟨first ++ raw, (List.append_assoc ..).symm, Nat.le_of_lt grows, ?_⟩
          intro long
          exact absurd grows (Nat.not_lt.mpr long)

/-- A string without characters that must be escaped is read as it is. -/
theorem string_append {s : List Char} (clean : ∀ c ∈ s, plain c = true) (rest : List Char) :
    string (s ++ '"' :: rest) = some (s, rest) := by
  induction s with
  | nil =>
      rw [string, if_pos]
      · rfl
      · rfl
  | cons c s ih =>
      obtain ⟨first, clean⟩ := List.forall_mem_cons.mp clean
      have other : c ≠ '"' := by
        rintro rfl
        cases first
      rw [string, if_neg (by simpa using other)]
      have read : character (c :: (s ++ '"' :: rest)) = some (c, s ++ '"' :: rest) := by
        rw [character, if_pos first]
      split
      · rename_i bad
        rw [List.cons_append, read] at bad
        cases bad
      · rename_i d t good
        rw [List.cons_append, read] at good
        cases good
        rw [ih clean]
        rfl

/-! ## White space and tokens -/

def isSpace (c : Char) : Bool := c = ' ' || c = '\t' || c = '\n' || c = '\r'

def skip (t : List Char) : List Char := t.dropWhile isSpace

/-- A character of the structure and what follows it. -/
def token (c : Char) (t : List Char) : Option (List Char) :=
  if (skip t).head? = some c then some (skip t).tail else none

theorem skip_space (t : List Char) : skip (' ' :: t) = skip t :=
  List.dropWhile_cons_of_pos (by decide)

theorem skip_cons {c : Char} (dark : isSpace c = false) (t : List Char) :
    skip (c :: t) = c :: t :=
  List.dropWhile_cons_of_neg (by simp [dark])

theorem length_skip_le (t : List Char) : (skip t).length ≤ t.length :=
  (List.dropWhile_sublist _).length_le

theorem token_space (c : Char) (t : List Char) : token c (' ' :: t) = token c t := by
  rw [token, token, skip_space]

theorem token_cons {c : Char} (dark : isSpace c = false) (t : List Char) :
    token c (c :: t) = some t := by
  rw [token, skip_cons dark, if_pos]
  · rfl
  · rfl

theorem token_other {c d : Char} (dark : isSpace d = false) (other : d ≠ c) (t : List Char) :
    token c (d :: t) = none := by
  rw [token, skip_cons dark, if_neg]
  simpa using other

theorem token_shorter {c : Char} {t rest : List Char} (h : token c t = some rest) :
    rest.length < t.length := by
  obtain ⟨there, same⟩ := Option.ite_none_right_eq_some.mp h
  have whole := List.cons_head?_tail there
  injection same with same
  rw [same] at whole
  have le := length_skip_le t
  rw [← whole, List.length_cons] at le
  exact le

/-! ## Numbers and names -/

/-- One or more digits. -/
def digits (t : List Char) : Option (List Char × List Char) :=
  if t.takeWhile Char.isDigit = [] then none
  else some (t.takeWhile Char.isDigit, t.dropWhile Char.isDigit)

/-- An integer without a sign and without a zero in front. -/
def integer (t : List Char) : Option (Nat × List Char) :=
  (digits t).bind fun r =>
    if r.1.head? = some '0' ∧ 1 < r.1.length then none
    else some (Nat.ofDigitChars 10 r.1 0, r.2)

def fraction (t : List Char) : Option (ℚ × List Char) :=
  if t.head? = some '.' then
    (digits t.tail).map fun r => ((Nat.ofDigitChars 10 r.1 0 : ℚ) / 10 ^ r.1.length, r.2)
  else some (0, t)

def exponent (t : List Char) : Option (Int × List Char) :=
  if t.head? = some 'e' ∨ t.head? = some 'E' then
    if t.tail.head? = some '-' then
      (digits t.tail.tail).map fun r => (-(Nat.ofDigitChars 10 r.1 0 : Int), r.2)
    else
      (digits (if t.tail.head? = some '+' then t.tail.tail else t.tail)).map fun r =>
        ((Nat.ofDigitChars 10 r.1 0 : Int), r.2)
  else some (0, t)

def unsigned (t : List Char) : Option (ℚ × List Char) := do
  let (n, t) ← integer t
  let (f, t) ← fraction t
  let (e, t) ← exponent t
  some ((n + f) * 10 ^ e, t)

def number (t : List Char) : Option (ℚ × List Char) :=
  if t.head? = some '-' then (unsigned t.tail).map fun r => (-r.1, r.2) else unsigned t

def keyword (word : List Char) (v : Value) (t : List Char) : Option (Value × List Char) :=
  if word <+: t then some (v, t.drop word.length) else none

/-- A value that is not a string, an array or an object. -/
def scalar (t : List Char) : Option (Value × List Char) :=
  (keyword ['n', 'u', 'l', 'l'] .null t).or <|
    (keyword ['t', 'r', 'u', 'e'] (.bool true) t).or <|
      (keyword ['f', 'a', 'l', 's', 'e'] (.bool false) t).or <|
        (number t).map fun r => (.number r.1, r.2)

theorem digits_shorter {t ds rest : List Char} (h : digits t = some (ds, rest)) :
    rest.length < t.length := by
  obtain ⟨some, same⟩ := Option.ite_none_left_eq_some.mp h
  cases same
  have whole := congrArg List.length (List.takeWhile_append_dropWhile (p := Char.isDigit) (l := t))
  rw [List.length_append] at whole
  have pos := List.length_pos_iff.mpr some
  omega

theorem fraction_le {t rest : List Char} {q : ℚ} (h : fraction t = some (q, rest)) :
    rest.length ≤ t.length := by
  rw [fraction] at h
  split at h
  · obtain ⟨⟨ds, rest⟩, read, same⟩ := Option.map_eq_some_iff.mp h
    cases same
    have shorter := digits_shorter read
    rw [List.length_tail] at shorter
    show rest.length ≤ _
    omega
  · cases h
    exact Nat.le_refl _

theorem exponent_le {t rest : List Char} {e : Int} (h : exponent t = some (e, rest)) :
    rest.length ≤ t.length := by
  rw [exponent] at h
  split at h
  · split at h
    · obtain ⟨⟨ds, rest⟩, read, same⟩ := Option.map_eq_some_iff.mp h
      cases same
      have shorter := digits_shorter read
      simp only [List.length_tail] at shorter
      show rest.length ≤ _
      omega
    · obtain ⟨⟨ds, rest⟩, read, same⟩ := Option.map_eq_some_iff.mp h
      cases same
      have shorter := digits_shorter read
      show rest.length ≤ _
      split at shorter
      · simp only [List.length_tail] at shorter
        omega
      · rw [List.length_tail] at shorter
        omega
  · cases h
    exact Nat.le_refl _

theorem unsigned_shorter {t rest : List Char} {q : ℚ} (h : unsigned t = some (q, rest)) :
    rest.length < t.length := by
  obtain ⟨⟨n, t₁⟩, whole, after⟩ := Option.bind_eq_some_iff.mp h
  obtain ⟨⟨f, t₂⟩, part, after⟩ := Option.bind_eq_some_iff.mp after
  obtain ⟨⟨e, t₃⟩, power, same⟩ := Option.bind_eq_some_iff.mp after
  cases same
  obtain ⟨⟨ds, t₁⟩, read, same⟩ := Option.bind_eq_some_iff.mp whole
  obtain ⟨-, same⟩ := Option.ite_none_left_eq_some.mp same
  cases same
  exact lt_of_le_of_lt ((exponent_le power).trans (fraction_le part)) (digits_shorter read)

theorem number_shorter {t rest : List Char} {q : ℚ} (h : number t = some (q, rest)) :
    rest.length < t.length := by
  rw [number] at h
  split at h
  · obtain ⟨⟨q, rest⟩, read, same⟩ := Option.map_eq_some_iff.mp h
    cases same
    have shorter := unsigned_shorter read
    rw [List.length_tail] at shorter
    show rest.length < _
    omega
  · exact unsigned_shorter h

/-- How many characters a value takes at the least, strings looked at alone. -/
def Value.width : Value → Nat
  | .string s => s.length + 2
  | _ => 1

theorem keyword_eq_some {word t rest : List Char} {v w : Value} (nonempty : word ≠ [])
    (h : keyword word v t = some (w, rest)) : w = v ∧ rest.length < t.length := by
  obtain ⟨⟨tail, rfl⟩, same⟩ := Option.ite_none_right_eq_some.mp h
  cases same
  refine ⟨rfl, ?_⟩
  have pos := List.length_pos_iff.mpr nonempty
  rw [List.length_drop, List.length_append]
  omega

theorem keyword_width {word t rest : List Char} {v w : Value} (nonempty : word ≠ [])
    (one : v.width = 1) (h : keyword word v t = some (w, rest)) :
    w.width + rest.length ≤ t.length := by
  obtain ⟨rfl, shorter⟩ := keyword_eq_some nonempty h
  rw [one]
  omega

theorem scalar_width {t rest : List Char} {v : Value} (h : scalar t = some (v, rest)) :
    v.width + rest.length ≤ t.length := by
  rcases Option.or_eq_some_iff.mp h with h | ⟨-, h⟩
  · exact keyword_width (by simp) rfl h
  rcases Option.or_eq_some_iff.mp h with h | ⟨-, h⟩
  · exact keyword_width (by simp) rfl h
  rcases Option.or_eq_some_iff.mp h with h | ⟨-, h⟩
  · exact keyword_width (by simp) rfl h
  · obtain ⟨⟨q, rest⟩, read, same⟩ := Option.map_eq_some_iff.mp h
    cases same
    have shorter := number_shorter read
    show 1 + rest.length ≤ _
    omega

/-! ## Values -/

/-- The name of a member, up to and with the colon. -/
def memberName (t : List Char) : Option (List Char × List Char) := do
  let t ← token '"' t
  let (name, t) ← string t
  let t ← token ':' t
  some (name, t)

/-- What stands between brackets, after the opening one. -/
def enclosed {α : Type*} (close : Char) (read : List Char → Option (List α × List Char))
    (t : List Char) : Option (List α × List Char) :=
  if token close t = none then read t else (token close t).map fun rest => ([], rest)

/-- What follows an entry: a comma and more of them, or the closing bracket. -/
def more {α : Type*} (close : Char) (read : List Char → Option (List α × List Char)) (x : α)
    (t : List Char) : Option (List α × List Char) :=
  if token close t = none then
    (token ',' t).bind fun t => (read t).map fun r => (x :: r.1, r.2)
  else (token close t).map fun rest => ([x], rest)

mutual

def value : Nat → List Char → Option (Value × List Char)
  | 0, _ => none
  | n + 1, t =>
      if (skip t).head? = some '"' then
        (string (skip t).tail).map fun r => (.string r.1, r.2)
      else if (skip t).head? = some '{' then
        (enclosed '}' (members n) (skip t).tail).map fun r => (.object r.1, r.2)
      else if (skip t).head? = some '[' then
        (enclosed ']' (items n) (skip t).tail).map fun r => (.array r.1, r.2)
      else scalar (skip t)

/-- The members of an object, one or more, and its closing brace. -/
def members : Nat → List Char → Option (List (List Char × Value) × List Char)
  | 0, _ => none
  | n + 1, t =>
      (memberName t).bind fun r =>
        (value n r.2).bind fun q => more '}' (members n) (r.1, q.1) q.2

/-- The items of an array, one or more, and its closing bracket. -/
def items : Nat → List Char → Option (List Value × List Char)
  | 0, _ => none
  | n + 1, t => (value n t).bind fun q => more ']' (items n) q.1 q.2

end

/-- The value a text stands for. -/
def parse (t : List Char) : Option Value :=
  (value (2 * t.length + 1) t).bind fun r => if skip r.2 = [] then some r.1 else none

theorem memberName_eq_some {t rest : List Char} {name : List Char}
    (h : memberName t = some (name, rest)) : name.length + 2 + rest.length < t.length := by
  obtain ⟨t₁, quote, after⟩ := Option.bind_eq_some_iff.mp h
  obtain ⟨⟨name, t₂⟩, read, after⟩ := Option.bind_eq_some_iff.mp after
  obtain ⟨t₃, colon, same⟩ := Option.bind_eq_some_iff.mp after
  cases same
  obtain ⟨raw, rfl, short, -⟩ := string_eq_some read
  have first := token_shorter quote
  have last := token_shorter colon
  rw [List.length_append, List.length_cons] at first
  omega

section
variable {α : Type*} {close : Char} {read : List Char → Option (List α × List Char)}

theorem enclosed_eq_some {t rest : List Char} {xs : List α} :
    enclosed close read t = some (xs, rest) ↔
      (token close t = some rest ∧ xs = []) ∨
        (token close t = none ∧ read t = some (xs, rest)) := by
  rw [enclosed]
  cases token close t with
  | none => simp
  | some u => simp [and_comm, eq_comm]

theorem more_eq_some {t rest : List Char} {x : α} {xs : List α} :
    more close read x t = some (xs, rest) ↔
      (token close t = some rest ∧ xs = [x]) ∨ (token close t = none ∧
        ∃ u ys, token ',' t = some u ∧ read u = some (ys, rest) ∧ xs = x :: ys) := by
  rw [more]
  cases token close t with
  | none => simp [Option.bind_eq_some_iff, eq_comm (b := xs)]
  | some u => simp [and_comm, eq_comm]

end

theorem members_eq_some {n : Nat} {t rest : List Char} {ms : List (List Char × Value)} :
    members (n + 1) t = some (ms, rest) ↔ ∃ name t₁ v t₂, memberName t = some (name, t₁) ∧
      value n t₁ = some (v, t₂) ∧ more '}' (members n) (name, v) t₂ = some (ms, rest) := by
  simp [members, Option.bind_eq_some_iff]

theorem items_eq_some {n : Nat} {t rest : List Char} {vs : List Value} :
    items (n + 1) t = some (vs, rest) ↔ ∃ v t₁, value n t = some (v, t₁) ∧
      more ']' (items n) v t₁ = some (vs, rest) := by
  simp [items, Option.bind_eq_some_iff]

/-- The four kinds of value. -/
theorem value_eq_some {n : Nat} {t rest : List Char} {v : Value} :
    value (n + 1) t = some (v, rest) ↔
      (∃ u s, skip t = '"' :: u ∧ string u = some (s, rest) ∧ v = .string s) ∨
      (∃ u ms, skip t = '{' :: u ∧ enclosed '}' (members n) u = some (ms, rest) ∧
        v = .object ms) ∨
      (∃ u vs, skip t = '[' :: u ∧ enclosed ']' (items n) u = some (vs, rest) ∧ v = .array vs) ∨
      ((skip t).head? ≠ some '"' ∧ (skip t).head? ≠ some '{' ∧ (skip t).head? ≠ some '[' ∧
        scalar (skip t) = some (v, rest)) := by
  rw [value]
  cases skip t with
  | nil => simp
  | cons c u =>
      by_cases quote : c = '"'
      · subst quote
        simp [eq_comm]
      by_cases brace : c = '{'
      · subst brace
        simp [eq_comm]
      by_cases bracket : c = '['
      · subst bracket
        simp [eq_comm]
      simp [quote, brace, bracket]

/-! ## Lengths and fuel -/

theorem length_of_skip {c : Char} {t u : List Char} (there : skip t = c :: u) :
    u.length < t.length := by
  have le := length_skip_le t
  rw [there, List.length_cons] at le
  exact le

/-- Nothing is read that is shorter as a text than as a value. -/
structure Widths (n : Nat) : Prop where
  value : ∀ {t v rest}, value n t = some (v, rest) → v.width + rest.length ≤ t.length
  members : ∀ {t ms rest}, members n t = some (ms, rest) → rest.length < t.length ∧
    ∀ name v, (name, v) ∈ ms → name.length + v.width + 4 + rest.length ≤ t.length
  items : ∀ {t vs rest}, items n t = some (vs, rest) → rest.length < t.length

theorem Value.width_pos (v : Value) : 0 < v.width := by
  cases v <;> exact Nat.succ_pos _

theorem enclosed_shorter {α : Type*} {close : Char}
    {read : List Char → Option (List α × List Char)} {t rest : List Char} {xs : List α}
    (h : enclosed close read t = some (xs, rest))
    (shorter : read t = some (xs, rest) → rest.length < t.length) : rest.length < t.length := by
  rcases enclosed_eq_some.mp h with ⟨closed, -⟩ | ⟨-, inner⟩
  · exact token_shorter closed
  · exact shorter inner

theorem Widths.value_succ {n : Nat} (widths : Widths n) {t rest : List Char} {v : Value}
    (h : Json.value (n + 1) t = some (v, rest)) : v.width + rest.length ≤ t.length := by
  rcases value_eq_some.mp h with ⟨u, s, quote, read, rfl⟩ | ⟨u, ms, brace, read, rfl⟩ |
    ⟨u, vs, bracket, read, rfl⟩ | ⟨-, -, -, read⟩
  · obtain ⟨raw, rfl, short, -⟩ := string_eq_some read
    have shorter := length_of_skip quote
    rw [List.length_append, List.length_cons] at shorter
    show s.length + 2 + rest.length ≤ _
    omega
  · have outer := length_of_skip brace
    have inner := enclosed_shorter read fun inner => (widths.members inner).1
    show 1 + rest.length ≤ _
    omega
  · have outer := length_of_skip bracket
    have inner := enclosed_shorter read widths.items
    show 1 + rest.length ≤ _
    omega
  · exact (scalar_width read).trans (length_skip_le t)

theorem Widths.members_succ {n : Nat} (widths : Widths n) {t rest : List Char}
    {ms : List (List Char × Value)} (h : Json.members (n + 1) t = some (ms, rest)) :
    rest.length < t.length ∧
      ∀ name v, (name, v) ∈ ms → name.length + v.width + 4 + rest.length ≤ t.length := by
  obtain ⟨name, t₁, v, t₂, named, read, after⟩ := members_eq_some.mp h
  have named := memberName_eq_some named
  have inner := widths.value read
  rcases more_eq_some.mp after with ⟨close, rfl⟩ | ⟨-, t₃, ms, comma, read, rfl⟩
  · have close := token_shorter close
    refine ⟨by omega, ?_⟩
    intro name' v' member
    cases List.mem_singleton.mp member
    omega
  · have comma := token_shorter comma
    obtain ⟨shorter, others⟩ := widths.members read
    refine ⟨by omega, ?_⟩
    intro name' v' member
    rcases List.mem_cons.mp member with same | member
    · cases same
      omega
    · have := others name' v' member
      omega

theorem Widths.items_succ {n : Nat} (widths : Widths n) {t rest : List Char} {vs : List Value}
    (h : Json.items (n + 1) t = some (vs, rest)) : rest.length < t.length := by
  obtain ⟨v, t₁, read, after⟩ := items_eq_some.mp h
  have inner := widths.value read
  have pos := v.width_pos
  rcases more_eq_some.mp after with ⟨close, -⟩ | ⟨-, t₂, vs, comma, read, -⟩
  · have close := token_shorter close
    omega
  · have comma := token_shorter comma
    have shorter := widths.items read
    omega

theorem widths (n : Nat) : Widths n := by
  induction n with
  | zero =>
      constructor
      · intro t v rest h
        cases h
      · intro t ms rest h
        cases h
      · intro t vs rest h
        cases h
  | succ n ih => exact ⟨ih.value_succ, ih.members_succ, ih.items_succ⟩

theorem enclosed_congr {α : Type*} {close : Char}
    {read read' : List Char → Option (List α × List Char)} {t rest : List Char} {xs : List α}
    (h : enclosed close read t = some (xs, rest))
    (same : read t = some (xs, rest) → read' t = some (xs, rest)) :
    enclosed close read' t = some (xs, rest) := by
  rcases enclosed_eq_some.mp h with done | ⟨opened, inner⟩
  · exact enclosed_eq_some.mpr (.inl done)
  · exact enclosed_eq_some.mpr (.inr ⟨opened, same inner⟩)

theorem more_congr {α : Type*} {close : Char}
    {read read' : List Char → Option (List α × List Char)} {t rest : List Char} {x : α}
    {xs : List α} (h : more close read x t = some (xs, rest))
    (same : ∀ u ys, u.length < t.length → read u = some (ys, rest) → read' u = some (ys, rest)) :
    more close read' x t = some (xs, rest) := by
  rcases more_eq_some.mp h with done | ⟨opened, u, ys, comma, inner, rfl⟩
  · exact more_eq_some.mpr (.inl done)
  · exact more_eq_some.mpr
      (.inr ⟨opened, u, ys, comma, same u ys (token_shorter comma) inner, rfl⟩)

/-- What some fuel finds, every fuel finds that is large enough for the text. -/
structure FuelEnough (n : Nat) : Prop where
  value : ∀ {t v rest m}, value n t = some (v, rest) → 2 * t.length < m →
    value m t = some (v, rest)
  members : ∀ {t ms rest m}, members n t = some (ms, rest) → 2 * t.length < m →
    members m t = some (ms, rest)
  items : ∀ {t vs rest m}, items n t = some (vs, rest) → 2 * t.length + 1 < m →
    items m t = some (vs, rest)

theorem FuelEnough.value_succ {n m : Nat} (fuel : FuelEnough n) {t rest : List Char} {v : Value}
    (h : Json.value (n + 1) t = some (v, rest)) (enough : 2 * t.length < m) :
    Json.value m t = some (v, rest) := by
  obtain ⟨m, rfl⟩ := Nat.exists_eq_add_one_of_ne_zero (Nat.ne_zero_of_lt enough)
  rcases value_eq_some.mp h with string | ⟨u, ms, brace, read, rfl⟩ |
    ⟨u, vs, bracket, read, rfl⟩ | scalar
  · exact value_eq_some.mpr (.inl string)
  · have shorter := length_of_skip brace
    have read := enclosed_congr read fun inner => fuel.members inner (m := m) (by omega)
    exact value_eq_some.mpr (.inr (.inl ⟨u, ms, brace, read, rfl⟩))
  · have shorter := length_of_skip bracket
    have read := enclosed_congr read fun inner => fuel.items inner (m := m) (by omega)
    exact value_eq_some.mpr (.inr (.inr (.inl ⟨u, vs, bracket, read, rfl⟩)))
  · exact value_eq_some.mpr (.inr (.inr (.inr scalar)))

theorem FuelEnough.members_succ {n m : Nat} (fuel : FuelEnough n) {t rest : List Char}
    {ms : List (List Char × Value)} (h : Json.members (n + 1) t = some (ms, rest))
    (enough : 2 * t.length < m) : Json.members m t = some (ms, rest) := by
  obtain ⟨m, rfl⟩ := Nat.exists_eq_add_one_of_ne_zero (Nat.ne_zero_of_lt enough)
  obtain ⟨name, t₁, v, t₂, named, read, after⟩ := members_eq_some.mp h
  have shorter := memberName_eq_some named
  have inner := (widths n).value read
  have after := more_congr after fun u ys le inner => fuel.members inner (m := m) (by omega)
  exact members_eq_some.mpr ⟨name, t₁, v, t₂, named, fuel.value read (by omega), after⟩

theorem FuelEnough.items_succ {n m : Nat} (fuel : FuelEnough n) {t rest : List Char}
    {vs : List Value} (h : Json.items (n + 1) t = some (vs, rest))
    (enough : 2 * t.length + 1 < m) : Json.items m t = some (vs, rest) := by
  obtain ⟨m, rfl⟩ := Nat.exists_eq_add_one_of_ne_zero (Nat.ne_zero_of_lt enough)
  obtain ⟨v, t₁, read, after⟩ := items_eq_some.mp h
  -- the first item starts where the items start: this step has fuel of its own
  have inner := (widths n).value read
  have after := more_congr after fun u ys le inner => fuel.items inner (m := m) (by omega)
  exact items_eq_some.mpr ⟨v, t₁, fuel.value read (by omega), after⟩

theorem fuel_enough (n : Nat) : FuelEnough n := by
  induction n with
  | zero =>
      constructor
      · intro t v rest m h
        cases h
      · intro t ms rest m h
        cases h
      · intro t vs rest m h
        cases h
  | succ n ih => exact ⟨ih.value_succ, ih.members_succ, ih.items_succ⟩

/-- Whatever the fuel, a value that is found and followed by nothing is the value of
the text. -/
theorem parse_of_value {n : Nat} {t rest : List Char} {v : Value}
    (read : value n t = some (v, rest)) (last : skip rest = []) : parse t = some v := by
  have read := (fuel_enough n).value read (Nat.lt_succ_self (2 * t.length))
  rw [parse, read, Option.bind_some, if_pos last]

theorem parse_eq_some {t : List Char} {v : Value} (h : parse t = some v) :
    ∃ rest, value (2 * t.length + 1) t = some (v, rest) := by
  obtain ⟨⟨v, rest⟩, read, same⟩ := Option.bind_eq_some_iff.mp h
  obtain ⟨-, same⟩ := Option.ite_none_right_eq_some.mp same
  cases same
  exact ⟨rest, read⟩

end CppLab.Json
