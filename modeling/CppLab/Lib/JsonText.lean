import CppLab.Lib.Json
import CppLab.Lib.Utf8

/-!
# Writing JSON by hand

What the parser does on objects that a program prints without an encoder, with
strings put between quotes as they are and integers in decimal.

`plain_of_members` is the quoting law: what is written as it is between the quotes of
the last string of an object is the value of a member only if none of its characters
had to be escaped.
-/

namespace CppLab.Json

/-- The value that bytes stand for. -/
def decode (bytes : List UInt8) : Option Value := (Utf8.decode bytes).bind parse

/-! ## Texts of objects -/

theorem value_space (n : Nat) (t : List Char) : value n (' ' :: t) = value n t := by
  cases n with
  | zero => rfl
  | succ n => rw [value, value, skip_space]

theorem members_space (n : Nat) (t : List Char) : members n (' ' :: t) = members n t := by
  cases n with
  | zero => rfl
  | succ n => rw [members, members, memberName, memberName, token_space]

theorem memberName_append {name : List Char} (clean : ∀ c ∈ name, plain c = true)
    (t : List Char) : memberName ('"' :: (name ++ '"' :: ':' :: t)) = some (name, t) := by
  rw [memberName, token_cons (by decide)]
  show (string (name ++ '"' :: ':' :: t)).bind _ = _
  rw [string_append clean]
  rw [Option.bind_some]
  dsimp only
  rw [token_cons (by decide)]
  rfl

theorem value_quote (n : Nat) (t : List Char) :
    value (n + 1) ('"' :: t) = (string t).map fun r => (.string r.1, r.2) := by
  rw [value, skip_cons (by decide), if_pos (List.head?_cons ..), List.tail_cons]

theorem value_brace (n : Nat) {t : List Char} (opened : token '}' t = none) :
    value (n + 1) ('{' :: t) = (members n t).map fun r => (.object r.1, r.2) := by
  rw [value, skip_cons (by decide), if_neg (by simp), if_pos (List.head?_cons ..), List.tail_cons,
    enclosed, if_pos opened]

/-- A member whose value is known. -/
theorem members_member {n : Nat} {name t u : List Char} {v : Value}
    (clean : ∀ c ∈ name, plain c = true) (read : value n t = some (v, u)) :
    members (n + 1) ('"' :: (name ++ '"' :: ':' :: ' ' :: t)) =
      more '}' (members n) (name, v) u := by
  rw [members, memberName_append clean, Option.bind_some, value_space, read, Option.bind_some]

theorem more_comma {α : Type*} {close : Char} {read : List Char → Option (List α × List Char)}
    {x : α} (t : List Char) (other : ',' ≠ close) :
    more close read x (',' :: t) = (read t).map fun r => (x :: r.1, r.2) := by
  rw [more, if_pos (token_other (by decide) other t), token_cons (by decide), Option.bind_some]

theorem more_brace {α : Type*} {read : List Char → Option (List α × List Char)} {x : α} :
    more '}' read x [' ', '}'] = some ([x], []) := by
  rfl

/-- What stands before the last quote is no shorter than what stands before another. -/
theorem length_le_of_last {text tail raw rest : List Char} (last : '"' ∉ tail)
    (split : text ++ '"' :: tail = raw ++ '"' :: rest) : raw.length ≤ text.length := by
  rcases List.append_eq_append_iff.mp split with ⟨r, rfl, after⟩ | ⟨r, rfl, -⟩
  · cases r with
    | nil => rw [List.append_nil]
    | cons c r =>
        injection after with _ after
        rw [after] at last
        exact absurd (List.mem_append_right r List.mem_cons_self) last
  · rw [List.length_append]
    exact Nat.le_add_right _ _

/-- **Quoting law.** A text that is written as it is between the quotes of the last
string of an object, and that is then the value of a member of it, has no character
that had to be escaped. -/
theorem plain_of_members {n : Nat} {name text rest k : List Char} {ms : List (List Char × Value)}
    (clean : ∀ c ∈ name, plain c = true)
    (read : members n ('"' :: (name ++ '"' :: ':' :: ' ' :: '"' :: (text ++ ['"', ' ', '}']))) =
      some (ms, rest))
    (member : (k, .string text) ∈ ms) : ∀ c ∈ text, plain c = true := by
  cases n with
  | zero => cases read
  | succ n =>
      obtain ⟨name', t₁, v, t₂, named, found, after⟩ := members_eq_some.mp read
      rw [memberName_append clean] at named
      cases named
      cases n with
      | zero => cases found
      | succ n =>
          rw [value_space, value_quote] at found
          obtain ⟨⟨s, t₂⟩, inner, same⟩ := Option.map_eq_some_iff.mp found
          cases same
          obtain ⟨raw, split, short, tight⟩ := string_eq_some inner
          -- the string that is read ends at the last quote or before it
          have le : raw.length ≤ text.length := length_le_of_last (by decide) split
          have size := congrArg List.length split
          simp only [List.length_append, List.length_cons, List.length_nil] at size
          have first : (k, Value.string text) = (name, .string s) →
              ∀ c ∈ text, plain c = true := by
            intro same
            cases same
            exact (tight le).2
          rcases more_eq_some.mp after with ⟨-, rfl⟩ | ⟨-, t₃, others, comma, further, rfl⟩
          · exact first (List.mem_singleton.mp member)
          · rcases List.mem_cons.mp member with same | member
            · exact first same
            · -- a member further on is too short
              have shorter := token_shorter comma
              have width := ((widths (n + 1)).members further).2 k _ member
              change k.length + (text.length + 2) + 4 + rest.length ≤ t₃.length at width
              change t₃.length < t₂.length at shorter
              omega

/-! ## Integers in decimal -/

theorem digits_append {ds : List Char} (nonempty : ds ≠ []) (all : ∀ c ∈ ds, c.isDigit = true)
    {u : List Char} (stop : ∀ c ∈ u.head?, c.isDigit = false) :
    digits (ds ++ u) = some (ds, u) := by
  have nothing : u.takeWhile Char.isDigit = [] ∧ u.dropWhile Char.isDigit = u := by
    cases u with
    | nil => exact ⟨rfl, rfl⟩
    | cons c u =>
        have other := stop c rfl
        exact ⟨List.takeWhile_cons_of_neg (by simp [other]),
          List.dropWhile_cons_of_neg (by simp [other])⟩
  rw [digits, List.takeWhile_append_of_pos all, List.dropWhile_append_of_pos all, nothing.1,
    nothing.2, List.append_nil, if_neg nonempty]

/-- Zero alone has a zero in front. -/
theorem toDigits_head {n : Nat} (zero : (Nat.toDigits 10 n).head? = some '0') : n = 0 := by
  induction n using Nat.strongRecOn with
  | ind n ih =>
      by_cases small : n < 10
      · rw [Nat.toDigits_of_lt_base small, List.head?_cons, Option.some_inj,
          Nat.digitChar_eq_zero] at zero
        exact zero
      · have le : 10 ≤ n := Nat.le_of_not_lt small
        rw [Nat.toDigits_of_base_le (by decide) le,
          List.head?_append_of_ne_nil _ Nat.toDigits_ne_nil] at zero
        have := ih (n / 10) (Nat.div_lt_self (by omega) (by decide)) zero
        omega

/-- What may follow a number that ends with its digits. -/
def Stop (u : List Char) : Prop :=
  ∀ c ∈ u.head?, c.isDigit = false ∧ c ≠ '.' ∧ c ≠ 'e' ∧ c ≠ 'E'

theorem unsigned_toDigits (n : Nat) {u : List Char} (stop : Stop u) :
    unsigned (Nat.toDigits 10 n ++ u) = some ((n : ℚ), u) := by
  have read : digits (Nat.toDigits 10 n ++ u) = some (Nat.toDigits 10 n, u) :=
    digits_append Nat.toDigits_ne_nil
      (fun c member => Nat.isDigit_of_mem_toDigits (by decide) (by decide) member)
      (fun c member => (stop c member).1)
  have noZero : ¬ ((Nat.toDigits 10 n).head? = some '0' ∧ 1 < (Nat.toDigits 10 n).length) := by
    rintro ⟨zero, long⟩
    cases toDigits_head zero
    exact absurd long (by decide)
  have whole : integer (Nat.toDigits 10 n ++ u) = some (n, u) := by
    rw [integer, read, Option.bind_some, if_neg noZero, Nat.ofDigitChars_ten_toDigits]
  have noPart : fraction u = some (0, u) := by
    rw [fraction, if_neg]
    intro dot
    exact (stop _ dot).2.1 rfl
  have noPower : exponent u = some (0, u) := by
    rw [exponent, if_neg]
    rintro (e | e)
    · exact (stop _ e).2.2.1 rfl
    · exact (stop _ e).2.2.2 rfl
  rw [unsigned, whole]
  show (fraction u).bind _ = _
  rw [noPart]
  show (exponent u).bind _ = _
  rw [noPower]
  simp

theorem keyword_other {word t : List Char} (v : Value) (nonempty : word ≠ [])
    (other : t.head? ≠ word.head?) : keyword word v t = none := by
  rw [keyword, if_neg]
  rintro ⟨tail, rfl⟩
  exact other (List.head?_append_of_ne_nil _ nonempty)

/-- A number is told from the other values by its first character. -/
theorem value_of_number {n : Nat} {c : Char} {t u : List Char} {q : ℚ}
    (sign : c = '-' ∨ c.isDigit = true) (read : number (c :: t) = some (q, u)) :
    value (n + 1) (c :: t) = some (.number q, u) := by
  have other : ∀ d, d ≠ '-' → d.isDigit = false → c ≠ d := by
    rintro d notMinus notDigit rfl
    rcases sign with minus | digit
    · exact notMinus minus
    · rw [notDigit] at digit
      cases digit
  have dark : isSpace c = false := by
    simp only [isSpace, Bool.or_eq_false_iff, decide_eq_false_iff_not]
    exact ⟨⟨⟨other _ (by decide) rfl, other _ (by decide) rfl⟩, other _ (by decide) rfl⟩,
      other _ (by decide) rfl⟩
  have head : ∀ d, d ≠ '-' → d.isDigit = false → (c :: t).head? ≠ some d := by
    intro d notMinus notDigit same
    injection same with same
    exact other d notMinus notDigit same
  apply value_eq_some.mpr
  rw [skip_cons dark]
  refine .inr (.inr (.inr ⟨head _ (by decide) rfl, head _ (by decide) rfl,
    head _ (by decide) rfl, ?_⟩))
  rw [scalar, keyword_other _ (by simp) (head _ (by decide) rfl),
    keyword_other _ (by simp) (head _ (by decide) rfl),
    keyword_other _ (by simp) (head _ (by decide) rfl), read]
  rfl

/-- An integer in decimal is read as what it is. -/
theorem value_toString (n : Nat) (x : Int) {u : List Char} (stop : Stop u) :
    value (n + 1) ((toString x).toList ++ u) = some (.number x, u) := by
  rw [Int.toString_eq_repr, Int.repr_eq_if]
  split
  · rename_i pos
    rw [Nat.toList_repr]
    obtain ⟨c, ds, list⟩ :=
      List.exists_cons_of_ne_nil (Nat.toDigits_ne_nil (n := x.toNat) (b := 10))
    have digit : c.isDigit = true := by
      apply Nat.isDigit_of_mem_toDigits (b := 10) (n := x.toNat) (by decide) (by decide)
      rw [list]
      exact List.mem_cons_self
    have read := unsigned_toDigits x.toNat stop
    rw [list, List.cons_append] at read ⊢
    apply value_of_number (.inr digit)
    rw [number, if_neg]
    · rw [read, ← Int.cast_natCast, Int.toNat_of_nonneg pos]
    · intro minus
      injection minus with minus
      rw [minus] at digit
      cases digit
  · rename_i neg
    have read := unsigned_toDigits (-x).toNat stop
    rw [String.toList_append, Nat.toList_repr]
    show value (n + 1) ('-' :: (Nat.toDigits 10 (-x).toNat ++ u)) = _
    apply value_of_number (.inl rfl)
    rw [number, if_pos (List.head?_cons ..), List.tail_cons, read, ← Int.cast_natCast,
      Int.toNat_of_nonneg (by omega)]
    simp

theorem mem_toString {x : Int} {c : Char} (member : c ∈ (toString x).toList) :
    c = '-' ∨ c.isDigit = true := by
  rw [Int.toString_eq_repr, Int.repr_eq_if] at member
  split at member
  · rw [Nat.toList_repr] at member
    exact .inr (Nat.isDigit_of_mem_toDigits (by decide) (by decide) member)
  · rw [String.toList_append, List.mem_append, Nat.toList_repr] at member
    rcases member with minus | member
    · exact .inl (List.mem_singleton.mp minus)
    · exact .inr (Nat.isDigit_of_mem_toDigits (by decide) (by decide) member)

end CppLab.Json
