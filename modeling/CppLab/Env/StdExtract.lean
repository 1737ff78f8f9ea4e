import CppLab.Env.StdStream

/-!
# Formatted input from a `std::istream`

`is >> x` for an `int`, `is.clear()` and `is.ignore(max, delim)`, in the "C" locale
and with the flags of a new stream: white space is skipped, line ends included, and
numbers are decimal. A number ends where the digits end; what does not fit into an
`int` fails, and so does a sign without digits.
-/

namespace CppLab.IStream

/-- `is.clear()`. -/
def clear (s : IStream) : IStream := ⟨s.rest, false, false⟩

/-- `is.ignore(std::numeric_limits<std::streamsize>::max(), delim)`. -/
def ignore (s : IStream) (delim : UInt8) : IStream :=
  if s.good then
    match s.rest.dropWhile (· ≠ delim) with
    | [] => ⟨[], true, false⟩
    | _ :: rest => { s with rest := rest }
  else { s with fail := true }

/-- `std::isspace`. -/
def isSpace (b : UInt8) : Bool := b = 32 || (9 ≤ b && b ≤ 13)

/-- `std::isdigit`. -/
def isDigit (b : UInt8) : Bool := 48 ≤ b && b ≤ 57

/-- The bytes that `num_get` takes, and those after them. -/
structure Scan where
  sign : Bytes
  digits : Bytes
  after : Bytes
  deriving DecidableEq, Repr

/-- The stage of `num_get` that takes bytes: a sign, then digits. -/
def numGet : Bytes → Scan
  | [] => ⟨[], [], []⟩
  | b :: bs =>
      if b = 43 ∨ b = 45 then ⟨[b], bs.takeWhile isDigit, bs.dropWhile isDigit⟩
      else ⟨[], (b :: bs).takeWhile isDigit, (b :: bs).dropWhile isDigit⟩

/-- The value of a sign and digits. -/
def number (sign digits : Bytes) : Int :=
  let value : Nat := digits.foldl (fun n b => 10 * n + (b.toNat - 48)) 0
  if sign = [45] then -value else value

/-- The last stage of `num_get`: what is stored, and whether it fails. -/
def Scan.store (scan : Scan) : Int × Bool :=
  let value := number scan.sign scan.digits
  if scan.digits = [] then (0, true)
  else if 2 ^ 31 - 1 < value then (2 ^ 31 - 1, true)
  else if value < -2 ^ 31 then (-2 ^ 31, true)
  else (value, false)

/-- `is >> x` on an `int`: `x`, and the stream. -/
def extractInt (s : IStream) (x : Int) : Int × IStream :=
  if s.good then
    match s.rest.dropWhile isSpace with
    | [] => (x, ⟨[], true, true⟩)
    | b :: bs =>
        let scan := numGet (b :: bs)
        (scan.store.1, ⟨scan.after, scan.after.isEmpty, scan.store.2⟩)
  else (x, { s with fail := true })

/-- A value that is stored without a failure. -/
theorem Scan.store_spec (scan : Scan) : (scan.store.2 = false ↔
      scan.digits ≠ [] ∧ -2 ^ 31 ≤ number scan.sign scan.digits ∧
        number scan.sign scan.digits ≤ 2 ^ 31 - 1) ∧
    (scan.store.2 = false → scan.store.1 = number scan.sign scan.digits) := by
  unfold Scan.store
  generalize number scan.sign scan.digits = value
  by_cases empty : scan.digits = []
  · simp [empty]
  · simp only [ne_eq, empty, not_false_eq_true, true_and]
    by_cases large : 2 ^ 31 - 1 < value
    · rw [if_pos large]
      exact ⟨⟨nofun, fun range => absurd range.2 (not_le.mpr large)⟩, nofun⟩
    · rw [if_neg large]
      by_cases small : value < -2 ^ 31
      · rw [if_pos small]
        exact ⟨⟨nofun, fun range => absurd range.1 (not_le.mpr small)⟩, nofun⟩
      · rw [if_neg small]
        exact ⟨iff_of_true rfl ⟨not_lt.mp small, not_lt.mp large⟩, fun _ => rfl⟩

/-! ## Scanning up to the end of a line -/

/-- Nothing, or a line end and what follows it. -/
def LineEnd (after : Bytes) : Prop := after = [] ∨ ∃ rest, after = 10 :: rest

theorem takeWhile_append_lineEnd {p : UInt8 → Bool} (newline : p 10 = false) (line : Bytes)
    {after : Bytes} (ends : LineEnd after) :
    (line ++ after).takeWhile p = line.takeWhile p ∧
      (line ++ after).dropWhile p = line.dropWhile p ++ after := by
  have stop : after.takeWhile p = [] ∧ after.dropWhile p = after := by
    rcases ends with rfl | ⟨rest, rfl⟩
    · exact ⟨rfl, rfl⟩
    · rw [List.takeWhile_cons_of_neg (by simp [newline]),
        List.dropWhile_cons_of_neg (by simp [newline])]
      exact ⟨rfl, rfl⟩
  constructor
  · rw [List.takeWhile_append, stop.1, List.append_nil]
    split
    · rename_i whole
      exact ((List.takeWhile_prefix p).eq_of_length whole).symm
    · rfl
  · rw [List.dropWhile_append, stop.2]
    split
    · rename_i empty
      rw [List.isEmpty_iff.mp empty, List.nil_append]
    · rfl

/-- A number is taken from one line. -/
theorem numGet_append (b : UInt8) (bs : Bytes) {after : Bytes} (ends : LineEnd after) :
    numGet (b :: bs ++ after) =
      { numGet (b :: bs) with after := (numGet (b :: bs)).after ++ after } := by
  have digits : ∀ line, _ := fun line =>
    takeWhile_append_lineEnd (p := isDigit) (by decide) line ends
  simp only [List.cons_append, numGet]
  split
  · rw [(digits bs).1, (digits bs).2]
  · rw [← List.cons_append, (digits (b :: bs)).1, (digits (b :: bs)).2]

/-- What `num_get` takes: the bytes in front, as many digits as there are. -/
theorem numGet_spec (text : Bytes) :
    text = (numGet text).sign ++ ((numGet text).digits ++ (numGet text).after) ∧
      (numGet text).sign ∈ [[], [43], [45]] ∧ (∀ b ∈ (numGet text).digits, isDigit b = true) ∧
      ∀ b, (numGet text).after.head? = some b → isDigit b = false := by
  have last : ∀ (bs : Bytes) b, (bs.dropWhile isDigit).head? = some b → isDigit b = false := by
    intro bs b head
    have stops := List.head?_dropWhile_not isDigit bs
    rw [head] at stops
    simpa using stops
  cases text with
  | nil => simp [numGet]
  | cons b bs =>
      rw [numGet]
      split
      · rename_i sign
        refine ⟨?_, ?_, fun c => List.mem_takeWhile_imp, last bs⟩
        · rw [List.takeWhile_append_dropWhile]
          rfl
        · rcases sign with rfl | rfl
          · simp
          · simp
      · refine ⟨?_, by simp, fun c => List.mem_takeWhile_imp, last (b :: bs)⟩
        rw [List.takeWhile_append_dropWhile]
        rfl

/-- Nothing else can be taken. -/
theorem numGet_eq {sign digits after : Bytes} (known : sign ∈ [[], [43], [45]])
    (nonempty : digits ≠ []) (all : ∀ b ∈ digits, isDigit b = true)
    (stop : ∀ b, after.head? = some b → isDigit b = false) :
    numGet (sign ++ (digits ++ after)) = ⟨sign, digits, after⟩ := by
  have parts : (digits ++ after).takeWhile isDigit = digits ∧
      (digits ++ after).dropWhile isDigit = after := by
    rw [List.takeWhile_append_of_pos all, List.dropWhile_append_of_pos all]
    cases after with
    | nil => simp
    | cons b bs =>
        have neg := stop b rfl
        rw [List.takeWhile_cons_of_neg (by simp [neg]), List.dropWhile_cons_of_neg (by simp [neg])]
        simp
  simp only [List.mem_cons, List.not_mem_nil, or_false] at known
  rcases known with rfl | rfl | rfl
  · obtain ⟨d, ds, rfl⟩ := List.exists_cons_of_ne_nil nonempty
    have digit := all d List.mem_cons_self
    have noSign : ¬ (d = 43 ∨ d = 45) := by
      rintro (rfl | rfl)
      · exact absurd digit (by decide)
      · exact absurd digit (by decide)
    rw [List.nil_append, List.cons_append, numGet, if_neg noSign, ← List.cons_append, parts.1,
      parts.2]
  · rw [List.singleton_append, numGet, if_pos (.inl rfl), parts.1, parts.2]
  · rw [List.singleton_append, numGet, if_pos (.inr rfl), parts.1, parts.2]

end CppLab.IStream
