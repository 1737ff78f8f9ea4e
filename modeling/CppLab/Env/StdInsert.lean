import CppLab.Env.StdExtract

/-!
# Formatted output of an `int`, and reading it back

`os << x` with the flags of a new stream writes a number in decimal. `Number` is what
`is >> x` looks for: `extractInt_of_number` and `extractInt_none` say what it makes of any
input, and `number_insertInt` that what has been written is a number.
-/

namespace CppLab.IStream

/-- What a function writes: a line of the logger, or bytes into its stream. -/
inductive Write where
  | LOG (msg : Bytes)
  | put (text : Bytes)
  deriving DecidableEq, Repr

/-- What `os << x` writes. -/
def insertInt (x : Int) : Bytes := ascii (toString x)

/-- The value of the digits of a number. -/
theorem foldl_ascii (cs : List Char) (init : Nat) (digits : ∀ c ∈ cs, c.isDigit = true) :
    (cs.map fun c => c.toNat.toUInt8).foldl (fun n b => 10 * n + (b.toNat - 48)) init =
      Nat.ofDigitChars 10 cs init := by
  induction cs generalizing init with
  | nil => rfl
  | cons c cs ih =>
      have small : c.toNat < 256 := by
        have digit := digits c List.mem_cons_self
        simp only [Char.isDigit, Bool.and_eq_true, decide_eq_true_eq,
          UInt32.le_iff_toNat_le] at digit
        have high : c.toNat ≤ 57 := digit.2
        omega
      have byte : c.toNat.toUInt8.toNat = c.toNat := by
        rw [Nat.toUInt8_eq, UInt8.toNat_ofNat', Nat.mod_eq_of_lt small]
      rw [List.map_cons, List.foldl_cons, byte, Nat.ofDigitChars_cons]
      exact ih _ fun d member => digits d (List.mem_cons_of_mem c member)

/-- The bytes of a natural number. -/
theorem digits_spec (n : Nat) :
    ascii (toString n) ≠ [] ∧ (∀ b ∈ ascii (toString n), isDigit b = true) ∧
      (ascii (toString n)).foldl (fun n b => 10 * n + (b.toNat - 48)) 0 = n := by
  have digits : ∀ c ∈ Nat.toDigits 10 n, c.isDigit = true := fun c member =>
    Nat.isDigit_of_mem_toDigits (by decide) (by decide) member
  rw [ascii, Nat.toString_eq_repr, Nat.toList_repr]
  refine ⟨?_, ?_, ?_⟩
  · rw [ne_eq, List.map_eq_nil_iff]
    exact Nat.toDigits_ne_nil
  · intro b member
    obtain ⟨c, digit, rfl⟩ := List.mem_map.mp member
    have digit := digits c digit
    simp only [Char.isDigit, Bool.and_eq_true, decide_eq_true_eq, UInt32.le_iff_toNat_le] at digit
    have low : 48 ≤ c.toNat := digit.1
    have high : c.toNat ≤ 57 := digit.2
    simp only [isDigit, Bool.and_eq_true, decide_eq_true_eq, UInt8.le_iff_toNat_le]
    rw [Nat.toUInt8_eq, UInt8.toNat_ofNat', Nat.mod_eq_of_lt (by omega)]
    exact ⟨low, high⟩
  · rw [foldl_ascii _ _ digits, Nat.ofDigitChars_ten_toDigits]

/-- A sign and digits that stand for the number. -/
theorem insertInt_spec (x : Int) : ∃ sign digits, insertInt x = sign ++ digits ∧
    sign ∈ ([[], [45]] : List Bytes) ∧ digits ≠ [] ∧ (∀ b ∈ digits, isDigit b = true) ∧
    number sign digits = x := by
  rw [insertInt, Int.toString_eq_repr, Int.repr_eq_if]
  split
  · rename_i nonneg
    obtain ⟨nonempty, all, value⟩ := digits_spec x.toNat
    refine ⟨[], _, rfl, by simp, nonempty, all, ?_⟩
    rw [number, if_neg (by simp)]
    exact (congrArg Int.ofNat value).trans (Int.toNat_of_nonneg nonneg)
  · rename_i neg
    obtain ⟨nonempty, all, value⟩ := digits_spec (-x).toNat
    refine ⟨[45], ascii (toString (-x).toNat), ?_, by simp, nonempty, all, ?_⟩
    · rw [ascii, String.toList_append, List.map_append]
      rfl
    · rw [number, if_pos rfl, value, Int.toNat_of_nonneg (by omega), Int.neg_neg]

/-- The input begins, after white space, with a number, and `after` comes next. -/
structure Number (input : Bytes) (x : Int) (after : Bytes) : Prop where
  parts : ∃ blank sign digits, input = blank ++ (sign ++ (digits ++ after)) ∧
    (∀ b ∈ blank, isSpace b = true) ∧ sign ∈ ([[], [43], [45]] : List Bytes) ∧ digits ≠ [] ∧
    (∀ b ∈ digits, isDigit b = true) ∧ number sign digits = x
  stop : ∀ b, after.head? = some b → isDigit b = false

/-- What has been written, after white space and before anything that is not a digit. -/
theorem number_insertInt (x : Int) {blank after : Bytes} (white : ∀ b ∈ blank, isSpace b = true)
    (stop : ∀ b, after.head? = some b → isDigit b = false) :
    Number (blank ++ insertInt x ++ after) x after := by
  obtain ⟨sign, digits, written, known, nonempty, all, value⟩ := insertInt_spec x
  refine ⟨⟨blank, sign, digits, ?_, white, ?_, nonempty, all, value⟩, stop⟩
  · rw [written, List.append_assoc, List.append_assoc]
  · simp only [List.mem_cons, List.not_mem_nil, or_false] at known ⊢
    rcases known with rfl | rfl
    · exact .inl rfl
    · exact .inr (.inr rfl)

/-- No digit, and no sign, is white space. -/
theorem not_space {b : UInt8} (front : isDigit b = true ∨ b = 43 ∨ b = 45) :
    isSpace b = false := by
  have range : (48 ≤ b.toNat ∧ b.toNat ≤ 57) ∨ b.toNat = 43 ∨ b.toNat = 45 := by
    rcases front with digit | rfl | rfl
    · simp only [isDigit, Bool.and_eq_true, decide_eq_true_eq, UInt8.le_iff_toNat_le] at digit
      exact .inl digit
    · exact .inr (.inl rfl)
    · exact .inr (.inr rfl)
  have other : b ≠ 32 := by
    rintro rfl
    have value : (32 : UInt8).toNat = 32 := rfl
    omega
  simp only [isSpace, other, decide_false, Bool.false_or, Bool.and_eq_false_iff,
    decide_eq_false_iff_not, UInt8.le_iff_toNat_le]
  right
  have top : (13 : UInt8).toNat = 13 := rfl
  omega

theorem extractInt_ofBytes (input : Bytes) (y : Int) :
    (ofBytes input).extractInt y =
      if input.dropWhile isSpace = [] then (y, ⟨[], true, true⟩)
      else
        ((numGet (input.dropWhile isSpace)).store.1, ⟨(numGet (input.dropWhile isSpace)).after,
          (numGet (input.dropWhile isSpace)).after.isEmpty,
          (numGet (input.dropWhile isSpace)).store.2⟩) := by
  unfold extractInt
  rw [good_ofBytes, if_pos rfl, ofBytes]
  cases input.dropWhile isSpace with
  | nil => rfl
  | cons b bs => rfl

/-- The white space is skipped and the number is scanned. -/
theorem Number.scan {input after : Bytes} {x : Int} (found : Number input x after) :
    ∃ sign digits, input.dropWhile isSpace ≠ [] ∧
      numGet (input.dropWhile isSpace) = ⟨sign, digits, after⟩ ∧ digits ≠ [] ∧
      number sign digits = x := by
  obtain ⟨⟨blank, sign, digits, rfl, white, known, nonempty, all, value⟩, stop⟩ := found
  have front : (sign ++ (digits ++ after)).dropWhile isSpace = sign ++ (digits ++ after) ∧
      sign ++ (digits ++ after) ≠ [] := by
    obtain ⟨d, ds, rfl⟩ := List.exists_cons_of_ne_nil nonempty
    have digit := all d List.mem_cons_self
    simp only [List.mem_cons, List.not_mem_nil, or_false] at known
    rcases known with rfl | rfl | rfl
    · exact ⟨List.dropWhile_cons_of_neg (by simp [not_space (.inl digit)]), by simp⟩
    · exact ⟨List.dropWhile_cons_of_neg (by simp [not_space (.inr (.inl rfl))]), by simp⟩
    · exact ⟨List.dropWhile_cons_of_neg (by simp [not_space (.inr (.inr rfl))]), by simp⟩
  refine ⟨sign, digits, ?_, ?_, nonempty, value⟩
  · rw [List.dropWhile_append_of_pos white, front.1]
    exact front.2
  · rw [List.dropWhile_append_of_pos white, front.1]
    exact numGet_eq known nonempty all stop

/-- A number that is an `int` is read; one that is not is a failure, and is taken as well. -/
theorem extractInt_of_number {input after : Bytes} {x : Int} (found : Number input x after)
    (y : Int) :
    ((ofBytes input).extractInt y).2 = ⟨after, after.isEmpty,
        decide (¬ (-2 ^ 31 ≤ x ∧ x ≤ 2 ^ 31 - 1))⟩ ∧
      (-2 ^ 31 ≤ x ∧ x ≤ 2 ^ 31 - 1 → ((ofBytes input).extractInt y).1 = x) := by
  obtain ⟨sign, digits, text, scanned, nonempty, value⟩ := found.scan
  obtain ⟨stores, stored⟩ := Scan.store_spec ⟨sign, digits, after⟩
  rw [extractInt_ofBytes, if_neg text, scanned]
  by_cases range : -2 ^ 31 ≤ x ∧ x ≤ 2 ^ 31 - 1
  · have good : (Scan.store ⟨sign, digits, after⟩).2 = false := by
      rw [stores]
      refine ⟨nonempty, ?_⟩
      rw [value]
      exact range
    refine ⟨?_, fun _ => ?_⟩
    · rw [good]
      simp only [range, and_self, not_true_eq_false, decide_false]
    · exact (stored good).trans value
  · have bad : (Scan.store ⟨sign, digits, after⟩).2 = true := by
      rw [← Bool.not_eq_false, stores]
      rintro ⟨-, inside⟩
      rw [value] at inside
      exact range inside
    refine ⟨?_, fun inside => absurd inside range⟩
    rw [bad]
    simp only [range, not_false_eq_true, decide_true]

/-- Without a number there is a failure. -/
theorem extractInt_none {input : Bytes} (none : ∀ x after, ¬ Number input x after) (y : Int) :
    ((ofBytes input).extractInt y).2.fail = true := by
  rw [extractInt_ofBytes]
  split
  · rfl
  · rename_i text
    obtain ⟨parts, known, all, stop⟩ := numGet_spec (input.dropWhile isSpace)
    by_contra stored
    rw [Bool.not_eq_true] at stored
    obtain ⟨nonempty, -⟩ := (Scan.store_spec _).1.mp stored
    refine none _ _ ⟨⟨input.takeWhile isSpace, _, _, ?_, ?_, known, nonempty, all, rfl⟩, stop⟩
    · rw [← parts, List.takeWhile_append_dropWhile]
    · exact fun b => List.mem_takeWhile_imp

end CppLab.IStream
