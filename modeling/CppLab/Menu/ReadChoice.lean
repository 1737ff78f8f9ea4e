import CppLab.Env.StdExtract

/-!
# `readChoice()`

The loop clears the flags of `std::cin` and drops the rest of a line whenever no
`int` can be read. At the end of the input there is nothing to drop and nothing to
read, and the loop goes on.

`FirstChoice` is what the function looks for: the first line that starts with a
number. `returns_of_startsWith` and `returns_of_later` say what the loop does with one
line, and `reads_iff` that it ends precisely on the inputs that have a choice.
-/

namespace CppLab.Menu

open IStream (LineEnd isSpace isDigit numGet number extractInt)

/-- `std::cin` and what has been printed. -/
structure Console where
  cin : IStream
  cout : Bytes
  deriving DecidableEq, Repr

/-- `readChoice()`, as far as the fuel goes: `x` is the value of the variable, at first
an indeterminate one. -/
def readChoice : Nat → Int → Console → Option (Int × Console)
  | 0, _, _ => none
  | fuel + 1, x, c =>
      let (x, cin) := c.cin.extractInt x
      if cin.fail then
        readChoice fuel x ⟨cin.clear.ignore 10, c.cout ++ ascii "Invalid input. Try again: "⟩
      else some (x, ⟨cin.ignore 10, c.cout⟩)

/-- The line starts, after white space, with a number that is an `int`. -/
def StartsWith (line : Bytes) (x : Int) : Prop :=
  ∃ blank sign digits tail, line = blank ++ (sign ++ (digits ++ tail)) ∧
    (∀ b ∈ blank, isSpace b = true) ∧ sign ∈ [[], [43], [45]] ∧ digits ≠ [] ∧
    (∀ b ∈ digits, isDigit b = true) ∧ (∀ b, tail.head? = some b → isDigit b = false) ∧
    x = number sign digits ∧ -2 ^ 31 ≤ x ∧ x ≤ 2 ^ 31 - 1

/-- `x` is what the first line of `input` that starts with an `int` starts with, and
`rest` is what comes after that line. -/
inductive FirstChoice : Bytes → Int → Bytes → Prop
  | last {line : Bytes} {x : Int} (inside : 10 ∉ line) (starts : StartsWith line x) :
      FirstChoice line x []
  | here {line rest : Bytes} {x : Int} (inside : 10 ∉ line) (starts : StartsWith line x) :
      FirstChoice (line ++ 10 :: rest) x rest
  | later {line input rest : Bytes} {x : Int} (inside : 10 ∉ line) (none : ∀ y, ¬ StartsWith line y)
      (first : FirstChoice input x rest) : FirstChoice (line ++ 10 :: input) x rest

/-- The loop ends, and this is what it ends with. -/
def Returns (x : Int) (c : Console) (result : Int × Console) : Prop :=
  ∃ fuel, readChoice fuel x c = some result

/-- Reading ends, and it ends with the first choice of the input if there is one. -/
def Reads (garbage : Int) (input cout : Bytes) : Prop :=
  (∃ result, Returns garbage ⟨.ofBytes input, cout⟩ result) ∧
  ∀ x rest, FirstChoice input x rest →
    ∃ c, Returns garbage ⟨.ofBytes input, cout⟩ (x, c) ∧ c.cin.rest = rest

/-! ## The end of the input -/

/-- Nothing is left, whatever the flags are. -/
theorem readChoice_exhausted (fuel : Nat) (x : Int) (c : Console) (empty : c.cin.rest = []) :
    readChoice fuel x c = none := by
  induction fuel generalizing x c with
  | zero => rfl
  | succ fuel ih =>
      have fails : (c.cin.extractInt x).2.fail = true ∧ (c.cin.extractInt x).2.rest = [] := by
        unfold extractInt
        split
        · rw [empty]
          exact ⟨rfl, rfl⟩
        · exact ⟨rfl, empty⟩
      unfold readChoice
      simp only [fails.1, if_true]
      refine ih _ _ ?_
      simp only [IStream.clear, fails.2]
      rfl

/-! ## One line -/

/-- What is left of a line is dropped with its line end. -/
theorem ignore_ofBytes {line : Bytes} (inside : 10 ∉ line) (after : Bytes) :
    (IStream.ofBytes (line ++ after)).ignore 10 = (IStream.ofBytes after).ignore 10 := by
  have skip : (line ++ after).dropWhile (· ≠ 10) = after.dropWhile (· ≠ 10) := by
    refine List.dropWhile_append_of_pos fun b member => ?_
    have other : b ≠ 10 := fun same => inside (same ▸ member)
    simpa using other
  simp only [IStream.ignore, IStream.ofBytes, IStream.good, Bool.not_false, Bool.and_self, if_true,
    skip]

theorem rest_ignore_ofBytes {after : Bytes} (ends : LineEnd after) :
    ((IStream.ofBytes after).ignore 10).rest = after.tail := by
  rcases ends with rfl | ⟨rest, rfl⟩
  · rfl
  · rfl

/-- The number in front of a line, once its white space is skipped. -/
theorem startsWith_iff {line : Bytes} {x : Int} : StartsWith line x ↔
    (numGet (line.dropWhile isSpace)).digits ≠ [] ∧
      x = number (numGet (line.dropWhile isSpace)).sign (numGet (line.dropWhile isSpace)).digits ∧
      -2 ^ 31 ≤ x ∧ x ≤ 2 ^ 31 - 1 := by
  constructor
  · rintro ⟨blank, sign, digits, tail, rfl, blanks, known, nonempty, all, stop, value, lower, upper⟩
    have first : (sign ++ (digits ++ tail)).dropWhile isSpace = sign ++ (digits ++ tail) := by
      simp only [List.mem_cons, List.not_mem_nil, or_false] at known
      rcases known with rfl | rfl | rfl
      · obtain ⟨d, ds, rfl⟩ := List.exists_cons_of_ne_nil nonempty
        have digit := all d List.mem_cons_self
        refine List.dropWhile_cons_of_neg ?_
        unfold isDigit at digit
        unfold isSpace
        simp only [Bool.and_eq_true, decide_eq_true_eq, UInt8.le_iff_toNat_le] at digit
        simp only [Bool.or_eq_true, Bool.and_eq_true, decide_eq_true_eq, UInt8.le_iff_toNat_le,
          ← UInt8.toNat_inj]
        have low : (48 : UInt8).toNat = 48 := rfl
        have high : (13 : UInt8).toNat = 13 := rfl
        have blank : (32 : UInt8).toNat = 32 := rfl
        omega
      · exact List.dropWhile_cons_of_neg (by decide)
      · exact List.dropWhile_cons_of_neg (by decide)
    rw [List.dropWhile_append_of_pos blanks, first, IStream.numGet_eq known nonempty all stop]
    exact ⟨nonempty, value, lower, upper⟩
  · rintro ⟨nonempty, value, lower, upper⟩
    obtain ⟨split, known, all, stop⟩ := IStream.numGet_spec (line.dropWhile isSpace)
    refine ⟨line.takeWhile isSpace, _, _, _, ?_, fun b => List.mem_takeWhile_imp, known, nonempty,
      all, stop, value, lower, upper⟩
    rw [← split, List.takeWhile_append_dropWhile]

/-- White space is skipped, whatever the line is that it belongs to. -/
theorem extractInt_blank {line : Bytes} (blank : line.dropWhile isSpace = []) (after : Bytes)
    (x : Int) :
    (IStream.ofBytes (line ++ after)).extractInt x = (IStream.ofBytes after).extractInt x := by
  have skip : (line ++ after).dropWhile isSpace = after.dropWhile isSpace := by
    rw [List.dropWhile_append, blank]
    rfl
  simp only [extractInt, IStream.ofBytes, IStream.good, Bool.not_false, Bool.and_self, if_true, skip]

/-- A line that is not blank: the number in front of it is stored, or the extraction
fails, and what is left of the line is still there. -/
theorem extractInt_line {line after : Bytes} (ends : LineEnd after)
    (text : line.dropWhile isSpace ≠ []) (x : Int) : ∃ y tail fail,
      (IStream.ofBytes (line ++ after)).extractInt x =
        (y, ⟨tail ++ after, (tail ++ after).isEmpty, fail⟩) ∧
      (10 ∉ line → 10 ∉ tail) ∧
      (fail = false → StartsWith line y) ∧ (fail = true → ∀ z, ¬ StartsWith line z) := by
  obtain ⟨b, bs, front⟩ := List.exists_cons_of_ne_nil text
  have skip : (line ++ after).dropWhile isSpace = b :: (bs ++ after) := by
    rw [List.dropWhile_append, front]
    rfl
  have scan := IStream.numGet_append b bs ends
  obtain ⟨stores, value⟩ := (numGet (b :: bs)).store_spec
  refine ⟨(numGet (b :: bs)).store.1, (numGet (b :: bs)).after, (numGet (b :: bs)).store.2, ?_, ?_,
    fun fine => ?_, fun fails z starts => ?_⟩
  · have rest : (IStream.ofBytes (line ++ after)).rest = line ++ after := rfl
    rw [extractInt, IStream.good_ofBytes, if_pos rfl, rest, skip]
    show ((numGet (b :: bs ++ after)).store.1, _) = _
    rw [← List.cons_append, scan]
    rfl
  · intro inside newline
    have split := (IStream.numGet_spec (b :: bs)).1
    apply inside
    refine (List.dropWhile_sublist isSpace).subset ?_
    rw [front, split]
    exact List.mem_append_right _ (List.mem_append_right _ newline)
  · obtain ⟨nonempty, lower, upper⟩ := stores.mp fine
    rw [startsWith_iff, front, value fine]
    exact ⟨nonempty, rfl, lower, upper⟩
  · rw [startsWith_iff, front] at starts
    obtain ⟨nonempty, rfl, lower, upper⟩ := starts
    rw [stores.mpr ⟨nonempty, lower, upper⟩] at fails
    cases fails

/-- A line that starts with an `int`. -/
theorem returns_of_startsWith {line after : Bytes} {x : Int} (inside : 10 ∉ line)
    (ends : LineEnd after) (starts : StartsWith line x) (garbage : Int) (cout : Bytes) :
    ∃ c, Returns garbage ⟨.ofBytes (line ++ after), cout⟩ (x, c) ∧ c.cin.rest = after.tail := by
  have text : line.dropWhile isSpace ≠ [] := by
    intro blank
    have number := (startsWith_iff.mp starts).1
    rw [blank] at number
    exact number rfl
  obtain ⟨y, tail, fail, extracted, clean, right, wrong⟩ := extractInt_line ends text garbage
  have fine : fail = false := by
    cases fail with
    | false => rfl
    | true => exact absurd starts (wrong rfl x)
  subst fine
  obtain ⟨-, same, -, -⟩ := startsWith_iff.mp starts
  obtain ⟨-, same', -, -⟩ := startsWith_iff.mp (right rfl)
  rw [← same] at same'
  subst same'
  refine ⟨⟨IStream.ignore ⟨tail ++ after, (tail ++ after).isEmpty, false⟩ 10, cout⟩, ⟨1, ?_⟩, ?_⟩
  · simp only [readChoice, extracted]
    rfl
  · cases whole : (tail ++ after).isEmpty with
    | true =>
        have empty := List.isEmpty_iff.mp whole
        rw [empty, (List.append_eq_nil_iff.mp empty).2]
        rfl
    | false =>
        show (IStream.ignore (.ofBytes (tail ++ after)) 10).rest = after.tail
        rw [ignore_ofBytes (clean inside) after]
        exact rest_ignore_ofBytes ends

/-- An extraction that fails: the loop goes on after the line end. -/
theorem returns_of_fail {x : Int} {c : Console} (fails : (c.cin.extractInt x).2.fail = true)
    (result : Int × Console) : Returns x c result ↔
      Returns (c.cin.extractInt x).1 ⟨(c.cin.extractInt x).2.clear.ignore 10,
        c.cout ++ ascii "Invalid input. Try again: "⟩ result := by
  have loop : ∀ fuel, readChoice (fuel + 1) x c = readChoice fuel (c.cin.extractInt x).1
      ⟨(c.cin.extractInt x).2.clear.ignore 10, c.cout ++ ascii "Invalid input. Try again: "⟩ := by
    intro fuel
    rw [readChoice]
    simp only [fails, if_true]
  constructor
  · rintro ⟨fuel, returns⟩
    cases fuel with
    | zero => cases returns
    | succ fuel => exact ⟨fuel, loop fuel ▸ returns⟩
  · rintro ⟨fuel, returns⟩
    exact ⟨fuel + 1, (loop fuel).trans returns⟩

/-- The loop looks at the stream only through the extraction. -/
theorem returns_congr {x : Int} (c c' : Console) (cin : c.cin.extractInt x = c'.cin.extractInt x)
    (cout : c.cout = c'.cout) (result : Int × Console) :
    Returns x c result ↔ Returns x c' result := by
  have same : ∀ fuel, readChoice fuel x c = readChoice fuel x c' := by
    intro fuel
    cases fuel with
    | zero => rfl
    | succ fuel => rw [readChoice, readChoice, cin, cout]
  simp only [Returns, same]

theorem not_returns_exhausted {x : Int} {c : Console} (empty : c.cin.rest = [])
    (result : Int × Console) : ¬ Returns x c result := by
  rintro ⟨fuel, returns⟩
  rw [readChoice_exhausted fuel x c empty] at returns
  cases returns

/-- A line that does not start with an `int`, and what the loop goes on with. -/
theorem returns_of_not_startsWith {line after : Bytes} (inside : 10 ∉ line) (ends : LineEnd after)
    (none : ∀ x, ¬ StartsWith line x) (text : line.dropWhile isSpace ≠ []) (garbage : Int)
    (cout : Bytes) : ∃ x cout', ∀ result, Returns garbage ⟨.ofBytes (line ++ after), cout⟩ result ↔
      Returns x ⟨(IStream.ofBytes after).ignore 10, cout'⟩ result := by
  obtain ⟨y, tail, fail, extracted, clean, right, -⟩ := extractInt_line ends text garbage
  have fails : fail = true := by
    cases fail with
    | false => exact absurd (right rfl) (none y)
    | true => rfl
  subst fails
  have skipped : (IStream.ofBytes (tail ++ after)).ignore 10 = (IStream.ofBytes after).ignore 10 :=
    ignore_ofBytes (clean inside) after
  refine ⟨y, cout ++ ascii "Invalid input. Try again: ", fun result => ?_⟩
  rw [returns_of_fail (by rw [extracted]), extracted, ← skipped]
  rfl

/-- The last line: reading never ends. -/
theorem not_returns_last {line : Bytes} (inside : 10 ∉ line) (none : ∀ x, ¬ StartsWith line x)
    (garbage : Int) (cout : Bytes) (result : Int × Console) :
    ¬ Returns garbage ⟨.ofBytes line, cout⟩ result := by
  by_cases blank : line.dropWhile isSpace = []
  · have extracted := extractInt_blank blank [] garbage
    rw [List.append_nil] at extracted
    have fails : ((IStream.ofBytes line).extractInt garbage).2.fail = true := by
      rw [extracted]
      rfl
    rw [returns_of_fail fails]
    refine not_returns_exhausted ?_ result
    show (IStream.ignore (IStream.clear ((IStream.ofBytes line).extractInt garbage).2) 10).rest = []
    rw [extracted]
    rfl
  · have ends : LineEnd [] := .inl rfl
    obtain ⟨x, cout', goesOn⟩ := returns_of_not_startsWith inside ends none blank garbage cout
    rw [List.append_nil] at goesOn
    rw [goesOn]
    exact not_returns_exhausted rfl result

/-- A line before others: reading goes on with the next line. -/
theorem returns_of_later {line rest : Bytes} (inside : 10 ∉ line) (none : ∀ x, ¬ StartsWith line x)
    (garbage : Int) (cout : Bytes) : ∃ x cout', ∀ result,
      Returns garbage ⟨.ofBytes (line ++ 10 :: rest), cout⟩ result ↔
        Returns x ⟨.ofBytes rest, cout'⟩ result := by
  by_cases blank : line.dropWhile isSpace = []
  · -- the line end is white space too
    refine ⟨garbage, cout, fun result => ?_⟩
    have same : (IStream.ofBytes (line ++ 10 :: rest)).extractInt garbage =
        (IStream.ofBytes rest).extractInt garbage := by
      have newline : ([10] : Bytes).dropWhile isSpace = [] := rfl
      rw [extractInt_blank blank, ← List.singleton_append]
      exact extractInt_blank newline rest garbage
    exact returns_congr ⟨.ofBytes (line ++ 10 :: rest), cout⟩ ⟨.ofBytes rest, cout⟩ same rfl result
  · exact returns_of_not_startsWith inside (.inr ⟨rest, rfl⟩) none blank garbage cout

/-! ## All lines -/

/-- A choice is found. -/
theorem FirstChoice.returns {input rest : Bytes} {x : Int} (first : FirstChoice input x rest)
    (garbage : Int) (cout : Bytes) :
    ∃ c, Returns garbage ⟨.ofBytes input, cout⟩ (x, c) ∧ c.cin.rest = rest := by
  induction first generalizing garbage cout with
  | last inside starts =>
      have ends : LineEnd [] := .inl rfl
      have found := returns_of_startsWith inside ends starts garbage cout
      rwa [List.append_nil] at found
  | here inside starts => exact returns_of_startsWith inside (.inr ⟨_, rfl⟩) starts garbage cout
  | later inside none first ih =>
      obtain ⟨y, cout', goesOn⟩ := returns_of_later inside none garbage cout
      obtain ⟨c, returns, after⟩ := ih y cout'
      exact ⟨c, (goesOn _).mpr returns, after⟩

/-- The first line of the input. -/
theorem exists_line (input : Bytes) :
    ∃ line, 10 ∉ line ∧ (input = line ∨ ∃ rest, input = line ++ 10 :: rest) := by
  refine ⟨input.takeWhile (· ≠ 10), fun member => ?_, ?_⟩
  · simpa using List.mem_takeWhile_imp member
  · have split := (List.takeWhile_append_dropWhile (p := (· ≠ 10)) (l := input)).symm
    cases after : input.dropWhile (· ≠ 10) with
    | nil =>
        rw [after, List.append_nil] at split
        exact .inl split
    | cons b rest =>
        have newline := List.head?_dropWhile_not (· ≠ 10) input
        rw [after] at newline split
        have same : b = 10 := by simpa using newline
        rw [same] at split
        exact .inr ⟨rest, split⟩

/-- Nothing else makes the loop end. -/
theorem exists_firstChoice {garbage : Int} {input cout : Bytes} {result : Int × Console}
    (returns : Returns garbage ⟨.ofBytes input, cout⟩ result) :
    ∃ x rest, FirstChoice input x rest := by
  induction size : input.length using Nat.strong_induction_on generalizing input garbage cout with
  | _ bound ih =>
      obtain ⟨line, inside, whole⟩ := exists_line input
      by_cases starts : ∃ x, StartsWith line x
      · obtain ⟨x, starts⟩ := starts
        rcases whole with rfl | ⟨rest, rfl⟩
        · exact ⟨x, [], .last inside starts⟩
        · exact ⟨x, rest, .here inside starts⟩
      · have none : ∀ x, ¬ StartsWith line x := fun x here => starts ⟨x, here⟩
        rcases whole with rfl | ⟨rest, rfl⟩
        · exact absurd returns (not_returns_last inside none garbage cout result)
        · obtain ⟨y, cout', goesOn⟩ := returns_of_later inside none garbage cout
          have shorter : rest.length < bound := by
            rw [← size, List.length_append, List.length_cons]
            omega
          obtain ⟨x, after, first⟩ := ih rest.length shorter ((goesOn result).mp returns) rfl
          exact ⟨x, after, .later inside none first⟩

/-- **Reading a choice.** It ends as it should precisely when some line of the input
starts with an `int`. -/
theorem reads_iff (garbage : Int) (input cout : Bytes) :
    Reads garbage input cout ↔ ∃ x rest, FirstChoice input x rest := by
  constructor
  · rintro ⟨⟨result, returns⟩, -⟩
    exact exists_firstChoice returns
  · rintro ⟨x, rest, first⟩
    obtain ⟨c, returns, -⟩ := first.returns garbage cout
    exact ⟨⟨_, returns⟩, fun y after here => here.returns garbage cout⟩

/-- A word and the end of the input. -/
theorem not_reads_word : ¬ Reads 0 (ascii "quit") [] := by
  rintro ⟨⟨result, fuel, returns⟩, -⟩
  cases fuel with
  | zero => cases returns
  | succ fuel =>
      have stuck := readChoice_exhausted fuel 0
        ⟨⟨[], true, false⟩, ascii "Invalid input. Try again: "⟩ rfl
      have same : readChoice (fuel + 1) 0 ⟨.ofBytes (ascii "quit"), []⟩ =
          readChoice fuel 0 ⟨⟨[], true, false⟩, ascii "Invalid input. Try again: "⟩ := rfl
      rw [same, stuck] at returns
      cases returns

end CppLab.Menu
