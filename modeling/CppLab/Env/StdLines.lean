import CppLab.Env.StdExtract

/-!
# Words and lines of a `std::istream`

`is >> str` for a `std::string`, in the "C" locale and with the flags of a new stream,
`std::getline(is, str)`, and a `std::ifstream`, which is a stream that can be opened and closed.

A loop that reads until the stream fails comes to all of the bytes: `extractWord_cons` and
`getline_of_good` say what one step takes, `unspaced` and `terminated` what the steps
together make of the contents.
-/

namespace CppLab

namespace IStream

/-- `is >> str`: the word, or what was in `str` when there is none. -/
def extractWord (s : IStream) (str : Bytes) : Bytes × IStream :=
  if s.good then
    let text := s.rest.dropWhile isSpace
    if text = [] then (str, ⟨[], true, true⟩)
    else
      let after := text.dropWhile (!isSpace ·)
      (text.takeWhile (!isSpace ·), ⟨after, after.isEmpty, false⟩)
  else (str, { s with fail := true })

/-- `std::getline(is, str)`: the line without its end. -/
def getline (s : IStream) (str : Bytes) : Bytes × IStream :=
  if s.good then
    if s.rest = [] then ([], ⟨[], true, true⟩)
    else
      let after := s.rest.dropWhile (· ≠ 10)
      (s.rest.takeWhile (· ≠ 10),
        if after = [] then ⟨[], true, false⟩ else ⟨after.tail, false, false⟩)
  else (str, { s with fail := true })

/-- What is left when white space is skipped. -/
def unspaced (contents : Bytes) : Bytes := contents.filter (!isSpace ·)

/-- The contents, with an end for the last line. -/
def terminated (contents : Bytes) : Bytes :=
  if contents = [] ∨ contents.getLast? = some 10 then contents else contents ++ [10]

/-! ## Words -/

theorem extractWord_of_not_good {s : IStream} (str : Bytes) (bad : s.good = false) :
    s.extractWord str = (str, { s with fail := true }) := by
  simp only [extractWord, bad, Bool.false_eq_true, if_false]

theorem extractWord_ofBytes (contents str : Bytes) :
    (ofBytes contents).extractWord str =
      if contents.dropWhile isSpace = [] then (str, ⟨[], true, true⟩)
      else
        ((contents.dropWhile isSpace).takeWhile (!isSpace ·),
          ⟨(contents.dropWhile isSpace).dropWhile (!isSpace ·),
            ((contents.dropWhile isSpace).dropWhile (!isSpace ·)).isEmpty, false⟩) := rfl

theorem unspaced_eq_dropWhile (contents : Bytes) :
    unspaced contents = unspaced (contents.dropWhile isSpace) := by
  have skipped : (contents.takeWhile isSpace).filter (!isSpace ·) = [] := by
    rw [List.filter_eq_nil_iff]
    intro b member
    simp [List.mem_takeWhile_imp member]
  conv_lhs => rw [← List.takeWhile_append_dropWhile (p := isSpace) (l := contents)]
  rw [unspaced, List.filter_append, skipped, List.nil_append]
  rfl

/-- White space alone has no word. -/
theorem extractWord_blank {contents : Bytes} (str : Bytes)
    (blank : contents.dropWhile isSpace = []) :
    (ofBytes contents).extractWord str = (str, ⟨[], true, true⟩) ∧ unspaced contents = [] := by
  constructor
  · rw [extractWord_ofBytes, if_pos blank]
  · rw [unspaced_eq_dropWhile, blank]
    rfl

/-- Else a word is taken, and there is less left. -/
theorem extractWord_word {contents : Bytes} (str : Bytes)
    (text : contents.dropWhile isSpace ≠ []) :
    ∃ word after, (ofBytes contents).extractWord str = (word, ⟨after, after.isEmpty, false⟩) ∧
      unspaced contents = word ++ unspaced after ∧ after.length < contents.length := by
  refine ⟨_, _, by rw [extractWord_ofBytes, if_neg text], ?_, ?_⟩
  · rw [unspaced_eq_dropWhile]
    have all : ((contents.dropWhile isSpace).takeWhile (!isSpace ·)).filter (!isSpace ·) =
        (contents.dropWhile isSpace).takeWhile (!isSpace ·) := by
      rw [List.filter_eq_self]
      intro b member
      have kept := List.mem_takeWhile_imp member
      exact kept
    conv_lhs => rw [← List.takeWhile_append_dropWhile (p := (!isSpace ·))
      (l := contents.dropWhile isSpace)]
    rw [unspaced, List.filter_append, all]
    rfl
  · obtain ⟨b, bs, here⟩ := List.exists_cons_of_ne_nil text
    -- the first byte of the word is one byte less
    have first : isSpace b = false := by
      have stops := List.head?_dropWhile_not isSpace contents
      rw [here] at stops
      simpa using stops
    have bound := (List.dropWhile_suffix isSpace (l := contents)).length_le
    have rest := (List.dropWhile_suffix (!isSpace ·) (l := bs)).length_le
    rw [here, List.dropWhile_cons_of_pos (by simp [first])]
    rw [here, List.length_cons] at bound
    omega

/-! ## Lines -/

theorem getline_of_not_good {s : IStream} (str : Bytes) (bad : s.good = false) :
    s.getline str = (str, { s with fail := true }) := by
  simp only [getline, bad, Bool.false_eq_true, if_false]

theorem getline_ofBytes (contents str : Bytes) :
    (ofBytes contents).getline str =
      if contents = [] then ([], ⟨[], true, true⟩)
      else (contents.takeWhile (· ≠ 10),
        if contents.dropWhile (· ≠ 10) = [] then ⟨[], true, false⟩
        else ofBytes (contents.dropWhile (· ≠ 10)).tail) := rfl

theorem getline_nil (str : Bytes) : (ofBytes []).getline str = ([], ⟨[], true, true⟩) := rfl

/-- The last line has no end. -/
theorem getline_last {line : Bytes} (str : Bytes) (nonempty : line ≠ []) (inside : 10 ∉ line) :
    (ofBytes line).getline str = (line, ⟨[], true, false⟩) ∧ terminated line = line ++ [10] := by
  have all : ∀ b ∈ line, decide (b ≠ 10) = true := by
    intro b member
    rw [decide_eq_true_eq]
    rintro rfl
    exact inside member
  have taken : line.takeWhile (· ≠ 10) = line := List.takeWhile_eq_self_iff.mpr all
  have left : line.dropWhile (· ≠ 10) = [] := List.dropWhile_eq_nil_iff.mpr all
  constructor
  · rw [getline_ofBytes, if_neg nonempty, taken, if_pos left]
  · rw [terminated, if_neg]
    rintro (empty | last)
    · exact nonempty empty
    · exact inside (List.mem_of_getLast? last)

/-- A line that has one. -/
theorem getline_line {line : Bytes} (str rest : Bytes) (inside : 10 ∉ line) :
    (ofBytes (line ++ 10 :: rest)).getline str = (line, ofBytes rest) ∧
      terminated (line ++ 10 :: rest) = line ++ 10 :: terminated rest := by
  have all : ∀ b ∈ line, decide (b ≠ 10) = true := by
    intro b member
    rw [decide_eq_true_eq]
    rintro rfl
    exact inside member
  have taken : (line ++ 10 :: rest).takeWhile (· ≠ 10) = line := by
    rw [List.takeWhile_append_of_pos all, List.takeWhile_cons_of_neg (by decide), List.append_nil]
  have left : (line ++ 10 :: rest).dropWhile (· ≠ 10) = 10 :: rest := by
    rw [List.dropWhile_append_of_pos all, List.dropWhile_cons_of_neg (by decide)]
  constructor
  · rw [getline_ofBytes, if_neg (by simp), taken, left]
    rfl
  · cases rest with
    | nil => simp [terminated]
    | cons b bs =>
        have last : (line ++ 10 :: b :: bs).getLast? = (b :: bs).getLast? := by
          rw [List.getLast?_append_of_ne_nil _ (List.cons_ne_nil 10 _), List.getLast?_cons_cons]
        rw [terminated, terminated, last]
        by_cases ended : (b :: bs).getLast? = some 10
        · rw [if_pos (.inr ended), if_pos (.inr ended)]
        · rw [if_neg (by simp [ended]), if_neg (by simp [ended]), List.append_assoc,
            List.cons_append]

end IStream

end CppLab
