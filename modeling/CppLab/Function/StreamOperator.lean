import CppLab.Env.StdInsert
import CppLab.Env.StdLines

/-!
# The stream operators of `Cents`

`operator<<` logs and writes the number; `operator>>` logs and reads one, and a failure
makes the object zero. `extract_of_number` and `extract_fails` are what the second
makes of any input, and `cents_round_trip` that it reads back whatever the first has written.
-/

namespace CppLab.Function.StreamOperator

open IStream (isSpace ofBytes insertInt Number Write)

structure Cents where
  cents_ : Int32
  deriving DecidableEq, Repr

def Cents.getCents (c : Cents) : Int32 := c.cents_

/-- `operator<<`; the bytes go to `out`. -/
def insert (c : Cents) : List Write := [.LOG [], .put (insertInt c.getCents.toInt)]

/-- `operator>>`: the lines it logs, the object and the stream. -/
def extract (inp : IStream) : List Write × Cents × IStream :=
  let (cents, inp) := inp.extractInt 0
  ([.LOG []], (if inp.fail then ⟨0⟩ else ⟨Int32.ofInt cents⟩), inp)

/-- `run()`, with what `std::cin` has to offer: what is written, and `std::cin`. -/
def run (cin : IStream) : List Write × IStream :=
  let c1 : Cents := ⟨25⟩
  let cout := insert c1 ++ [.put [10]]
  let (log, c1, cin) := extract cin
  let cout := cout ++ log ++ insert c1 ++ [.put [10]]
  (cout, (cin.getline []).2)

/-- The bytes among them. -/
def written : List Write → Bytes
  | [] => []
  | .LOG _ :: ws => written ws
  | .put text :: ws => text ++ written ws

/-- Objects and separators, one after another. -/
def insertAll : List (Cents × Bytes) → List Write
  | [] => []
  | (c, blank) :: cs => insert c ++ .put blank :: insertAll cs

/-- `operator>>`, so many times. -/
def extractAll : Nat → IStream → List Cents × IStream
  | 0, inp => ([], inp)
  | n + 1, inp =>
      let (_, c, inp) := extract inp
      let (cs, inp) := extractAll n inp
      (c :: cs, inp)

/-- A number in front that an `int` can hold is what is read. -/
theorem extract_of_number {input after : Bytes} {x : Int32} (found : Number input x.toInt after) :
    extract (ofBytes input) = ([.LOG []], ⟨x⟩, ⟨after, after.isEmpty, false⟩) := by
  have range : -2 ^ 31 ≤ x.toInt ∧ x.toInt ≤ 2 ^ 31 - 1 := ⟨x.le_toInt, x.toInt_le⟩
  obtain ⟨stream, value⟩ := IStream.extractInt_of_number found 0
  have value := value range
  simp only [range, and_self, not_true_eq_false, decide_false] at stream
  simp only [extract, stream, value, Bool.false_eq_true, if_false, Int32.ofInt_toInt]

/-- Anything else makes the object zero. -/
theorem extract_fails {input : Bytes} (none : ∀ (x : Int32) after, ¬ Number input x.toInt after) :
    (extract (ofBytes input)).2.1 = ⟨0⟩ ∧ (extract (ofBytes input)).2.2.fail = true := by
  have failed : ((ofBytes input).extractInt 0).2.fail = true := by
    by_cases number : ∃ x after, Number input x after
    · obtain ⟨x, after, found⟩ := number
      rw [(IStream.extractInt_of_number found 0).1]
      refine decide_eq_true fun range => none (Int32.ofInt x) after ?_
      rw [Int32.toInt_ofInt_of_le range.1 (by omega)]
      exact found
    · exact IStream.extractInt_none (fun x after found => number ⟨x, after, found⟩) 0
  refine ⟨?_, failed⟩
  show (if ((ofBytes input).extractInt 0).2.fail then (⟨0⟩ : Cents) else _) = ⟨0⟩
  rw [if_pos failed]

/-- `run()` shows 25 and then what it has read, or zero. -/
theorem run_shows (input : Bytes) : ∃ c : Cents,
    (run (ofBytes input)).1 =
      insert ⟨25⟩ ++ [.put [10], .LOG []] ++ insert c ++ [.put [10]] ∧
    ((∃ after, Number input c.cents_.toInt after) ∨
      c = ⟨0⟩ ∧ ∀ (x : Int32) after, ¬ Number input x.toInt after) := by
  by_cases found : ∃ (x : Int32) (after : Bytes), Number input x.toInt after
  · obtain ⟨x, after, found⟩ := found
    refine ⟨⟨x⟩, ?_, .inl ⟨after, found⟩⟩
    simp only [run, extract_of_number found, List.append_assoc, List.cons_append, List.nil_append]
  · have none : ∀ (x : Int32) after, ¬ Number input x.toInt after := fun x after number =>
      found ⟨x, after, number⟩
    refine ⟨(extract (ofBytes input)).2.1, ?_, .inr ⟨(extract_fails none).1, none⟩⟩
    simp only [run, extract, List.append_assoc, List.cons_append, List.nil_append]

/-! ## Writing and reading back -/

theorem written_append (ws ws' : List Write) : written (ws ++ ws') = written ws ++ written ws' := by
  induction ws with
  | nil => rfl
  | cons w ws ih =>
      cases w with
      | LOG msg => exact ih
      | put text =>
          show text ++ written (ws ++ ws') = text ++ written ws ++ written ws'
          rw [ih, List.append_assoc]

theorem written_insertAll_cons (c : Cents) (blank : Bytes) (cs : List (Cents × Bytes)) :
    written (insertAll ((c, blank) :: cs)) =
      insertInt c.cents_.toInt ++ (blank ++ written (insertAll cs)) := by
  show written (insert c ++ .put blank :: insertAll cs) = _
  rw [written_append]
  show insertInt c.cents_.toInt ++ [] ++ _ = _
  rw [List.append_nil]
  rfl

/-- The objects are read with one more white space in front. -/
theorem extractAll_insertAll {cs : List (Cents × Bytes)}
    (separated : ∀ p ∈ cs, p.2 ≠ [] ∧ ∀ b ∈ p.2, isSpace b = true) {front : Bytes}
    (white : ∀ b ∈ front, isSpace b = true) :
    ∃ blank, (∀ b ∈ blank, isSpace b = true) ∧
      extractAll cs.length (ofBytes (front ++ written (insertAll cs))) =
        (cs.map (·.1), ofBytes blank) := by
  induction cs generalizing front with
  | nil =>
      refine ⟨front, white, ?_⟩
      show ([], ofBytes (front ++ [])) = ([], ofBytes front)
      rw [List.append_nil]
  | cons p cs ih =>
      obtain ⟨c, blank⟩ := p
      obtain ⟨nonempty, blanks⟩ := separated (c, blank) List.mem_cons_self
      obtain ⟨b, bs, rfl⟩ := List.exists_cons_of_ne_nil nonempty
      obtain ⟨last, lasts, tail⟩ :=
        ih (fun q member => separated q (List.mem_cons_of_mem _ member)) blanks
      have stop : ∀ d, (b :: bs ++ written (insertAll cs)).head? = some d →
          IStream.isDigit d = false := by
        intro d head
        obtain rfl : b = d := Option.some.inj head
        by_contra digit
        rw [Bool.not_eq_false] at digit
        exact absurd (blanks b List.mem_cons_self) (by simp [IStream.not_space (.inl digit)])
      have found := IStream.number_insertInt c.cents_.toInt white stop
      rw [List.append_assoc] at found
      refine ⟨last, lasts, ?_⟩
      rw [written_insertAll_cons, List.length_cons, extractAll, extract_of_number found]
      show (c :: (extractAll cs.length (ofBytes (b :: bs ++ written (insertAll cs)))).1,
        (extractAll cs.length (ofBytes (b :: bs ++ written (insertAll cs)))).2) = _
      rw [tail]
      rfl

/-- Objects that have been written with white space between them are read back, and then
there is nothing more to read. -/
theorem cents_round_trip (cs : List (Cents × Bytes))
    (separated : ∀ p ∈ cs, p.2 ≠ [] ∧ ∀ b ∈ p.2, isSpace b = true) :
    (extractAll cs.length (ofBytes (written (insertAll cs)))).1 = cs.map (·.1) ∧
      (extractAll cs.length (ofBytes (written (insertAll cs)))).2.fail = false ∧
      (extract (extractAll cs.length (ofBytes (written (insertAll cs)))).2).2.1 = ⟨0⟩ ∧
      (extract (extractAll cs.length (ofBytes (written (insertAll cs)))).2).2.2.fail = true := by
  have front : ∀ b ∈ ([] : Bytes), isSpace b = true := by simp
  obtain ⟨blank, white, all⟩ := extractAll_insertAll separated front
  rw [List.nil_append] at all
  rw [all]
  have none : ∀ (x : Int32) after, ¬ Number blank x.toInt after := by
    rintro x after found
    obtain ⟨-, -, text, -⟩ := found.scan
    exact text (List.dropWhile_eq_nil_iff.mpr white)
  exact ⟨rfl, rfl, (extract_fails none).1, (extract_fails none).2⟩

theorem cents_round_trip_two :
    (extractAll 2 (ofBytes (written (insertAll [(⟨25⟩, [32]), (⟨-7⟩, [10, 9])])))).1 =
      [⟨25⟩, ⟨-7⟩] :=
  (cents_round_trip [(⟨25⟩, [32]), (⟨-7⟩, [10, 9])] (by simp [isSpace])).1

end CppLab.Function.StreamOperator
