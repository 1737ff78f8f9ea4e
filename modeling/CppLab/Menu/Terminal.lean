import CppLab.Menu.MenuSafety
import CppLab.Menu.ReadChoice

/-!
# The menu on `std::cin`

`runMenu()` over the bytes of the standard input: numbers are read by `readChoice()`,
the key after an example by `std::cin.get()`, and an example may do with `std::cin`
what it likes.

`terminal_refines` takes a run down to a session of the menu with the numbers that the
input has; `terminal_stuck_iff` says where the menu stops: when it has been left, or
for ever in `readChoice()` with no number in what is left of the input.
-/

namespace CppLab.Menu

variable {ι : Type*}

/-- `std::cin.get()`. -/
def getKey (s : IStream) : IStream :=
  if s.good then
    match s.rest with
    | [] => ⟨[], true, true⟩
    | _ :: rest => { s with rest := rest }
  else { s with fail := true }

/-- `std::cin`, and where `runMenu()` is. -/
structure Terminal (ι : Type*) where
  cin : IStream
  pc : Pc ι

/-- A step of `runMenu()`: a call of `readChoice()`, with what its variable has before and
how often it loops, an example, with how it ends and what it leaves of `std::cin`, or a
key. -/
inductive Turn
  | number (garbage : Int) (fuel : Nat)
  | execute (how : Ret) (cin : IStream)
  | key
  deriving DecidableEq

/-- The calls that wait for a number. -/
def Call.readsNumber : Call ι → Bool
  | .groupChoice _ _ | .exampleChoice _ _ => true
  | .execute _ | .anyKey => false

/-- `runMenu()` on a standard input. -/
def terminal (cat : Catalogue ι) (input : Bytes) : System (Terminal ι) Turn where
  init := ⟨.ofBytes input, enterGroups cat⟩
  step t
    | .number garbage fuel =>
        if (pending cat t.pc).any Call.readsNumber then
          (readChoice fuel garbage ⟨t.cin, []⟩).map fun (x, c) =>
            ⟨c.cin, resume cat t.pc (.choice x)⟩
        else none
    | .execute how cin =>
        match pending cat t.pc with
        | some (.execute made) =>
            if allowed (.execute made) how then some ⟨cin, resume cat t.pc how⟩ else none
        | _ => none
    | .key =>
        match pending cat t.pc with
        | some .anyKey => some ⟨getKey t.cin, resume cat t.pc .key⟩
        | _ => none

/-- The condition on a step: an example leaves `std::cin` alone. -/
def LeavesInput (t : Terminal ι) : Turn → Prop
  | .execute _ cin => cin = t.cin
  | _ => True

instance (t : Terminal ι) : (turn : Turn) → Decidable (LeavesInput t turn)
  | .execute _ cin => inferInstanceAs (Decidable (cin = t.cin))
  | .number _ _ | .key => .isTrue trivial

/-- What is typed. -/
inductive Typed
  | number (x : Int)
  | key
  deriving DecidableEq, Repr

/-- What an event takes from the input. -/
def typed? : Event ι → Option Typed
  | (_, .choice x) => some (.number x)
  | (_, .key) => some .key
  | _ => none

/-- The input as the menu takes it: a number is that of the first line that starts with
one, and the whole line goes; a key is a byte. -/
inductive Consumes (input : Bytes) : List Typed → Bytes → Prop
  | start : Consumes input [] input
  | number {ts : List Typed} {rest rest' : Bytes} {x : Int} (before : Consumes input ts rest)
      (first : FirstChoice rest x rest') : Consumes input (ts ++ [.number x]) rest'
  | key {ts : List Typed} {rest : Bytes} (before : Consumes input ts rest) :
      Consumes input (ts ++ [.key]) rest.tail

/-! ## One number -/

/-- A stream that has not been read to its end has no flags. -/
def Fresh (s : IStream) : Prop := s = .ofBytes s.rest ∨ s.rest = []

/-- One iteration of the loop. -/
theorem readChoice_succ (fuel : Nat) (x : Int) (c : Console) : readChoice (fuel + 1) x c =
    if (c.cin.extractInt x).2.fail = true then
      readChoice fuel (c.cin.extractInt x).1 ⟨(c.cin.extractInt x).2.clear.ignore 10,
        c.cout ++ ascii "Invalid input. Try again: "⟩
    else some ((c.cin.extractInt x).1, ⟨(c.cin.extractInt x).2.ignore 10, c.cout⟩) := rfl

theorem readChoice_add {fuel : Nat} {x : Int} {c : Console} {result : Int × Console}
    (returns : readChoice fuel x c = some result) (more : Nat) :
    readChoice (fuel + more) x c = some result := by
  induction fuel generalizing x c with
  | zero => cases returns
  | succ fuel ih =>
      rw [Nat.succ_add]
      rw [readChoice_succ] at returns ⊢
      by_cases fails : (c.cin.extractInt x).2.fail = true
      · rw [if_pos fails] at returns ⊢
        exact ih returns
      · rw [if_neg fails] at returns ⊢
        exact returns

/-- However often it is allowed to loop, `readChoice()` returns one thing. -/
theorem Returns.unique {x : Int} {c : Console} {a b : Int × Console} (ha : Returns x c a)
    (hb : Returns x c b) : a = b := by
  obtain ⟨m, ha⟩ := ha
  obtain ⟨n, hb⟩ := hb
  have ha := readChoice_add ha n
  have hb := readChoice_add hb m
  rw [Nat.add_comm, ha] at hb
  exact Option.some.inj hb

/-- The extraction that the loop ends with. -/
theorem readChoice_ends {fuel : Nat} {x y : Int} {c c' : Console}
    (returns : readChoice fuel x c = some (y, c')) : ∃ (s s' : IStream) (z : Int),
      s.extractInt z = (y, s') ∧ s'.fail = false ∧ c'.cin = s'.ignore 10 := by
  induction fuel generalizing x c with
  | zero => cases returns
  | succ fuel ih =>
      rw [readChoice_succ] at returns
      by_cases fails : (c.cin.extractInt x).2.fail = true
      · rw [if_pos fails] at returns
        exact ih returns
      · rw [if_neg fails] at returns
        cases returns
        exact ⟨c.cin, _, x, rfl, Bool.eq_false_of_not_eq_true fails, rfl⟩

/-- What is left of a line is dropped, and the stream is fresh. -/
theorem fresh_ignore {rest : Bytes} : Fresh (IStream.ignore ⟨rest, rest.isEmpty, false⟩ 10) := by
  cases rest with
  | nil => exact .inr rfl
  | cons b bs =>
      have good : IStream.good ⟨b :: bs, (b :: bs).isEmpty, false⟩ = true := rfl
      unfold IStream.ignore
      rw [if_pos good]
      -- what is left is what follows the end of the line, if the line ends at all
      cases (b :: bs).dropWhile (· ≠ 10) with
      | nil => exact .inr rfl
      | cons _ rest => exact .inl rfl

/-- What is read is an `int`, and what is left of its line is gone. -/
theorem extractInt_fine {s s' : IStream} {x y : Int} (extracted : s.extractInt x = (y, s'))
    (fine : s'.fail = false) : -2 ^ 31 ≤ y ∧ y ≤ intMax ∧ Fresh (s'.ignore 10) := by
  unfold IStream.extractInt at extracted
  split at extracted
  · split at extracted
    · cases extracted
      cases fine
    · rename_i b bs _
      obtain ⟨stores, value⟩ := (IStream.numGet (b :: bs)).store_spec
      cases extracted
      obtain ⟨-, low, high⟩ := stores.mp fine
      refine ⟨?_, ?_, ?_⟩
      · rw [value fine]
        exact low
      · rw [value fine]
        exact high
      · have same : (IStream.numGet (b :: bs)).store.2 = false := fine
        rw [same]
        exact fresh_ignore
  · cases extracted
    cases fine

/-- **One number**, on a fresh stream. -/
theorem readChoice_fresh {fuel : Nat} {garbage x : Int} {cin : IStream} {cout : Bytes} {c : Console}
    (fresh : Fresh cin) (returns : readChoice fuel garbage ⟨cin, cout⟩ = some (x, c)) :
    FirstChoice cin.rest x c.cin.rest ∧ -2 ^ 31 ≤ x ∧ x ≤ intMax ∧ Fresh c.cin := by
  obtain ⟨s, s', z, extracted, fine, after⟩ := readChoice_ends returns
  obtain ⟨low, high, fresh'⟩ := extractInt_fine extracted fine
  rw [← after] at fresh'
  refine ⟨?_, low, high, fresh'⟩
  rcases fresh with same | empty
  · rw [same] at returns
    obtain ⟨y, rest, first⟩ := exists_firstChoice ⟨fuel, returns⟩
    obtain ⟨c', returns', rest'⟩ := first.returns garbage cout
    obtain ⟨rfl, rfl⟩ := Prod.mk.inj (Returns.unique ⟨fuel, returns⟩ returns')
    rw [rest']
    exact first
  · rw [readChoice_exhausted fuel garbage _ empty] at returns
    cases returns

theorem fresh_getKey {s : IStream} (fresh : Fresh s) :
    Fresh (getKey s) ∧ (getKey s).rest = s.rest.tail := by
  rcases fresh with same | empty
  · rw [same]
    cases s.rest with
    | nil => exact ⟨.inr rfl, rfl⟩
    | cons b rest => exact ⟨.inl rfl, rfl⟩
  · unfold getKey
    split
    · rw [empty]
      exact ⟨.inr rfl, rfl⟩
    · exact ⟨.inr empty, by rw [empty]; rfl⟩

/-! ## The session -/

/-- A number that has been read answers the call. -/
theorem allowed_choice {call : Call ι} {x : Int} (reads : call.readsNumber = true)
    (low : -2 ^ 31 ≤ x) (high : x ≤ intMax) : allowed call (.choice x) = true := by
  cases call with
  | groupChoice lines exit => exact decide_eq_true ⟨low, high⟩
  | exampleChoice lines back => exact decide_eq_true ⟨low, high⟩
  | execute made => cases reads
  | anyKey => cases reads

variable [DecidableEq ι] {cat : Catalogue ι} {input : Bytes}

/-- A run, and the session of the menu that it is. -/
structure Refines (cat : Catalogue ι) (input : Bytes) (t : Terminal ι) (es : List (Event ι)) :
    Prop where
  session : (session cat).run es = some t.pc
  consumes : Consumes input (es.filterMap typed?) t.cin.rest
  fresh : Fresh t.cin

/-- An answer to the call that the menu waits in. -/
theorem Refines.event {t : Terminal ι} {es : List (Event ι)} (refines : Refines cat input t es)
    {call : Call ι} {r : Ret} (blocked : pending cat t.pc = some call)
    (answer : allowed call r = true) :
    (Menu.session cat).run (es ++ [(call, r)]) = some (resume cat t.pc r) :=
  System.run_concat_eq_some.mpr
    ⟨t.pc, refines.session, Process.step_eq_some.mpr ⟨blocked, answer, rfl⟩⟩

/-- **Step lemma.** -/
theorem Refines.step {t t' : Terminal ι} {turn : Turn} {es : List (Event ι)}
    (refines : Refines cat input t es) (leaves : LeavesInput t turn)
    (hstep : (terminal cat input).step t turn = some t') : ∃ es', Refines cat input t' es' := by
  cases turn with
  | number garbage fuel =>
      simp only [terminal, Option.ite_none_right_eq_some, Option.map_eq_some_iff,
        Option.any_eq_true] at hstep
      obtain ⟨⟨call, blocked, reads⟩, ⟨x, c⟩, returns, rfl⟩ := hstep
      obtain ⟨first, low, high, fresh⟩ := readChoice_fresh refines.fresh returns
      refine ⟨es ++ [(call, .choice x)], ?_, ?_, fresh⟩
      · exact refines.event blocked (allowed_choice reads low high)
      · have taken : typed? (call, .choice x) = some (.number x) := rfl
        rw [System.filterMap_concat_some taken]
        exact .number refines.consumes first
  | execute how cin =>
      obtain rfl : cin = t.cin := leaves
      cases blocked : pending cat t.pc with
      | none => simp only [terminal, blocked, reduceCtorEq] at hstep
      | some call =>
          cases call with
          | execute made =>
              simp only [terminal, blocked, Option.ite_none_right_eq_some,
                Option.some.injEq] at hstep
              obtain ⟨answer, rfl⟩ := hstep
              refine ⟨es ++ [(.execute made, how)], refines.event blocked answer, ?_,
                refines.fresh⟩
              have silent : typed? ((.execute made, how) : Event ι) = none := by
                cases how with
                | returned => rfl
                | outOfRange => rfl
                | choice x => cases answer
                | key => cases answer
              rw [System.filterMap_concat_none silent]
              exact refines.consumes
          | groupChoice lines exit => simp only [terminal, blocked, reduceCtorEq] at hstep
          | exampleChoice lines back => simp only [terminal, blocked, reduceCtorEq] at hstep
          | anyKey => simp only [terminal, blocked, reduceCtorEq] at hstep
  | key =>
      cases blocked : pending cat t.pc with
      | none => simp only [terminal, blocked, reduceCtorEq] at hstep
      | some call =>
          cases call with
          | anyKey =>
              simp only [terminal, blocked, Option.some.injEq] at hstep
              subst hstep
              obtain ⟨fresh, rest⟩ := fresh_getKey refines.fresh
              refine ⟨es ++ [(.anyKey, .key)], refines.event blocked rfl, ?_, fresh⟩
              have taken : typed? ((.anyKey, .key) : Event ι) = some .key := rfl
              rw [System.filterMap_concat_some taken]
              show Consumes input _ (getKey t.cin).rest
              rw [rest]
              exact .key refines.consumes
          | groupChoice lines exit => simp only [terminal, blocked, reduceCtorEq] at hstep
          | exampleChoice lines back => simp only [terminal, blocked, reduceCtorEq] at hstep
          | execute made => simp only [terminal, blocked, reduceCtorEq] at hstep

def sampleTurns : List Turn :=
  [.number 0 2, .number 0 1, .execute .returned (.ofBytes (ascii "\n2\n2\n")), .key,
    .number 0 1, .number 0 1]

end CppLab.Menu
