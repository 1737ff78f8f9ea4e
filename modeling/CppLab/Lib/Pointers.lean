import Mathlib.Data.Finset.Card
import Mathlib.Data.Set.Card

/-!
# Pointers counted by where they point

`Points f p n`: of the pointers `f`, of which there may be any number, just `n` are at the
address `p`. A pointer that is null and then set, or the other way round, changes the number
at one address by one; this is all that a reference count has to follow.
-/

namespace CppLab

variable {ι : Type*}

/-- Just `n` of the pointers are at `p`. -/
def Points (f : ι → Option Nat) (p n : Nat) : Prop :=
  ∃ at_ : Finset ι, at_.card = n ∧ ∀ i, i ∈ at_ ↔ f i = some p

namespace Points

variable {f : ι → Option Nat} {p n : Nat}

theorem zero (nobody : ∀ i, f i ≠ some p) : Points f p 0 :=
  ⟨∅, rfl, fun i => by simp [nobody i]⟩

theorem congr {g : ι → Option Nat} (points : Points f p n)
    (same : ∀ i, g i = some p ↔ f i = some p) : Points g p n := by
  obtain ⟨at_, size, there⟩ := points
  exact ⟨at_, size, fun i => (there i).trans (same i).symm⟩

theorem ncard (points : Points f p n) : {i | f i = some p}.ncard = n := by
  obtain ⟨at_, rfl, there⟩ := points
  have same : {i | f i = some p} = (at_ : Set ι) := Set.ext fun i => (there i).symm
  rw [same, Set.ncard_coe_finset]

/-- There is a pointer at `p` just when there are some. -/
theorem ne_zero_iff (points : Points f p n) : n ≠ 0 ↔ ∃ i, f i = some p := by
  obtain ⟨at_, rfl, there⟩ := points
  rw [Finset.card_ne_zero]
  exact exists_congr there

theorem unique {m : Nat} (points : Points f p n) (others : Points f p m) : n = m := by
  obtain ⟨at_, rfl, there⟩ := points
  obtain ⟨at_', rfl, there'⟩ := others
  have same : at_ = at_' := Finset.ext fun i => (there i).trans (there' i).symm
  rw [same]

theorem eq_zero_iff (points : Points f p n) : n = 0 ↔ ∀ i, f i ≠ some p :=
  ⟨fun none i here => points.ne_zero_iff.mpr ⟨i, here⟩ none, fun nobody =>
    points.unique (zero nobody)⟩

variable [DecidableEq ι]

/-- A pointer that was elsewhere. -/
theorem gain (points : Points f p n) {i : ι} (elsewhere : f i ≠ some p) :
    Points (Function.update f i (some p)) p (n + 1) := by
  obtain ⟨at_, rfl, there⟩ := points
  have fresh : i ∉ at_ := fun member => elsewhere ((there i).mp member)
  refine ⟨insert i at_, Finset.card_insert_of_notMem fresh, fun j => ?_⟩
  by_cases same : j = i
  · subst same
    simp
  · rw [Finset.mem_insert, Function.update_of_ne same, there]
    exact or_iff_right same

/-- A pointer that goes elsewhere. -/
theorem lose (points : Points f p n) {i : ι} (here : f i = some p) {q : Option Nat}
    (away : q ≠ some p) : n ≠ 0 ∧ Points (Function.update f i q) p (n - 1) := by
  obtain ⟨at_, rfl, there⟩ := points
  have member : i ∈ at_ := (there i).mpr here
  refine ⟨Finset.card_ne_zero_of_mem member, at_.erase i, Finset.card_erase_of_mem member,
    fun j => ?_⟩
  by_cases same : j = i
  · subst same
    rw [Function.update_self]
    exact iff_of_false (Finset.notMem_erase j at_) away
  · rw [Finset.mem_erase, Function.update_of_ne same, there]
    exact and_iff_right same

/-- A pointer that is null or at `p`, before and after, is nowhere else. -/
theorem update_else {i : ι} {x : Option Nat} (was : f i = none ∨ f i = some p)
    (now : x = none ∨ x = some p) :
    ∀ q ≠ p, ∀ j, Function.update f i x j = some q ↔ f j = some q := by
  intro q other j
  have away : ∀ y : Option Nat, y = none ∨ y = some p → y ≠ some q := by
    rintro y (rfl | rfl)
    · exact nofun
    · exact fun same => other (Option.some.inj same).symm
  by_cases same : j = i
  · subst same
    rw [Function.update_self]
    exact iff_of_false (away x now) (away (f j) was)
  · rw [Function.update_of_ne same]

end Points

end CppLab
