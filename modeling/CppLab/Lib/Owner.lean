import CppLab.Lib.Ledger

/-!
# Buffers with one owner each

Owners hold at most one pointer each. `Unique` says that no two of them hold the
same buffer, that the buffers in memory are those that are held, and that the
ledger of allocations and releases has just these open.

There is one rule for each thing that code which owns its buffers does: `alloc`,
`free`, `write` and `swap`, the last for pointers that change hands. A pointer in
a local variable is one owner more (`beside`); `exchange` is the swap with it, and
`renew` the replacement of what an owner has.
`atMostOnce`, `closesOf_eq_one` and `exactlyOnce` read the ledger.
-/

namespace CppLab.Owner

variable {ο β : Type*}

/-- Every buffer has one owner. -/
structure Unique (held : ο → Option Nat) (heap : Nat → Option β) (ledger : List (Entry Nat)) :
    Prop where
  inj : ∀ a b p, held a = some p → held b = some p → a = b
  live : ∀ p, heap p ≠ none ↔ ∃ o, held o = some p
  book : ∃ names, Ledger.replay ledger = some names ∧ ∀ p, p ∈ names ↔ heap p ≠ none

/-- The owners and a local variable. -/
def beside (held : ο → Option Nat) (c : Option Nat) : Option ο → Option Nat
  | none => c
  | some o => held o

namespace Unique

variable {held : ο → Option Nat} {heap : Nat → Option β} {ledger : List (Entry Nat)}

theorem empty : Unique (fun _ : ο => none) (fun _ => (none : Option β)) [] where
  inj := by simp
  live := by simp
  book := ⟨[], rfl, by simp⟩

/-- What is held is there. -/
theorem there (unique : Unique held heap ledger) {o : ο} {p : Nat} (holds : held o = some p) :
    heap p ≠ none :=
  (unique.live p).mpr ⟨o, holds⟩

/-- Nobody holds an address that is free. -/
theorem not_held (unique : Unique held heap ledger) {p : Nat} (fresh : heap p = none) (o : ο) :
    held o ≠ some p :=
  fun holds => unique.there holds fresh

/-- Other contents of a buffer. -/
theorem write (unique : Unique held heap ledger) {p : Nat} (there : heap p ≠ none) (b : β) :
    Unique held (Function.update heap p (some b)) ledger := by
  have same : ∀ q, Function.update heap p (some b) q ≠ none ↔ heap q ≠ none := by
    intro q
    by_cases this : q = p
    · subst this
      rw [Function.update_self]
      exact iff_of_true (Option.some_ne_none b) there
    · rw [Function.update_of_ne this]
  obtain ⟨names, replay, open_⟩ := unique.book
  constructor
  · exact unique.inj
  · intro q
    rw [same, unique.live]
  · refine ⟨names, replay, fun q => ?_⟩
    rw [same, open_]

/-- The pointers in other hands. -/
theorem perm (unique : Unique held heap ledger) (σ : Equiv.Perm ο) :
    Unique (held ∘ σ) heap ledger := by
  constructor
  · intro a b p ha hb
    exact σ.injective (unique.inj _ _ p ha hb)
  · intro p
    rw [unique.live]
    constructor
    · rintro ⟨o, holds⟩
      exact ⟨σ.symm o, by simpa using holds⟩
    · rintro ⟨o, holds⟩
      exact ⟨σ o, holds⟩
  · exact unique.book

/-- The other way round, for a relabelling of the owners. -/
theorem beside_iff : Unique (beside held none) heap ledger ↔ Unique held heap ledger := by
  constructor
  · intro unique
    constructor
    · intro a b p ha hb
      exact Option.some.inj (unique.inj (some a) (some b) p ha hb)
    · intro p
      rw [unique.live]
      constructor
      · rintro ⟨o, holds⟩
        cases o with
        | none => cases holds
        | some o => exact ⟨o, holds⟩
      · rintro ⟨o, holds⟩
        exact ⟨some o, holds⟩
    · exact unique.book
  · intro unique
    constructor
    · intro a b p ha hb
      cases a with
      | none => cases ha
      | some a =>
          cases b with
          | none => cases hb
          | some b => exact congrArg some (unique.inj a b p ha hb)
    · intro p
      rw [unique.live]
      constructor
      · rintro ⟨o, holds⟩
        exact ⟨some o, holds⟩
      · rintro ⟨o, holds⟩
        cases o with
        | none => cases holds
        | some o => exact ⟨o, holds⟩
    · exact unique.book

/-! ## Reading the ledger -/

theorem atMostOnce (unique : Unique held heap ledger) : Ledger.AtMostOnce ledger := by
  obtain ⟨names, replay, -⟩ := unique.book
  exact Ledger.atMostOnce_of_replay replay

/-- A buffer that is not there any more has been released once. -/
theorem closesOf_eq_one (unique : Unique held heap ledger) {pre post : List (Entry Nat)} {p : Nat}
    (split : ledger = pre ++ .opened p :: post) (gone : heap p = none) :
    Ledger.closesOf p post = 1 := by
  obtain ⟨names, replay, open_⟩ := unique.book
  rw [split] at replay
  exact Ledger.closesOf_eq_one replay fun member => (open_ p).mp member gone

/-- When nobody holds a buffer, each has been released once. -/
theorem exactlyOnce (unique : Unique held heap ledger) (nobody : ∀ o, held o = none) :
    Ledger.ExactlyOnce ledger := by
  intro pre p post split
  refine unique.closesOf_eq_one split ?_
  by_contra there
  obtain ⟨o, holds⟩ := (unique.live p).mp there
  rw [nobody o] at holds
  cases holds

variable [DecidableEq ο]

/-- `new`: an owner without a buffer gets a fresh one. -/
theorem alloc (unique : Unique held heap ledger) {o : ο} {p : Nat} (without : held o = none)
    (fresh : heap p = none) (b : β) :
    Unique (Function.update held o (some p)) (Function.update heap p (some b))
      (ledger ++ [.opened p]) := by
  have holder : ∀ a q, Function.update held o (some p) a = some q →
      (a = o ∧ q = p) ∨ (a ≠ o ∧ q ≠ p ∧ held a = some q) := by
    intro a q holds
    by_cases this : a = o
    · subst this
      rw [Function.update_self] at holds
      exact .inl ⟨rfl, (Option.some.inj holds).symm⟩
    · rw [Function.update_of_ne this] at holds
      exact .inr ⟨this, fun same => unique.not_held fresh a (same ▸ holds), holds⟩
  obtain ⟨names, replay, open_⟩ := unique.book
  constructor
  · intro a b q ha hb
    rcases holder a q ha with ⟨rfl, rfl⟩ | ⟨-, other, ha⟩
    · rcases holder b q hb with ⟨rfl, -⟩ | ⟨-, other, -⟩
      · rfl
      · exact absurd rfl other
    · rcases holder b q hb with ⟨-, rfl⟩ | ⟨-, -, hb⟩
      · exact absurd rfl other
      · exact unique.inj a b q ha hb
  · intro q
    by_cases this : q = p
    · subst this
      rw [Function.update_self]
      exact iff_of_true (Option.some_ne_none b) ⟨o, Function.update_self ..⟩
    · rw [Function.update_of_ne this, unique.live]
      constructor
      · rintro ⟨a, holds⟩
        refine ⟨a, ?_⟩
        rw [Function.update_of_ne]
        · exact holds
        · rintro rfl
          rw [without] at holds
          cases holds
      · rintro ⟨a, holds⟩
        rcases holder a q holds with ⟨-, same⟩ | ⟨-, -, holds⟩
        · exact absurd same this
        · exact ⟨a, holds⟩
  · have absent : p ∉ names := fun member => (open_ p).mp member fresh
    refine ⟨p :: names, Ledger.replay_concat replay (Ledger.record_opened absent), ?_⟩
    intro q
    by_cases this : q = p
    · subst this
      rw [Function.update_self]
      exact iff_of_true List.mem_cons_self (Option.some_ne_none b)
    · rw [Function.update_of_ne this, List.mem_cons, open_]
      simp [this]

/-- `delete`: an owner gives its buffer back. -/
theorem free (unique : Unique held heap ledger) {o : ο} {p : Nat} (holds : held o = some p) :
    Unique (Function.update held o none) (Function.update heap p none)
      (ledger ++ [.closed p]) := by
  have holder : ∀ a q, Function.update held o none a = some q → q ≠ p ∧ held a = some q := by
    intro a q now
    by_cases this : a = o
    · rw [this, Function.update_self] at now
      cases now
    · rw [Function.update_of_ne this] at now
      refine ⟨?_, now⟩
      rintro rfl
      exact this (unique.inj a o q now holds)
  obtain ⟨names, replay, open_⟩ := unique.book
  have nodup := Ledger.replay_nodup replay
  constructor
  · intro a b q ha hb
    exact unique.inj a b q (holder a q ha).2 (holder b q hb).2
  · intro q
    by_cases this : q = p
    · subst this
      rw [Function.update_self]
      refine iff_of_false (fun h => h rfl) ?_
      rintro ⟨a, now⟩
      exact (holder a q now).1 rfl
    · rw [Function.update_of_ne this, unique.live]
      constructor
      · rintro ⟨a, before⟩
        refine ⟨a, ?_⟩
        rw [Function.update_of_ne]
        · exact before
        · rintro rfl
          rw [holds] at before
          exact this (Option.some.inj before).symm
      · rintro ⟨a, now⟩
        exact ⟨a, (holder a q now).2⟩
  · have member : p ∈ names := (open_ p).mpr (unique.there holds)
    refine ⟨names.erase p, Ledger.replay_concat replay (Ledger.record_closed member), ?_⟩
    intro q
    by_cases this : q = p
    · subst this
      rw [Function.update_self]
      exact iff_of_false nodup.not_mem_erase (fun h => h rfl)
    · rw [Function.update_of_ne this, List.mem_erase_of_ne this, open_]

/-- Two owners swap their pointers. -/
theorem swap (unique : Unique held heap ledger) (a b : ο) :
    Unique (Function.update (Function.update held a (held b)) b (held a)) heap ledger := by
  have swapped : Function.update (Function.update held a (held b)) b (held a) =
      held ∘ Equiv.swap a b := by
    funext o
    by_cases hb : o = b
    · simp [hb]
    · by_cases ha : o = a
      · subst ha
        rw [Function.update_of_ne hb, Function.update_self]
        simp
      · rw [Function.update_of_ne hb, Function.update_of_ne ha, Function.comp_apply,
          Equiv.swap_apply_of_ne_of_ne ha hb]
  rw [swapped]
  exact unique.perm _

/-! ## A local variable -/

theorem update_beside_none (held : ο → Option Nat) (c d : Option Nat) :
    Function.update (beside held c) none d = beside held d := by
  funext o
  cases o with
  | none =>
      rw [Function.update_self]
      rfl
  | some o =>
      rw [Function.update_of_ne (Option.some_ne_none o)]
      rfl

theorem update_beside_some (held : ο → Option Nat) (c d : Option Nat) (o : ο) :
    Function.update (beside held c) (some o) d = beside (Function.update held o d) c := by
  funext a
  cases a with
  | none =>
      rw [Function.update_of_ne (Option.some_ne_none o).symm]
      rfl
  | some a =>
      by_cases this : a = o
      · subst this
        rw [Function.update_self, beside, Function.update_self]
      · rw [Function.update_of_ne fun same => this (Option.some.inj same), beside, beside,
          Function.update_of_ne this]

/-- An owner swaps its pointer with the variable. -/
theorem exchange {c : Option Nat} (unique : Unique (beside held c) heap ledger) (o : ο) :
    Unique (beside (Function.update held o c) (held o)) heap ledger := by
  have swapped := unique.swap (some o) none
  rwa [update_beside_some, update_beside_none] at swapped

/-- `new` into the variable. -/
theorem allocLocal (unique : Unique held heap ledger) {p : Nat} (fresh : heap p = none) (b : β) :
    Unique (beside held (some p)) (Function.update heap p (some b)) (ledger ++ [.opened p]) := by
  have allocated := (beside_iff.mpr unique).alloc (o := none) rfl fresh b
  rwa [update_beside_none] at allocated

/-- `delete` of what the variable points to. -/
theorem freeLocal {p : Nat} (unique : Unique (beside held (some p)) heap ledger) :
    Unique held (Function.update heap p none) (ledger ++ [.closed p]) := by
  have freed := unique.free (o := none) rfl
  rw [update_beside_none] at freed
  exact beside_iff.mp freed

/-! ## One buffer for another -/

/-- The heap after `delete` of a pointer, which may be null. -/
def released (heap : Nat → Option β) : Option Nat → Nat → Option β
  | none => heap
  | some p => Function.update heap p none

/-- What `delete` of a pointer writes in the ledger. -/
def closing : Option Nat → List (Entry Nat)
  | none => []
  | some p => [.closed p]

/-- An owner takes a fresh buffer for the one it has. -/
theorem renew (unique : Unique held heap ledger) (o : ο) {p : Nat} (fresh : heap p = none)
    (b : β) :
    Unique (Function.update held o (some p))
      (released (Function.update heap p (some b)) (held o))
      (ledger ++ [.opened p] ++ closing (held o)) := by
  have taken := (unique.allocLocal fresh b).exchange o
  cases old : held o with
  | none =>
      rw [old] at taken
      show Unique _ _ (ledger ++ [.opened p] ++ [])
      rw [List.append_nil]
      exact beside_iff.mp taken
  | some q =>
      rw [old] at taken
      exact taken.freeLocal

omit [DecidableEq ο] in
/-- The fresh buffer stays when the old one goes. -/
theorem renew_self (unique : Unique held heap ledger) (o : ο) {p : Nat} (fresh : heap p = none)
    (b : β) : released (Function.update heap p (some b)) (held o) p = some b := by
  cases old : held o with
  | none => exact Function.update_self ..
  | some q =>
      have other : p ≠ q := by
        rintro rfl
        exact unique.not_held fresh o old
      show Function.update (Function.update heap p (some b)) q none p = some b
      rw [Function.update_of_ne other, Function.update_self]

omit [DecidableEq ο] in
/-- The buffers of the other owners stay as they are. -/
theorem renew_other (unique : Unique held heap ledger) {o a : ο} {p q : Nat} (ne : a ≠ o)
    (fresh : heap p = none) (holds : held a = some q) (b : β) :
    released (Function.update heap p (some b)) (held o) q = heap q := by
  have notFresh : q ≠ p := by
    rintro rfl
    exact unique.not_held fresh a holds
  cases old : held o with
  | none => exact Function.update_of_ne notFresh ..
  | some r =>
      have notOld : q ≠ r := by
        rintro rfl
        exact ne (unique.inj a o q holds old)
      show Function.update (Function.update heap p (some b)) r none q = heap q
      rw [Function.update_of_ne notOld, Function.update_of_ne notFresh]

end Unique

end CppLab.Owner
