import CppLab.Lib.Ledger
import CppLab.Lib.Pointers

/-!
# `std::shared_ptr` and `std::weak_ptr`

Both point to a control block, which counts them. The object is destroyed when no shared
pointer is left, the block when there is no weak pointer left either. `Store` is this, as
the library does it; an operation is `none` where it would use a block that is not there.

`Sharing` is what it is for: there are no counts, and the object goes when the last
pointer that shares it goes. `abs` forgets the counts, and each operation is the same in
both (`copy_abs`, `release_abs`, …) as long as the counts are right (`Counted`), which each
operation keeps.
-/

namespace CppLab.SharedPtr

/-- A control block. -/
structure Block (β : Type*) where
  object : Option β
  use_count : Nat
  weak_count : Nat
  deriving DecidableEq, Repr

/-- The control blocks, the pointers in the variables of the program, and the objects
that have been constructed and destroyed. -/
structure Store (ο ω β : Type*) where
  block : Nat → Option (Block β)
  shared : ο → Option Nat
  weak : ω → Option Nat
  ledger : List (Entry Nat)

/-- Who shares what. -/
structure Sharing (ο ω β : Type*) where
  object : Nat → Option β
  shared : ο → Option Nat
  weak : ω → Option Nat

variable {ο ω β : Type*}

namespace Store

/-- The program starts. -/
def empty : Store ο ω β := ⟨fun _ => none, fun _ => none, fun _ => none, []⟩

/-- The counts of the block at `p`, if there is one. -/
def uses (s : Store ο ω β) (p : Nat) : Nat := (s.block p).elim 0 (·.use_count)

def weaks (s : Store ο ω β) (p : Nat) : Nat := (s.block p).elim 0 (·.weak_count)

/-- Without the counts. -/
def abs (s : Store ο ω β) : Sharing ο ω β :=
  ⟨fun p => (s.block p).bind (·.object), s.shared, s.weak⟩

variable [DecidableEq ο] [DecidableEq ω]

/-- `std::make_shared`, for the variable `o` and with the block at `p`. -/
def make (s : Store ο ω β) (o : ο) (p : Nat) (b : β) : Option (Store ο ω β) :=
  if s.block p = none ∧ s.shared o = none then
    some { s with
      block := Function.update s.block p (some ⟨some b, 1, 0⟩)
      shared := Function.update s.shared o (some p)
      ledger := s.ledger ++ [.opened p] }
  else none

/-- One more pointer to the block at `p`. -/
def acquire (s : Store ο ω β) (o : ο) (p : Nat) : Option (Store ο ω β) :=
  (s.block p).map fun blk => { s with
    block := Function.update s.block p (some { blk with use_count := blk.use_count + 1 })
    shared := Function.update s.shared o (some p) }

/-- The copy constructor, for the variable `o`. -/
def copy (s : Store ο ω β) (o : ο) (from_ : ο) : Option (Store ο ω β) :=
  if s.shared o = none then
    match s.shared from_ with
    | none => some s
    | some p => s.acquire o p
  else none

/-- The destructor of a shared pointer, with the object that it destroys. -/
def release (s : Store ο ω β) (o : ο) : Option (Store ο ω β × Option β) :=
  match s.shared o with
  | none => some (s, none)
  | some p =>
      (s.block p).bind fun blk =>
        let shared := Function.update s.shared o none
        if blk.use_count = 0 then none
        else if blk.use_count = 1 then
          let left := if blk.weak_count = 0 then none else some ⟨none, 0, blk.weak_count⟩
          some ({ s with
            block := Function.update s.block p left, shared := shared,
            ledger := s.ledger ++ [.closed p] }, blk.object)
        else
          some ({ s with
            block := Function.update s.block p (some { blk with use_count := blk.use_count - 1 })
            shared := shared }, none)

/-- The destructor of a weak pointer. -/
def forget (s : Store ο ω β) (w : ω) : Option (Store ο ω β) :=
  match s.weak w with
  | none => some s
  | some p =>
      (s.block p).bind fun blk =>
        if blk.weak_count = 0 then none
        else
          let left := if blk.weak_count = 1 ∧ blk.use_count = 0 then none
            else some { blk with weak_count := blk.weak_count - 1 }
          some { s with
            block := Function.update s.block p left, weak := Function.update s.weak w none }

/-- A null weak pointer is set to what a shared pointer points to. -/
def observe (s : Store ο ω β) (w : ω) (o : ο) : Option (Store ο ω β) :=
  if s.weak w = none then
    match s.shared o with
    | none => some s
    | some p =>
        (s.block p).map fun blk => { s with
          block := Function.update s.block p (some { blk with weak_count := blk.weak_count + 1 })
          weak := Function.update s.weak w (some p) }
  else none

/-- `w.lock()`, for the variable `o`. -/
def lock (s : Store ο ω β) (o : ο) (w : ω) : Option (Store ο ω β) :=
  if s.shared o = none then
    match s.weak w with
    | none => some s
    | some p => (s.block p).bind fun blk => if blk.use_count = 0 then some s else s.acquire o p
  else none

/-- `o.use_count()`. -/
def use_count (s : Store ο ω β) (o : ο) : Option Nat :=
  match s.shared o with
  | none => some 0
  | some p => (s.block p).map (·.use_count)

/-- `w.expired()`. -/
def expired (s : Store ο ω β) (w : ω) : Option Bool :=
  match s.weak w with
  | none => some true
  | some p => (s.block p).map fun blk => decide (blk.use_count = 0)

/-- `*o`. -/
def get (s : Store ο ω β) (o : ο) : Option β :=
  (s.shared o).bind fun p => (s.block p).bind (·.object)

/-- `*o` is changed. -/
def set (s : Store ο ω β) (o : ο) (b : β) : Option (Store ο ω β) :=
  (s.shared o).bind fun p => (s.block p).bind fun blk => blk.object.map fun _ =>
    { s with block := Function.update s.block p (some { blk with object := some b }) }

end Store

/-! ## Sharing -/

namespace Sharing

variable [DecidableEq ο] [DecidableEq ω]

open Classical in
/-- Nothing points to `p`. -/
noncomputable def make (t : Sharing ο ω β) (o : ο) (p : Nat) (b : β) : Option (Sharing ο ω β) :=
  if (∀ o', t.shared o' ≠ some p) ∧ (∀ w, t.weak w ≠ some p) ∧ t.shared o = none then
    some { t with
      object := Function.update t.object p (some b)
      shared := Function.update t.shared o (some p) }
  else none

def copy (t : Sharing ο ω β) (o from_ : ο) : Option (Sharing ο ω β) :=
  if t.shared o = none then some { t with shared := Function.update t.shared o (t.shared from_) }
  else none

open Classical in
/-- The object is destroyed unless another pointer shares it. -/
noncomputable def release (t : Sharing ο ω β) (o : ο) : Option (Sharing ο ω β × Option β) :=
  let shared := Function.update t.shared o none
  match t.shared o with
  | none => some (t, none)
  | some p =>
      if ∃ o', shared o' = some p then some ({ t with shared := shared }, none)
      else some ({ t with object := Function.update t.object p none, shared := shared }, t.object p)

def forget (t : Sharing ο ω β) (w : ω) : Option (Sharing ο ω β) :=
  some { t with weak := Function.update t.weak w none }

def observe (t : Sharing ο ω β) (w : ω) (o : ο) : Option (Sharing ο ω β) :=
  if t.weak w = none then some { t with weak := Function.update t.weak w (t.shared o) } else none

/-- What a weak pointer points to is shared. -/
def Seen (t : Sharing ο ω β) (w : ω) : Prop := ∃ p, t.weak w = some p ∧ ∃ o, t.shared o = some p

open Classical in
/-- The pointer is null when nothing shares the object any more. -/
noncomputable def lock (t : Sharing ο ω β) (o : ο) (w : ω) : Option (Sharing ο ω β) :=
  if t.shared o = none then
    if t.Seen w then some { t with shared := Function.update t.shared o (t.weak w) } else some t
  else none

/-- How many pointers share the object. -/
noncomputable def use_count (t : Sharing ο ω β) (o : ο) : Option Nat :=
  some {o' | ∃ p, t.shared o = some p ∧ t.shared o' = some p}.ncard

open Classical in
noncomputable def expired (t : Sharing ο ω β) (w : ω) : Option Bool := some (decide ¬ t.Seen w)

def get (t : Sharing ο ω β) (o : ο) : Option β := (t.shared o).bind t.object

def set (t : Sharing ο ω β) (o : ο) (b : β) : Option (Sharing ο ω β) :=
  (t.shared o).bind fun p => (t.object p).map fun _ =>
    { t with object := Function.update t.object p (some b) }

end Sharing

/-! ## Counts that are right -/

/-- The counts are the numbers of pointers, an object is there as long as it is shared, and
a block as long as anything points to it. -/
structure Counted (s : Store ο ω β) : Prop where
  uses : ∀ p, Points s.shared p (s.uses p)
  weaks : ∀ p, Points s.weak p (s.weaks p)
  object : ∀ p blk, s.block p = some blk → (blk.object ≠ none ↔ blk.use_count ≠ 0)
  kept : ∀ p blk, s.block p = some blk → blk.use_count ≠ 0 ∨ blk.weak_count ≠ 0
  book : ∃ names, Ledger.replay s.ledger = some names ∧
    ∀ p, p ∈ names ↔ s.abs.object p ≠ none

/-- The counted store and what it stands for. -/
def Agree (s : Store ο ω β) (t : Sharing ο ω β) : Prop := Counted s ∧ t = s.abs

theorem counted_empty : Counted (Store.empty : Store ο ω β) where
  uses p := .zero fun _ => nofun
  weaks p := .zero fun _ => nofun
  object p blk there := nomatch there
  kept p blk there := nomatch there
  book := ⟨[], rfl, fun p => by simp [Store.abs, Store.empty]⟩

/-- What a step does to the ledger. -/
inductive Booked (p : Nat) (was now : Option β) : List (Entry Nat) → Prop
  | same (as_ : was = none ↔ now = none) : Booked p was now []
  | opened (fresh : was = none) (there : now ≠ none) : Booked p was now [.opened p]
  | closed (there : was ≠ none) (gone : now = none) : Booked p was now [.closed p]

section

variable {s : Store ο ω β} {p : Nat} {left : Option (Block β)} {shared : ο → Option Nat}
  {weak : ω → Option Nat} {entries : List (Entry Nat)}

variable (s p left shared weak entries) in
theorem abs_change :
    Store.abs ⟨Function.update s.block p left, shared, weak, s.ledger ++ entries⟩ =
      ⟨Function.update s.abs.object p (left.bind (·.object)), shared, weak⟩ := by
  simp only [Store.abs, Sharing.mk.injEq, and_true]
  funext q
  by_cases here : q = p
  · subst here
    simp only [Function.update_self]
  · simp only [Function.update_of_ne here]

/-- What is booked opens the object at `p` and closes it again. -/
theorem Booked.replay {object : Nat → Option β} {now : Option β} {ledger : List (Entry Nat)}
    {names : List Nat} (booked : Booked p (object p) now entries)
    (replay : Ledger.replay ledger = some names) (open_ : ∀ q, q ∈ names ↔ object q ≠ none) :
    ∃ names', Ledger.replay (ledger ++ entries) = some names' ∧
      ∀ q, q ∈ names' ↔ Function.update object p now q ≠ none := by
  have elsewhere : ∀ q ≠ p, Function.update object p now q = object q :=
    fun q other => Function.update_of_ne other _ _
  cases booked with
  | same as_ =>
      refine ⟨names, by rwa [List.append_nil], fun q => ?_⟩
      by_cases here : q = p
      · subst here
        rw [open_, Function.update_self, ne_eq, ne_eq, as_]
      · rw [open_, elsewhere q here]
  | opened fresh there =>
      have new : p ∉ names := fun member => (open_ p).mp member fresh
      refine ⟨p :: names, Ledger.replay_concat replay (Ledger.record_opened new), fun q => ?_⟩
      by_cases here : q = p
      · subst here
        rw [Function.update_self]
        exact iff_of_true List.mem_cons_self there
      · rw [elsewhere q here, ← open_, List.mem_cons]
        exact or_iff_right here
  | closed there gone =>
      have member : p ∈ names := (open_ p).mpr there
      refine ⟨names.erase p, Ledger.replay_concat replay (Ledger.record_closed member),
        fun q => ?_⟩
      by_cases here : q = p
      · subst here
        rw [Function.update_self]
        exact iff_of_false (Ledger.replay_nodup replay).not_mem_erase (not_not.mpr gone)
      · rw [elsewhere q here, ← open_, List.mem_erase_of_ne here]

/-- A step that changes the block at `p` and pointers to it has to be right there. -/
theorem Counted.change (counted : Counted s) (left : Option (Block β))
    (sharedElse : ∀ q ≠ p, ∀ o, shared o = some q ↔ s.shared o = some q)
    (weakElse : ∀ q ≠ p, ∀ w, weak w = some q ↔ s.weak w = some q)
    (uses : Points shared p (left.elim 0 (·.use_count)))
    (weaks : Points weak p (left.elim 0 (·.weak_count)))
    (object : ∀ blk, left = some blk → (blk.object ≠ none ↔ blk.use_count ≠ 0))
    (kept : ∀ blk, left = some blk → blk.use_count ≠ 0 ∨ blk.weak_count ≠ 0)
    (booked : Booked p (s.abs.object p) (left.bind (·.object)) entries) :
    Counted ⟨Function.update s.block p left, shared, weak, s.ledger ++ entries⟩ := by
  constructor
  · intro q
    by_cases here : q = p
    · subst here
      simpa only [Store.uses, Function.update_self] using uses
    · simpa only [Store.uses, Function.update_of_ne here] using
        (counted.uses q).congr (sharedElse q here)
  · intro q
    by_cases here : q = p
    · subst here
      simpa only [Store.weaks, Function.update_self] using weaks
    · simpa only [Store.weaks, Function.update_of_ne here] using
        (counted.weaks q).congr (weakElse q here)
  · intro q blk there
    by_cases here : q = p
    · subst here
      exact object blk (by simpa only [Function.update_self] using there)
    · exact counted.object q blk (by simpa only [Function.update_of_ne here] using there)
  · intro q blk there
    by_cases here : q = p
    · subst here
      exact kept blk (by simpa only [Function.update_self] using there)
    · exact counted.kept q blk (by simpa only [Function.update_of_ne here] using there)
  · obtain ⟨names, replay, open_⟩ := counted.book
    rw [abs_change s p left shared weak entries]
    exact booked.replay replay open_

theorem abs_object {blk : Block β} (here : s.block p = some blk) :
    s.abs.object p = blk.object := by
  show (s.block p).bind _ = _
  rw [here]
  rfl

/-- A step that changes the counts of a block, and not whether it is shared. -/
theorem Counted.recount (counted : Counted s) {blk : Block β} (here : s.block p = some blk)
    (sharedElse : ∀ q ≠ p, ∀ o, shared o = some q ↔ s.shared o = some q)
    (weakElse : ∀ q ≠ p, ∀ w, weak w = some q ↔ s.weak w = some q) {u w : Nat}
    (uses : Points shared p u) (weaks : Points weak p w)
    (still : u ≠ 0 ↔ blk.use_count ≠ 0) (kept : u ≠ 0 ∨ w ≠ 0) :
    Agree ⟨Function.update s.block p (some ⟨blk.object, u, w⟩), shared, weak, s.ledger⟩
      ⟨s.abs.object, shared, weak⟩ := by
  have same : s.abs.object p = blk.object := abs_object here
  have change := counted.change (some ⟨blk.object, u, w⟩) sharedElse weakElse uses weaks
    (by rintro _ ⟨⟩; rw [still]; exact counted.object p blk here) (by rintro _ ⟨⟩; exact kept)
    (.same (by rw [same]; rfl))
  have abs := abs_change s p (some ⟨blk.object, u, w⟩) shared weak []
  rw [List.append_nil] at change abs
  refine ⟨change, ?_⟩
  rw [abs, Option.bind_some, ← same, Function.update_eq_self]

/-- The counts of a block are those of the pointers to it. -/
theorem Counted.counts (counted : Counted s) {blk : Block β} (here : s.block p = some blk) :
    Points s.shared p blk.use_count ∧ Points s.weak p blk.weak_count := by
  have uses := counted.uses p
  have weaks := counted.weaks p
  unfold Store.uses at uses
  unfold Store.weaks at weaks
  rw [here] at uses weaks
  exact ⟨uses, weaks⟩

/-- What a shared pointer points to is there. -/
theorem Counted.block_of_shared (counted : Counted s) {o : ο} (here : s.shared o = some p) :
    ∃ blk, s.block p = some blk ∧ blk.use_count ≠ 0 ∧ Points s.shared p blk.use_count ∧
      Points s.weak p blk.weak_count := by
  have some_ : s.uses p ≠ 0 := (counted.uses p).ne_zero_iff.mpr ⟨o, here⟩
  unfold Store.uses at some_
  cases there : s.block p with
  | none => exact absurd (by rw [there]; rfl) some_
  | some blk =>
      rw [there] at some_
      exact ⟨blk, rfl, some_, counted.counts there⟩

theorem Counted.block_of_weak (counted : Counted s) {w : ω} (here : s.weak w = some p) :
    ∃ blk, s.block p = some blk ∧ blk.weak_count ≠ 0 ∧ Points s.shared p blk.use_count ∧
      Points s.weak p blk.weak_count := by
  have some_ : s.weaks p ≠ 0 := (counted.weaks p).ne_zero_iff.mpr ⟨w, here⟩
  unfold Store.weaks at some_
  cases there : s.block p with
  | none => exact absurd (by rw [there]; rfl) some_
  | some blk =>
      rw [there] at some_
      exact ⟨blk, rfl, some_, counted.counts there⟩

/-- The last shared pointer goes: the object is deleted, and the block too unless it is
observed. -/
theorem Counted.lastGone (counted : Counted s) {blk : Block β} (here : s.block p = some blk)
    (some_ : blk.use_count ≠ 0)
    (sharedElse : ∀ q ≠ p, ∀ o, shared o = some q ↔ s.shared o = some q)
    (zero : Points shared p 0) :
    Agree ⟨Function.update s.block p
        (if blk.weak_count = 0 then none else some ⟨none, 0, blk.weak_count⟩),
        shared, s.weak, s.ledger ++ [.closed p]⟩
      ⟨Function.update s.abs.object p none, shared, s.weak⟩ := by
  have weaks := (counted.counts here).2
  generalize made : (if blk.weak_count = 0 then none
    else some (⟨none, 0, blk.weak_count⟩ : Block β)) = left
  have facts : left.elim 0 (·.use_count) = 0 ∧ left.elim 0 (·.weak_count) = blk.weak_count ∧
      left.bind (·.object) = none ∧ ∀ b, left = some b → b = ⟨none, 0, blk.weak_count⟩ ∧
        blk.weak_count ≠ 0 := by
    subst made
    split
    · rename_i unseen
      refine ⟨rfl, unseen.symm, rfl, ?_⟩
      intro b absent
      cases absent
    · rename_i seen
      exact ⟨rfl, rfl, rfl, fun b same => ⟨(Option.some.inj same).symm, seen⟩⟩
  obtain ⟨uses', weaks', gone, is⟩ := facts
  rw [← gone]
  refine ⟨counted.change left sharedElse (fun _ _ _ => .rfl) ?_ ?_ ?_ ?_ ?_, ?_⟩
  · rw [uses']
    exact zero
  · rw [weaks']
    exact weaks
  · intro b there
    obtain ⟨rfl, -⟩ := is b there
    exact iff_of_false (not_not.mpr rfl) (not_not.mpr rfl)
  · intro b there
    obtain ⟨rfl, seen⟩ := is b there
    exact .inr seen
  · refine .closed ?_ gone
    rw [abs_object here]
    exact (counted.object p blk here).mpr some_
  · exact (abs_change s p left _ _ _).symm

/-- An address is free when nothing points there. -/
theorem Counted.free_iff (counted : Counted s) :
    s.block p = none ↔ (∀ o, s.shared o ≠ some p) ∧ ∀ w, s.weak w ≠ some p := by
  have uses := counted.uses p
  have weaks := counted.weaks p
  rw [← uses.eq_zero_iff, ← weaks.eq_zero_iff]
  unfold Store.uses Store.weaks
  cases there : s.block p with
  | none => exact iff_of_true rfl ⟨rfl, rfl⟩
  | some blk =>
      refine iff_of_false nofun fun zero => ?_
      rcases counted.kept p blk there with some_ | some_
      · exact some_ zero.1
      · exact some_ zero.2

/-- An object is there as long as it is shared. -/
theorem Counted.object_iff (counted : Counted s) :
    s.abs.object p ≠ none ↔ ∃ o, s.shared o = some p := by
  constructor
  · intro there
    cases here : s.block p with
    | none => exact absurd (show (s.block p).bind (·.object) = none by rw [here]; rfl) there
    | some blk =>
        have uses := counted.uses p
        rw [Store.uses, here] at uses
        rw [abs_object here] at there
        exact uses.ne_zero_iff.mp ((counted.object p blk here).mp there)
  · rintro ⟨o, there⟩
    obtain ⟨blk, here, some_, -⟩ := counted.block_of_shared there
    rw [abs_object here]
    exact (counted.object p blk here).mpr some_

end

/-! ## The operations keep the counts right -/

section

variable {s : Store ο ω β}

theorem use_count_agree (counted : Counted s) (o : ο) : s.use_count o = s.abs.use_count o := by
  unfold Store.use_count Sharing.use_count
  have same : s.abs.shared = s.shared := rfl
  rw [same]
  cases there : s.shared o with
  | none =>
      have nobody : {o' | ∃ p, none = some p ∧ s.shared o' = some p} = ∅ :=
        Set.eq_empty_of_forall_notMem fun o' ⟨_, null, _⟩ => nomatch null
      rw [nobody, Set.ncard_empty]
  | some p =>
      obtain ⟨blk, here, -, uses, -⟩ := counted.block_of_shared there
      have those : {o' | ∃ q, some p = some q ∧ s.shared o' = some q} =
          {o' | s.shared o' = some p} := by
        ext o'
        exact ⟨fun ⟨_, same, at_⟩ => same ▸ at_, fun at_ => ⟨p, rfl, at_⟩⟩
      rw [those, uses.ncard]
      simp only [here, Option.map_some]

theorem not_seen (s : Store ο ω β) {w : ω} (there : s.weak w = none) : ¬ s.abs.Seen w := by
  rintro ⟨p, at_, -⟩
  exact absurd (there.symm.trans at_) nofun

/-- What a weak pointer points to is shared unless the count of the block is zero. -/
theorem seen_iff (counted : Counted s) {w : ω} {p : Nat} {blk : Block β}
    (there : s.weak w = some p) (here : s.block p = some blk) :
    s.abs.Seen w ↔ blk.use_count ≠ 0 := by
  obtain ⟨blk', here', -, uses, -⟩ := counted.block_of_weak there
  obtain rfl := Option.some.inj (here.symm.trans here')
  rw [uses.ne_zero_iff]
  constructor
  · rintro ⟨q, at_, shared⟩
    obtain rfl := Option.some.inj (there.symm.trans at_)
    exact shared
  · exact fun shared => ⟨p, there, shared⟩

open Classical in
theorem expired_agree (counted : Counted s) (w : ω) : s.expired w = s.abs.expired w := by
  unfold Store.expired Sharing.expired
  cases there : s.weak w with
  | none =>
      simp only [not_seen s there, not_false_eq_true, decide_true]
  | some p =>
      obtain ⟨blk, here, -⟩ := counted.block_of_weak there
      simp only [here, Option.map_some, seen_iff counted there here, not_not]

theorem set_agree (counted : Counted s) (o : ο) (b : β) :
    Option.Rel Agree (s.set o b) (s.abs.set o b) := by
  unfold Store.set Sharing.set
  have same : s.abs.shared = s.shared := rfl
  rw [same]
  cases there : s.shared o with
  | none => exact .none
  | some p =>
      obtain ⟨blk, here, some_, uses, weaks⟩ := counted.block_of_shared there
      have object := abs_object here
      have full := (counted.object p blk here).mpr some_
      obtain ⟨old, old_⟩ := Option.ne_none_iff_exists'.mp full
      simp only [Option.bind_some, here, object, old_, Option.map_some]
      have booked : Booked p (s.abs.object p) (some b) [] := by
        refine .same ?_
        rw [object, old_]
        exact iff_of_false nofun nofun
      have change := counted.change (some { blk with object := some b }) (fun _ _ _ => .rfl)
        (fun _ _ _ => .rfl) uses weaks
        (by rintro _ ⟨⟩; exact iff_of_true nofun some_) (by rintro _ ⟨⟩; exact .inl some_) booked
      have abs := abs_change s p (some { blk with object := some b }) s.shared s.weak []
      rw [List.append_nil] at change abs
      exact .some ⟨change, abs.symm⟩

section

variable [DecidableEq ο]

theorem make_agree (counted : Counted s) (o : ο) (p : Nat) (b : β) :
    Option.Rel Agree (s.make o p b) (s.abs.make o p b) := by
  unfold Store.make Sharing.make
  by_cases free : s.block p = none ∧ s.shared o = none
  · obtain ⟨noShared, noWeak⟩ := counted.free_iff.mp free.1
    rw [if_pos free, if_pos ⟨noShared, noWeak, free.2⟩]
    refine .some ⟨?_, (abs_change s p (some ⟨some b, 1, 0⟩) _ _ _).symm⟩
    have gone : s.abs.object p = none := by
      show (s.block p).bind _ = none
      rw [free.1]
      rfl
    refine counted.change _ (Points.update_else (.inl free.2) (.inr rfl)) (fun _ _ _ => .rfl)
      ((Points.zero noShared).gain (noShared o)) (.zero noWeak) ?_ ?_ (.opened gone nofun)
    · rintro blk ⟨⟩
      exact iff_of_true nofun nofun
    · rintro blk ⟨⟩
      exact .inl nofun
  · rw [if_neg free, if_neg]
    · exact .none
    · exact fun ⟨noShared, noWeak, empty⟩ => free ⟨counted.free_iff.mpr ⟨noShared, noWeak⟩, empty⟩

/-- One more pointer to an object that is shared. -/
theorem acquire_agree (counted : Counted s) {o o' : ο} {p : Nat} (empty : s.shared o = none)
    (there : s.shared o' = some p) : Option.Rel Agree (s.acquire o p)
      (some { s.abs with shared := Function.update s.abs.shared o (some p) }) := by
  obtain ⟨blk, here, some_, uses, weaks⟩ := counted.block_of_shared there
  unfold Store.acquire
  rw [here]
  have away : s.shared o ≠ some p := by simp [empty]
  exact .some (counted.recount here (Points.update_else (.inl empty) (.inr rfl))
    (fun _ _ _ => .rfl) (uses.gain away) weaks (iff_of_true nofun some_) (.inl nofun))

theorem copy_agree (counted : Counted s) (o from_ : ο) :
    Option.Rel Agree (s.copy o from_) (s.abs.copy o from_) := by
  unfold Store.copy Sharing.copy
  have same : s.abs.shared = s.shared := rfl
  rw [same]
  by_cases empty : s.shared o = none
  · rw [if_pos empty, if_pos empty]
    cases there : s.shared from_ with
    | none =>
        refine .some ⟨counted, ?_⟩
        rw [← empty, Function.update_eq_self]
        rfl
    | some p => exact acquire_agree counted empty there
  · rw [if_neg empty, if_neg empty]
    exact .none

theorem release_agree (counted : Counted s) (o : ο) :
    Option.Rel (fun r u => Agree r.1 u.1 ∧ r.2 = u.2) (s.release o) (s.abs.release o) := by
  unfold Store.release Sharing.release
  have same : s.abs.shared = s.shared := rfl
  rw [same]
  cases there : s.shared o with
  | none => exact .some ⟨⟨counted, rfl⟩, rfl⟩
  | some p =>
      obtain ⟨blk, here, some_, uses, weaks⟩ := counted.block_of_shared there
      obtain ⟨-, fewer⟩ := uses.lose there (q := none) nofun
      have elsewhere := Points.update_else (f := s.shared) (.inr there) (.inl rfl : none = none ∨ _)
      have object := abs_object here
      simp only [here, Option.bind_some, if_neg some_]
      by_cases last : blk.use_count = 1
      · have nobody : ¬ ∃ o', Function.update s.shared o none o' = some p := by
          rw [← fewer.ne_zero_iff, last]
          simp
        rw [if_pos last, if_neg nobody, object]
        rw [last] at fewer
        exact .some ⟨counted.lastGone here some_ elsewhere fewer, rfl⟩
      · have others : ∃ o', Function.update s.shared o none o' = some p :=
          fewer.ne_zero_iff.mp (by omega)
        rw [if_neg last, if_pos others]
        exact .some ⟨counted.recount here elsewhere (fun _ _ _ => .rfl) fewer weaks
          (iff_of_true (by omega) some_) (.inl (by omega)), rfl⟩

theorem lock_agree (counted : Counted s) (o : ο) (w : ω) :
    Option.Rel Agree (s.lock o w) (s.abs.lock o w) := by
  unfold Store.lock Sharing.lock
  have same : s.abs.shared = s.shared ∧ s.abs.weak = s.weak := ⟨rfl, rfl⟩
  rw [same.1, same.2]
  by_cases empty : s.shared o = none
  · rw [if_pos empty, if_pos empty]
    cases there : s.weak w with
    | none =>
        rw [if_neg (not_seen s there)]
        exact .some ⟨counted, rfl⟩
    | some p =>
        obtain ⟨blk, here, -⟩ := counted.block_of_weak there
        have iff := seen_iff counted there here
        simp only [here, Option.bind_some]
        by_cases gone : blk.use_count = 0
        · rw [if_pos gone, if_neg (fun seen => iff.mp seen gone)]
          exact .some ⟨counted, rfl⟩
        · obtain ⟨q, at_, o', shared⟩ := iff.mpr gone
          obtain rfl := Option.some.inj (there.symm.trans at_)
          rw [if_neg gone, if_pos (iff.mpr gone)]
          exact acquire_agree counted empty shared
  · rw [if_neg empty, if_neg empty]
    exact .none

end

section

variable [DecidableEq ω]

theorem observe_agree (counted : Counted s) (w : ω) (o : ο) :
    Option.Rel Agree (s.observe w o) (s.abs.observe w o) := by
  unfold Store.observe Sharing.observe
  have same : s.abs.shared = s.shared ∧ s.abs.weak = s.weak := ⟨rfl, rfl⟩
  rw [same.1, same.2]
  by_cases empty : s.weak w = none
  · rw [if_pos empty, if_pos empty]
    cases there : s.shared o with
    | none =>
        refine .some ⟨counted, ?_⟩
        rw [← empty, Function.update_eq_self]
        rfl
    | some p =>
        obtain ⟨blk, here, some_, uses, weaks⟩ := counted.block_of_shared there
        have away : s.weak w ≠ some p := by simp [empty]
        simp only [here, Option.map_some]
        exact .some (counted.recount here (fun _ _ _ => .rfl)
          (Points.update_else (.inl empty) (.inr rfl)) uses (weaks.gain away) .rfl (.inl some_))
  · rw [if_neg empty, if_neg empty]
    exact .none

theorem forget_agree (counted : Counted s) (w : ω) :
    Option.Rel Agree (s.forget w) (s.abs.forget w) := by
  unfold Store.forget Sharing.forget
  have same : s.abs.weak = s.weak := rfl
  rw [same]
  cases there : s.weak w with
  | none =>
      refine .some ⟨counted, ?_⟩
      rw [← there, Function.update_eq_self]
      rfl
  | some p =>
      obtain ⟨blk, here, some_, uses, weaks⟩ := counted.block_of_weak there
      obtain ⟨-, fewer⟩ := weaks.lose there (q := none) nofun
      have elsewhere := Points.update_else (f := s.weak) (.inr there) (.inl rfl : none = none ∨ _)
      have object := abs_object here
      simp only [here, Option.bind_some, if_neg some_]
      by_cases last : blk.weak_count = 1 ∧ blk.use_count = 0
      · have gone : blk.object = none := by
          by_contra full
          exact (counted.object p blk here).mp full last.2
        have booked : Booked p (s.abs.object p) none [] := by
          refine .same ?_
          rw [object, gone]
        rw [if_pos last]
        rw [last.1] at fewer
        rw [last.2] at uses
        have change := counted.change none (fun _ _ _ => .rfl) elsewhere uses fewer nofun nofun
          booked
        have abs := abs_change s p none s.shared (Function.update s.weak w none) []
        have self : Function.update s.abs.object p none = s.abs.object := by
          rw [← gone, ← object, Function.update_eq_self]
        rw [List.append_nil] at change abs
        rw [Option.bind_none, self] at abs
        exact .some ⟨change, abs.symm⟩
      · rw [if_neg last]
        exact .some (counted.recount here (fun _ _ _ => .rfl) elsewhere uses fewer .rfl (by omega))

end

end

/-! ## What a program uses -/

/-- The operations on the pointers in the variables of a program. -/
structure Api (σ ο ω β : Type*) where
  make : σ → ο → Nat → β → Option σ
  copy : σ → ο → ο → Option σ
  release : σ → ο → Option (σ × Option β)
  forget : σ → ω → Option σ
  observe : σ → ω → ο → Option σ
  lock : σ → ο → ω → Option σ
  use_count : σ → ο → Option Nat
  expired : σ → ω → Option Bool
  null : σ → ο → Bool
  get : σ → ο → Option β
  set : σ → ο → β → Option σ

variable [DecidableEq ο] [DecidableEq ω]

def Store.api : Api (Store ο ω β) ο ω β where
  make := Store.make
  copy := Store.copy
  release := Store.release
  forget := Store.forget
  observe := Store.observe
  lock := Store.lock
  use_count := Store.use_count
  expired := Store.expired
  null s o := (s.shared o).isNone
  get := Store.get
  set := Store.set

noncomputable def Sharing.api : Api (Sharing ο ω β) ο ω β where
  make := Sharing.make
  copy := Sharing.copy
  release := Sharing.release
  forget := Sharing.forget
  observe := Sharing.observe
  lock := Sharing.lock
  use_count := Sharing.use_count
  expired := Sharing.expired
  null t o := (t.shared o).isNone
  get := Sharing.get
  set := Sharing.set

end CppLab.SharedPtr
