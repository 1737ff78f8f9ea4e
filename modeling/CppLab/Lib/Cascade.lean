import CppLab.Lib.Forest

/-!
# Deletions that cascade

An object that owns others deletes them in its destructor. `Estate.delete` follows
the recursion over the lists `kids`, over the objects that are alive: a deletion that
has begun takes its object out, and the log has an entry for every deletion, also for
one of an object that is not alive any more. So "nothing is deleted twice" is a
statement about the log.

* `destroy` is the deletion with fuel that is enough, whatever the lists are;
* `Later` is what every deletion does to the two records;
* `destroy_forest` is the deletion in a forest of live objects.
-/

namespace CppLab

variable {α : Type*} [DecidableEq α]

/-- The objects alive, and those deleted, in the order in which their destructors
ended. -/
structure Estate (α : Type*) where
  live : Finset α
  deleted : List α

namespace Estate

/-- A destructor starts. -/
def enter (e : Estate α) (n : α) : Estate α := { e with live := e.live.erase n }

/-- A deletion ends. -/
def leave (e : Estate α) (n : α) : Estate α := { e with deleted := e.deleted ++ [n] }

/-- `delete n`, as far as the fuel goes. -/
def delete (kids : α → List α) : Nat → Estate α → α → Option (Estate α)
  | 0, _, _ => none
  | fuel + 1, e, n =>
      if n ∈ e.live then
        ((kids n).foldlM (delete kids fuel) (e.enter n)).map fun e => e.leave n
      else some (e.leave n)

variable {kids : α → List α}

/-! ## Construction -/

/-- What has been constructed is alive or has been deleted, one object more included. -/
theorem known_insert {κ : Type*} {kind : α → Option κ} {e : Estate α}
    (there : ∀ m, kind m ≠ none ↔ m ∈ e.live ∨ m ∈ e.deleted) (n : α) (k : κ) (m : α) :
    Function.update kind n (some k) m ≠ none ↔ m ∈ insert n e.live ∨ m ∈ e.deleted := by
  rw [Finset.mem_insert]
  by_cases this : m = n
  · rw [this, Function.update_self]
    exact iff_of_true (Option.some_ne_none k) (.inl (.inl rfl))
  · rw [Function.update_of_ne this, there]
    simp [this]

/-- A new object has not been deleted. -/
theorem not_mem_insert {e : Estate α} (apart : ∀ m, m ∈ e.deleted → m ∉ e.live) {n m : α}
    (new : n ∉ e.deleted) (deleted : m ∈ e.deleted) : m ∉ insert n e.live := by
  rw [Finset.mem_insert, not_or]
  exact ⟨fun same => new (same ▸ deleted), apart m deleted⟩

/-! ## Fuel -/

omit [DecidableEq α] in
/-- Deletions in turn, each of which takes something out or leaves all as it is. -/
theorem exists_foldlM {visit : Estate α → α → Option (Estate α)} {bound : Finset α}
    (each : ∀ e n, e.live ⊆ bound → ∃ e', visit e n = some e' ∧ e'.live ⊆ e.live) (cs : List α)
    {e : Estate α} (inside : e.live ⊆ bound) :
    ∃ e', cs.foldlM visit e = some e' ∧ e'.live ⊆ e.live := by
  induction cs generalizing e with
  | nil => exact ⟨e, rfl, Finset.Subset.refl _⟩
  | cons c cs ih =>
      obtain ⟨e₁, first, fewer⟩ := each e c inside
      obtain ⟨e₂, rest, fewer'⟩ := ih (fewer.trans inside)
      refine ⟨e₂, ?_, fewer'.trans fewer⟩
      rw [List.foldlM_cons, first]
      exact rest

/-- A deletion ends: every level of the recursion takes one live object out. -/
theorem exists_delete {fuel : Nat} {e : Estate α} (enough : e.live.card < fuel) (n : α) :
    ∃ e', delete kids fuel e n = some e' ∧ e'.live ⊆ e.live := by
  induction fuel generalizing e n with
  | zero => exact absurd enough (Nat.not_lt_zero _)
  | succ fuel ih =>
      rw [delete]
      split
      · rename_i alive
        have fewer : (e.enter n).live.card < fuel := by
          have := Finset.card_erase_lt_of_mem alive
          show (e.live.erase n).card < fuel
          omega
        have each : ∀ e' m, e'.live ⊆ (e.enter n).live →
            ∃ e₁, delete kids fuel e' m = some e₁ ∧ e₁.live ⊆ e'.live := fun e' m sub =>
          ih (Nat.lt_of_le_of_lt (Finset.card_le_card sub) fewer) m
        obtain ⟨e', all, inside⟩ := exists_foldlM each (kids n) (Finset.Subset.refl _)
        rw [all]
        exact ⟨e'.leave n, rfl, inside.trans (Finset.erase_subset _ _)⟩
      · exact ⟨e.leave n, rfl, Finset.Subset.refl _⟩

/-- More fuel makes no difference. -/
theorem delete_mono {fuel : Nat} {e e' : Estate α} {n : α}
    (h : delete kids fuel e n = some e') (extra : Nat) :
    delete kids (fuel + extra) e n = some e' := by
  induction fuel generalizing e e' n with
  | zero => cases h
  | succ fuel ih =>
      have loop : ∀ (cs : List α) (e e' : Estate α),
          cs.foldlM (delete kids fuel) e = some e' →
            cs.foldlM (delete kids (fuel + extra)) e = some e' := by
        intro cs
        induction cs with
        | nil => exact fun e e' h => h
        | cons c cs ihc =>
            intro e e' h
            rw [List.foldlM_cons] at h ⊢
            obtain ⟨e₁, first, rest⟩ := Option.bind_eq_some_iff.mp h
            exact Option.bind_eq_some_iff.mpr ⟨e₁, ih first, ihc e₁ e' rest⟩
      rw [Nat.add_right_comm]
      rw [delete] at h ⊢
      split at h
      · obtain ⟨e₁, all, rfl⟩ := Option.map_eq_some_iff.mp h
        rw [if_pos ‹_›, loop _ _ _ all]
        rfl
      · rw [if_neg ‹_›]
        exact h

/-- `delete n`: every deletion ends. -/
def destroy (kids : α → List α) (e : Estate α) (n : α) : Estate α :=
  (delete kids (e.live.card + 1) e n).getD e

theorem delete_eq_destroy (kids : α → List α) (e : Estate α) (n : α) :
    delete kids (e.live.card + 1) e n = some (destroy kids e n) := by
  obtain ⟨e', ends, -⟩ : ∃ e', delete kids (e.live.card + 1) e n = some e' ∧ e'.live ⊆ e.live :=
    exists_delete (Nat.lt_succ_self e.live.card) n
  rw [destroy, ends]
  rfl

/-- Any amount of fuel that is enough gives the same. -/
theorem destroy_eq_of_delete {fuel : Nat} {e e' : Estate α} {n : α}
    (h : delete kids fuel e n = some e') : destroy kids e n = e' := by
  have here := delete_mono (delete_eq_destroy kids e n) fuel
  rw [Nat.add_comm, delete_mono h] at here
  exact (Option.some.inj here).symm

/-! ## What a deletion does -/

/-- From `e` to `e'` some objects have been deleted: what is not alive any more has an
entry in the log, and what has a new entry is not alive. -/
def Later (e e' : Estate α) : Prop :=
  e'.live ⊆ e.live ∧ ∃ log, e'.deleted = e.deleted ++ log ∧
    (∀ m ∈ e.live, m ∉ e'.live → m ∈ log) ∧ ∀ m ∈ log, m ∉ e'.live

omit [DecidableEq α] in
theorem Later.refl (e : Estate α) : Later e e :=
  ⟨Finset.Subset.refl _, [], (List.append_nil _).symm, fun _ alive dead => absurd alive dead,
    fun _ member => absurd member List.not_mem_nil⟩

theorem Later.trans {e e₁ e₂ : Estate α} (first : Later e e₁) (second : Later e₁ e₂) :
    Later e e₂ := by
  obtain ⟨fewer₁, log₁, deleted₁, gone₁, dead₁⟩ := first
  obtain ⟨fewer₂, log₂, deleted₂, gone₂, dead₂⟩ := second
  refine ⟨fewer₂.trans fewer₁, log₁ ++ log₂, ?_, ?_, ?_⟩
  · rw [deleted₂, deleted₁, List.append_assoc]
  · intro m alive dead
    by_cases between : m ∈ e₁.live
    · exact List.mem_append_right _ (gone₂ m between dead)
    · exact List.mem_append_left _ (gone₁ m alive between)
  · intro m member
    rcases List.mem_append.mp member with before | last
    · exact fun alive => dead₁ m before (fewer₂ alive)
    · exact dead₂ m last

/-- A destructor that has ended. -/
theorem Later.leave {e e₁ : Estate α} {n : α} (body : Later (e.enter n) e₁) :
    Later e (e₁.leave n) := by
  obtain ⟨fewer, log, deleted, gone, dead⟩ := body
  refine ⟨fewer.trans (Finset.erase_subset _ _), log ++ [n], ?_, ?_, ?_⟩
  · show e₁.deleted ++ [n] = _
    rw [deleted, ← List.append_assoc]
    rfl
  · intro m alive last
    by_cases this : m = n
    · exact List.mem_append_right _ (List.mem_singleton.mpr this)
    · exact List.mem_append_left _ (gone m (Finset.mem_erase.mpr ⟨this, alive⟩) last)
  · intro m member alive
    rcases List.mem_append.mp member with before | last
    · exact dead m before alive
    · exact (Finset.mem_erase.mp (fewer alive)).1 (List.mem_singleton.mp last)

theorem later_foldlM {visit : Estate α → α → Option (Estate α)}
    (each : ∀ e n e', visit e n = some e' → Later e e') {cs : List α} {e e' : Estate α}
    (all : cs.foldlM visit e = some e') : Later e e' := by
  induction cs generalizing e with
  | nil =>
      cases all
      exact .refl _
  | cons c cs ih =>
      rw [List.foldlM_cons] at all
      obtain ⟨e₁, first, rest⟩ := Option.bind_eq_some_iff.mp all
      exact (each e c e₁ first).trans (ih rest)

theorem later_delete {fuel : Nat} {e e' : Estate α} {n : α}
    (h : delete kids fuel e n = some e') : Later e e' := by
  induction fuel generalizing e e' n with
  | zero => cases h
  | succ fuel ih =>
      rw [delete] at h
      split at h
      · obtain ⟨e₁, all, rfl⟩ := Option.map_eq_some_iff.mp h
        exact (later_foldlM (fun _ _ _ => ih) all).leave
      · rename_i dead
        cases h
        refine ⟨Finset.Subset.refl _, [n], rfl, fun _ alive gone => absurd alive gone, ?_⟩
        intro m member
        rwa [List.mem_singleton.mp member]

theorem later_destroy (kids : α → List α) (e : Estate α) (n : α) : Later e (destroy kids e n) :=
  later_delete (delete_eq_destroy kids e n)

omit [DecidableEq α] in
theorem Later.mem_deleted {e e' : Estate α} (later : Later e e') {m : α}
    (before : m ∈ e.deleted) : m ∈ e'.deleted := by
  obtain ⟨-, log, deleted, -, -⟩ := later
  rw [deleted]
  exact List.mem_append_left _ before

/-- The object itself has been deleted. -/
theorem mem_deleted_delete {fuel : Nat} {e e' : Estate α} {n : α}
    (h : delete kids fuel e n = some e') : n ∈ e'.deleted := by
  cases fuel with
  | zero => cases h
  | succ fuel =>
      rw [delete] at h
      split at h
      · obtain ⟨e₁, -, rfl⟩ := Option.map_eq_some_iff.mp h
        exact List.mem_append_right _ (List.mem_singleton.mpr rfl)
      · cases h
        exact List.mem_append_right _ (List.mem_singleton.mpr rfl)

/-- What a live object lists is deleted with it, and more than once if need be. -/
theorem mem_deleted_of_kids {e : Estate α} {n c : α} (alive : n ∈ e.live) (child : c ∈ kids n) :
    c ∈ (destroy kids e n).deleted := by
  have loop : ∀ (fuel : Nat) (cs : List α) (e e' : Estate α),
      cs.foldlM (delete kids fuel) e = some e' → c ∈ cs → c ∈ e'.deleted := by
    intro fuel cs
    induction cs with
    | nil => exact fun _ _ _ member => absurd member List.not_mem_nil
    | cons d cs ih =>
        intro e e' all member
        rw [List.foldlM_cons] at all
        obtain ⟨e₁, first, rest⟩ := Option.bind_eq_some_iff.mp all
        rcases List.mem_cons.mp member with rfl | later
        · exact (later_foldlM (fun _ _ _ => later_delete) rest).mem_deleted
            (mem_deleted_delete first)
        · exact ih e₁ e' rest later
  have h := delete_eq_destroy kids e n
  rw [delete, if_pos alive] at h
  obtain ⟨e₁, all, same⟩ := Option.map_eq_some_iff.mp h
  rw [← same]
  exact List.mem_append_left _ (loop _ _ _ _ all child)

theorem below_of_mem_deleted {fuel : Nat} {e e' : Estate α} {n m : α}
    (h : delete kids fuel e n = some e') (member : m ∈ e'.deleted) :
    m ∈ e.deleted ∨ Below kids m n := by
  induction fuel generalizing e e' n with
  | zero => cases h
  | succ fuel ih =>
      have loop : ∀ (cs : List α) (e e' : Estate α), (∀ c ∈ cs, c ∈ kids n) →
          cs.foldlM (delete kids fuel) e = some e' → m ∈ e'.deleted →
            m ∈ e.deleted ∨ Below kids m n := by
        intro cs
        induction cs with
        | nil =>
            intro e e' _ all member
            cases all
            exact .inl member
        | cons c cs ihc =>
            intro e e' own all member
            rw [List.foldlM_cons] at all
            obtain ⟨e₁, first, rest⟩ := Option.bind_eq_some_iff.mp all
            rcases ihc e₁ e' (fun d hd => own d (List.mem_cons_of_mem c hd)) rest member with
              before | below
            · rcases ih first before with earlier | below
              · exact .inl earlier
              · exact .inr (.tail below (own c List.mem_cons_self))
            · exact .inr below
      have last : ∀ log : List α, m ∈ log ++ [n] → m ∈ log ∨ Below kids m n := by
        intro log here
        rcases List.mem_append.mp here with before | this
        · exact .inl before
        · exact .inr (List.mem_singleton.mp this ▸ .refl)
      rw [delete] at h
      split at h
      · obtain ⟨e₁, all, rfl⟩ := Option.map_eq_some_iff.mp h
        rcases last _ member with before | this
        · exact loop (kids n) (e.enter n) e₁ (fun _ hc => hc) all before
        · exact .inr this
      · cases h
        exact last _ member

/-- What a deletion enters in the log is at or below its object. -/
theorem mem_deleted_destroy_cases {e : Estate α} {n m : α}
    (member : m ∈ (destroy kids e n).deleted) : m ∈ e.deleted ∨ Below kids m n :=
  below_of_mem_deleted (delete_eq_destroy kids e n) member

/-! ## Deletion in a forest -/

/-- The deletions of some live objects, one after another. -/
theorem foldlM_eq_traverse {fuel : Nat}
    (each : ∀ (e : Estate α) n l, postorder kids fuel n = some l → l.Nodup →
      (∀ m ∈ l, m ∈ e.live) →
        delete kids fuel e n = some ⟨e.live \ l.toFinset, e.deleted ++ l⟩)
    {cs l : List α} {e : Estate α} (visited : traverse (postorder kids fuel) cs = some l)
    (once : l.Nodup) (alive : ∀ m ∈ l, m ∈ e.live) :
    cs.foldlM (delete kids fuel) e = some ⟨e.live \ l.toFinset, e.deleted ++ l⟩ := by
  induction cs generalizing l e with
  | nil =>
      cases visited
      simp
  | cons c cs ih =>
      simp only [traverse, Option.bind_eq_some_iff, Option.map_eq_some_iff] at visited
      obtain ⟨a, first, b, rest, rfl⟩ := visited
      obtain ⟨onceA, onceB, apart⟩ := List.nodup_append.mp once
      have aliveA : ∀ m ∈ a, m ∈ e.live := fun m member =>
        alive m (List.mem_append_left _ member)
      rw [List.foldlM_cons, each e c a first onceA aliveA, Option.bind_eq_bind, Option.bind_some]
      rw [ih rest onceB]
      · simp only [List.append_assoc, List.toFinset_append, sdiff_sdiff_left, Finset.sup_eq_union]
      · intro m member
        refine Finset.mem_sdiff.mpr ⟨alive m (List.mem_append_right _ member), ?_⟩
        rw [List.mem_toFinset]
        exact fun before => apart m before m member rfl

/-- Where every object is alive and reached once, the deletion is the post-order
traversal. -/
theorem delete_eq_postorder {fuel : Nat} {e : Estate α} {n : α} {l : List α}
    (visited : postorder kids fuel n = some l) (once : l.Nodup) (alive : ∀ m ∈ l, m ∈ e.live) :
    delete kids fuel e n = some ⟨e.live \ l.toFinset, e.deleted ++ l⟩ := by
  induction fuel generalizing e n l with
  | zero => cases visited
  | succ fuel ih =>
      rw [postorder, Option.map_eq_some_iff] at visited
      obtain ⟨k, below, rfl⟩ := visited
      obtain ⟨onceK, -, apart⟩ := List.nodup_append.mp once
      have own : n ∈ e.live := alive n (List.mem_append_right _ (List.mem_singleton.mpr rfl))
      have aliveK : ∀ m ∈ k, m ∈ (e.enter n).live := by
        intro m member
        refine Finset.mem_erase.mpr ⟨?_, alive m (List.mem_append_left _ member)⟩
        exact apart m member n (List.mem_singleton.mpr rfl)
      have all := foldlM_eq_traverse (fun e n l => ih) below onceK aliveK
      rw [delete, if_pos own, all]
      simp only [Option.map_some, leave, enter, Option.some.injEq, Estate.mk.injEq,
        List.append_assoc, and_true, List.toFinset_append, List.toFinset_cons, List.toFinset_nil]
      ext m
      simp only [Finset.mem_sdiff, Finset.mem_erase, Finset.mem_union, Finset.mem_insert,
        Finset.notMem_empty, or_false]
      tauto

/-- **Cascade.** In a forest of live objects a deletion deletes what is at or below its
object, and each of these once. -/
theorem destroy_forest (forest : Forest kids) {e : Estate α} {n : α}
    (alive : ∀ m, Below kids m n → m ∈ e.live) :
    ∃ l, l.Nodup ∧ (∀ m, m ∈ l ↔ Below kids m n) ∧
      destroy kids e n = ⟨e.live \ l.toFinset, e.deleted ++ l⟩ := by
  obtain ⟨fuel, l, visited, once, members⟩ := forest.postorder n
  refine ⟨l, once, members, ?_⟩
  have deleted := delete_eq_postorder visited once fun m member => alive m ((members m).mp member)
  exact destroy_eq_of_delete deleted

end Estate

end CppLab
