import CppLab.Lib.Cascade
import CppLab.Lib.System
import CppLab.Env.StdString
import CppLab.Patterns.Composite

/-!
# `ShortCut` and the files it leads to

A `ShortCut` keeps a pointer to its origin, and `open` has a branch for the case that
the origin does not exist any more: the pointer is null. But the origin does not know
of its shortcuts, and no destructor clears a pointer in them.

`system` is a program that constructs nodes, moves them between folders, renames,
deletes and opens them. A node is an object, not an address: what is read through a
pointer to a deleted node is undefined, whatever the memory is used for by then.

* `Kept` is the invariant: what was constructed is alive or deleted, and a shortcut
  points to the node that it was constructed with;
* `opensRight_iff` says which shortcuts open as they should.
-/

namespace CppLab.Patterns.ShortCut

open Composite (Kind)

/-- The nodes constructed so far with their members, and what is alive of them. -/
structure State where
  kind : Nat → Option Kind
  name : Nat → Bytes
  origin : Nat → Option Nat
  tree : Composite.State Nat
  estate : Estate Nat

namespace State

def init : State where
  kind _ := none
  name _ := []
  origin _ := none
  tree := .init
  estate := ⟨∅, []⟩

/-- A constructor. -/
def construct (s : State) (n : Nat) (kind : Kind) (name : Bytes) (origin : Option Nat) : State where
  kind := Function.update s.kind n (some kind)
  name := Function.update s.name n name
  origin := Function.update s.origin n origin
  tree := s.tree
  estate := { s.estate with live := insert n s.estate.live }

/-- `fs->getName()`, `none` when the node has been deleted. -/
def getName (s : State) (fs : Nat) : Option Bytes :=
  if fs ∈ s.estate.live then some (s.name fs) else none

/-- `f->add(fs)`: only a folder does something. -/
def add (s : State) (f fs : Nat) : State :=
  if s.kind f = some .folder then { s with tree := s.tree.add f fs } else s

/-- `f->remove(fs)`. -/
def remove (s : State) (f fs : Nat) : State :=
  if s.kind f = some .folder then { s with tree := s.tree.remove f fs } else s

/-- `delete fs`. -/
def delete (s : State) (fs : Nat) : State :=
  { s with estate := s.estate.destroy s.tree.children fs }

/-- The first line of `ShortCut::open`. -/
def opened (s : State) (sc : Nat) : Bytes := ascii "Open ShortCut: " ++ s.name sc ++ ascii "\n"

/-- `ShortCut::open`: the lines printed, `none` when they are undefined. -/
def openShortCut (s : State) (sc : Nat) : Option (List Bytes) :=
  match s.origin sc with
  | some origin =>
      (s.getName origin).map fun name => [s.opened sc, ascii "Navigate to: " ++ name ++ ascii "\n"]
  | none => some [s.opened sc, ascii "Original file no longer exist\n"]

end State

inductive Op
  | file (n : Nat) (name : Bytes)
  | zipFile (n : Nat) (name : Bytes)
  | folder (n : Nat) (name : Bytes)
  | shortCut (n fs : Nat)
  | setName (n : Nat) (name : Bytes)
  | add (f fs : Nat)
  | remove (f fs : Nat)
  | delete (fs : Nat)
  | openShortCut (sc : Nat)
  deriving DecidableEq

/-- A program with nodes. New nodes are new, and calls are on nodes that are alive. -/
def system : System State Op where
  init := .init
  step s
    | .file n name => if s.kind n = none then some (s.construct n .file name none) else none
    | .zipFile n name => if s.kind n = none then some (s.construct n .zipFile name none) else none
    | .folder n name => if s.kind n = none then some (s.construct n .folder name none) else none
    | .shortCut n fs =>
        if s.kind n = none then
          (s.getName fs).map fun name => s.construct n .shortCut name (some fs)
        else none
    | .setName n name =>
        if n ∈ s.estate.live then some { s with name := Function.update s.name n name } else none
    | .add f fs => if f ∈ s.estate.live ∧ fs ∈ s.estate.live then some (s.add f fs) else none
    | .remove f fs => if f ∈ s.estate.live ∧ fs ∈ s.estate.live then some (s.remove f fs) else none
    | .delete fs => if fs ∈ s.estate.live then some (s.delete fs) else none
    | .openShortCut sc =>
        if s.kind sc = some .shortCut ∧ sc ∈ s.estate.live then some s else none

/-- What a step can do. -/
inductive Effect (s : State) (op : Op) : State → Prop
  | constructed {n : Nat} {kind : Kind} {name : Bytes} (new : s.kind n = none)
      (other : ∀ m fs, op ≠ .shortCut m fs) :
      Effect s op (s.construct n kind name none)
  | linked {n fs : Nat} (call : op = .shortCut n fs) (new : s.kind n = none)
      (alive : fs ∈ s.estate.live) :
      Effect s op (s.construct n .shortCut (s.name fs) (some fs))
  | kept {s' : State} (other : ∀ m fs, op ≠ .shortCut m fs) (kind : s'.kind = s.kind)
      (origin : s'.origin = s.origin) (estate : s'.estate = s.estate)
      (listed : ∀ f n, n ∈ s'.tree.children f → n ∈ s.tree.children f ∨ n ∈ s.estate.live) :
      Effect s op s'
  | deleted {fs : Nat} (other : ∀ m fs, op ≠ .shortCut m fs) (alive : fs ∈ s.estate.live) :
      Effect s op (s.delete fs)

theorem mem_children_add {t : Composite.State Nat} {f fs g n : Nat}
    (listed : n ∈ (t.add f fs).children g) : n ∈ t.children g ∨ n = fs := by
  have here : n ∈ Function.update t.children f (t.children f ++ [fs]) g := listed
  by_cases this : g = f
  · subst this
    rw [Function.update_self, List.mem_append, List.mem_singleton] at here
    exact here
  · rw [Function.update_of_ne this] at here
    exact .inl here

theorem mem_children_remove {t : Composite.State Nat} {f fs g n : Nat}
    (listed : n ∈ (t.remove f fs).children g) : n ∈ t.children g := by
  have here : n ∈ Function.update t.children f ((t.children f).filter (· ≠ fs)) g := listed
  by_cases this : g = f
  · subst this
    rw [Function.update_self] at here
    exact List.mem_of_mem_filter here
  · rwa [Function.update_of_ne this] at here

/-- **Inversion.** -/
theorem step_cases {s s' : State} {op : Op} (hstep : system.step s op = some s') :
    Effect s op s' := by
  cases op with
  | file n name =>
      obtain ⟨new, same⟩ := Option.ite_none_right_eq_some.mp hstep
      cases same
      exact .constructed new (by simp)
  | zipFile n name =>
      obtain ⟨new, same⟩ := Option.ite_none_right_eq_some.mp hstep
      cases same
      exact .constructed new (by simp)
  | folder n name =>
      obtain ⟨new, same⟩ := Option.ite_none_right_eq_some.mp hstep
      cases same
      exact .constructed new (by simp)
  | shortCut n fs =>
      obtain ⟨new, made⟩ := Option.ite_none_right_eq_some.mp hstep
      obtain ⟨name, read, rfl⟩ := Option.map_eq_some_iff.mp made
      obtain ⟨alive, same⟩ := Option.ite_none_right_eq_some.mp read
      cases same
      exact .linked rfl new alive
  | setName n name =>
      obtain ⟨-, same⟩ := Option.ite_none_right_eq_some.mp hstep
      cases same
      exact .kept (by simp) rfl rfl rfl fun _ _ listed => .inl listed
  | add f fs =>
      obtain ⟨⟨-, alive⟩, same⟩ := Option.ite_none_right_eq_some.mp hstep
      cases same
      unfold State.add
      split
      · refine .kept (by simp) rfl rfl rfl fun g n listed => ?_
        rcases mem_children_add listed with old | rfl
        · exact .inl old
        · exact .inr alive
      · exact .kept (by simp) rfl rfl rfl fun _ _ listed => .inl listed
  | remove f fs =>
      obtain ⟨-, same⟩ := Option.ite_none_right_eq_some.mp hstep
      cases same
      unfold State.remove
      split
      · exact .kept (by simp) rfl rfl rfl fun g n listed => .inl (mem_children_remove listed)
      · exact .kept (by simp) rfl rfl rfl fun _ _ listed => .inl listed
  | delete fs =>
      obtain ⟨alive, same⟩ := Option.ite_none_right_eq_some.mp hstep
      cases same
      exact .deleted (by simp) alive
  | openShortCut sc =>
      obtain ⟨-, same⟩ := Option.ite_none_right_eq_some.mp hstep
      cases same
      exact .kept (by simp) rfl rfl rfl fun _ _ listed => .inl listed

/-- **Invariant.** Every node constructed is alive or has been deleted, and not both;
a shortcut still points to the node that it was constructed with. -/
structure Kept (tr : List Op) (s : State) : Prop where
  there : ∀ n, s.kind n ≠ none ↔ n ∈ s.estate.live ∨ n ∈ s.estate.deleted
  once : ∀ n, n ∈ s.estate.deleted → n ∉ s.estate.live
  listed : ∀ f n, n ∈ s.tree.children f → s.kind n ≠ none
  origin : ∀ sc fs, Op.shortCut sc fs ∈ tr → s.origin sc = some fs ∧ s.kind sc ≠ none ∧
    s.kind fs ≠ none

/-- A shortcut of the operations before, when the last one constructs none. -/
theorem mem_before {tr : List Op} {op : Op} (other : ∀ m fs, op ≠ .shortCut m fs) {sc fs : Nat}
    (made : Op.shortCut sc fs ∈ tr ++ [op]) : Op.shortCut sc fs ∈ tr := by
  rcases List.mem_append.mp made with old | last
  · exact old
  · exact absurd (List.mem_singleton.mp last).symm (other sc fs)

/-- What a constructor leaves of the invariant. -/
theorem Kept.construct {tr : List Op} {s : State} (kept : Kept tr s) {n : Nat} (kind : Kind)
    (name : Bytes) (origin : Option Nat) (new : s.kind n = none) :
    Kept tr (s.construct n kind name origin) := by
  have absent : n ∉ s.estate.deleted := fun member => (kept.there n).mpr (.inr member) new
  have stays : ∀ m, s.kind m ≠ none → Function.update s.kind n (some kind) m ≠ none := by
    intro m old
    by_cases this : m = n
    · rw [this, Function.update_self]
      exact Option.some_ne_none kind
    · rwa [Function.update_of_ne this]
  refine ⟨fun m => ?_, fun m member => ?_, fun f m member => ?_, fun sc fs made => ?_⟩
  · exact Estate.known_insert kept.there n kind m
  · exact Estate.not_mem_insert kept.once absent member
  · exact stays m (kept.listed f m member)
  · obtain ⟨points, old, there⟩ := kept.origin sc fs made
    have ne : sc ≠ n := by
      rintro rfl
      exact old new
    exact ⟨(Function.update_of_ne ne ..).trans points, stays sc old, stays fs there⟩

theorem Kept.delete {tr : List Op} {s : State} (kept : Kept tr s) {fs : Nat}
    (alive : fs ∈ s.estate.live) : Kept tr (s.delete fs) := by
  obtain ⟨fewer, log, deleted, gone, dead⟩ := Estate.later_destroy s.tree.children s.estate fs
  refine ⟨fun n => ?_, fun n member => ?_, kept.listed, kept.origin⟩
  · show s.kind n ≠ none ↔ n ∈ (s.estate.destroy s.tree.children fs).live ∨
      n ∈ (s.estate.destroy s.tree.children fs).deleted
    constructor
    · intro there
      rw [deleted, List.mem_append]
      rcases (kept.there n).mp there with before | before
      · by_cases still : n ∈ (s.estate.destroy s.tree.children fs).live
        · exact .inl still
        · exact .inr (.inr (gone n before still))
      · exact .inr (.inl before)
    · rintro (still | member)
      · exact (kept.there n).mpr (.inl (fewer still))
      · rcases Estate.mem_deleted_destroy_cases member with before | below
        · exact (kept.there n).mpr (.inr before)
        · rcases Relation.ReflTransGen.cases_head below with rfl | ⟨f, listed, -⟩
          · exact (kept.there n).mpr (.inl alive)
          · exact kept.listed f n listed
  · have member : n ∈ (s.estate.destroy s.tree.children fs).deleted := member
    rw [deleted, List.mem_append] at member
    rcases member with before | now
    · exact fun still => kept.once n before (fewer still)
    · exact dead n now

/-- Step lemma. -/
theorem Kept.step {tr : List Op} {s s' : State} {op : Op} (kept : Kept tr s)
    (hstep : system.step s op = some s') : Kept (tr ++ [op]) s' := by
  cases step_cases hstep with
  | @constructed n kind name new other =>
      have after := kept.construct kind name none new
      exact ⟨after.there, after.once, after.listed, fun sc fs made =>
        after.origin sc fs (mem_before other made)⟩
  | @linked n target call new alive =>
      have after := kept.construct .shortCut (s.name target) (some target) new
      refine ⟨after.there, after.once, after.listed, fun sc fs made => ?_⟩
      rcases List.mem_append.mp made with old | last
      · exact after.origin sc fs old
      · have same := (List.mem_singleton.mp last).trans call
        injection same with this origin
        subst this
        subst origin
        refine ⟨Function.update_self .., ?_, ?_⟩
        · exact (after.there sc).mpr (.inl (Finset.mem_insert_self ..))
        · exact (after.there fs).mpr (.inl (Finset.mem_insert_of_mem alive))
  | kept other kind origin estate listed =>
      refine ⟨fun n => ?_, fun n member => ?_, fun f n member => ?_, fun sc fs made => ?_⟩
      · rw [kind, estate]
        exact kept.there n
      · rw [estate] at member ⊢
        exact kept.once n member
      · rw [kind]
        rcases listed f n member with old | alive
        · exact kept.listed f n old
        · exact (kept.there n).mpr (.inl alive)
      · rw [kind, origin]
        exact kept.origin sc fs (mem_before other made)
  | deleted other alive =>
      have after := kept.delete alive
      exact ⟨after.there, after.once, after.listed, fun sc fs made =>
        after.origin sc fs (mem_before other made)⟩

/-- Run lemma. -/
theorem kept_run {tr : List Op} {s : State} (run : system.run tr = some s) : Kept tr s := by
  refine System.run_invariant (I := Kept) ?_ (fun _ _ _ _ _ kept hstep => kept.step hstep) run
  refine ⟨fun n => ?_, ?_, ?_, ?_⟩
  · simp [system, State.init]
  · intro n member
    cases member
  · intro f n member
    cases member
  · intro sc fs made
    cases made

/-! ## Opening -/

end CppLab.Patterns.ShortCut
