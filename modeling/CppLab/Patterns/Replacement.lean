import CppLab.Lib.Owner
import CppLab.Patterns.DeviceContext
import CppLab.Patterns.JsonExport

/-!
# Replacing an owned collaborator

An `ExportContext` owns its strategy and a `DeviceContext` its state. Both setters
delete what the context has and then store the argument, and a device's setter is
called from within the state that it deletes.

`system` is a process with any number of contexts of both kinds on one heap. The
null pointer that a context starts from is that of its constructor, which for a
device is `changeState` itself. What a call does on an object that is gone is
undefined; such a use is recorded, and the call does nothing more. Overflow of the
static `index` is a step that does not exist.
-/

namespace CppLab.Patterns.Replacement

open Device (IState)

/-- The strategies. -/
inductive IExportStrategy
  | JsonExportStrategy
  | HtmlExportStrategy
  deriving DecidableEq, Repr

def IExportStrategy.executeExportData (content : Bytes) : IExportStrategy → Bytes
  | .JsonExportStrategy => JsonExport.executeExportData content
  | .HtmlExportStrategy => ascii "<p>" ++ content ++ ascii "</p>"

/-- An object on the heap. The `ctx_` of a state is not set by its constructor. -/
inductive Object (δ : Type*)
  | strategy (strategy : IExportStrategy)
  | state (state : IState) (ctx_ : Option δ)

/-- A call of a virtual method: the object, and whether it was there. -/
structure Use where
  object : Nat
  there : Bool
  deriving DecidableEq, Repr

/-- The argument of a setter: a new object, at the address that `new` gives, or
the object that the context has. -/
inductive Arg (κ : Type*)
  | fresh (p : Nat) (made : κ)
  | held
  deriving DecidableEq, Repr

variable {ε δ : Type*}

/-- The contexts, the objects, their allocations and deletions, the virtual calls
and what `exportDocument` has returned. `index` is the static counter. -/
structure State (ε δ : Type*) where
  strategy_ : ε → Option Nat
  state_ : δ → Option Nat
  index : Nat
  heap : Nat → Option (Object δ)
  ledger : List (Entry Nat)
  uses : List Use
  exported : List Bytes

namespace State

/-- `new`, at an address where nothing is. -/
def new (s : State ε δ) (p : Nat) (object : Object δ) : Option (State ε δ) :=
  if (s.heap p).isNone then
    some { s with
      heap := Function.update s.heap p (some object)
      ledger := s.ledger ++ [.opened p] }
  else none

/-- `delete`, which has no effect on a null pointer. -/
def delete (s : State ε δ) : Option Nat → State ε δ
  | none => s
  | some p => { s with heap := Function.update s.heap p none, ledger := s.ledger ++ [.closed p] }

/-- A virtual call. -/
def use (s : State ε δ) (p : Nat) : State ε δ :=
  { s with uses := s.uses ++ [⟨p, (s.heap p).isSome⟩] }

variable [DecidableEq ε] [DecidableEq δ]

/-- `ExportContext::setExportStrategy`. -/
def setExportStrategy (s : State ε δ) (e : ε) (strategy : Option Nat) : State ε δ :=
  let s := s.delete (s.strategy_ e)
  { s with strategy_ := Function.update s.strategy_ e strategy }

/-- `ExportContext::exportDocument`. -/
def exportDocument (s : State ε δ) (content_ : Bytes) (e : ε) : State ε δ :=
  match s.strategy_ e with
  | none => { s with exported := s.exported ++ [[]] }
  | some p =>
      let s := s.use p
      match s.heap p with
      | some (.strategy strategy) =>
          { s with exported := s.exported ++ [strategy.executeExportData content_] }
      | _ => s

/-- `setContext(this)`. -/
def setContext (s : State ε δ) (p : Nat) (d : δ) : State ε δ :=
  let s := s.use p
  match s.heap p with
  | some (.state state _) => { s with heap := Function.update s.heap p (some (.state state d)) }
  | _ => s

/-- `DeviceContext::changeState`, `none` on a null pointer. -/
def changeState (s : State ε δ) (d : δ) : Option Nat → Option (State ε δ)
  | none => none
  | some p =>
      let s := s.delete (s.state_ d)
      let s := { s with state_ := Function.update s.state_ d (some p) }
      some (s.setContext p d)

/-- `DeviceContext::operation`, with the address that `new` in `handle` gives. -/
def operation (s : State ε δ) (d : δ) (p : Nat) : Option (State ε δ) :=
  (s.state_ d).bind fun this =>
    let s := s.use this
    match s.heap this with
    | some (.state state (some ctx_)) =>
        (state.handle s.index).bind fun (next, index) =>
          ({ s with index := index }.new p (.state next none)).bind fun s =>
            s.changeState ctx_ (some p)
    | _ => some s

end State

/-- The calls. -/
inductive Label (ε δ : Type*)
  | setExportStrategy (e : ε) (strategy : Arg IExportStrategy)
  | exportDocument (e : ε)
  | changeState (d : δ) (state : Arg IState)
  | operation (d : δ) (p : Nat)

variable [DecidableEq ε] [DecidableEq δ]

/-- The process, with the contents that the documents are constructed with. -/
def system (content_ : ε → Bytes) : System (State ε δ) (Label ε δ) where
  init := ⟨fun _ => none, fun _ => none, 0, fun _ => none, [], [], []⟩
  step s
    | .setExportStrategy e (.fresh p made) =>
        (s.new p (.strategy made)).map fun s => s.setExportStrategy e (some p)
    | .setExportStrategy e .held => some (s.setExportStrategy e (s.strategy_ e))
    | .exportDocument e => some (s.exportDocument (content_ e) e)
    | .changeState d (.fresh p made) =>
        (s.new p (.state made none)).bind fun s => s.changeState d (some p)
    | .changeState d .held => s.changeState d (s.state_ d)
    | .operation d p => s.operation d p

/-- What a context has. -/
def State.held (s : State ε δ) : ε ⊕ δ → Option Nat := Sum.elim s.strategy_ s.state_

/-- The objects of the contexts are there, as have been all that were used. An
object that is not with a context any more, be it that its address has another
one now, has been deleted exactly once, and one that is, never. -/
structure Kept (s : State ε δ) : Prop where
  there : ∀ o p, s.held o = some p → s.heap p ≠ none
  used : ∀ u ∈ s.uses, u.there = true
  replaced : ∀ pre p post, s.ledger = pre ++ .opened p :: post →
    (Entry.opened p ∈ post ∨ ∀ o, s.held o ≠ some p) → Ledger.closesOf p post = 1
  unreplaced : ∀ pre p post, s.ledger = pre ++ .opened p :: post →
    Entry.opened p ∉ post → ∀ o, s.held o = some p → Ledger.closesOf p post = 0

/-- The condition on a step: no context is handed the object it has. -/
def NotHeld (s : State ε δ) : Label ε δ → Prop
  | .setExportStrategy e .held => s.strategy_ e = none
  | .changeState d .held => s.state_ d = none
  | _ => True

instance (s : State ε δ) : (l : Label ε δ) → Decidable (NotHeld s l)
  | .setExportStrategy e .held => inferInstanceAs (Decidable (s.strategy_ e = none))
  | .changeState d .held => inferInstanceAs (Decidable (s.state_ d = none))
  | .setExportStrategy _ (.fresh _ _) | .exportDocument _ | .changeState _ (.fresh _ _)
  | .operation _ _ => .isTrue trivial

/-! ## What a call does -/

section Calls

variable {s t : State ε δ}

omit [DecidableEq ε] [DecidableEq δ] in
theorem new_eq_some {p : Nat} {object : Object δ} : s.new p object = some t ↔
    s.heap p = none ∧ t = { s with
      heap := Function.update s.heap p (some object)
      ledger := s.ledger ++ [.opened p] } := by
  unfold State.new
  rw [Option.ite_none_right_eq_some, Option.isNone_iff_eq_none, Option.some.injEq, eq_comm (a := t)]

omit [DecidableEq ε] [DecidableEq δ] in
theorem delete_eq (s : State ε δ) (c : Option Nat) : s.delete c = { s with
    heap := Owner.Unique.released s.heap c
    ledger := s.ledger ++ Owner.Unique.closing c } := by
  cases c with
  | none =>
      show s = { s with ledger := s.ledger ++ [] }
      rw [List.append_nil]
  | some p => rfl

theorem held_setStrategy (s : State ε δ) (e : ε) (c : Option Nat) :
    Sum.elim (Function.update s.strategy_ e c) s.state_ =
      Function.update s.held (.inl e) c :=
  Sum.update_elim_inl.symm

theorem held_setState (s : State ε δ) (d : δ) (c : Option Nat) :
    Sum.elim s.strategy_ (Function.update s.state_ d c) =
      Function.update s.held (.inr d) c :=
  Sum.update_elim_inr.symm

omit [DecidableEq δ] in
/-- `setExportStrategy(new ...)`. -/
theorem setExportStrategy_eq {p : Nat} {object : Object δ} (made : s.new p object = some t)
    (e : ε) : t.setExportStrategy e (some p) = { s with
      strategy_ := Function.update s.strategy_ e (some p)
      heap := Owner.Unique.released (Function.update s.heap p (some object)) (s.strategy_ e)
      ledger := s.ledger ++ [.opened p] ++ Owner.Unique.closing (s.strategy_ e) } := by
  obtain ⟨-, rfl⟩ := new_eq_some.mp made
  unfold State.setExportStrategy
  rw [delete_eq]

omit [DecidableEq ε] in
/-- `changeState(new ...)`: the new state is there when `setContext` is called. -/
theorem changeState_eq (unique : Owner.Unique s.held s.heap s.ledger) {p : Nat} {k : IState}
    {c : Option δ} (made : s.new p (.state k c) = some t) (d : δ) :
    t.changeState d (some p) = some { s with
      state_ := Function.update s.state_ d (some p)
      heap := Function.update (Owner.Unique.released
        (Function.update s.heap p (some (.state k c))) (s.state_ d)) p (some (.state k (some d)))
      ledger := s.ledger ++ [.opened p] ++ Owner.Unique.closing (s.state_ d)
      uses := s.uses ++ [⟨p, true⟩] } := by
  obtain ⟨fresh, rfl⟩ := new_eq_some.mp made
  have there := unique.renew_self (.inr d) fresh (.state k c)
  have there : Owner.Unique.released (Function.update s.heap p (some (.state k c)))
    (s.state_ d) p = some (.state k c) := there
  unfold State.changeState State.setContext State.use
  rw [delete_eq]
  simp only [there, Option.isSome_some]

end Calls

/-! ## Runs in which no context is handed what it has -/

/-- Every object has one context, of its own kind, which a state knows. -/
structure Owned (s : State ε δ) : Prop where
  unique : Owner.Unique s.held s.heap s.ledger
  strategies : ∀ e p, s.strategy_ e = some p → ∃ k, s.heap p = some (.strategy k)
  states : ∀ d p, s.state_ d = some p → ∃ k, s.heap p = some (.state k (some d))
  used : ∀ u ∈ s.uses, u.there = true

omit [DecidableEq ε] [DecidableEq δ] in
theorem Owned.kept {s : State ε δ} (owned : Owned s) : Kept s := by
  obtain ⟨names, replay, open_⟩ := owned.unique.book
  have holder : ∀ p, p ∈ names ↔ ∃ o, s.held o = some p :=
    fun p => (open_ p).trans (owned.unique.live p)
  constructor
  · intro o p holds
    exact owned.unique.there holds
  · exact owned.used
  · intro pre p post split gone
    rw [split] at replay
    rcases gone with again | nobody
    · exact Ledger.closesOf_eq_one_of_opened replay again
    · apply Ledger.closesOf_eq_one replay
      intro member
      obtain ⟨o, holds⟩ := (holder p).mp member
      exact nobody o holds
  · intro pre p post split last o holds
    rw [split] at replay
    exact Ledger.closesOf_eq_zero replay last ((holder p).mpr ⟨o, holds⟩)

theorem owned_init (content_ : ε → Bytes) : Owned (system (δ := δ) content_).init where
  unique := by
    have nobody : State.held (system (δ := δ) content_).init = fun _ => none := by
      funext o
      cases o with
      | inl e => rfl
      | inr d => rfl
    rw [nobody]
    exact Owner.Unique.empty
  strategies e p holds := by cases holds
  states d p holds := by cases holds
  used u member := by cases member

omit [DecidableEq ε] [DecidableEq δ] in
/-- A virtual call on an object that is there. -/
theorem Owned.use {s : State ε δ} (owned : Owned s) {p : Nat} (there : s.heap p ≠ none) :
    Owned (s.use p) := by
  constructor
  · exact owned.unique
  · exact owned.strategies
  · exact owned.states
  · intro u member
    rcases List.mem_append.mp member with before | now
    · exact owned.used u before
    · rw [List.mem_singleton] at now
      rw [now]
      exact Option.isSome_iff_ne_none.mpr there

/-- `setExportStrategy` with a new strategy. -/
theorem Owned.setExportStrategy {s t : State ε δ} (owned : Owned s) {e : ε} {p : Nat}
    {made : IExportStrategy} (new : s.new p (.strategy made) = some t) :
    Owned (t.setExportStrategy e (some p)) := by
  obtain ⟨fresh, -⟩ := new_eq_some.mp new
  rw [setExportStrategy_eq new]
  constructor
  · have renewed := owned.unique.renew (.inl e) fresh (.strategy made)
    rw [← held_setStrategy] at renewed
    exact renewed
  · intro a q holds
    have holds : Function.update s.strategy_ e (some p) a = some q := holds
    by_cases same : a = e
    · subst same
      rw [Function.update_self] at holds
      cases holds
      exact ⟨made, owned.unique.renew_self (.inl a) fresh (.strategy made)⟩
    · rw [Function.update_of_ne same] at holds
      obtain ⟨k, there⟩ := owned.strategies a q holds
      have other : (.inl a : ε ⊕ δ) ≠ .inl e := by simpa using same
      exact ⟨k, (owned.unique.renew_other other fresh holds _).trans there⟩
  · intro d q holds
    obtain ⟨k, there⟩ := owned.states d q holds
    have other : (.inr d : ε ⊕ δ) ≠ .inl e := by simp
    exact ⟨k, (owned.unique.renew_other other fresh holds _).trans there⟩
  · exact owned.used

omit [DecidableEq ε] [DecidableEq δ] in
/-- What another field holds is as it was, also once the new state has been written to. -/
theorem Owned.heap_renew {s : State ε δ} (owned : Owned s) {a o : ε ⊕ δ} {p q : Nat}
    {object : Object δ} (other : a ≠ o) (fresh : s.heap p = none) (holds : s.held a = some q)
    (made written : Object δ) (before : s.heap q = some object) :
    Function.update (Owner.Unique.released (Function.update s.heap p (some made)) (s.held o)) p
      (some written) q = some object := by
  have apart : q ≠ p := by
    rintro rfl
    rw [fresh] at before
    cases before
  rw [Function.update_of_ne apart]
  exact (owned.unique.renew_other other fresh holds _).trans before

/-- `changeState` with a new state. -/
theorem Owned.changeState {s t t' : State ε δ} (owned : Owned s) {d : δ} {p : Nat} {k : IState}
    {c : Option δ} (new : s.new p (.state k c) = some t)
    (changed : t.changeState d (some p) = some t') : Owned t' := by
  obtain ⟨fresh, -⟩ := new_eq_some.mp new
  rw [changeState_eq owned.unique new] at changed
  cases changed
  have there := owned.unique.renew_self (.inr d) fresh (.state k c)
  constructor
  · have renewed := owned.unique.renew (.inr d) fresh (.state k c)
    rw [← held_setState] at renewed
    apply renewed.write
    rw [there]
    exact Option.some_ne_none _
  · intro e q holds
    obtain ⟨m, before⟩ := owned.strategies e q holds
    have other : (.inl e : ε ⊕ δ) ≠ .inr d := by simp
    exact ⟨m, owned.heap_renew other fresh holds _ _ before⟩
  · intro a q holds
    have holds : Function.update s.state_ d (some p) a = some q := holds
    by_cases same : a = d
    · subst same
      rw [Function.update_self] at holds
      cases holds
      exact ⟨k, Function.update_self ..⟩
    · rw [Function.update_of_ne same] at holds
      obtain ⟨m, before⟩ := owned.states a q holds
      have other : (.inr a : ε ⊕ δ) ≠ .inr d := by simpa using same
      exact ⟨m, owned.heap_renew other fresh holds _ _ before⟩
  · intro u member
    rcases List.mem_append.mp member with before | now
    · exact owned.used u before
    · rw [List.mem_singleton.mp now]

omit [DecidableEq ε] [DecidableEq δ] in
/-- `exportDocument` uses a strategy that is there. -/
theorem Owned.exportDocument {s : State ε δ} (owned : Owned s) (content_ : Bytes) (e : ε) :
    Owned (s.exportDocument content_ e) := by
  unfold State.exportDocument
  cases holds : s.strategy_ e with
  | none => exact ⟨owned.unique, owned.strategies, owned.states, owned.used⟩
  | some p =>
      obtain ⟨k, there⟩ := owned.strategies e p holds
      have used := owned.use (p := p) (by rw [there]; exact Option.some_ne_none _)
      have same : (s.use p).heap p = some (.strategy k) := there
      simp only [same]
      exact ⟨used.unique, used.strategies, used.states, used.used⟩

/-- `operation`: the state that handles it is there, and is deleted in it. -/
theorem Owned.operation {s t : State ε δ} (owned : Owned s) {d : δ} {p : Nat}
    (handled : s.operation d p = some t) : Owned t := by
  unfold State.operation at handled
  obtain ⟨this, holds, handled⟩ := Option.bind_eq_some_iff.mp handled
  obtain ⟨k, there⟩ := owned.states d this holds
  have used := owned.use (p := this) (by rw [there]; exact Option.some_ne_none _)
  have same : (s.use this).heap this = some (.state k (some d)) := there
  simp only [same] at handled
  obtain ⟨⟨next, index⟩, -, handled⟩ := Option.bind_eq_some_iff.mp handled
  obtain ⟨u, new, changed⟩ := Option.bind_eq_some_iff.mp handled
  have counted : Owned { s.use this with index := index } :=
    ⟨used.unique, used.strategies, used.states, used.used⟩
  exact counted.changeState new changed

/-- **Step lemma.** -/
theorem owned_step {content_ : ε → Bytes} {s t : State ε δ} {l : Label ε δ} (owned : Owned s)
    (notHeld : NotHeld s l) (hstep : (system content_).step s l = some t) : Owned t := by
  cases l with
  | setExportStrategy e strategy =>
      cases strategy with
      | fresh p made =>
          obtain ⟨u, new, rfl⟩ := Option.map_eq_some_iff.mp hstep
          exact owned.setExportStrategy new
      | held =>
          -- the null pointer for the null pointer
          have null : s.strategy_ e = none := notHeld
          have same : s.setExportStrategy e none = s := by
            unfold State.setExportStrategy
            rw [null]
            show { s with strategy_ := Function.update s.strategy_ e none } = s
            rw [← null, Function.update_eq_self]
          have hstep : some (s.setExportStrategy e (s.strategy_ e)) = some t := hstep
          rw [null, same] at hstep
          cases hstep
          exact owned
  | exportDocument e =>
      cases hstep
      exact owned.exportDocument (content_ e) e
  | changeState d state =>
      cases state with
      | fresh p made =>
          obtain ⟨u, new, changed⟩ := Option.bind_eq_some_iff.mp hstep
          exact owned.changeState new changed
      | held =>
          have null : s.state_ d = none := notHeld
          have hstep : s.changeState d (s.state_ d) = some t := hstep
          rw [null] at hstep
          cases hstep
  | operation d p => exact owned.operation hstep

/-- **Run lemma.** -/
theorem owned_run {content_ : ε → Bytes} {tr : List (Label ε δ)} {s : State ε δ}
    (run : ((system content_).restrict NotHeld).run tr = some s) : Owned s := by
  refine System.state_invariant (T := (system content_).restrict NotHeld) (I := Owned)
    (owned_init content_) ?_ run
  intro s l t owned hstep
  obtain ⟨notHeld, hstep⟩ := System.restrict_step_eq_some.mp hstep
  exact owned_step owned notHeld hstep

/-! ## A context that is handed what it has -/

/-- The context is left with an object that is gone. -/
theorem exists_dangling {content_ : ε → Bytes} {s t : State ε δ} {l : Label ε δ}
    (handed : ¬ NotHeld s l) (hstep : (system content_).step s l = some t) :
    ∃ o p, t.held o = some p ∧ t.heap p = none := by
  cases l with
  | setExportStrategy e strategy =>
      cases strategy with
      | fresh p made => exact absurd trivial handed
      | held =>
          have hstep : some (s.setExportStrategy e (s.strategy_ e)) = some t := hstep
          cases holds : s.strategy_ e with
          | none => exact absurd holds handed
          | some p =>
              unfold State.setExportStrategy at hstep
              rw [holds] at hstep
              cases hstep
              refine ⟨.inl e, p, ?_, ?_⟩
              · exact Function.update_self ..
              · exact Function.update_self ..
  | exportDocument e => exact absurd trivial handed
  | changeState d state =>
      cases state with
      | fresh p made => exact absurd trivial handed
      | held =>
          have hstep : s.changeState d (s.state_ d) = some t := hstep
          cases holds : s.state_ d with
          | none => exact absurd holds handed
          | some p =>
              have gone : Function.update s.heap p none p = none := Function.update_self ..
              unfold State.changeState State.setContext State.use State.delete at hstep
              rw [holds] at hstep
              simp only [gone] at hstep
              cases hstep
              refine ⟨.inr d, p, ?_, gone⟩
              exact Function.update_self ..
  | operation d p => exact absurd trivial handed

/-- The next use is of an object that is gone. -/
theorem used_gone {content_ : ε → Bytes} {s : State ε δ} {o : ε ⊕ δ} {p : Nat}
    (holds : s.held o = some p) (gone : s.heap p = none) :
    ∃ l t, (system content_).step s l = some t ∧ ⟨p, false⟩ ∈ t.uses := by
  cases o with
  | inl e =>
      refine ⟨.exportDocument e, _, rfl, ?_⟩
      have holds : s.strategy_ e = some p := holds
      unfold State.exportDocument State.use
      simp only [holds, gone]
      exact List.mem_append_right _ (List.mem_singleton.mpr rfl)
  | inr d =>
      have holds : s.state_ d = some p := holds
      have hstep : s.operation d p = some (s.use p) := by
        unfold State.operation State.use
        simp only [holds, gone, Option.bind_some]
      refine ⟨.operation d p, s.use p, hstep, ?_⟩
      unfold State.use
      simp only [gone]
      exact List.mem_append_right _ (List.mem_singleton.mpr rfl)

/-! ## The main result -/

/-- **Replacing a collaborator.** In a run of any number of contexts every object
is kept while a context has it, used only while it is there, and deleted exactly
once when it is replaced, if and only if no context is handed the object it has. A
context that has been left with an object that is gone uses it in its next call. -/
theorem kept_iff_notHeld {content_ : ε → Bytes} {tr : List (Label ε δ)} {s : State ε δ}
    (run : (system content_).run tr = some s) :
    ((∀ pre t, pre <+: tr → (system content_).run pre = some t → Kept t) ↔
      ((system content_).restrict NotHeld).run tr = some s) ∧
    ∀ o p, s.held o = some p → s.heap p = none →
      ∃ l t, (system content_).step s l = some t ∧ ⟨p, false⟩ ∈ t.uses := by
  refine ⟨System.forall_prefix_iff (P := fun _ t => Kept t) ?_ ?_ run,
    fun o p holds gone => used_gone holds gone⟩
  · intro pre t guarded
    exact (owned_run guarded).kept
  · intro pre l s₁ s₂ _ handed hstep kept
    obtain ⟨o, p, holds, gone⟩ := exists_dangling handed hstep
    exact kept.there o p holds gone

/-- A strategy replaced by another, and a device that replaces its own state. -/
def sampleCalls : List (Label Unit Unit) :=
  [.setExportStrategy () (.fresh 0 .HtmlExportStrategy), .exportDocument (),
    .setExportStrategy () (.fresh 1 .JsonExportStrategy), .exportDocument (),
    .changeState () (.fresh 0 .Ide), .operation () 2, .operation () 0]

theorem kept_sampleCalls : ∃ s, (system fun _ => ascii "report").run sampleCalls = some s ∧
    ∀ pre t, pre <+: sampleCalls → (system fun _ => ascii "report").run pre = some t → Kept t :=
  ⟨_, rfl, (@kept_iff_notHeld _ _ _ _ (fun _ => ascii "report") sampleCalls _ rfl).1.mpr rfl⟩

/-- A context that is handed its own strategy exports with an object that is gone. -/
theorem not_kept_self : ∃ s : State Unit Unit,
    (system fun _ => ascii "report").run [.setExportStrategy () (.fresh 0 .HtmlExportStrategy),
      .setExportStrategy () .held, .exportDocument ()] = some s ∧ ⟨0, false⟩ ∈ s.uses :=
  ⟨_, rfl, List.mem_singleton.mpr rfl⟩

end CppLab.Patterns.Replacement
