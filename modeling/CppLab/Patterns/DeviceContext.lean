import CppLab.Lib.System

/-!
# `DeviceContext` and its states

Each device has a state object, and `operation()` has it make the next one. The
way out of `ProcessingConcreteState` is taken from `static int index` in its
`handle`: one counter for the whole process, advanced by every device.

`system` is a process with any number of devices; a label is the device whose
`operation()` is called. Overflow of the counter is a step that does not exist.
`handled_alone` follows one device beside its run alone, and `independent_iff`
says which schedules keep the devices apart.
-/

namespace CppLab.Patterns.Device

/-- The concrete state that `state_` points to. -/
inductive IState
  | Ide
  | Processing
  | Error
  deriving DecidableEq, Repr

def INT_MAX : Nat := 2 ^ 31 - 1

/-- `IdeConcreteState::handle`: what `changeState` is called with. -/
def IState.handleIde (index : Nat) : Option (IState × Nat) := some (.Processing, index)

/-- `ErrorConcreteState::handle`. -/
def IState.handleError (index : Nat) : Option (IState × Nat) := some (.Ide, index)

/-- `ProcessingConcreteState::handle`, with the static `index` before and after;
`index++` at `INT_MAX` is undefined. -/
def IState.handleProcessing (index : Nat) : Option (IState × Nat) :=
  if index < INT_MAX then
    let index := index + 1
    let ok := index % 2 = 0
    some (if ok then .Ide else .Error, index)
  else
    none

/-- The virtual call `state_->handle()`. -/
def IState.handle : IState → Nat → Option (IState × Nat)
  | .Ide => IState.handleIde
  | .Processing => IState.handleProcessing
  | .Error => IState.handleError

variable {δ : Type*} [DecidableEq δ]

/-- One call of `operation()`: the device, the state that handled it and the
state it changed to. -/
structure Change (δ : Type*) where
  device : δ
  from_ : IState
  to_ : IState
  deriving DecidableEq, Repr

/-- A process: the static counter, the devices and the changes so far. -/
structure State (δ : Type*) where
  index : Nat
  devices : δ → IState
  log : List (Change δ)

namespace State

/-- `operation()` of a device. -/
def operation (s : State δ) (d : δ) : Option (State δ) :=
  ((s.devices d).handle s.index).map fun (next, index) =>
    { index := index
      devices := Function.update s.devices d next
      log := s.log ++ [⟨d, s.devices d, next⟩] }

/-- The states a device has gone through. -/
def states (s : State δ) (d : δ) : List IState :=
  (s.log.filter (·.device = d)).map (·.to_)

/-- Calls handled by `ProcessingConcreteState` for a device. -/
def processed (s : State δ) (d : δ) : Nat :=
  s.log.countP fun c => c.device = d ∧ c.from_ = .Processing

/-- The same for all other devices. -/
def processedByOthers (s : State δ) (d : δ) : Nat :=
  s.log.countP fun c => c.device ≠ d ∧ c.from_ = .Processing

end State

/-- A fresh process with devices constructed on the states `start`. -/
def system (start : δ → IState) : System (State δ) δ where
  init := ⟨0, start, []⟩
  step := State.operation

/-- No call overflows, and each device goes through the states that its own calls
alone would take it through in a fresh process. -/
def Independent (start : δ → IState) (tr : List δ) : Prop :=
  ∃ s, (system start).run tr = some s ∧
    ∀ d, ∃ s', (system start).run (tr.filter (· = d)) = some s' ∧ s.states d = s'.states d

/-- The other devices have been processing an even number of times when this one
is about to, and the counter is not at its limit. -/
def Undisturbed (s : State δ) (d : δ) : Prop :=
  s.devices d = .Processing → Even (s.processedByOthers d) ∧ s.index < INT_MAX

instance (s : State δ) (d : δ) : Decidable (Undisturbed s d) := by
  unfold Undisturbed
  infer_instance

/-! ## What a call does -/

variable {start : δ → IState}

/-- The counter enters and moves in `Processing` alone. -/
theorem handle_cases {st next : IState} {index index' : Nat}
    (handled : st.handle index = some (next, index')) :
    (st ≠ .Processing ∧ index' = index ∧ ∀ i, st.handle i = some (next, i)) ∨
    (st = .Processing ∧ index < INT_MAX ∧ index' = index + 1 ∧
      next = if index' % 2 = 0 then .Ide else .Error) := by
  cases st with
  | Ide =>
      cases handled
      exact .inl ⟨by simp, rfl, fun _ => rfl⟩
  | Error =>
      cases handled
      exact .inl ⟨by simp, rfl, fun _ => rfl⟩
  | Processing =>
      simp only [IState.handle, IState.handleProcessing, Option.ite_none_right_eq_some,
        Option.some.injEq, Prod.mk.injEq] at handled
      obtain ⟨small, made, advanced⟩ := handled
      subst advanced
      exact .inr ⟨rfl, small, rfl, made.symm⟩

theorem operation_eq_some {s s' : State δ} {d : δ} :
    s.operation d = some s' ↔ ∃ next index, (s.devices d).handle s.index = some (next, index) ∧
      s' = ⟨index, Function.update s.devices d next, s.log ++ [⟨d, s.devices d, next⟩]⟩ := by
  simp [State.operation, eq_comm]

/-- A guarded run ends only where the guard does: an undisturbed call is answered. -/
theorem undisturbed_progress {s : State δ} {d : δ} (undisturbed : Undisturbed s d) :
    ∃ s', ((system start).restrict Undisturbed).step s d = some s' := by
  have handled : ∃ next index, (s.devices d).handle s.index = some (next, index) := by
    cases st : s.devices d with
    | Ide => exact ⟨_, _, rfl⟩
    | Error => exact ⟨_, _, rfl⟩
    | Processing => exact ⟨_, _, if_pos (undisturbed st).2⟩
  obtain ⟨next, index, handled⟩ := handled
  exact ⟨_, System.restrict_step_eq_some.mpr
    ⟨undisturbed, operation_eq_some.mpr ⟨next, index, handled, rfl⟩⟩⟩

section Log

variable {s : State δ} {d e : δ} {next : IState} {index : Nat} {devices : δ → IState}

theorem states_self :
    State.states ⟨index, devices, s.log ++ [⟨d, s.devices d, next⟩]⟩ d = s.states d ++ [next] := by
  simp [State.states]

theorem states_other (ne : d ≠ e) :
    State.states ⟨index, devices, s.log ++ [⟨d, s.devices d, next⟩]⟩ e = s.states e := by
  simp [State.states, ne]

theorem processed_self :
    State.processed ⟨index, devices, s.log ++ [⟨d, s.devices d, next⟩]⟩ d =
      s.processed d + if s.devices d = .Processing then 1 else 0 := by
  simp [State.processed, List.countP_cons]

theorem processed_other (ne : d ≠ e) :
    State.processed ⟨index, devices, s.log ++ [⟨d, s.devices d, next⟩]⟩ e = s.processed e := by
  simp [State.processed, ne]

theorem processedByOthers_self :
    State.processedByOthers ⟨index, devices, s.log ++ [⟨d, s.devices d, next⟩]⟩ d =
      s.processedByOthers d := by
  simp [State.processedByOthers]

theorem processedByOthers_other (ne : d ≠ e) :
    State.processedByOthers ⟨index, devices, s.log ++ [⟨d, s.devices d, next⟩]⟩ e =
      s.processedByOthers e + if s.devices d = .Processing then 1 else 0 := by
  simp [State.processedByOthers, List.countP_cons, ne]

end Log

/-- The counter has been advanced by the device and by the others. -/
theorem index_eq {tr : List δ} {s : State δ} (run : (system start).run tr = some s) (d : δ) :
    s.index = s.processed d + s.processedByOthers d := by
  refine System.state_invariant (I := fun s : State δ =>
    s.index = s.processed d + s.processedByOthers d) rfl ?_ run
  intro s e s' total hstep
  obtain ⟨next, index, handled, rfl⟩ := operation_eq_some.mp hstep
  have advanced : index = s.index + if s.devices e = .Processing then 1 else 0 := by
    rcases handle_cases handled with ⟨notProcessing, rfl, -⟩ | ⟨processing, -, rfl, -⟩
    · rw [if_neg notProcessing, Nat.add_zero]
    · rw [if_pos processing]
  show index = _
  by_cases same : e = d
  · subst same
    rw [processed_self, processedByOthers_self, advanced, total]
    omega
  · rw [processed_other same, processedByOthers_other same, advanced, total]
    omega

/-! ## One device beside its run alone -/

/-- The schedule of one device. -/
theorem filter_concat_self (tr : List δ) (d : δ) :
    (tr ++ [d]).filter (· = d) = tr.filter (· = d) ++ [d] := by
  simp

theorem filter_concat_other {tr : List δ} {d e : δ} (ne : e ≠ d) :
    (tr ++ [e]).filter (· = d) = tr.filter (· = d) := by
  simp [ne]

/-- The run `s'` of a device alone, beside a run `s` of all of them: the device is
in the same state, has come the same way, and the counter has what the device
itself has added. -/
structure Alone (d : δ) (s s' : State δ) : Prop where
  device : s'.devices d = s.devices d
  states : s'.states d = s.states d
  index : s'.index = s.processed d

/-- An operation of the device itself, undisturbed. -/
theorem Alone.self {d : δ} {s s₁ s' : State δ} (alone : Alone d s s')
    (total : s.index = s.processed d + s.processedByOthers d) (undisturbed : Undisturbed s d)
    (hstep : s.operation d = some s₁) :
    ∃ s₁', s'.operation d = some s₁' ∧ Alone d s₁ s₁' := by
  obtain ⟨next, index, handled, rfl⟩ := operation_eq_some.mp hstep
  have handled' : ∃ index', (s'.devices d).handle s'.index = some (next, index') ∧
      index' = s'.index + if s.devices d = .Processing then 1 else 0 := by
    rw [alone.device]
    rcases handle_cases handled with ⟨notProcessing, rfl, any⟩ | ⟨processing, small, rfl, way⟩
    · exact ⟨s'.index, any s'.index, by rw [if_neg notProcessing]; rfl⟩
    · obtain ⟨even, -⟩ := undisturbed processing
      have small' : s'.index < INT_MAX := by
        rw [alone.index]
        omega
      have parity : (s'.index + 1) % 2 = (s.index + 1) % 2 := by
        rw [alone.index, total]
        obtain ⟨k, half⟩ := even
        omega
      refine ⟨s'.index + 1, ?_, by rw [if_pos processing]⟩
      rw [processing, way, ← parity]
      exact if_pos small'
  obtain ⟨index', handled', advanced⟩ := handled'
  refine ⟨_, operation_eq_some.mpr ⟨next, index', handled', rfl⟩, ?_, ?_, ?_⟩
  · show Function.update s'.devices d next d = Function.update s.devices d next d
    rw [Function.update_self, Function.update_self]
  · rw [states_self, states_self, alone.states]
  · rw [processed_self]
    show index' = _
    rw [advanced, alone.index]

/-- An operation of another device. -/
theorem Alone.other {d e : δ} {s s₁ s' : State δ} (alone : Alone d s s') (ne : e ≠ d)
    (hstep : s.operation e = some s₁) : Alone d s₁ s' := by
  obtain ⟨next, index, -, rfl⟩ := operation_eq_some.mp hstep
  constructor
  · show s'.devices d = Function.update s.devices e next d
    rw [Function.update_of_ne ne.symm, alone.device]
  · rw [states_other ne, alone.states]
  · rw [processed_other ne, alone.index]

/-- **Run lemma.** In an undisturbed run each device is where its run alone is. -/
theorem handled_alone {tr : List δ} {s : State δ}
    (run : ((system start).restrict Undisturbed).run tr = some s) (d : δ) :
    ∃ s', (system start).run (tr.filter (· = d)) = some s' ∧ Alone d s s' := by
  refine System.run_invariant (I := fun tr s =>
    ∃ s', (system start).run (tr.filter (· = d)) = some s' ∧ Alone d s s') ?_ ?_ run
  · exact ⟨_, rfl, rfl, rfl, rfl⟩
  · rintro tr s e s₁ run ⟨s', runAlone, alone⟩ hstep
    obtain ⟨undisturbed, hstep⟩ := System.restrict_step_eq_some.mp hstep
    by_cases same : e = d
    · subst same
      have total := index_eq (System.run_of_restrict run) e
      obtain ⟨s₁', step, alone⟩ := alone.self total undisturbed hstep
      rw [filter_concat_self]
      exact ⟨s₁', System.run_concat_eq_some.mpr ⟨s', runAlone, step⟩, alone⟩
    · rw [filter_concat_other same]
      exact ⟨s', runAlone, alone.other same hstep⟩

/-- What a device has gone through is not taken back. -/
theorem states_mono {tr : List δ} {s s' : State δ} (run : (system start).runFrom s tr = some s')
    (d : δ) : s.states d <+: s'.states d := by
  refine System.runFrom_invariant (I := fun t : State δ => s.states d <+: t.states d) ?_ run
    (List.prefix_refl _)
  intro t e t' before hstep
  obtain ⟨next, index, -, rfl⟩ := operation_eq_some.mp hstep
  by_cases same : e = d
  · subst same
    rw [states_self]
    exact before.trans (List.prefix_append _ _)
  · rw [states_other same]
    exact before

/-- The way out of `Processing` differs when the others have been processing an
odd number of times. -/
theorem handle_disturbed {own others index index' : Nat} {next next' : IState}
    (odd : ¬ Even others)
    (handled : IState.Processing.handle (own + others) = some (next, index))
    (alone : IState.Processing.handle own = some (next', index')) : next ≠ next' := by
  rcases handle_cases handled with ⟨notProcessing, -⟩ | ⟨-, -, rfl, rfl⟩
  · exact absurd rfl notProcessing
  · rcases handle_cases alone with ⟨notProcessing, -⟩ | ⟨-, -, rfl, rfl⟩
    · exact absurd rfl notProcessing
    · rw [Nat.even_iff] at odd
      by_cases even : (own + 1) % 2 = 0
      · rw [if_pos even, if_neg (by omega)]
        simp
      · rw [if_neg even, if_pos (by omega)]
        simp

/-- A disturbed call sets the device on another way than its own. -/
theorem not_independent_of_disturbed {pre post : List δ} {d : δ} {s₁ : State δ}
    (run : ((system start).restrict Undisturbed).run pre = some s₁)
    (disturbed : ¬ Undisturbed s₁ d) : ¬ Independent start (pre ++ d :: post) := by
  rintro ⟨s, whole, each⟩
  obtain ⟨t, runAlone, same⟩ := each d
  obtain ⟨s₁', before, alone⟩ := handled_alone run d
  -- the run of all devices up to the disturbed call and after it
  rw [System.run_append, System.run_of_restrict run, Option.bind_some, System.runFrom_cons,
    Option.bind_eq_some_iff] at whole
  obtain ⟨s₂, step, rest⟩ := whole
  obtain ⟨next, index, handled, rfl⟩ := operation_eq_some.mp step
  -- the run of the device alone, cut in the same place
  rw [List.filter_append, List.filter_cons_of_pos (by simp), System.run_append, before,
    Option.bind_some, System.runFrom_cons, Option.bind_eq_some_iff] at runAlone
  obtain ⟨s₂', stepAlone, restAlone⟩ := runAlone
  obtain ⟨next', index', handledAlone, rfl⟩ := operation_eq_some.mp stepAlone
  have processing : s₁.devices d = .Processing := by
    by_contra other
    exact disturbed fun h => absurd h other
  rw [alone.device, alone.index, processing] at handledAlone
  rw [processing, index_eq (System.run_of_restrict run) d] at handled
  have odd : ¬ Even (s₁.processedByOthers d) := by
    intro even
    rcases handle_cases handled with ⟨notProcessing, -⟩ | ⟨-, small, -⟩
    · exact notProcessing rfl
    · rw [← index_eq (System.run_of_restrict run) d] at small
      exact disturbed fun _ => ⟨even, small⟩
  have here := states_mono rest d
  have there := states_mono restAlone d
  rw [states_self] at here there
  rw [alone.states, ← same] at there
  have equal := (List.prefix_of_prefix_length_le here there (by simp)).eq_of_length (by simp)
  exact handle_disturbed odd handled handledAlone (by simpa using equal)

/-! ## The main result -/

/-- **Devices and the common counter.** For any number of devices in any states at
first and every schedule: the counter does not overflow and each device goes
through the states of its run alone if and only if at every call of a device in
`Processing` the others have been processing an even number of times, with the
counter below its limit. -/
theorem independent_iff (start : δ → IState) (tr : List δ) :
    Independent start tr ↔ ((system start).restrict Undisturbed).run tr ≠ none := by
  constructor
  · intro independent
    have ⟨s, run, _⟩ := independent
    rcases System.restrict_or_breaks (C := Undisturbed) run with
      guarded | ⟨pre, d, post, s₁, s₂, rfl, before, disturbed, -, -⟩
    · rw [guarded]
      simp
    · exact absurd independent (not_independent_of_disturbed before disturbed)
  · intro guarded
    obtain ⟨s, run⟩ := Option.ne_none_iff_exists'.mp guarded
    refine ⟨s, System.run_of_restrict run, ?_⟩
    intro d
    obtain ⟨s', runAlone, alone⟩ := handled_alone run d
    exact ⟨s', runAlone, alone.states.symm⟩

/-- Two idle devices in turn: the second, on its first job, gets the even count
that alone it would get on its second. -/
theorem not_independent_two : ¬ Independent (fun _ : Bool => .Ide) [false, true, false, true] := by
  rintro ⟨s, run, each⟩
  cases run
  obtain ⟨s', runAlone, same⟩ := each true
  cases runAlone
  exact absurd same (by decide)

end CppLab.Patterns.Device
