import CppLab.Lib.System

/-!
# The condition-variable handshake

`run()` starts a worker, publishes `data` and waits until the worker has
processed it. `data`, `ready` and `finish` are globals of the process and keep
their values when the menu runs the example again, so the system is the process
over any number of executions.

A critical section is one step: the mutex is held from its first statement to
its last, or to the `wait` that releases it. A wait may end at any time, by a
notification or spuriously, and then evaluates its predicate under the mutex;
`notify_one` therefore allows nothing that is not allowed without it.
-/

namespace CppLab.Concurrency.ConditionVariable

/-- What an execution publishes. -/
def published : String := "THIS IS A PRIVATE KEY: ABCxyz123"

/-- What the worker appends. -/
def processed : String := " after processing"

/-- Control points of `run()`; `menu` is between two executions. -/
inductive Main
  | menu
  | started
  | published
  | waiting
  | passed
  | joining
  deriving DecidableEq, Repr

/-- Control points of `worker_thread()`. -/
inductive Worker
  | absent
  | started
  | waiting
  | done
  deriving DecidableEq, Repr

/-- The globals, the two threads, and what `LOG("data: " + data)` has printed
in all executions. -/
structure State where
  data : String
  ready : Bool
  finish : Bool
  main : Main
  worker : Worker
  logged : List String
  deriving DecidableEq, Repr

/-- `begin` enters `run()` up to the creation of the thread, `publish` is its
first critical section, `check` an evaluation of `finish` in the second, `log`
the `LOG` of `data`, `join` the end of the execution. `worker` is the worker's
critical section from its start or from an awakening. -/
inductive Label
  | begin
  | publish
  | check
  | log
  | join
  | worker
  deriving DecidableEq, Repr

/-- The process. -/
def process : System State Label where
  init := ⟨"", false, false, .menu, .absent, []⟩
  step s
    | .begin =>
        if s.main = .menu then some { s with main := .started, worker := .started } else none
    | .publish =>
        if s.main = .started then
          some { s with data := ConditionVariable.published, ready := true, main := .published }
        else none
    | .check =>
        if s.main = .published ∨ s.main = .waiting then
          some { s with main := if s.finish then .passed else .waiting }
        else none
    | .log =>
        if s.main = .passed then
          some { s with main := .joining, logged := s.logged ++ ["data: " ++ s.data] }
        else none
    | .join =>
        if s.main = .joining ∧ s.worker = .done then
          some { s with main := .menu, worker := .absent }
        else none
    | .worker =>
        if s.worker = .started ∨ s.worker = .waiting then
          if s.ready then
            some { s with data := s.data ++ processed, finish := true, worker := .done }
          else some { s with worker := .waiting }
        else none

/-- What the handshake is for: the worker has not processed before its
execution has published, and every logged text is the published one, processed
once. -/
structure Good (s : State) : Prop where
  order : s.main = .started → s.worker ≠ .done
  text : ∀ t ∈ s.logged, t = "data: " ++ (ConditionVariable.published ++ processed)

/-- The condition on a step: `run()` is entered with both flags clear. -/
def Fresh (s : State) : Label → Prop
  | .begin => s.ready = false ∧ s.finish = false
  | _ => True

instance (s : State) : (l : Label) → Decidable (Fresh s l)
  | .begin => inferInstanceAs (Decidable (s.ready = false ∧ s.finish = false))
  | .publish | .check | .log | .join | .worker => .isTrue trivial

/-! ## One execution -/

/-- The worker has not come to `ready` yet. -/
def Worker.Before (w : Worker) : Prop := w = .started ∨ w = .waiting

/-- The phases of an execution that began with both flags clear. -/
inductive Phase (s : State) : Prop
  | before (main : s.main = .menu) (worker : s.worker = .absent) (logged : s.logged = [])
  | unpublished (main : s.main = .started) (worker : s.worker.Before) (ready : s.ready = false)
      (finish : s.finish = false) (logged : s.logged = [])
  | published (main : s.main = .published ∨ s.main = .waiting) (worker : s.worker.Before)
      (ready : s.ready = true) (finish : s.finish = false) (logged : s.logged = [])
      (data : s.data = ConditionVariable.published)
  | processed (main : s.main = .published ∨ s.main = .waiting ∨ s.main = .passed)
      (worker : s.worker = .done) (ready : s.ready = true) (finish : s.finish = true)
      (logged : s.logged = []) (data : s.data = ConditionVariable.published ++ processed)
  | logged (main : s.main = .joining ∨ s.main = .menu) (ready : s.ready = true)
      (worker : s.worker = .done ∨ s.worker = .absent)
      (logged : s.logged = ["data: " ++ (ConditionVariable.published ++ processed)])

theorem phase_init : Phase process.init := .before rfl rfl rfl

/-- `run()` is entered: with the flags clear, it is the first execution. -/
theorem Phase.begin {s : State} (phase : Phase s) (ready : s.ready = false)
    (finish : s.finish = false) : Phase { s with main := .started, worker := .started } := by
  have logged : s.logged = [] := by
    cases phase with
    | before _ _ logged => exact logged
    | unpublished _ _ _ _ logged => exact logged
    | published _ _ _ _ logged _ => exact logged
    | processed _ _ _ _ logged _ => exact logged
    | logged _ ready' _ _ =>
        rw [ready] at ready'
        cases ready'
  exact .unpublished rfl (.inl rfl) ready finish logged

theorem Phase.publish {s : State} (phase : Phase s) (main : s.main = .started) :
    Phase { s with data := ConditionVariable.published, ready := true, main := .published } := by
  cases phase with
  | before main' => simp [main] at main'
  | unpublished _ worker _ finish logged => exact .published (.inl rfl) worker rfl finish logged rfl
  | published main' => simp [main] at main'
  | processed main' => simp [main] at main'
  | logged main' => simp [main] at main'

theorem Phase.check {s : State} (phase : Phase s)
    (main : s.main = .published ∨ s.main = .waiting) :
    Phase { s with main := if s.finish then .passed else .waiting } := by
  cases phase with
  | before main' => simp [main'] at main
  | unpublished main' => simp [main'] at main
  | published _ worker ready finish logged data =>
      rw [if_neg (Bool.eq_false_iff.mp finish)]
      exact .published (.inr rfl) worker ready finish logged data
  | processed _ worker ready finish logged data =>
      rw [if_pos finish]
      exact .processed (.inr (.inr rfl)) worker ready finish logged data
  | logged main' => rcases main with main | main <;> simp [main] at main'

theorem Phase.log {s : State} (phase : Phase s) (main : s.main = .passed) :
    Phase { s with main := .joining, logged := s.logged ++ ["data: " ++ s.data] } := by
  cases phase with
  | before main' => simp [main] at main'
  | unpublished main' => simp [main] at main'
  | published main' => simp [main] at main'
  | processed _ worker ready _ logged data =>
      refine .logged (.inl rfl) ready (.inl worker) ?_
      show s.logged ++ ["data: " ++ s.data] = _
      rw [logged, data]
      rfl
  | logged main' => simp [main] at main'

theorem Phase.join {s : State} (phase : Phase s) (main : s.main = .joining) :
    Phase { s with main := .menu, worker := .absent } := by
  cases phase with
  | before main' => simp [main] at main'
  | unpublished main' => simp [main] at main'
  | published main' => simp [main] at main'
  | processed main' => simp [main] at main'
  | logged _ ready _ logged => exact .logged (.inr rfl) ready (.inr rfl) logged

/-- The worker evaluates `ready`, and processes what has been published. -/
theorem Phase.worker {s : State} (phase : Phase s) (before : s.worker.Before) :
    Phase (if s.ready then
        { s with data := s.data ++ ConditionVariable.processed, finish := true, worker := .done }
      else { s with worker := .waiting }) := by
  unfold Worker.Before at before
  cases phase with
  | before _ worker => simp [worker] at before
  | unpublished main _ ready finish logged =>
      rw [if_neg (Bool.eq_false_iff.mp ready)]
      exact .unpublished main (.inr rfl) ready finish logged
  | published main _ ready _ logged data =>
      rw [if_pos ready]
      refine .processed (main.imp_right .inl) rfl ready rfl logged ?_
      show s.data ++ ConditionVariable.processed = _
      rw [data]
  | processed _ worker => simp [worker] at before
  | logged _ _ worker => rcases worker with worker | worker <;> simp [worker] at before

/-- Step lemma. -/
theorem phase_step {s s' : State} {l : Label} (phase : Phase s) (fresh : Fresh s l)
    (h : process.step s l = some s') : Phase s' := by
  cases l <;> simp only [process, Option.ite_none_right_eq_some, Option.some.injEq] at h
  case begin =>
    obtain ⟨_, rfl⟩ := h
    exact phase.begin fresh.1 fresh.2
  case publish =>
    obtain ⟨main, rfl⟩ := h
    exact phase.publish main
  case check =>
    obtain ⟨main, rfl⟩ := h
    exact phase.check main
  case log =>
    obtain ⟨main, rfl⟩ := h
    exact phase.log main
  case join =>
    obtain ⟨main, rfl⟩ := h
    exact phase.join main.1
  case worker =>
    obtain ⟨before, h⟩ := h
    have next := phase.worker before
    split at h <;> injection h with h <;> simp_all

theorem Phase.good {s : State} (phase : Phase s) : Good s := by
  cases phase with
  | before main _ logged => exact ⟨by simp [main], by simp [logged]⟩
  | unpublished _ worker _ _ logged =>
      refine ⟨fun _ done => ?_, by simp [logged]⟩
      rcases worker with worker | worker <;> simp [worker] at done
  | published main _ _ _ logged _ =>
      refine ⟨fun started => ?_, by simp [logged]⟩
      rcases main with main | main <;> simp [main] at started
  | processed main _ _ _ logged _ =>
      refine ⟨fun started => ?_, by simp [logged]⟩
      rcases main with main | main | main <;> simp [main] at started
  | logged main _ _ logged =>
      refine ⟨fun started => ?_, by simp [logged]⟩
      rcases main with main | main <;> simp [main] at started

/-! ## A later execution -/

/-- `finish` is set by a worker that has seen `ready`, which nobody clears. -/
theorem ready_of_finish {tr : List Label} {s : State} (run : process.run tr = some s)
    (finish : s.finish = true) : s.ready = true := by
  revert finish
  refine System.state_invariant (I := fun s => s.finish = true → s.ready = true)
    (by simp [process]) ?_ run
  intro s l s' inv h
  cases l <;> simp only [process, Option.ite_none_right_eq_some, Option.some.injEq] at h <;>
    obtain ⟨_, h⟩ := h
  case publish => exact fun _ => h ▸ rfl
  case worker =>
    split at h
    · rename_i ready
      injection h with h
      exact fun _ => h ▸ ready
    · injection h with h
      exact h ▸ inv
  all_goals exact h ▸ inv

/-- The worker of an execution entered with `ready` set may process at once. -/
theorem exists_not_good {s s' : State} (ready : s.ready = true)
    (h : process.step s .begin = some s') :
    ∃ ls s'', process.runFrom s' ls = some s'' ∧ ¬ Good s'' := by
  simp only [process, Option.ite_none_right_eq_some, Option.some.injEq] at h
  obtain ⟨_, rfl⟩ := h
  refine ⟨[.worker], { s with
    data := s.data ++ processed, finish := true, main := .started, worker := .done }, ?_, ?_⟩
  · simp [System.runFrom_cons, process, ready]
  · exact fun good => good.order rfl rfl

/-- **The handshake.** Executions entered with both flags clear process what
they have published, and log it. Any other execution can go wrong: its worker
may process at once, before anything is published. -/
theorem handshake {tr : List Label} {s : State} (run : process.run tr = some s) :
    ((process.restrict Fresh).run tr = some s → Good s) ∧
    ∀ l s', ¬ Fresh s l → process.step s l = some s' →
      ∃ ls s'', process.runFrom s' ls = some s'' ∧ ¬ Good s'' := by
  refine ⟨fun guarded => Phase.good ?_, fun l s' stale h => ?_⟩
  · refine System.state_invariant (T := process.restrict Fresh) phase_init ?_ guarded
    intro s l s' phase h
    obtain ⟨fresh, h⟩ := System.restrict_step_eq_some.mp h
    exact phase_step phase fresh h
  · cases l with
    | begin =>
        have ready : s.ready = true := by
          by_contra notReady
          have clear : s.finish = false :=
            Bool.eq_false_iff.mpr fun finish => notReady (ready_of_finish run finish)
          exact stale ⟨Bool.eq_false_iff.mpr notReady, clear⟩
        exact exists_not_good ready h
    | publish => exact absurd trivial stale
    | check => exact absurd trivial stale
    | log => exact absurd trivial stale
    | join => exact absurd trivial stale
    | worker => exact absurd trivial stale

/-- One execution, the worker waiting once. -/
def sampleOnce : List Label := [.begin, .worker, .publish, .check, .worker, .check, .log]

theorem handshake_sample :
    Good ⟨published ++ processed, true, true, .joining, .done,
      ["data: " ++ (published ++ processed)]⟩ := by
  have run : process.run sampleOnce = some ⟨published ++ processed, true, true, .joining, .done,
      ["data: " ++ (published ++ processed)]⟩ := by decide
  exact (handshake run).1 (by decide)

/-- The example run twice: the second worker processes the first execution's
text again, before the second publishes, and the second execution logs its text
unprocessed. -/
theorem not_handshake_twice :
    (∃ s, process.run [.begin, .publish, .worker, .check, .log, .join, .begin, .worker] = some s ∧
      ¬ Good s) ∧
    ∃ s, process.run [.begin, .publish, .worker, .check, .log, .join, .begin, .worker, .publish,
        .check, .log] = some s ∧
      s.logged = ["data: " ++ (published ++ processed), "data: " ++ published] ∧ ¬ Good s := by
  refine ⟨⟨⟨published ++ processed ++ processed, true, true, .started, .done,
    ["data: " ++ (published ++ processed)]⟩, by decide, fun good => good.order rfl rfl⟩,
    ⟨published, true, true, .joining, .done,
    ["data: " ++ (published ++ processed), "data: " ++ published]⟩, by decide, rfl, ?_⟩
  intro good
  exact absurd (good.text _ (List.mem_cons_of_mem _ List.mem_cons_self)) (by decide)

end CppLab.Concurrency.ConditionVariable
