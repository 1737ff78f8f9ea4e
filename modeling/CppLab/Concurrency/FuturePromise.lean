import CppLab.Lib.Interleavings

/-!
# Waiting for a result

`execute()` has its heavy work done by `std::async` first, and by a thread with a promise then,
and does other work in between. What the clock shows, and how long anybody sleeps, is not
known; a future is got when the work has been logged to its end.
-/

namespace CppLab.Concurrency.FuturePromise

/-- The task of `std::async`, and the thread. -/
inductive Task
  | heavy_work
  | worker
  deriving DecidableEq, Repr

instance : Fintype Task where
  elems := {.heavy_work, .worker}
  complete t := by cases t <;> decide

/-- A line of `LOG`, with the function that it is in. -/
structure Line where
  function_name : String
  msg : String
  deriving DecidableEq, Repr

/-- The milliseconds that are measured in a run. -/
structure Clock where
  elapsed : Fin 4 → Int
  total : Int

/-- What `heavy_work()` logs; it returns 1000. -/
def heavy_work : List Line := [⟨"heavy_work", "Begin (2s)"⟩, ⟨"heavy_work", "End"⟩]

def result : Int := 1000

/-- `do_other_work(start)`. -/
def do_other_work (clock : Clock) : List Line :=
  (List.finRange 4).map fun i =>
    ⟨"do_other_work", "doing other work... " ++ toString (clock.elapsed i) ++ " ms"⟩

/-- The lines that show what has been got. -/
def report (run : String) (clock : Clock) : List Line :=
  [⟨run, "result = " ++ toString result⟩, ⟨run, "total time = " ++ toString clock.total ++ " ms"⟩]

/-- What is logged while the work is done elsewhere. -/
def meanwhile (run : String) (clock : Clock) : List Line :=
  ⟨run, "launched"⟩ :: do_other_work clock

namespace async_example

def run (clock : Clock) : List (Instr Task Line) :=
  .log ⟨"async_example::run", "Begin"⟩ :: .async .heavy_work ::
    ((meanwhile "async_example::run" clock).map .log ++ .get .heavy_work ::
      ((report "async_example::run" clock).map .log ++ [.log ⟨"async_example::run", "End"⟩]))

end async_example

namespace promise_example

/-- The thread is joined when its result has been got. -/
def run (clock : Clock) : List (Instr Task Line) :=
  .log ⟨"promise_example::run", "Begin"⟩ :: .start .worker ::
    ((meanwhile "promise_example::run" clock).map .log ++ .get .worker ::
      ((report "promise_example::run" clock).map .log ++
        [.join .worker, .log ⟨"promise_example::run", "End"⟩, .destroy .worker]))

end promise_example

/-- `execute()`. -/
def execute (first second : Clock) : ForkJoin Task Line where
  script := async_example.run first ++ promise_example.run second
  body _ := heavy_work

/-- All that one of the examples can log. -/
def Logs (run : String) (clock : Clock) (zs : List Line) : Prop :=
  ∃ both, Shuffle (meanwhile run clock) heavy_work both ∧
    zs = ⟨run, "Begin"⟩ :: (both ++ (report run clock ++ [⟨run, "End"⟩]))

open ForkJoin

variable {clock : Clock} {rest : List (Instr Task Line)} {zs : List Line}

/-- No object has a thread. -/
abbrev none_joinable : Task → Bool := fun _ => false

/-- Nothing runs. -/
abbrev none_runs : Task → List Line := fun _ => []

/-- The threads. -/
abbrev body : Task → List Line := fun _ => heavy_work

/-- What both examples do, up to where they have shown the result. -/
theorem ends_shown {run : String} {t : Task} {starter : Instr Task Line} {between : Task → Bool}
    (starts : starter.resolve none_joinable = some (.start t, between)) :
    Ends body (.log ⟨run, "Begin"⟩ :: starter :: ((meanwhile run clock).map .log ++ .get t ::
        ((report run clock).map .log ++ rest))) none_joinable none_runs zs ↔
      ∃ both os, Shuffle (meanwhile run clock) heavy_work both ∧
        Ends body rest between none_runs os ∧
        zs = ⟨run, "Begin"⟩ :: (both ++ (report run clock ++ os)) := by
  have before : ForkJoin.Logs none_joinable [.log (⟨run, "Begin"⟩ : Line)] [⟨run, "Begin"⟩] :=
    .cons rfl .nil
  have gets : Instr.resolve between (.get t : Instr Task Line) = some (.wait t, between) := rfl
  show Ends body ([.log ⟨run, "Begin"⟩] ++ starter :: _) _ _ zs ↔ _
  rw [ends_log before]
  simp only [ends_fork starts (logs_map _ _) gets, ends_log (logs_map _ _)]
  constructor
  · rintro ⟨_, ⟨both, _, shuffle, ⟨os, ends, rfl⟩, rfl⟩, rfl⟩
    exact ⟨both, os, shuffle, ends, rfl⟩
  · rintro ⟨both, os, shuffle, ends, rfl⟩
    exact ⟨_, ⟨both, _, shuffle, ⟨os, ends, rfl⟩, rfl⟩, rfl⟩

theorem ends_async_run :
    Ends body (async_example.run clock ++ rest) none_joinable none_runs zs ↔
      ∃ begun os, Logs "async_example::run" clock begun ∧
        Ends body rest none_joinable none_runs os ∧ zs = begun ++ os := by
  have starts : Instr.resolve none_joinable (.async .heavy_work : Instr Task Line) =
      some (.start .heavy_work, none_joinable) := rfl
  have after : ForkJoin.Logs none_joinable [.log (⟨"async_example::run", "End"⟩ : Line)]
      [⟨"async_example::run", "End"⟩] :=
    .cons rfl .nil
  simp only [async_example.run, List.cons_append, List.append_assoc, List.nil_append]
  rw [ends_shown starts]
  constructor
  · rintro ⟨both, _, shuffle, ends, rfl⟩
    obtain ⟨os, later, rfl⟩ := (ends_log after).mp ends
    refine ⟨_, os, ⟨both, shuffle, rfl⟩, later, ?_⟩
    simp only [List.cons_append, List.append_assoc]
  · rintro ⟨_, os, ⟨both, shuffle, rfl⟩, later, rfl⟩
    refine ⟨both, _, shuffle, (ends_log after).mpr ⟨os, later, rfl⟩, ?_⟩
    simp only [List.cons_append, List.append_assoc]

theorem ends_promise_run :
    Ends body (promise_example.run clock) none_joinable none_runs zs ↔
      Logs "promise_example::run" clock zs := by
  have starts : Instr.resolve none_joinable (.start .worker : Instr Task Line) =
      some (.start .worker, Function.update none_joinable .worker true) := rfl
  have joins : Instr.resolve (Function.update none_joinable .worker true)
      (.join .worker : Instr Task Line) = some (.wait .worker, none_joinable) := by
    rw [Instr.resolve, Function.update_self, if_pos rfl, Function.update_idem]
    exact congrArg some (congrArg (Prod.mk _) (Function.update_eq_self _ _))
  have after : ForkJoin.Logs none_joinable [.log (⟨"promise_example::run", "End"⟩ : Line)]
      [⟨"promise_example::run", "End"⟩] :=
    .cons rfl .nil
  have ending : ∀ os, Ends body [.join .worker, .log ⟨"promise_example::run", "End"⟩,
      .destroy .worker] (Function.update none_joinable .worker true) none_runs os ↔
      os = [⟨"promise_example::run", "End"⟩] := by
    intro os
    rw [ends_wait joins]
    show Ends body ([.log ⟨"promise_example::run", "End"⟩] ++ [.destroy .worker]) _ _ os ↔ _
    rw [ends_log after]
    constructor
    · rintro ⟨_, ends, rfl⟩
      rw [ends_nil.mp ((ends_destroy rfl).mp ends)]
      rfl
    · rintro rfl
      exact ⟨[], (ends_destroy rfl).mpr (ends_nil.mpr rfl), rfl⟩
  rw [promise_example.run, ends_shown starts]
  simp only [ending]
  constructor
  · rintro ⟨both, _, shuffle, rfl, rfl⟩
    exact ⟨both, shuffle, rfl⟩
  · rintro ⟨both, shuffle, rfl⟩
    exact ⟨both, _, shuffle, rfl, rfl⟩

theorem sound_execute (first second : Clock) :
    sound none_joinable (execute first second).script = true := by
  simp [sound, execute, async_example.run, promise_example.run, sound_logs, Instr.resolve]

theorem size_execute (first second : Clock) : (execute first second).size = 28 := by
  simp only [size, execute, async_example.run, promise_example.run, List.map_append,
    List.map_cons, List.sum_append, List.sum_cons, sum_cost_logs]
  rfl

/-- **The result comes after the work.** In no interleaving does `execute()` fail or wait for
ever, and none is longer than 28 steps. Each example logs what it does meanwhile and what the
heavy work logs in any order, and the result when all of that has been logged; whatever the clock
shows, all of these come up, and nothing else. -/
theorem execute_results (first second : Clock) :
    (∀ tr s, (execute first second).system.run tr = some s → s.failed = false ∧ tr.length ≤ 28 ∧
      (s.script ≠ [] → ∃ l s', (execute first second).system.step s l = some s')) ∧
    ∀ out, (∃ tr s, (execute first second).system.run tr = some s ∧ s.script = [] ∧
        s.failed = false ∧ s.out = out) ↔
      ∃ async promise, Logs "async_example::run" first async ∧
        Logs "promise_example::run" second promise ∧ out = async ++ promise := by
  have ok := sound_execute first second
  constructor
  · intro tr s run
    have bound := length_le_size ok run
    rw [size_execute] at bound
    exact ⟨(sound_run ok run).1, bound, exists_step (sound_run ok run)⟩
  · intro out
    rw [completes_iff]
    show Ends body (async_example.run first ++ promise_example.run second) none_joinable none_runs
      out ↔ _
    rw [ends_async_run]
    simp only [ends_promise_run]

end CppLab.Concurrency.FuturePromise
