import CppLab.Lib.Interleavings

/-!
# Threads that are joined, detached and guarded

`execute()` runs three examples one after another. A thread is joined, one is joined while
another is detached, and one is joined by a guard, after an exception. The detached one may
still log while the third example runs, or after all of them. How long a thread sleeps
says nothing about the order of what is logged, so the sleeps are left out; the logger
writes whole lines.
-/

namespace CppLab.Concurrency.ThreadManagement

/-- The threads that are started. -/
inductive Thread
  | user_thread
  | foo_thread
  | bar_thread
  | thread
  deriving DecidableEq, Repr

instance : Fintype Thread where
  elems := {.user_thread, .foo_thread, .bar_thread, .thread}
  complete t := by cases t <;> decide

/-- A line of `LOG`, with the function that it is in, or one that is written to `std::cout`. -/
inductive Line
  | LOG (function_name msg : String)
  | cout (text : String)
  deriving DecidableEq, Repr

def joinable : Line := .LOG "checkJoinable" "Thread Object is joinable."

def not_joinable : Line := .LOG "checkJoinable" "Thread Object is not joinable."

/-- `checkJoinable(thread)`. -/
def checkJoinable (t : Thread) : Instr Thread Line :=
  .checkJoinable t joinable not_joinable

/-- The lines of a loop that logs `0` to `9`. -/
def counting (function_name : String) : List Line :=
  (List.range 10).map fun i => .LOG function_name (toString i)

namespace join

def callable : List Line :=
  [.LOG "join::callable" "begin"] ++ counting "join::callable" ++ [.LOG "join::callable" "end"]

def first : Line := .LOG "join::run" "Thread Join Example Begin"

def last : Line := .LOG "join::run" "Thread Join Example End"

/-- The number of threads that the hardware has. -/
def contexts (threads_num : UInt32) : Line :=
  .cout ("The number of hardware thread contexts: " ++ toString threads_num.toNat)

/-- `std::thread::hardware_concurrency()` gives `threads_num`. -/
def run (threads_num : UInt32) : List (Instr Thread Line) :=
  [.log (contexts threads_num), .log first, checkJoinable .user_thread, .start .user_thread,
    checkJoinable .user_thread] ++ (counting "join::run").map .log ++
  [.join .user_thread, checkJoinable .user_thread, .log last, .destroy .user_thread]

end join

namespace detach

def foo : List Line := [.LOG "detach::foo" "begin", .LOG "detach::foo" "end"]

def bar : List Line := [.LOG "detach::bar" "begin", .LOG "detach::bar" "end"]

def first : Line := .LOG "detach::run" "Thread Detach Example Begin"

def last : Line := .LOG "detach::run" "Thread Detach Example End"

def run : List (Instr Thread Line) :=
  [.log first, .start .foo_thread, .start .bar_thread, .detach .bar_thread, .join .foo_thread,
    .log last, .destroy .bar_thread, .destroy .foo_thread]

end detach

namespace exception_before_join

def callable : List Line :=
  [.LOG "exception_before_join::callable" "begin", .LOG "exception_before_join::callable" "end"]

def first : Line := .LOG "exception_before_join::run" "Thread Exception Example Begin"

def last : Line := .LOG "exception_before_join::run" "Thread Exception Example End"

/-- `~ThreadGuard()`. -/
def ThreadGuard (thread_ : Thread) : Instr Thread Line := .joinIfJoinable thread_

/-- The exception is caught where it is thrown; the guard and the thread are destroyed at the
end. -/
def run : List (Instr Thread Line) :=
  [.log first, .start .thread, .log last, ThreadGuard .thread, .destroy .thread]

end exception_before_join

/-- What the threads run. -/
def body : Thread → List Line
  | .user_thread => join.callable
  | .foo_thread => detach.foo
  | .bar_thread => detach.bar
  | .thread => exception_before_join.callable

/-- `execute()`. -/
def execute (threads_num : UInt32) : ForkJoin Thread Line where
  script := join.run threads_num ++ (detach.run ++ exception_before_join.run)
  body := body

/-! ## The lines of the examples -/

/-- All that `join::run` can log. -/
def join.Logs (threads_num : UInt32) (zs : List Line) : Prop :=
  ∃ both, Shuffle (joinable :: counting "join::run") join.callable both ∧
    zs = [contexts threads_num, first, not_joinable] ++ (both ++ [not_joinable, last])

/-- All that `exception_before_join::run` can log. -/
def exception_before_join.Logs (zs : List Line) : Prop :=
  ∃ both, Shuffle [last] callable both ∧ zs = first :: both

/-- All that `detach::run` and what comes after it can log, when that is `later` but for
the detached thread. -/
def detach.Logs (later zs : List Line) : Prop :=
  ∃ got both, got <+: bar ∧ Shuffle (foo ++ last :: later) got both ∧ zs = first :: both

open ForkJoin

variable {rest : List (Instr Thread Line)} {zs : List Line}

/-- No object has a thread. -/
abbrev none_joinable : Thread → Bool := fun _ => false

/-- No thread runs. -/
abbrev none_runs : Thread → List Line := fun _ => []

/-- An object that has been started and let go. -/
theorem released (t : Thread) :
    Function.update (Function.update none_joinable t true) t false = none_joinable := by
  rw [Function.update_idem]
  exact Function.update_eq_self t _

theorem resolve_start (t : Thread) :
    Instr.resolve none_joinable (.start t : Instr Thread Line) =
      some (.start t, Function.update none_joinable t true) :=
  rfl

theorem resolve_join (t : Thread) :
    Instr.resolve (Function.update none_joinable t true) (.join t : Instr Thread Line) =
      some (.wait t, none_joinable) := by
  rw [Instr.resolve, Function.update_self, if_pos rfl, released]

theorem resolve_ThreadGuard (t : Thread) :
    Instr.resolve (Function.update none_joinable t true) (exception_before_join.ThreadGuard t) =
      some (.wait t, none_joinable) := by
  rw [exception_before_join.ThreadGuard, Instr.resolve, Function.update_self, if_pos rfl,
    released]

theorem ends_released {t : Thread} :
    Ends body (.destroy t :: rest) none_joinable none_runs zs ↔
      Ends body rest none_joinable none_runs zs :=
  ends_destroy rfl

theorem join_run_append (threads_num : UInt32) (rest : List (Instr Thread Line)) :
    join.run threads_num ++ rest =
      [.log (join.contexts threads_num), .log join.first, checkJoinable .user_thread] ++
        .start .user_thread :: ((checkJoinable .user_thread :: (counting "join::run").map .log) ++
          .join .user_thread :: ([checkJoinable .user_thread, .log join.last] ++
            .destroy .user_thread :: rest)) := by
  simp only [join.run, List.append_assoc, List.cons_append, List.nil_append]

/-- The first example begins and ends without a thread. -/
theorem ends_join_run {threads_num : UInt32} :
    Ends body (join.run threads_num ++ rest) none_joinable none_runs zs ↔
      ∃ begun os, join.Logs threads_num begun ∧ Ends body rest none_joinable none_runs os ∧
        zs = begun ++ os := by
  have before : ForkJoin.Logs none_joinable
      [.log (join.contexts threads_num), .log join.first, checkJoinable .user_thread]
      [join.contexts threads_num, join.first, not_joinable] :=
    .cons rfl (.cons rfl (.cons rfl .nil))
  have between : ForkJoin.Logs (Function.update none_joinable .user_thread true)
      (checkJoinable .user_thread :: (counting "join::run").map .log)
      (joinable :: counting "join::run") :=
    .cons rfl (logs_map _ _)
  have after : ForkJoin.Logs none_joinable [checkJoinable .user_thread, .log join.last]
      [not_joinable, join.last] :=
    .cons rfl (.cons rfl .nil)
  rw [join_run_append, ends_log before]
  simp only [ends_fork (resolve_start .user_thread) between (resolve_join .user_thread),
    ends_log after, ends_released]
  constructor
  · rintro ⟨os, ⟨both, os, shuffle, ⟨os, ends, rfl⟩, rfl⟩, rfl⟩
    refine ⟨_, os, ⟨both, shuffle, rfl⟩, ends, ?_⟩
    simp only [List.append_assoc]
  · rintro ⟨begun, os, ⟨both, shuffle, rfl⟩, ends, rfl⟩
    refine ⟨_, ⟨both, _, shuffle, ⟨os, ends, rfl⟩, rfl⟩, ?_⟩
    simp only [List.append_assoc]

/-- The guard waits for the thread, whatever has been thrown. -/
theorem ends_exception_run :
    Ends body exception_before_join.run none_joinable none_runs zs ↔
      exception_before_join.Logs zs := by
  have before : ForkJoin.Logs none_joinable [.log exception_before_join.first]
      [exception_before_join.first] :=
    .cons rfl .nil
  have between : ForkJoin.Logs (Function.update none_joinable .thread true)
      [.log exception_before_join.last] [exception_before_join.last] :=
    .cons rfl .nil
  have phases : exception_before_join.run = [.log exception_before_join.first] ++
      .start .thread :: ([.log exception_before_join.last] ++
        exception_before_join.ThreadGuard .thread :: [.destroy .thread]) := rfl
  rw [phases, ends_log before]
  simp only [ends_fork (resolve_start .thread) between (resolve_ThreadGuard .thread),
    ends_released, ends_nil]
  constructor
  · rintro ⟨os, ⟨both, os, shuffle, rfl, rfl⟩, rfl⟩
    refine ⟨both, shuffle, ?_⟩
    rw [List.append_nil]
    rfl
  · rintro ⟨both, shuffle, rfl⟩
    exact ⟨both, ⟨both, [], shuffle, rfl, (List.append_nil _).symm⟩, rfl⟩

/-- Without the detached thread, the other one is waited for at once. -/
theorem ends_joined_run :
    Ends body (.join .foo_thread :: .log detach.last :: .destroy .bar_thread ::
        .destroy .foo_thread :: rest)
      (Function.update none_joinable .foo_thread true)
      (Function.update none_runs .foo_thread detach.foo) zs ↔
      ∃ later, Ends body rest none_joinable none_runs later ∧
        zs = detach.foo ++ detach.last :: later := by
  have after : ForkJoin.Logs none_joinable [.log detach.last] [detach.last] := .cons rfl .nil
  show Ends body ([] ++ .join .foo_thread :: ([.log detach.last] ++
    .destroy .bar_thread :: .destroy .foo_thread :: rest)) _ _ zs ↔ _
  rw [ends_join .nil (resolve_join .foo_thread) (idle_update (fun _ _ => rfl) detach.foo),
    Function.update_self]
  simp only [ends_log after, ends_released]
  constructor
  · rintro ⟨both, os, shuffle, ⟨later, ends, rfl⟩, rfl⟩
    rw [shuffle.eq_of_nil_left]
    exact ⟨later, ends, rfl⟩
  · rintro ⟨later, ends, rfl⟩
    exact ⟨_, _, .nil_left _, ⟨later, ends, rfl⟩, rfl⟩

/-- Once the second thread has been detached, nobody waits for it. -/
theorem ends_detach_run (alone : ∀ i ∈ rest, i.Concerns .bar_thread = false) :
    Ends body (detach.run ++ rest) none_joinable none_runs zs ↔
      ∃ later, Ends body rest none_joinable none_runs later ∧ detach.Logs later zs := by
  have before : ForkJoin.Logs none_joinable [.log detach.first] [detach.first] :=
    .cons rfl .nil
  have second : Instr.resolve (Function.update none_joinable .foo_thread true)
      (.start .bar_thread : Instr Thread Line) = some (.start .bar_thread,
        Function.update (Function.update none_joinable .foo_thread true) .bar_thread true) :=
    rfl
  have detached : Instr.resolve
      (Function.update (Function.update none_joinable .foo_thread true) .bar_thread true)
      (.detach .bar_thread : Instr Thread Line) =
      some (.skip, Function.update none_joinable .foo_thread true) := by
    rw [Instr.resolve, Function.update_self, if_pos rfl, Function.update_idem]
    exact congrArg some (congrArg (Prod.mk _) (Function.update_eq_self _ _))
  have unused : none_runs .foo_thread = [] := rfl
  have idle : Function.update none_runs .foo_thread (body .foo_thread) .bar_thread = [] := rfl
  have without : Function.update (Function.update (Function.update none_runs .foo_thread
      (body .foo_thread)) .bar_thread (body .bar_thread)) .bar_thread [] =
      Function.update none_runs .foo_thread detach.foo := by
    rw [Function.update_idem]
    exact Function.update_eq_self _ _
  have free : ∀ i ∈ (.detach .bar_thread :: .join .foo_thread :: .log detach.last ::
      .destroy .bar_thread :: .destroy .foo_thread :: rest : List (Instr Thread Line)),
      i.Concerns .bar_thread = false := by
    simp only [List.forall_mem_cons]
    exact ⟨rfl, rfl, rfl, rfl, rfl, alone⟩
  have started : ∀ os, Ends body (.start .foo_thread :: .start .bar_thread ::
      .detach .bar_thread :: .join .foo_thread :: .log detach.last :: .destroy .bar_thread ::
      .destroy .foo_thread :: rest) none_joinable none_runs os ↔
      ∃ later, Ends body rest none_joinable none_runs later ∧ ∃ got, got <+: detach.bar ∧
        Shuffle (detach.foo ++ detach.last :: later) got os := by
    intro os
    rw [ends_start (resolve_start .foo_thread) unused, ends_start second idle,
      ends_detached free, without, Function.update_self]
    simp only [ends_skip detached, ends_joined_run]
    constructor
    · rintro ⟨_, got, front, ⟨later, ends, rfl⟩, shuffle⟩
      exact ⟨later, ends, got, front, shuffle⟩
    · rintro ⟨later, ends, got, front, shuffle⟩
      exact ⟨_, got, front, ⟨later, ends, rfl⟩, shuffle⟩
  show Ends body ([.log detach.first] ++ .start .foo_thread :: .start .bar_thread ::
    .detach .bar_thread :: .join .foo_thread :: .log detach.last :: .destroy .bar_thread ::
    .destroy .foo_thread :: rest) _ _ zs ↔ _
  rw [ends_log before]
  simp only [started]
  constructor
  · rintro ⟨both, ⟨later, ends, got, front, shuffle⟩, rfl⟩
    exact ⟨later, ends, got, both, front, shuffle, rfl⟩
  · rintro ⟨later, ends, got, both, front, shuffle, rfl⟩
    exact ⟨both, ⟨later, ends, got, front, shuffle⟩, rfl⟩

theorem sound_execute (threads_num : UInt32) :
    sound none_joinable (execute threads_num).script = true := by
  simp [sound, execute, join.run, detach.run, exception_before_join.run, sound_logs,
    checkJoinable, exception_before_join.ThreadGuard, Instr.resolve]

theorem size_execute (threads_num : UInt32) : (execute threads_num).size = 50 := by
  have ten : (counting "join::run").length = 10 := rfl
  simp only [size, execute, join.run, List.map_append, List.sum_append, sum_cost_logs, ten]
  rfl

/-- **Joined, detached, guarded.** In no interleaving of the four threads does `execute()` end
the program or wait for ever, and none is longer than 50 steps. What has been logged when it
has returned: the lines of the first example, between which those of its thread are shuffled;
then those of the second and the third, in which the detached thread may have put any of its
first lines anywhere. All of these come up. -/
theorem execute_logs (threads_num : UInt32) :
    (∀ tr s, (execute threads_num).system.run tr = some s → s.failed = false ∧ tr.length ≤ 50 ∧
      (s.script ≠ [] → ∃ l s', (execute threads_num).system.step s l = some s')) ∧
    ∀ out, (∃ tr s, (execute threads_num).system.run tr = some s ∧ s.script = [] ∧
        s.failed = false ∧ s.out = out) ↔
      ∃ begun guarded os, join.Logs threads_num begun ∧ exception_before_join.Logs guarded ∧
        detach.Logs guarded os ∧ out = begun ++ os := by
  have ok := sound_execute threads_num
  constructor
  · intro tr s run
    have bound := length_le_size ok run
    rw [size_execute] at bound
    exact ⟨(sound_run ok run).1, bound, exists_step (sound_run ok run)⟩
  · intro out
    have alone : ∀ i ∈ exception_before_join.run, i.Concerns .bar_thread = false := by decide
    rw [completes_iff]
    show Ends body (join.run threads_num ++ (detach.run ++ exception_before_join.run))
      none_joinable none_runs out ↔ _
    rw [ends_join_run]
    simp only [ends_detach_run alone, ends_exception_run]
    constructor
    · rintro ⟨begun, os, logs, ⟨guarded, later, detached⟩, rfl⟩
      exact ⟨begun, guarded, os, logs, later, detached, rfl⟩
    · rintro ⟨begun, guarded, os, logs, later, detached, rfl⟩
      exact ⟨begun, os, logs, ⟨guarded, later, detached⟩, rfl⟩

end CppLab.Concurrency.ThreadManagement
