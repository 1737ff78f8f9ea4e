import CppLab.Lib.System

/-!
# Two threads and a counter

`run_case` resets a global counter, starts two threads on the same loop and joins
them. An increment is a read and a write; in `mutex::run` a `lock_guard` is held
around both, in `problem::run` nothing is.

A label is a thread, which takes its next step: the interleavings are the traces.
Overflow of the counter is a step that does not exist.
-/

namespace CppLab.Concurrency.RaceCondition

def INT_MAX : Int := 2 ^ 31 - 1

/-- The two cases on a plain `int`. -/
inductive Case
  | problem
  | mutex
  deriving DecidableEq, Repr

/-- The worker threads of `run_case`. -/
inductive Thread
  | thread1
  | thread2
  deriving DecidableEq, Repr

/-- Control points of `run_case`. -/
inductive Main
  | reset
  | spawn (t : Thread)
  | join (t : Thread)
  | print
  | done
  deriving DecidableEq, Repr

/-- Control points of `work`, in iteration `i`: before it, with the lock, with the
value that has been read, with the sum written back. -/
inductive Worker
  | absent
  | loop (i : Nat)
  | locked (i : Nat)
  | read (i : Nat) (v : Int)
  | written (i : Nat)
  | ended
  deriving DecidableEq, Repr

/-- The globals, the threads, and what `run_case` has printed. -/
structure State where
  global_variable : Int
  g_mutex : Option Thread
  main : Main
  worker : Thread → Worker
  printed : List Int

/-- Whose step it is. -/
inductive Label
  | main
  | worker (t : Thread)
  deriving DecidableEq, Repr

/-- The thread is at another control point. -/
def State.at (s : State) (t : Thread) (w : Worker) : State :=
  { s with worker := Function.update s.worker t w }

/-- `run_case`. -/
def State.runCase (s : State) : Option State :=
  match s.main with
  | .reset => some { s with global_variable := 0, main := .spawn .thread1, printed := [0] }
  | .spawn .thread1 => some { s.at .thread1 (.loop 0) with main := .spawn .thread2 }
  | .spawn .thread2 => some { s.at .thread2 (.loop 0) with main := .join .thread1 }
  | .join .thread1 =>
      if s.worker .thread1 = .ended then some { s with main := .join .thread2 } else none
  | .join .thread2 => if s.worker .thread2 = .ended then some { s with main := .print } else none
  | .print => some { s with main := .done, printed := s.printed ++ [s.global_variable] }
  | .done => none

/-- `work`, with `n` iterations. -/
def State.work (c : Case) (n : Nat) (s : State) (t : Thread) : Option State :=
  match s.worker t with
  | .absent => none
  | .loop i =>
      if i < n then
        match c with
        | .problem => some (s.at t (.locked i))
        | .mutex =>
            if s.g_mutex = none then some { s.at t (.locked i) with g_mutex := some t } else none
      else some (s.at t .ended)
  | .locked i => some (s.at t (.read i s.global_variable))
  | .read i v =>
      if v < INT_MAX then some { s.at t (.written i) with global_variable := v + 1 } else none
  | .written i =>
      match c with
      | .problem => some (s.at t (.loop (i + 1)))
      | .mutex => some { s.at t (.loop (i + 1)) with g_mutex := none }
  | .ended => none

/-- The process, with the value that the counter has before. -/
def system (c : Case) (n : Nat) (before : Int) : System State Label where
  init := ⟨before, none, .reset, fun _ => .absent, []⟩
  step s
    | .main => s.runCase
    | .worker t => s.work c n t

/-- What the threads have of something, added up. -/
def State.sum (s : State) (f : Worker → Nat) : Nat :=
  f (s.worker .thread1) + f (s.worker .thread2)

/-- The iterations that a thread has completed. -/
def Worker.completed (n : Nat) : Worker → Nat
  | .absent => 0
  | .loop i | .locked i | .read i _ | .written i => i
  | .ended => n

/-- Both threads have been joined. -/
def Main.Joined (m : Main) : Prop := m = .print ∨ m = .done

/-! ## The invariant -/

/-- Between `lock` and `unlock`. -/
def Worker.Critical : Worker → Prop
  | .locked _ | .read _ _ | .written _ => True
  | _ => False

/-- The increments that a thread has written. -/
def Worker.counted (n : Nat) : Worker → Nat
  | .written i => i + 1
  | w => w.completed n

/-- The iteration is one of `n`, and what has been read is what is there. -/
def Worker.Fits (n : Nat) (counter : Int) : Worker → Prop
  | .absent | .ended => True
  | .loop i => i ≤ n
  | .locked i | .written i => i < n
  | .read i v => i < n ∧ v = counter

/-- The holder of the mutex is the one thread in its critical section, and the
counter has every increment that has been written. -/
structure Guarded (n : Nat) (s : State) : Prop where
  holder : ∀ t, (s.worker t).Critical ↔ s.g_mutex = some t
  fits : ∀ t, (s.worker t).Fits n s.global_variable
  counter : s.main ≠ .reset → s.global_variable = s.sum (Worker.counted n)

/-- What `run_case` has done at each of its control points. -/
def Main.Phase (n : Nat) (worker : Thread → Worker) (printed : List Int) : Main → Prop
  | .reset => (∀ t, worker t = .absent) ∧ printed = []
  | .spawn .thread1 => (∀ t, worker t = .absent) ∧ printed = [0]
  | .spawn .thread2 => worker .thread2 = .absent ∧ worker .thread1 ≠ .absent ∧ printed = [0]
  | .join .thread1 => (∀ t, worker t ≠ .absent) ∧ printed = [0]
  | .join .thread2 => worker .thread1 = .ended ∧ worker .thread2 ≠ .absent ∧ printed = [0]
  | .print => (∀ t, worker t = .ended) ∧ printed = [0]
  | .done => (∀ t, worker t = .ended) ∧ printed = [0, 2 * (n : Int)]

/-- The process is where `run_case` has brought it. -/
def State.InPhase (n : Nat) (s : State) : Prop := s.main.Phase n s.worker s.printed

variable {n : Nat} {s s' : State} {t : Thread}

theorem at_self (s : State) (t : Thread) (w : Worker) : (s.at t w).worker t = w :=
  Function.update_self ..

theorem at_other {u : Thread} (ne : u ≠ t) (w : Worker) : (s.at t w).worker u = s.worker u :=
  Function.update_of_ne ne ..

theorem sum_at (s : State) (t : Thread) (w : Worker) (f : Worker → Nat) :
    (s.at t w).sum f + f (s.worker t) = s.sum f + f w := by
  unfold State.sum
  cases t with
  | thread1 =>
      rw [at_self, at_other (by decide)]
      omega
  | thread2 =>
      rw [at_self, at_other (by decide)]
      omega

theorem Worker.counted_of_not_critical {w : Worker} (outside : ¬ w.Critical) :
    w.counted n = w.completed n := by
  cases w with
  | written i => exact absurd trivial outside
  | absent | loop i | locked i | read i v | ended => rfl

/-- Outside its critical section a thread does not depend on the counter. -/
theorem Worker.Fits.of_not_critical {w : Worker} {v v' : Int} (fits : w.Fits n v)
    (outside : ¬ w.Critical) : w.Fits n v' := by
  cases w with
  | locked i | read i v | written i => exact absurd trivial outside
  | absent | loop i | ended => exact fits

/-! ## Steps -/

/-- What a step of `work` with the mutex can be. -/
theorem work_cases (hstep : s.work .mutex n t = some s') :
    (∃ i, s.worker t = .loop i ∧ i < n ∧ s.g_mutex = none ∧
      s' = { s.at t (.locked i) with g_mutex := some t }) ∨
    (∃ i, s.worker t = .loop i ∧ n ≤ i ∧ s' = s.at t .ended) ∨
    (∃ i, s.worker t = .locked i ∧ s' = s.at t (.read i s.global_variable)) ∨
    (∃ i v, s.worker t = .read i v ∧
      s' = { s.at t (.written i) with global_variable := v + 1 }) ∨
    ∃ i, s.worker t = .written i ∧ s' = { s.at t (.loop (i + 1)) with g_mutex := none } := by
  unfold State.work at hstep
  cases here : s.worker t with
  | absent | ended =>
      simp only [here] at hstep
      cases hstep
  | loop i =>
      simp only [here] at hstep
      by_cases more : i < n
      · rw [if_pos more, Option.ite_none_right_eq_some] at hstep
        obtain ⟨free, same⟩ := hstep
        cases same
        exact .inl ⟨i, rfl, more, free, rfl⟩
      · rw [if_neg more] at hstep
        cases hstep
        exact .inr (.inl ⟨i, rfl, Nat.le_of_not_lt more, rfl⟩)
  | locked i =>
      simp only [here] at hstep
      cases hstep
      exact .inr (.inr (.inl ⟨i, rfl, rfl⟩))
  | read i v =>
      simp only [here, Option.ite_none_right_eq_some] at hstep
      obtain ⟨-, same⟩ := hstep
      cases same
      exact .inr (.inr (.inr (.inl ⟨i, v, rfl, rfl⟩)))
  | written i =>
      simp only [here] at hstep
      cases hstep
      exact .inr (.inr (.inr (.inr ⟨i, rfl, rfl⟩)))

/-- What a step of `run_case` can be. -/
theorem runCase_cases (hstep : s.runCase = some s') :
    (s.main = .reset ∧
      s' = { s with global_variable := 0, main := .spawn .thread1, printed := [0] }) ∨
    (s.main = .spawn .thread1 ∧ s' = { s.at .thread1 (.loop 0) with main := .spawn .thread2 }) ∨
    (s.main = .spawn .thread2 ∧ s' = { s.at .thread2 (.loop 0) with main := .join .thread1 }) ∨
    (s.main = .join .thread1 ∧ s.worker .thread1 = .ended ∧
      s' = { s with main := .join .thread2 }) ∨
    (s.main = .join .thread2 ∧ s.worker .thread2 = .ended ∧ s' = { s with main := .print }) ∨
    (s.main = .print ∧
      s' = { s with main := .done, printed := s.printed ++ [s.global_variable] }) := by
  unfold State.runCase at hstep
  cases here : s.main with
  | reset =>
      simp only [here] at hstep
      cases hstep
      exact .inl ⟨rfl, rfl⟩
  | spawn t =>
      cases t with
      | thread1 =>
          simp only [here] at hstep
          cases hstep
          exact .inr (.inl ⟨rfl, rfl⟩)
      | thread2 =>
          simp only [here] at hstep
          cases hstep
          exact .inr (.inr (.inl ⟨rfl, rfl⟩))
  | join t =>
      cases t with
      | thread1 =>
          simp only [here, Option.ite_none_right_eq_some] at hstep
          obtain ⟨ended, same⟩ := hstep
          cases same
          exact .inr (.inr (.inr (.inl ⟨rfl, ended, rfl⟩)))
      | thread2 =>
          simp only [here, Option.ite_none_right_eq_some] at hstep
          obtain ⟨ended, same⟩ := hstep
          cases same
          exact .inr (.inr (.inr (.inr (.inl ⟨rfl, ended, rfl⟩))))
  | print =>
      simp only [here] at hstep
      cases hstep
      exact .inr (.inr (.inr (.inr (.inr ⟨rfl, rfl⟩))))
  | done =>
      simp only [here] at hstep
      cases hstep

/-- A step of one thread, with what it does to the mutex and to the counter: the
others see nothing of the counter unless it is free. -/
theorem Guarded.moved (guarded : Guarded n s) {w : Worker} {m : Option Thread} {v : Int}
    (holder : w.Critical ↔ m = some t) (others : ∀ u, u ≠ t → (s.g_mutex = some u ↔ m = some u))
    (fits : w.Fits n v) (private_ : v = s.global_variable ∨ (s.worker t).Critical)
    (count : v + (s.worker t).counted n = s.global_variable + w.counted n) :
    Guarded n { s.at t w with g_mutex := m, global_variable := v } := by
  constructor
  · intro u
    show ((s.at t w).worker u).Critical ↔ m = some u
    by_cases same : u = t
    · subst same
      rw [at_self]
      exact holder
    · rw [at_other same, guarded.holder u, others u same]
  · intro u
    show ((s.at t w).worker u).Fits n v
    by_cases same : u = t
    · subst same
      rw [at_self]
      exact fits
    · rw [at_other same]
      rcases private_ with rfl | critical
      · exact guarded.fits u
      · have held := (guarded.holder t).mp critical
        have outside : ¬ (s.worker u).Critical := by
          rw [guarded.holder u, held]
          intro both
          injection both with both
          exact same both.symm
        exact (guarded.fits u).of_not_critical outside
  · intro begun
    have before := guarded.counter begun
    have sums := sum_at s t w (Worker.counted n)
    show v = (s.at t w).sum (Worker.counted n)
    omega

/-- **Step lemma**, for the threads. -/
theorem Guarded.work (guarded : Guarded n s) (hstep : s.work .mutex n t = some s') :
    Guarded n s' := by
  have fits := guarded.fits t
  have holder := guarded.holder t
  rcases work_cases hstep with ⟨i, here, more, free, rfl⟩ | ⟨i, here, past, rfl⟩ |
    ⟨i, here, rfl⟩ | ⟨i, v, here, rfl⟩ | ⟨i, here, rfl⟩
  · -- lock: no other thread is in its critical section
    refine guarded.moved (v := s.global_variable) ?_ ?_ more (.inl rfl) (by rw [here]; rfl)
    · exact iff_of_true trivial rfl
    · intro u ne
      rw [free]
      exact iff_of_false nofun fun both => ne (Option.some.inj both).symm
  · -- the loop ends after `n` iterations
    rw [here] at fits holder
    have last : i = n := Nat.le_antisymm fits past
    refine guarded.moved (m := s.g_mutex) (v := s.global_variable) holder (fun u ne => Iff.rfl)
      trivial (.inl rfl) ?_
    rw [here, last]
    rfl
  · rw [here] at fits holder
    exact guarded.moved (m := s.g_mutex) (v := s.global_variable) holder (fun u ne => Iff.rfl)
      ⟨fits, rfl⟩ (.inl rfl) (by rw [here]; rfl)
  · -- write: what was read is still what is there
    rw [here] at fits holder
    obtain ⟨more, rfl⟩ := fits
    refine guarded.moved (m := s.g_mutex) holder (fun u ne => Iff.rfl) more (.inr ?_) ?_
    · rw [here]
      trivial
    · rw [here]
      show s.global_variable + 1 + (i : Int) = s.global_variable + ((i + 1 : Nat) : Int)
      omega
  · -- unlock
    rw [here] at fits holder
    have held : s.g_mutex = some t := holder.mp trivial
    refine guarded.moved (m := none) (v := s.global_variable) ?_ ?_ fits (.inl rfl)
      (by rw [here]; rfl)
    · exact iff_of_false not_false nofun
    · intro u ne
      rw [held]
      exact iff_of_false (fun both => ne (Option.some.inj both).symm) nofun

/-- `run_case` at another control point, once the counter has been reset. -/
theorem Guarded.goto (guarded : Guarded n s) (begun : s.main ≠ .reset) (m : Main)
    (printed : List Int) : Guarded n { s with main := m, printed := printed } :=
  ⟨guarded.holder, guarded.fits, fun _ => guarded.counter begun⟩

/-- A thread is started. -/
theorem Guarded.spawn (guarded : Guarded n s) (absent : s.worker t = .absent) :
    Guarded n (s.at t (.loop 0)) := by
  have holder := guarded.holder t
  rw [absent] at holder
  refine guarded.moved (m := s.g_mutex) (v := s.global_variable) holder (fun u ne => Iff.rfl)
    (Nat.zero_le n) (.inl rfl) ?_
  rw [absent]
  rfl

/-- **Step lemma**, for `run_case`. -/
theorem Guarded.runCase (guarded : Guarded n s) (phase : s.InPhase n)
    (hstep : s.runCase = some s') : Guarded n s' := by
  unfold State.InPhase at phase
  rcases runCase_cases hstep with ⟨here, rfl⟩ | ⟨here, rfl⟩ | ⟨here, rfl⟩ | ⟨here, -, rfl⟩ |
    ⟨here, -, rfl⟩ | ⟨here, rfl⟩
  · rw [here] at phase
    obtain ⟨absent, -⟩ := phase
    constructor
    · exact guarded.holder
    · intro t
      show (s.worker t).Fits n 0
      rw [absent t]
      trivial
    · intro _
      show (0 : Int) = ((s.worker .thread1).counted n + (s.worker .thread2).counted n : Nat)
      rw [absent .thread1, absent .thread2]
      rfl
  · rw [here] at phase
    exact (guarded.spawn (phase.1 .thread1)).goto (by show s.main ≠ _; rw [here]; nofun) _ _
  · rw [here] at phase
    exact (guarded.spawn phase.1).goto (by show s.main ≠ _; rw [here]; nofun) _ _
  · exact guarded.goto (by rw [here]; nofun) _ _
  · exact guarded.goto (by rw [here]; nofun) _ _
  · exact guarded.goto (by rw [here]; nofun) _ _

/-- A thread that takes a step is running, and moves no other thread. -/
theorem work_frame (hstep : s.work .mutex n t = some s') :
    s.worker t ≠ .absent ∧ s.worker t ≠ .ended ∧
      ∃ w m v, w ≠ .absent ∧ s' = { s.at t w with g_mutex := m, global_variable := v } := by
  rcases work_cases hstep with ⟨i, here, -, -, rfl⟩ | ⟨i, here, -, rfl⟩ | ⟨i, here, rfl⟩ |
    ⟨i, v, here, rfl⟩ | ⟨i, here, rfl⟩
  · rw [here]
    exact ⟨nofun, nofun, .locked i, some t, s.global_variable, nofun, rfl⟩
  · rw [here]
    exact ⟨nofun, nofun, .ended, s.g_mutex, s.global_variable, nofun, rfl⟩
  · rw [here]
    exact ⟨nofun, nofun, .read i s.global_variable, s.g_mutex, s.global_variable, nofun, rfl⟩
  · rw [here]
    exact ⟨nofun, nofun, .written i, s.g_mutex, v + 1, nofun, rfl⟩
  · rw [here]
    exact ⟨nofun, nofun, .loop (i + 1), none, s.global_variable, nofun, rfl⟩

/-- A thread that was there stays there. -/
theorem at_ne_absent {u : Thread} {w : Worker} (moved : w ≠ .absent)
    (there : s.worker u ≠ .absent) : (s.at t w).worker u ≠ .absent := by
  by_cases same : u = t
  · subst same
    rw [at_self]
    exact moved
  · rw [at_other same]
    exact there

theorem phase_work (phase : s.InPhase n) (hstep : s.work .mutex n t = some s') :
    s'.InPhase n := by
  obtain ⟨notAbsent, notEnded, w, m, v, moved, rfl⟩ := work_frame hstep
  unfold State.InPhase at phase
  show s.main.Phase n (s.at t w).worker s.printed
  cases here : s.main with
  | reset =>
      rw [here] at phase
      exact absurd (phase.1 t) notAbsent
  | spawn u =>
      cases u with
      | thread1 =>
          rw [here] at phase
          exact absurd (phase.1 t) notAbsent
      | thread2 =>
          rw [here] at phase
          obtain ⟨absent, there, printed⟩ := phase
          have other : Thread.thread2 ≠ t := fun same => notAbsent (same ▸ absent)
          exact ⟨(at_other other w).trans absent, at_ne_absent moved there, printed⟩
  | join u =>
      cases u with
      | thread1 =>
          rw [here] at phase
          exact ⟨fun u => at_ne_absent moved (phase.1 u), phase.2⟩
      | thread2 =>
          rw [here] at phase
          obtain ⟨ended, there, printed⟩ := phase
          have other : Thread.thread1 ≠ t := fun same => notEnded (same ▸ ended)
          exact ⟨(at_other other w).trans ended, at_ne_absent moved there, printed⟩
  | print =>
      rw [here] at phase
      exact absurd (phase.1 t) notEnded
  | done =>
      rw [here] at phase
      exact absurd (phase.1 t) notEnded

/-- When both have ended, the counter has both of their loops. -/
theorem Guarded.counter_ended (guarded : Guarded n s) (begun : s.main ≠ .reset)
    (ended : ∀ t, s.worker t = .ended) : s.global_variable = 2 * (n : Int) := by
  rw [guarded.counter begun, State.sum, ended .thread1, ended .thread2]
  show ((n + n : Nat) : Int) = _
  omega

theorem phase_runCase (guarded : Guarded n s) (phase : s.InPhase n) (hstep : s.runCase = some s') :
    s'.InPhase n := by
  unfold State.InPhase at phase ⊢
  rcases runCase_cases hstep with ⟨here, rfl⟩ | ⟨here, rfl⟩ | ⟨here, rfl⟩ | ⟨here, ended, rfl⟩ |
    ⟨here, ended, rfl⟩ | ⟨here, rfl⟩
  · rw [here] at phase
    exact ⟨phase.1, rfl⟩
  · rw [here] at phase
    have other : Thread.thread2 ≠ .thread1 := by decide
    refine ⟨(at_other other (.loop 0)).trans (phase.1 .thread2), ?_, phase.2⟩
    show (s.at .thread1 (.loop 0)).worker .thread1 ≠ .absent
    rw [at_self]
    nofun
  · rw [here] at phase
    obtain ⟨absent, there, printed⟩ := phase
    refine ⟨?_, printed⟩
    intro t
    show (s.at .thread2 (.loop 0)).worker t ≠ .absent
    cases t with
    | thread1 => exact at_ne_absent nofun there
    | thread2 =>
        rw [at_self]
        nofun
  · rw [here] at phase
    exact ⟨ended, phase.1 .thread2, phase.2⟩
  · rw [here] at phase
    refine ⟨?_, phase.2.2⟩
    intro t
    cases t with
    | thread1 => exact phase.1
    | thread2 => exact ended
  · rw [here] at phase
    have total := guarded.counter_ended (by rw [here]; nofun) phase.1
    refine ⟨phase.1, ?_⟩
    show s.printed ++ [s.global_variable] = _
    rw [phase.2, total]
    rfl

/-! ## Runs -/

/-- **Run lemma.** -/
theorem guarded_run {before : Int} {tr : List Label} {s : State}
    (run : (system .mutex n before).run tr = some s) : Guarded n s ∧ s.InPhase n := by
  refine System.state_invariant (I := fun s => Guarded n s ∧ s.InPhase n) ?_ ?_ run
  · refine ⟨⟨?_, fun t => trivial, fun begun => absurd rfl begun⟩, fun t => rfl, rfl⟩
    intro t
    exact iff_of_false not_false nofun
  · rintro s l s' ⟨guarded, phase⟩ hstep
    cases l with
    | main => exact ⟨guarded.runCase phase hstep, phase_runCase guarded phase hstep⟩
    | worker t => exact ⟨guarded.work hstep, phase_work phase hstep⟩

/-- A thread that holds the mutex can go on, unless the counter is at its limit. -/
theorem exists_step_critical (guarded : Guarded n s) (fits : 2 * (n : Int) ≤ INT_MAX)
    (begun : s.main ≠ .reset) (critical : (s.worker t).Critical) :
    ∃ s', s.work .mutex n t = some s' := by
  unfold State.work
  cases here : s.worker t with
  | absent | loop i | ended =>
      rw [here] at critical
      exact absurd critical not_false
  | locked i => exact ⟨_, rfl⟩
  | written i => exact ⟨_, rfl⟩
  | read i v =>
      have reading := guarded.fits t
      rw [here] at reading
      obtain ⟨more, rfl⟩ := reading
      have most : ∀ u, (s.worker u).counted n ≤ n := by
        intro u
        have fits := guarded.fits u
        cases at_ : s.worker u with
        | absent => exact Nat.zero_le n
        | ended => exact Nat.le_refl n
        | loop j =>
            rw [at_] at fits
            exact fits
        | locked j =>
            rw [at_] at fits
            exact Nat.le_of_lt fits
        | read j v =>
            rw [at_] at fits
            exact Nat.le_of_lt fits.1
        | written j =>
            rw [at_] at fits
            exact fits
      have fewer : (s.worker t).counted n < n := by
        rw [here]
        exact more
      have total := guarded.counter begun
      unfold State.sum at total
      have room : s.global_variable < INT_MAX := by
        have one := most .thread1
        have two := most .thread2
        cases t with
        | thread1 => omega
        | thread2 => omega
      exact ⟨_, if_pos room⟩

/-- With the mutex free a thread that runs can go on. -/
theorem exists_step_free (free : s.g_mutex = none) (outside : ¬ (s.worker t).Critical)
    (notAbsent : s.worker t ≠ .absent) (notEnded : s.worker t ≠ .ended) :
    ∃ s', s.work .mutex n t = some s' := by
  unfold State.work
  cases here : s.worker t with
  | absent => exact absurd here notAbsent
  | ended => exact absurd here notEnded
  | locked i | read i v | written i =>
      rw [here] at outside
      exact absurd trivial outside
  | loop i =>
      by_cases more : i < n
      · exact ⟨{ s.at t (.locked i) with g_mutex := some t }, by simp [more, free]⟩
      · exact ⟨s.at t .ended, by simp [more]⟩

/-- No thread waits for ever: a process that is not done can go on, if twice the
iterations are not too many for an `int`. -/
theorem exists_step {before : Int} {tr : List Label} {s : State}
    (run : (system .mutex n before).run tr = some s) (fits : 2 * (n : Int) ≤ INT_MAX)
    (running : s.main ≠ .done) : ∃ l s', (system .mutex n before).step s l = some s' := by
  obtain ⟨guarded, phase⟩ := guarded_run run
  unfold State.InPhase at phase
  -- a thread that is waited for goes on, or the one that has the mutex does
  have waiting : ∀ t, s.main ≠ .reset → s.worker t ≠ .absent → s.worker t ≠ .ended →
      ∃ l s', (system .mutex n before).step s l = some s' := by
    intro t begun notAbsent notEnded
    cases holder : s.g_mutex with
    | none =>
        have outside : ¬ (s.worker t).Critical := by
          rw [guarded.holder t, holder]
          nofun
        exact ⟨.worker t, exists_step_free holder outside notAbsent notEnded⟩
    | some u => exact ⟨.worker u, exists_step_critical guarded fits begun
        ((guarded.holder u).mpr holder)⟩
  cases here : s.main with
  | reset | print => exact ⟨.main, by simp [system, State.runCase, here]⟩
  | done => exact absurd here running
  | spawn t =>
      cases t with
      | thread1 | thread2 => exact ⟨.main, by simp [system, State.runCase, here]⟩
  | join t =>
      cases t with
      | thread1 =>
          rw [here] at phase
          by_cases ended : s.worker .thread1 = .ended
          · exact ⟨.main, by simp [system, State.runCase, here, ended]⟩
          · exact waiting .thread1 (by rw [here]; nofun) (phase.1 .thread1) ended
      | thread2 =>
          rw [here] at phase
          by_cases ended : s.worker .thread2 = .ended
          · exact ⟨.main, by simp [system, State.runCase, here, ended]⟩
          · exact waiting .thread2 (by rw [here]; nofun) phase.2.1 ended

/-- **No lost update.** In every interleaving, once the counter has been reset, it
has the completed iterations of both threads whenever the mutex is free; when both
have been joined, it has `2 * n`, whatever there was before; and until then some
thread can go on, if twice the iterations are not too many for an `int`. -/
theorem no_lost_update {before : Int} {tr : List Label} {s : State}
    (run : (system .mutex n before).run tr = some s) :
    (s.main ≠ .reset → s.g_mutex = none → s.global_variable = s.sum (Worker.completed n)) ∧
    (s.main.Joined → s.global_variable = 2 * (n : Int)) ∧
    (s.main = .done → s.printed = [0, 2 * (n : Int)]) ∧
    (2 * (n : Int) ≤ INT_MAX → s.main ≠ .done →
      ∃ l s', (system .mutex n before).step s l = some s') := by
  obtain ⟨guarded, phase⟩ := guarded_run run
  refine ⟨?_, ?_, ?_, exists_step run⟩
  · intro begun free
    have outside : ∀ t, ¬ (s.worker t).Critical := by
      intro t
      rw [guarded.holder t, free]
      nofun
    rw [guarded.counter begun, State.sum, State.sum,
      Worker.counted_of_not_critical (outside .thread1),
      Worker.counted_of_not_critical (outside .thread2)]
  · intro joined
    unfold State.InPhase at phase
    rcases joined with here | here
    · rw [here] at phase
      exact guarded.counter_ended (by rw [here]; nofun) phase.1
    · rw [here] at phase
      exact guarded.counter_ended (by rw [here]; nofun) phase.1
  · intro here
    unfold State.InPhase at phase
    rw [here] at phase
    exact phase.2

/-- Two iterations each, the threads in turn. -/
def sampleTurns : List Label :=
  [[.main, .main, .main], List.replicate 4 (.worker .thread1),
    List.replicate 4 (.worker .thread2), List.replicate 4 (.worker .thread1),
    List.replicate 4 (.worker .thread2),
    [.worker .thread1, .main, .worker .thread2, .main, .main]].flatten

theorem no_lost_update_turns : ∃ s, (system .mutex 2 7).run sampleTurns = some s ∧
    s.global_variable = 4 ∧ s.printed = [0, 4] := by
  have ended : ((system .mutex 2 7).run sampleTurns).map State.main = some .done := by decide
  obtain ⟨s, run, done⟩ := Option.map_eq_some_iff.mp ended
  have found := no_lost_update run
  exact ⟨s, run, found.2.1 (.inr done), found.2.2.1 done⟩

/-- Without the mutex both threads may read before either writes. -/
example : ∃ s, (system .problem 1 0).run ([.main, .main, .main, .worker .thread1,
    .worker .thread2, .worker .thread1, .worker .thread2, .worker .thread1, .worker .thread2,
    .worker .thread1, .worker .thread1, .worker .thread2, .worker .thread2, .main, .main,
    .main]) = some s ∧ s.printed = [0, 1] :=
  ⟨_, rfl, rfl⟩

end CppLab.Concurrency.RaceCondition
