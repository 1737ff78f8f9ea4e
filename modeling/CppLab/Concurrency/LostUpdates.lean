import CppLab.Concurrency.RaceCondition

/-!
# The counter without the mutex

What `problem::run` can print, exactly. An increment that another one comes
between is lost; a thread can carry a stale `1` across almost the whole loop of
the other one, so `2` is as little as two loops of any length can leave.
-/

namespace CppLab.Concurrency.RaceCondition

variable {n : Nat} {before : Int} {s s' : State} {t : Thread}

/-! ## Steps -/

/-- What a step of `work` without the mutex can be. -/
theorem work_problem_cases (hstep : s.work .problem n t = some s') :
    (∃ i, s.worker t = .loop i ∧ i < n ∧ s' = s.at t (.locked i)) ∨
    (∃ i, s.worker t = .loop i ∧ n ≤ i ∧ s' = s.at t .ended) ∨
    (∃ i, s.worker t = .locked i ∧ s' = s.at t (.read i s.global_variable)) ∨
    (∃ i v, s.worker t = .read i v ∧
      s' = { s.at t (.written i) with global_variable := v + 1 }) ∨
    ∃ i, s.worker t = .written i ∧ s' = s.at t (.loop (i + 1)) := by
  unfold State.work at hstep
  cases here : s.worker t with
  | absent | ended =>
      simp only [here] at hstep
      cases hstep
  | loop i =>
      simp only [here] at hstep
      by_cases more : i < n
      · rw [if_pos more] at hstep
        cases hstep
        exact .inl ⟨i, rfl, more, rfl⟩
      · rw [if_neg more] at hstep
        cases hstep
        exact .inr (.inl ⟨i, rfl, Nat.le_of_not_lt more, rfl⟩)
  | locked i =>
      simp only [here] at hstep
      cases hstep
      exact .inr (.inr (.inl ⟨i, rfl, rfl⟩))
  | read i v =>
      simp only [here, Option.ite_none_right_eq_some] at hstep
      obtain ⟨-, same⟩ := hstep
      cases same
      exact .inr (.inr (.inr (.inl ⟨i, v, rfl, rfl⟩)))
  | written i =>
      simp only [here] at hstep
      cases hstep
      exact .inr (.inr (.inr (.inr ⟨i, rfl, rfl⟩)))

/-- A thread that takes a step is running, and moves no other thread. -/
theorem work_problem_frame (hstep : s.work .problem n t = some s') :
    s.worker t ≠ .absent ∧ s.worker t ≠ .ended ∧
      ∃ w v, s' = { s.at t w with global_variable := v } := by
  rcases work_problem_cases hstep with ⟨i, here, -, rfl⟩ | ⟨i, here, -, rfl⟩ | ⟨i, here, rfl⟩ |
    ⟨i, v, here, rfl⟩ | ⟨i, here, rfl⟩ <;> rw [here]
  · exact ⟨nofun, nofun, .locked i, s.global_variable, rfl⟩
  · exact ⟨nofun, nofun, .ended, s.global_variable, rfl⟩
  · exact ⟨nofun, nofun, .read i s.global_variable, s.global_variable, rfl⟩
  · exact ⟨nofun, nofun, .written i, v + 1, rfl⟩
  · exact ⟨nofun, nofun, .loop (i + 1), s.global_variable, rfl⟩

/-! ## The bounds -/

/-- The iteration is one of `n`. A value that has been read is one that some thread wrote,
from the second iteration on. -/
def Worker.Stale (n total : Nat) : Worker → Prop
  | .absent | .ended => True
  | .loop i => i ≤ n
  | .locked i | .written i => i < n
  | .read i v => i < n ∧ 0 ≤ v ∧ v ≤ total ∧ (0 < i → 0 < v)

/-- What holds of the counter whatever gets lost. A write in a second iteration leaves `2`
at least, so a counter below that was last written in a first one. -/
structure Racy (n : Nat) (s : State) : Prop where
  stale : ∀ t, (s.worker t).Stale n (s.sum (Worker.counted n))
  nonneg : 0 ≤ s.global_variable
  most : s.global_variable ≤ s.sum (Worker.counted n)
  written : ∀ t, 0 < (s.worker t).counted n → 0 < s.global_variable
  last : 2 ≤ s.global_variable ∨ ∃ t, (s.worker t).counted n ≤ 1

theorem Worker.Stale.mono {w : Worker} {m total : Nat} (stale : w.Stale n m) (le : m ≤ total) :
    w.Stale n total := by
  cases w with
  | read i v =>
      obtain ⟨more, nonneg, most, later⟩ := stale
      exact ⟨more, nonneg, by omega, later⟩
  | absent | loop i | locked i | written i | ended => exact stale

/-- A step that writes nothing. -/
theorem Racy.quiet (racy : Racy n s) {w : Worker} (same : w.counted n = (s.worker t).counted n)
    (stale : w.Stale n (s.sum (Worker.counted n))) : Racy n (s.at t w) := by
  have sums := sum_at s t w (Worker.counted n)
  have total : (s.at t w).sum (Worker.counted n) = s.sum (Worker.counted n) := by omega
  have counted : ∀ u, ((s.at t w).worker u).counted n = (s.worker u).counted n := by
    intro u
    by_cases own : u = t
    · rw [own, at_self, same]
    · rw [at_other own]
  constructor
  · intro u
    rw [total]
    by_cases own : u = t
    · rw [own, at_self]
      exact stale
    · rw [at_other own]
      exact racy.stale u
  · exact racy.nonneg
  · rw [total]
    exact racy.most
  · intro u
    rw [counted u]
    exact racy.written u
  · rcases racy.last with two | ⟨u, first⟩
    · exact .inl two
    · refine .inr ⟨u, ?_⟩
      rw [counted u]
      exact first

/-- A write, of one more than what was read. -/
theorem Racy.write (racy : Racy n s) {i : Nat} {v : Int} (here : s.worker t = .read i v) :
    Racy n { s.at t (.written i) with global_variable := v + 1 } := by
  have stale := racy.stale t
  rw [here] at stale
  obtain ⟨more, nonneg, most, later⟩ := stale
  have sums := sum_at s t (.written i) (Worker.counted n)
  rw [here] at sums
  have total : (s.at t (.written i)).sum (Worker.counted n) =
      s.sum (Worker.counted n) + 1 := by
    have before : (Worker.read i v).counted n = i := rfl
    have after : (Worker.written i).counted n = i + 1 := rfl
    omega
  constructor
  · intro u
    show ((s.at t (.written i)).worker u).Stale n ((s.at t (.written i)).sum (Worker.counted n))
    rw [total]
    by_cases own : u = t
    · rw [own, at_self]
      exact more
    · rw [at_other own]
      exact (racy.stale u).mono (Nat.le_succ _)
  · show 0 ≤ v + 1
    omega
  · show v + 1 ≤ ((s.at t (.written i)).sum (Worker.counted n) : Nat)
    rw [total]
    omega
  · intro u _
    show 0 < v + 1
    omega
  · show 2 ≤ v + 1 ∨ ∃ u, ((s.at t (.written i)).worker u).counted n ≤ 1
    by_cases first : i = 0
    · refine .inr ⟨t, ?_⟩
      rw [at_self, first]
      exact Nat.le_refl 1
    · left
      have read := later (Nat.pos_of_ne_zero first)
      omega

/-- **Step lemma**, for the threads. -/
theorem Racy.work (racy : Racy n s) (hstep : s.work .problem n t = some s') : Racy n s' := by
  have stale := racy.stale t
  rcases work_problem_cases hstep with ⟨i, here, more, rfl⟩ | ⟨i, here, past, rfl⟩ |
    ⟨i, here, rfl⟩ | ⟨i, v, here, rfl⟩ | ⟨i, here, rfl⟩
  · exact racy.quiet (by rw [here]; rfl) more
  · rw [here] at stale
    have last : i = n := Nat.le_antisymm stale past
    exact racy.quiet (by rw [here, last]; rfl) trivial
  · -- what is read was written by a thread, this one if need be
    have written := racy.written t
    rw [here] at stale written
    exact racy.quiet (by rw [here]; rfl) ⟨stale, racy.nonneg, racy.most, written⟩
  · exact racy.write here
  · rw [here] at stale
    exact racy.quiet (by rw [here]; rfl) stale

/-- Where `run_case` is, and what it has printed: the counter, once both threads have
ended. -/
def Main.Course (worker : Thread → Worker) (counter : Int) (printed : List Int) : Main → Prop
  | .reset => (∀ t, worker t = .absent) ∧ printed = []
  | .spawn .thread1 => (∀ t, worker t = .absent) ∧ printed = [0]
  | .spawn .thread2 => worker .thread2 = .absent ∧ printed = [0]
  | .join .thread1 => printed = [0]
  | .join .thread2 => worker .thread1 = .ended ∧ printed = [0]
  | .print => (∀ t, worker t = .ended) ∧ printed = [0]
  | .done => (∀ t, worker t = .ended) ∧ printed = [0, counter]

/-- The state of `problem::run`. -/
structure Races (n : Nat) (s : State) : Prop where
  racy : s.main ≠ .reset → Racy n s
  course : s.main.Course s.worker s.global_variable s.printed

theorem Races.work (races : Races n s) (hstep : s.work .problem n t = some s') : Races n s' := by
  obtain ⟨notAbsent, notEnded, w, v, rfl⟩ := work_problem_frame hstep
  have course := races.course
  constructor
  · intro begun
    exact (races.racy begun).work hstep
  · show s.main.Course (s.at t w).worker v s.printed
    cases here : s.main with
    | reset =>
        rw [here] at course
        exact absurd (course.1 t) notAbsent
    | spawn u =>
        rw [here] at course
        cases u with
        | thread1 => exact absurd (course.1 t) notAbsent
        | thread2 =>
            have other : Thread.thread2 ≠ t := fun same => notAbsent (same ▸ course.1)
            exact ⟨(at_other other w).trans course.1, course.2⟩
    | join u =>
        rw [here] at course
        cases u with
        | thread1 => exact course
        | thread2 =>
            have other : Thread.thread1 ≠ t := fun same => notEnded (same ▸ course.1)
            exact ⟨(at_other other w).trans course.1, course.2⟩
    | print =>
        rw [here] at course
        exact absurd (course.1 t) notEnded
    | done =>
        rw [here] at course
        exact absurd (course.1 t) notEnded

/-- Neither thread has started, and the counter has been reset. -/
theorem racy_reset (absent : ∀ t, s.worker t = .absent) (zero : s.global_variable = 0) :
    Racy n s := by
  have total : s.sum (Worker.counted n) = 0 := by
    unfold State.sum
    rw [absent .thread1, absent .thread2]
    rfl
  constructor
  · intro t
    rw [absent t]
    trivial
  · rw [zero]
  · rw [zero, total]
    exact Int.le_refl 0
  · intro t counted
    rw [absent t] at counted
    exact absurd counted (Nat.not_lt_zero 0)
  · refine .inr ⟨.thread1, ?_⟩
    rw [absent .thread1]
    exact Nat.zero_le 1

/-- The steps of `run_case` leave the threads alone, but for starting them. -/
theorem Racy.goto (racy : Racy n s) (m : Main) (printed : List Int) :
    Racy n { s with main := m, printed := printed } :=
  ⟨racy.stale, racy.nonneg, racy.most, racy.written, racy.last⟩

theorem Racy.spawn (racy : Racy n s) (absent : s.worker t = .absent) : Racy n (s.at t (.loop 0)) :=
  racy.quiet (by rw [absent]; rfl) (Nat.zero_le n)

theorem Races.runCase (races : Races n s) (hstep : s.runCase = some s') : Races n s' := by
  have course := races.course
  rcases runCase_cases hstep with ⟨here, rfl⟩ | ⟨here, rfl⟩ | ⟨here, rfl⟩ | ⟨here, ended, rfl⟩ |
    ⟨here, ended, rfl⟩ | ⟨here, rfl⟩
  all_goals rw [here] at course
  all_goals have racy := fun begun => races.racy begun
  all_goals rw [here] at racy
  · exact ⟨fun _ => racy_reset course.1 rfl, course.1, rfl⟩
  · have other : Thread.thread2 ≠ .thread1 := by decide
    exact ⟨fun _ => ((racy nofun).spawn (course.1 .thread1)).goto _ _,
      (at_other other (.loop 0)).trans (course.1 .thread2), course.2⟩
  · exact ⟨fun _ => ((racy nofun).spawn course.1).goto _ _, course.2⟩
  · exact ⟨fun _ => (racy nofun).goto _ _, ended, course⟩
  · refine ⟨fun _ => (racy nofun).goto _ _, ?_, course.2⟩
    intro t
    cases t with
    | thread1 => exact course.1
    | thread2 => exact ended
  · refine ⟨fun _ => (racy nofun).goto _ _, course.1, ?_⟩
    show s.printed ++ [s.global_variable] = _
    rw [course.2]
    rfl

/-- **Run lemma.** -/
theorem races_run {tr : List Label} (run : (system .problem n before).run tr = some s) :
    Races n s := by
  refine System.state_invariant (I := Races n) ?_ ?_ run
  · exact ⟨fun begun => absurd rfl begun, fun _ => rfl, rfl⟩
  · intro s l s' races hstep
    cases l with
    | main => exact races.runCase hstep
    | worker t => exact races.work hstep

/-- What both loops leave. -/
theorem Racy.bounds (racy : Racy n s) (ended : ∀ t, s.worker t = .ended) :
    min (n : Int) 2 ≤ s.global_variable ∧ s.global_variable ≤ 2 * (n : Int) := by
  have counted : ∀ t, (s.worker t).counted n = n := by
    intro t
    rw [ended t]
    rfl
  have most := racy.most
  unfold State.sum at most
  rw [counted .thread1, counted .thread2] at most
  have written := racy.written .thread1
  rw [counted .thread1] at written
  have nonneg := racy.nonneg
  refine ⟨?_, by omega⟩
  rcases racy.last with two | ⟨t, first⟩
  · omega
  · rw [counted t] at first
    omega

/-! ## Every value between -/

/-- Both threads. -/
def pair (one two : Worker) : Thread → Worker
  | .thread1 => one
  | .thread2 => two

@[simp] theorem update_pair_one (one two w : Worker) :
    Function.update (pair one two) .thread1 w = pair w two := by
  funext t
  cases t with
  | thread1 => rfl
  | thread2 => rfl

@[simp] theorem update_pair_two (one two w : Worker) :
    Function.update (pair one two) .thread2 w = pair one w := by
  funext t
  cases t with
  | thread1 => rfl
  | thread2 => rfl

/-- Some run comes to these threads and this counter, with both threads started. -/
def Reach (n : Nat) (before : Int) (workers : Thread → Worker) (counter : Int) : Prop :=
  ∃ tr s, (system .problem n before).run tr = some s ∧ s.main = .join .thread1 ∧
    s.worker = workers ∧ s.global_variable = counter ∧ s.printed = [0]

theorem reach_start (n : Nat) (before : Int) : Reach n before (pair (.loop 0) (.loop 0)) 0 := by
  refine ⟨[.main, .main, .main], _, rfl, rfl, ?_, rfl, rfl⟩
  funext t
  cases t with
  | thread1 => rfl
  | thread2 => rfl

/-- One step more of a thread. -/
theorem Reach.step {workers : Thread → Worker} {c c' : Int} {w : Worker}
    (reach : Reach n before workers c)
    (work : ∀ s : State, s.worker = workers → s.global_variable = c →
      s.work .problem n t = some { s.at t w with global_variable := c' }) :
    Reach n before (Function.update workers t w) c' := by
  obtain ⟨tr, s, run, joining, rfl, rfl, printed⟩ := reach
  refine ⟨tr ++ [.worker t], { s.at t w with global_variable := c' }, ?_, joining, rfl, rfl,
    printed⟩
  exact System.run_concat_eq_some.mpr ⟨s, run, work s rfl rfl⟩

/-- A thread reads the counter. -/
theorem Reach.read {workers : Thread → Worker} {c : Int} {i : Nat}
    (reach : Reach n before workers c) (here : workers t = .loop i) (more : i < n) :
    Reach n before (Function.update workers t (.read i c)) c := by
  have locked : Reach n before (Function.update workers t (.locked i)) c := by
    refine reach.step ?_
    rintro s rfl rfl
    unfold State.work
    simp only [here, if_pos more]
    rfl
  have read : Reach n before
      (Function.update (Function.update workers t (.locked i)) t (.read i c)) c := by
    apply locked.step
    intro s workers counter
    unfold State.work
    simp only [workers, Function.update_self, ← counter]
    rfl
  rwa [Function.update_idem] at read

/-- A thread writes one more than it has read. -/
theorem Reach.write {workers : Thread → Worker} {c v : Int} {i : Nat}
    (reach : Reach n before workers c) (here : workers t = .read i v) (room : v < INT_MAX) :
    Reach n before (Function.update workers t (.loop (i + 1))) (v + 1) := by
  have written : Reach n before (Function.update workers t (.written i)) (v + 1) := by
    refine reach.step ?_
    rintro s rfl rfl
    unfold State.work
    simp only [here, if_pos room]
  have looped : Reach n before
      (Function.update (Function.update workers t (.written i)) t (.loop (i + 1))) (v + 1) := by
    apply written.step
    intro s workers counter
    unfold State.work
    simp only [workers, Function.update_self, ← counter]
    rfl
  rwa [Function.update_idem] at looped

/-- A thread runs alone for `k` iterations. -/
theorem Reach.iterate {workers : Thread → Worker} {c : Int} {i : Nat} (k : Nat)
    (reach : Reach n before workers c) (here : workers t = .loop i) (more : i + k ≤ n)
    (room : c + k ≤ INT_MAX) :
    Reach n before (Function.update workers t (.loop (i + k))) (c + k) := by
  induction k with
  | zero =>
      have same : Function.update workers t (.loop (i + 0)) = workers := by
        rw [Nat.add_zero, ← here, Function.update_eq_self]
      rw [same]
      simpa using reach
  | succ k ih =>
      have reached := ih (by omega) (by push_cast at room; omega)
      have read := reached.read (Function.update_self ..) (by omega)
      have written := read.write (Function.update_self ..) (by push_cast at room; omega)
      rw [Function.update_idem, Function.update_idem] at written
      have one : c + ((k + 1 : Nat) : Int) = c + k + 1 := by push_cast; ring
      rw [one, ← Nat.add_assoc]
      exact written

/-- With both loops over the counter is printed. -/
theorem Reach.prints {c : Int} (reach : Reach n before (pair (.loop n) (.loop n)) c) :
    ∃ tr s, (system .problem n before).run tr = some s ∧ s.main = .done ∧ s.printed = [0, c] := by
  have first : Reach n before
      (Function.update (pair (.loop n) (.loop n)) .thread1 .ended) c := by
    apply reach.step
    intro s workers counter
    unfold State.work
    simp only [workers, pair, if_neg (Nat.lt_irrefl n), ← counter]
    rfl
  rw [update_pair_one] at first
  have second : Reach n before
      (Function.update (pair .ended (.loop n)) .thread2 .ended) c := by
    apply first.step
    intro s workers counter
    unfold State.work
    simp only [workers, pair, if_neg (Nat.lt_irrefl n), ← counter]
    rfl
  rw [update_pair_two] at second
  obtain ⟨tr, s, run, joining, workers, rfl, printed⟩ := second
  -- `run_case` joins both threads and prints
  have one : (system .problem n before).step s .main = some { s with main := .join .thread2 } := by
    show s.runCase = _
    unfold State.runCase
    simp only [joining, workers, pair, if_pos]
  have two : (system .problem n before).step { s with main := .join .thread2 } .main =
      some { s with main := .print } := by
    show State.runCase { s with main := .join .thread2 } = _
    unfold State.runCase
    simp only [workers, pair, if_pos]
  have print : (system .problem n before).step { s with main := .print } .main =
      some { s with main := .done, printed := s.printed ++ [s.global_variable] } := rfl
  have joined := System.run_concat_eq_some.mpr ⟨s, run, one⟩
  have both := System.run_concat_eq_some.mpr ⟨_, joined, two⟩
  refine ⟨_, _, System.run_concat_eq_some.mpr ⟨_, both, print⟩, rfl, ?_⟩
  show s.printed ++ [s.global_variable] = _
  rw [printed]
  rfl

/-- A thread carries a stale `0` across `a` iterations of the other one, which carries the
`1` then written across `b` iterations of the first. -/
theorem reach_between {a b : Nat} (before : Int) (alow : a < n) (blow : b < n)
    (fits : 2 * (n : Int) ≤ INT_MAX) :
    Reach n before (pair (.loop n) (.loop n)) (2 * n - a - b) := by
  have carried := (reach_start n before).read (t := .thread1) rfl (by omega)
  rw [update_pair_one] at carried
  have overtaken := carried.iterate a (t := .thread2) rfl (by omega) (by omega)
  rw [update_pair_two] at overtaken
  have lost := overtaken.write (t := .thread1) rfl (by omega)
  rw [update_pair_one] at lost
  have carried' := lost.read (t := .thread2) rfl (by omega)
  rw [update_pair_two] at carried'
  have overtaken' := carried'.iterate b (t := .thread1) rfl (by omega) (by omega)
  rw [update_pair_one] at overtaken'
  have lost' := overtaken'.write (t := .thread2) rfl (by omega)
  rw [update_pair_two] at lost'
  -- the rest of both loops, one after the other
  have ended := lost'.iterate (n - 1 - b) (t := .thread1) rfl (by omega) (by omega)
  rw [update_pair_one] at ended
  have ended' := ended.iterate (n - 1 - a) (t := .thread2) rfl (by omega) (by omega)
  rw [update_pair_two] at ended'
  have one : 0 + 1 + b + (n - 1 - b) = n := by omega
  have two : 0 + a + 1 + (n - 1 - a) = n := by omega
  have total : (0 + 1 + 1 : Int) + ((n - 1 - b : Nat) : Int) + ((n - 1 - a : Nat) : Int) =
      2 * n - a - b := by omega
  rw [one, two, total] at ended'
  exact ended'

/-- With one iteration each, the second increment can be lost. -/
theorem reach_lost (before : Int) : Reach 1 before (pair (.loop 1) (.loop 1)) 1 := by
  have one := (reach_start 1 before).read (t := .thread1) rfl (by omega)
  rw [update_pair_one] at one
  have both := one.read (t := .thread2) rfl (by omega)
  rw [update_pair_two] at both
  have first := both.write (t := .thread1) rfl (by decide)
  rw [update_pair_one] at first
  have second := first.write (t := .thread2) rfl (by decide)
  rw [update_pair_two] at second
  exact second

theorem reach_value {v : Int} (fits : 2 * (n : Int) ≤ INT_MAX) (before : Int)
    (low : min (n : Int) 2 ≤ v) (high : v ≤ 2 * (n : Int)) :
    Reach n before (pair (.loop n) (.loop n)) v := by
  by_cases two : 2 ≤ v
  · -- `2 * n - v` increments are lost, at most `n - 1` of them to each thread
    obtain ⟨lost, split⟩ := Int.eq_ofNat_of_zero_le (a := 2 * (n : Int) - v) (by omega)
    have between := reach_between (a := min lost (n - 1)) (b := lost - min lost (n - 1)) before
      (by omega) (by omega) fits
    have same : (2 * n - (min lost (n - 1) : Nat) - (lost - min lost (n - 1) : Nat) : Int) = v := by
      omega
    rw [same] at between
    exact between
  · obtain ⟨rfl, rfl⟩ | ⟨rfl, rfl⟩ : (n = 0 ∧ v = 0) ∨ (n = 1 ∧ v = 1) := by omega
    · exact reach_start 0 before
    · exact reach_lost before

/-- **What the race can lose.** With `n` iterations in each of two threads and no mutex, a
run can print `v` at the end exactly when `v` lies between `2` (or `n`, if that is less) and
`2 * n`. -/
theorem prints_iff (fits : 2 * (n : Int) ≤ INT_MAX) (before v : Int) :
    (∃ tr s, (system .problem n before).run tr = some s ∧ s.main = .done ∧
      s.printed = [0, v]) ↔ min (n : Int) 2 ≤ v ∧ v ≤ 2 * (n : Int) := by
  constructor
  · rintro ⟨tr, s, run, done, printed⟩
    have races := races_run run
    have course := races.course
    have racy := races.racy (by rw [done]; nofun)
    rw [done] at course
    obtain ⟨ended, course⟩ := course
    rw [printed] at course
    injection course with _ course
    injection course with course
    rw [course]
    exact racy.bounds ended
  · rintro ⟨low, high⟩
    exact (reach_value fits before low high).prints

/-- The loops of `problem::run`. -/
theorem prints_iff_two : ∃ tr s, (system .problem 100000 0).run tr = some s ∧ s.main = .done ∧
    s.printed = [0, 2] :=
  (prints_iff (by decide) 0 2).mpr ⟨by decide, by decide⟩

end CppLab.Concurrency.RaceCondition
