import CppLab.Lib.System

/-!
# Threads that are started and joined

One thread runs a script: it logs lines, and starts, joins, detaches and destroys the
threads that it has an object for. Each of those logs the lines of its body. `Instr.resolve` is
what an object allows: a joinable one may be joined or detached once, and to destroy it or
to start another thread in it ends the program.

`system` lets any thread go on at any time. `sound` checks a script against the objects alone:
one that passes fails in no interleaving (`sound_run`), never waits for ever (`exists_step`)
and is over after `size` steps at most (`length_le_size`).
-/

namespace CppLab

/-- What the script does, to the log and to the threads. -/
inductive Instr (τ κ : Type*)
  | log (line : κ)
  | start (t : τ)
  | async (t : τ)
  | join (t : τ)
  | get (t : τ)
  | detach (t : τ)
  | checkJoinable (t : τ) (yes no : κ)
  | joinIfJoinable (t : τ)
  | destroy (t : τ)
  deriving DecidableEq, Repr

/-- What is left of an instruction when it is known which objects are joinable. -/
inductive Action (τ κ : Type*)
  | log (line : κ)
  | start (t : τ)
  | wait (t : τ)
  | skip
  deriving DecidableEq, Repr

/-- A script, and what each thread logs. -/
structure ForkJoin (τ κ : Type*) where
  script : List (Instr τ κ)
  body : τ → List κ

variable {τ κ : Type*} [DecidableEq τ]

/-- What an instruction does, and the joinable objects after it; `none` where the program ends
by `std::terminate` or with a `std::system_error`. A future is got from a thread that has
logged all of its lines; that says nothing about the thread object. -/
def Instr.resolve (joinable : τ → Bool) : Instr τ κ → Option (Action τ κ × (τ → Bool))
  | .log line => some (.log line, joinable)
  | .start t =>
      if joinable t then none else some (.start t, Function.update joinable t true)
  | .async t => some (.start t, joinable)
  | .join t =>
      if joinable t then some (.wait t, Function.update joinable t false) else none
  | .get t => some (.wait t, joinable)
  | .detach t =>
      if joinable t then some (.skip, Function.update joinable t false) else none
  | .checkJoinable t yes no => some (.log (if joinable t then yes else no), joinable)
  | .joinIfJoinable t =>
      if joinable t then some (.wait t, Function.update joinable t false)
      else some (.skip, joinable)
  | .destroy t => if joinable t then none else some (.skip, joinable)

/-- The steps that an instruction can cause: its own, and those of the thread it starts. -/
def Instr.cost (body : τ → List κ) : Instr τ κ → Nat
  | .start t | .async t => 1 + (body t).length
  | _ => 1

namespace ForkJoin

/-- What is left of the script and of each thread that has been started, the joinable objects and
the log. -/
structure State (τ κ : Type*) where
  script : List (Instr τ κ)
  joinable : τ → Bool
  todo : τ → List κ
  out : List κ
  failed : Bool

/-- The script goes on; `none` while it has to wait. -/
def act (P : ForkJoin τ κ) (s : State τ κ) (rest : List (Instr τ κ)) (joinable : τ → Bool) :
    Action τ κ → Option (State τ κ)
  | .log line => some ⟨rest, joinable, s.todo, s.out ++ [line], false⟩
  | .start t => some ⟨rest, joinable, Function.update s.todo t (P.body t), s.out, false⟩
  | .wait t => if s.todo t = [] then some ⟨rest, joinable, s.todo, s.out, false⟩ else none
  | .skip => some ⟨rest, joinable, s.todo, s.out, false⟩

/-- One step, of the script or of a thread. -/
def system (P : ForkJoin τ κ) : System (State τ κ) (Option τ) where
  init := ⟨P.script, fun _ => false, fun _ => [], [], false⟩
  step s l :=
    if s.failed then none
    else match l with
    | none =>
        match s.script with
        | [] => none
        | i :: rest =>
            match i.resolve s.joinable with
            | none => some { s with failed := true }
            | some (action, joinable) => P.act s rest joinable action
    | some t =>
        match s.todo t with
        | [] => none
        | line :: rest =>
            some { s with todo := Function.update s.todo t rest, out := s.out ++ [line] }

variable {P : ForkJoin τ κ} {s s' : State τ κ}

/-- What a step can be. -/
theorem step_cases {l : Option τ} (hstep : P.system.step s l = some s') :
    s.failed = false ∧
    ((∃ i rest, l = none ∧ s.script = i :: rest ∧ i.resolve s.joinable = none ∧
        s' = { s with failed := true }) ∨
      (∃ i rest action joinable, l = none ∧ s.script = i :: rest ∧
        i.resolve s.joinable = some (action, joinable) ∧ P.act s rest joinable action = some s') ∨
      ∃ t line rest, l = some t ∧ s.todo t = line :: rest ∧
        s' = { s with todo := Function.update s.todo t rest, out := s.out ++ [line] }) := by
  obtain ⟨script, joinable, todo, out, failed⟩ := s
  cases failed with
  | true => cases hstep
  | false =>
      refine ⟨rfl, ?_⟩
      cases l with
      | none =>
          cases script with
          | nil => cases hstep
          | cons i rest =>
              cases resolved : i.resolve joinable with
              | none =>
                  simp only [system, resolved, Bool.false_eq_true, if_false,
                    Option.some.injEq] at hstep
                  exact .inl ⟨i, rest, rfl, rfl, resolved, hstep.symm⟩
              | some effect =>
                  simp only [system, resolved, Bool.false_eq_true, if_false] at hstep
                  exact .inr (.inl ⟨i, rest, effect.1, effect.2, rfl, rfl, resolved, hstep⟩)
      | some t =>
          cases here : todo t with
          | nil =>
              simp only [system, here, Bool.false_eq_true, if_false] at hstep
              cases hstep
          | cons line rest =>
              simp only [system, here, Bool.false_eq_true, if_false, Option.some.injEq] at hstep
              exact .inr (.inr ⟨t, line, rest, rfl, here, hstep.symm⟩)

theorem step_script {i : Instr τ κ} {rest : List (Instr τ κ)} {joinable after : τ → Bool}
    {todo : τ → List κ} {out : List κ} {action : Action τ κ}
    (resolved : i.resolve joinable = some (action, after)) :
    P.system.step ⟨i :: rest, joinable, todo, out, false⟩ none =
      P.act ⟨i :: rest, joinable, todo, out, false⟩ rest after action := by
  simp only [system, resolved, Bool.false_eq_true, if_false]

theorem step_thread {script : List (Instr τ κ)} {joinable : τ → Bool} {todo : τ → List κ}
    {out : List κ} {t : τ} {line : κ} {rest : List κ} (here : todo t = line :: rest) :
    P.system.step ⟨script, joinable, todo, out, false⟩ (some t) =
      some ⟨script, joinable, Function.update todo t rest, out ++ [line], false⟩ := by
  simp only [system, here, Bool.false_eq_true, if_false]

/-! ## Scripts that cannot fail -/

/-- No instruction fails, whatever the threads do. -/
def sound (joinable : τ → Bool) : List (Instr τ κ) → Bool
  | [] => true
  | i :: rest =>
      match i.resolve joinable with
      | none => false
      | some (_, joinable) => sound joinable rest

theorem sound_cons {joinable : τ → Bool} {i : Instr τ κ} {rest : List (Instr τ κ)} :
    sound joinable (i :: rest) = true ↔
      ∃ action after, i.resolve joinable = some (action, after) ∧ sound after rest = true := by
  rw [sound]
  cases i.resolve joinable with
  | none => simp
  | some effect => simp [Prod.ext_iff]

theorem sound_logs (joinable : τ → Bool) (lines : List κ) (rest : List (Instr τ κ)) :
    sound joinable (lines.map .log ++ rest) = sound joinable rest := by
  induction lines with
  | nil => rfl
  | cons line lines ih => exact ih

/-- The script has not failed and will not fail. -/
def Sound (s : State τ κ) : Prop := s.failed = false ∧ sound s.joinable s.script = true

theorem act_frame {rest : List (Instr τ κ)} {joinable : τ → Bool} {action : Action τ κ}
    (hact : P.act s rest joinable action = some s') :
    s'.script = rest ∧ s'.joinable = joinable ∧ s'.failed = false := by
  cases action with
  | log line | start t | skip =>
      cases hact
      exact ⟨rfl, rfl, rfl⟩
  | wait t =>
      simp only [act, Option.ite_none_right_eq_some, Option.some.injEq] at hact
      obtain ⟨-, rfl⟩ := hact
      exact ⟨rfl, rfl, rfl⟩

theorem Sound.step {l : Option τ} (soundness : Sound s) (hstep : P.system.step s l = some s') :
    Sound s' := by
  obtain ⟨-, ⟨i, rest, rfl, script, fails, -⟩ |
    ⟨i, rest, action, joinable, rfl, script, resolved, hact⟩ |
    ⟨t, line, rest, rfl, here, rfl⟩⟩ := step_cases hstep
  · have ok := soundness.2
    rw [script, sound_cons] at ok
    obtain ⟨action, after, resolved, -⟩ := ok
    rw [fails] at resolved
    cases resolved
  · have ok := soundness.2
    rw [script, sound_cons] at ok
    obtain ⟨action', after, resolved', ok⟩ := ok
    rw [resolved] at resolved'
    cases resolved'
    obtain ⟨scripts, joinables, running⟩ := act_frame hact
    exact ⟨running, by rw [scripts, joinables]; exact ok⟩
  · exact soundness

/-- **Soundness.** A script that passes the check fails in no interleaving. -/
theorem sound_run (ok : sound (fun _ => false) P.script = true) {tr : List (Option τ)}
    (run : P.system.run tr = some s) : Sound s :=
  System.state_invariant (T := P.system) (I := Sound) ⟨rfl, ok⟩
    (fun _ _ _ soundness hstep => soundness.step hstep) run

/-- **Progress.** Unless the script is over, some thread can go on. -/
theorem exists_step (soundness : Sound s) (more : s.script ≠ []) :
    ∃ l s', P.system.step s l = some s' := by
  obtain ⟨script, joinable, todo, out, failed⟩ := s
  obtain ⟨running, ok⟩ := soundness
  have running : failed = false := running
  subst running
  obtain ⟨i, rest, rfl⟩ := List.exists_cons_of_ne_nil more
  obtain ⟨action, after, resolved, -⟩ := sound_cons.mp ok
  cases action with
  | log line | start t | skip => exact ⟨none, _, step_script resolved⟩
  | wait t =>
      cases here : todo t with
      | nil =>
          refine ⟨none, ⟨rest, after, todo, out, false⟩, ?_⟩
          rw [step_script resolved]
          exact if_pos here
      | cons line more => exact ⟨some t, _, step_thread here⟩

/-! ## Runs are short -/

/-- As many steps as there are in a script and its threads. -/
def size (P : ForkJoin τ κ) : Nat := (P.script.map (Instr.cost P.body)).sum

omit [DecidableEq τ] in
theorem sum_cost_logs (body : τ → List κ) (lines : List κ) :
    ((lines.map .log).map (Instr.cost body)).sum = lines.length := by
  induction lines with
  | nil => rfl
  | cons line lines ih =>
      rw [List.map_cons, List.map_cons, List.sum_cons, ih, List.length_cons, Nat.add_comm]
      rfl

theorem cost_start {joinable after : τ → Bool} {i : Instr τ κ} {t : τ} {body : τ → List κ}
    (resolved : i.resolve joinable = some (.start t, after)) :
    i.cost body = 1 + (body t).length := by
  cases i with
  | start u =>
      simp only [Instr.resolve, Option.ite_none_left_eq_some, Option.some.injEq,
        Prod.mk.injEq, Action.start.injEq] at resolved
      obtain ⟨-, rfl, -⟩ := resolved
      rfl
  | async u =>
      cases resolved
      rfl
  | joinIfJoinable u =>
      simp only [Instr.resolve] at resolved
      split at resolved <;> cases resolved
  | join u | detach u | destroy u =>
      simp only [Instr.resolve] at resolved
      split at resolved <;> cases resolved
  | log line | get u | checkJoinable u yes no => cases resolved

omit [DecidableEq τ] in
theorem one_le_cost (i : Instr τ κ) (body : τ → List κ) : 1 ≤ i.cost body := by
  cases i with
  | start t | async t => exact Nat.le_add_right 1 _
  | log line | join t | get t | detach t | checkJoinable t yes no | joinIfJoinable t | destroy t =>
      exact Nat.le_refl 1

section

variable [Fintype τ]

/-- The steps that are left. -/
def left (P : ForkJoin τ κ) (s : State τ κ) : Nat :=
  (s.script.map (Instr.cost P.body)).sum + ∑ t, (s.todo t).length

theorem sum_update (f : τ → List κ) (t : τ) (xs : List κ) :
    (∑ u, (Function.update f t xs u).length) + (f t).length =
      (∑ u, (f u).length) + xs.length := by
  have before := Finset.add_sum_erase Finset.univ (fun u => (f u).length) (Finset.mem_univ t)
  have after := Finset.add_sum_erase Finset.univ
    (fun u => (Function.update f t xs u).length) (Finset.mem_univ t)
  have others : ∑ u ∈ Finset.univ.erase t, (Function.update f t xs u).length =
      ∑ u ∈ Finset.univ.erase t, (f u).length := by
    refine Finset.sum_congr rfl fun u member => ?_
    rw [Function.update_of_ne (Finset.ne_of_mem_erase member)]
  simp only [Function.update_self] at after
  omega

theorem left_act {i : Instr τ κ} {rest : List (Instr τ κ)} {joinable : τ → Bool}
    {action : Action τ κ} (script : s.script = i :: rest)
    (resolved : i.resolve s.joinable = some (action, joinable))
    (hact : P.act s rest joinable action = some s') : P.left s' + 1 ≤ P.left s := by
  have own := one_le_cost i P.body
  have before : P.left s = i.cost P.body + (rest.map (Instr.cost P.body)).sum +
      ∑ t, (s.todo t).length := by
    rw [left, script, List.map_cons, List.sum_cons]
  cases action with
  | log line | skip =>
      cases hact
      show (rest.map (Instr.cost P.body)).sum + ∑ t, (s.todo t).length + 1 ≤ _
      omega
  | wait t =>
      simp only [act, Option.ite_none_right_eq_some, Option.some.injEq] at hact
      obtain ⟨-, rfl⟩ := hact
      show (rest.map (Instr.cost P.body)).sum + ∑ t, (s.todo t).length + 1 ≤ _
      omega
  | start t =>
      cases hact
      -- the thread has all its body to log, which the instruction has paid for
      have cost : i.cost P.body = 1 + (P.body t).length := cost_start resolved
      have sums := sum_update s.todo t (P.body t)
      show (rest.map (Instr.cost P.body)).sum +
        (∑ u, (Function.update s.todo t (P.body t) u).length) + 1 ≤ _
      omega

theorem left_step {l : Option τ} (soundness : Sound s) (hstep : P.system.step s l = some s') :
    P.left s' + 1 ≤ P.left s := by
  obtain ⟨-, ⟨i, rest, rfl, script, fails, -⟩ |
    ⟨i, rest, action, joinable, rfl, script, resolved, hact⟩ |
    ⟨t, line, rest, rfl, here, rfl⟩⟩ := step_cases hstep
  · have ok := soundness.2
    rw [script, sound_cons] at ok
    obtain ⟨action, after, resolved, -⟩ := ok
    rw [fails] at resolved
    cases resolved
  · exact left_act script resolved hact
  · have sums := sum_update s.todo t rest
    rw [here, List.length_cons] at sums
    show (s.script.map (Instr.cost P.body)).sum +
      (∑ u, (Function.update s.todo t rest u).length) + 1 ≤
      (s.script.map (Instr.cost P.body)).sum + ∑ u, (s.todo u).length
    omega

/-- **Termination.** No interleaving is longer than the script and its threads. -/
theorem length_le_size (ok : sound (fun _ => false) P.script = true) {tr : List (Option τ)}
    (run : P.system.run tr = some s) : tr.length ≤ P.size := by
  have bound : tr.length + P.left s ≤ P.left P.system.init + (tr.map fun _ => 0).sum :=
    P.system.length_add_le (I := Sound) (fun _ _ _ soundness hstep => soundness.step hstep)
      (fun _ _ _ soundness hstep => left_step soundness hstep) run ⟨rfl, ok⟩
  have start : P.left P.system.init = P.size := by
    show (P.script.map (Instr.cost P.body)).sum + ∑ t : τ, ([] : List κ).length = P.size
    simp [size]
  have free : (tr.map fun _ => 0).sum = 0 := by simp
  omega

end

end ForkJoin

end CppLab
