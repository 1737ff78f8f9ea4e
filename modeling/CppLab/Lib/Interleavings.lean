import CppLab.Lib.ForkJoin

/-!
# What started and joined threads log

`completes_iff` turns what the threads of a script can log together, in all interleavings, into
`Ends`, by recursion on the script. Three rules take that apart:

* `ends_start`: a thread may as well have been started at once;
* `ends_detached`: what nobody waits for is shuffled into the rest;
* `ends_join`: up to where it is waited for, a thread is shuffled with the script.
-/

namespace CppLab

/-- `zs` is what two threads that log `xs` and `ys` can log together. -/
inductive Shuffle {κ : Type*} : List κ → List κ → List κ → Prop
  | nil : Shuffle [] [] []
  | left {x : κ} {xs ys zs : List κ} (rest : Shuffle xs ys zs) : Shuffle (x :: xs) ys (x :: zs)
  | right {y : κ} {xs ys zs : List κ} (rest : Shuffle xs ys zs) : Shuffle xs (y :: ys) (y :: zs)

namespace Shuffle

variable {κ : Type*} {xs ys zs : List κ} {x : κ}

theorem nil_left (ys : List κ) : Shuffle [] ys ys := by
  induction ys with
  | nil => exact .nil
  | cons y ys ih => exact .right ih

theorem eq_of_nil_left (shuffle : Shuffle [] ys zs) : zs = ys := by
  induction ys generalizing zs with
  | nil =>
      cases shuffle
      rfl
  | cons y ys ih =>
      cases shuffle with
      | right rest => rw [ih rest]

/-- Some of the right come first, before the next of the left. -/
theorem cons_left (shuffle : Shuffle (x :: xs) ys zs) :
    ∃ first ys' zs', ys = first ++ ys' ∧ zs = first ++ x :: zs' ∧ Shuffle xs ys' zs' := by
  induction ys generalizing zs with
  | nil =>
      cases shuffle with
      | left rest => exact ⟨[], [], _, rfl, rfl, rest⟩
  | cons y ys ih =>
      cases shuffle with
      | left rest => exact ⟨[], y :: ys, _, rfl, rfl, rest⟩
      | right rest =>
          obtain ⟨first, ys', zs', rfl, rfl, later⟩ := ih rest
          exact ⟨y :: first, ys', zs', rfl, rfl, later⟩

end Shuffle

variable {τ κ : Type*} [DecidableEq τ]

/-- The instruction starts the thread or may wait for it. -/
def Instr.Concerns (t : τ) : Instr τ κ → Bool
  | .start u | .async u | .join u | .get u | .joinIfJoinable u => u = t
  | _ => false

namespace ForkJoin

/-- What the script and the threads can log from here until the script is over; threads that
nobody waits for may go on after it. -/
inductive Ends (body : τ → List κ) :
    List (Instr τ κ) → (τ → Bool) → (τ → List κ) → List κ → Prop
  | nil (joinable : τ → Bool) (todo : τ → List κ) : Ends body [] joinable todo []
  | skip {i : Instr τ κ} {rest : List (Instr τ κ)} {joinable after : τ → Bool}
      {todo : τ → List κ} {zs : List κ} (resolved : i.resolve joinable = some (.skip, after))
      (ends : Ends body rest after todo zs) : Ends body (i :: rest) joinable todo zs
  | log {i : Instr τ κ} {rest : List (Instr τ κ)} {joinable after : τ → Bool}
      {todo : τ → List κ} {zs : List κ} {line : κ}
      (resolved : i.resolve joinable = some (.log line, after))
      (ends : Ends body rest after todo zs) : Ends body (i :: rest) joinable todo (line :: zs)
  | start {i : Instr τ κ} {rest : List (Instr τ κ)} {joinable after : τ → Bool}
      {todo : τ → List κ} {zs : List κ} {t : τ}
      (resolved : i.resolve joinable = some (.start t, after))
      (ends : Ends body rest after (Function.update todo t (body t)) zs) :
      Ends body (i :: rest) joinable todo zs
  | wait {i : Instr τ κ} {rest : List (Instr τ κ)} {joinable after : τ → Bool}
      {todo : τ → List κ} {zs : List κ} {t : τ}
      (resolved : i.resolve joinable = some (.wait t, after)) (ended : todo t = [])
      (ends : Ends body rest after todo zs) : Ends body (i :: rest) joinable todo zs
  | work {script : List (Instr τ κ)} {joinable : τ → Bool} {todo : τ → List κ} {zs : List κ}
      {t : τ} {line : κ} {rest : List κ} (here : todo t = line :: rest)
      (ends : Ends body script joinable (Function.update todo t rest) zs) :
      Ends body script joinable todo (line :: zs)

variable {P : ForkJoin τ κ} {s s' : State τ κ}
  {body : τ → List κ} {script rest : List (Instr τ κ)} {joinable after : τ → Bool}
  {todo : τ → List κ} {i : Instr τ κ} {zs : List κ} {t : τ}

/-- A thread may log some of its lines first. -/
theorem Ends.work_append {first more : List κ} (here : todo t = first ++ more)
    (ends : Ends body script joinable (Function.update todo t more) zs) :
    Ends body script joinable todo (first ++ zs) := by
  induction first generalizing todo with
  | nil =>
      have same : Function.update todo t more = todo := by
        rw [← List.nil_append more, ← here, Function.update_eq_self]
      rw [same] at ends
      exact ends
  | cons line first ih =>
      refine .work here (ih ?_ ?_)
      · exact Function.update_self ..
      · rw [Function.update_idem]
        exact ends

/-- An instruction with no effect on threads or log. -/
theorem ends_skip (resolved : i.resolve joinable = some (.skip, after)) :
    Ends body (i :: rest) joinable todo zs ↔ Ends body rest after todo zs := by
  refine ⟨fun ends => ?_, .skip resolved⟩
  generalize whole : i :: rest = script at ends
  induction ends with
  | nil joinable todo => cases whole
  | skip other ends =>
      cases whole
      rw [resolved] at other
      cases other
      exact ends
  | log other ends | start other ends | wait other ended ends =>
      cases whole
      rw [resolved] at other
      cases other
  | work here ends ih => exact .work here (ih resolved whole)

theorem ends_destroy (free : joinable t = false) :
    Ends body (.destroy t :: rest) joinable todo zs ↔ Ends body rest joinable todo zs := by
  apply ends_skip
  rw [Instr.resolve, free]
  rfl

/-- **Start at once.** What a thread and the others log does not tell when it was started. -/
theorem ends_start (resolved : i.resolve joinable = some (.start t, after)) (idle : todo t = []) :
    Ends body (i :: rest) joinable todo zs ↔
      Ends body rest after (Function.update todo t (body t)) zs := by
  refine ⟨fun ends => ?_, .start resolved⟩
  generalize whole : i :: rest = script at ends
  induction ends with
  | nil joinable todo => cases whole
  | start other ends =>
      cases whole
      rw [resolved] at other
      cases other
      exact ends
  | skip other ends | log other ends | wait other ended ends =>
      cases whole
      rw [resolved] at other
      cases other
  | @work script joinable todo zs u line more here ends ih =>
      have others : u ≠ t := by
        rintro rfl
        rw [idle] at here
        cases here
      have here : Function.update todo t (body t) u = line :: more := by
        rw [Function.update_of_ne others]
        exact here
      refine .work here ?_
      rw [Function.update_comm others.symm]
      exact ih resolved (by rw [Function.update_of_ne others.symm]; exact idle) whole

theorem ne_of_start {u : τ} (unconcerned : i.Concerns t = false)
    (resolved : i.resolve joinable = some (.start u, after)) : u ≠ t := by
  rintro rfl
  cases i with
  | start v =>
      simp only [Instr.resolve, Option.ite_none_left_eq_some, Option.some.injEq,
        Prod.mk.injEq, Action.start.injEq] at resolved
      obtain ⟨-, rfl, -⟩ := resolved
      simp [Instr.Concerns] at unconcerned
  | async v =>
      cases resolved
      simp [Instr.Concerns] at unconcerned
  | join v | detach v | joinIfJoinable v | destroy v =>
      simp only [Instr.resolve] at resolved
      split at resolved <;> cases resolved
  | log line | get v | checkJoinable v yes no => cases resolved

theorem ne_of_wait {u : τ} (unconcerned : i.Concerns t = false)
    (resolved : i.resolve joinable = some (.wait u, after)) : u ≠ t := by
  rintro rfl
  cases i with
  | join v | joinIfJoinable v =>
      simp only [Instr.resolve] at resolved
      split at resolved <;> cases resolved
      simp [Instr.Concerns] at unconcerned
  | get v =>
      cases resolved
      simp [Instr.Concerns] at unconcerned
  | start v | detach v | destroy v =>
      simp only [Instr.resolve] at resolved
      split at resolved <;> cases resolved
  | log line | async v | checkJoinable v yes no => cases resolved

/-- Without a thread that nobody waits for, the rest logs what it logs. -/
theorem Ends.erase (alone : ∀ i ∈ script, i.Concerns t = false)
    (ends : Ends body script joinable todo zs) :
    ∃ os first, first <+: todo t ∧ Ends body script joinable (Function.update todo t []) os ∧
      Shuffle os first zs := by
  induction ends with
  | nil joinable todo => exact ⟨[], [], List.nil_prefix, .nil joinable _, .nil⟩
  | skip resolved ends ih =>
      obtain ⟨os, first, got, ends, shuffle⟩ := ih fun i member =>
        alone i (List.mem_cons_of_mem _ member)
      exact ⟨os, first, got, .skip resolved ends, shuffle⟩
  | log resolved ends ih =>
      obtain ⟨os, first, got, ends, shuffle⟩ := ih fun i member =>
        alone i (List.mem_cons_of_mem _ member)
      exact ⟨_ :: os, first, got, .log resolved ends, .left shuffle⟩
  | start resolved ends ih =>
      obtain ⟨os, first, got, ends, shuffle⟩ := ih fun i member =>
        alone i (List.mem_cons_of_mem _ member)
      have other := ne_of_start (alone _ List.mem_cons_self) resolved
      rw [Function.update_of_ne other.symm] at got
      rw [Function.update_comm other] at ends
      exact ⟨os, first, got, .start resolved ends, shuffle⟩
  | wait resolved ended ends ih =>
      obtain ⟨os, first, got, ends, shuffle⟩ := ih fun i member =>
        alone i (List.mem_cons_of_mem _ member)
      have other := ne_of_wait (alone _ List.mem_cons_self) resolved
      refine ⟨os, first, got, .wait resolved ?_ ends, shuffle⟩
      rw [Function.update_of_ne other]
      exact ended
  | @work script joinable todo zs u line more here ends ih =>
      obtain ⟨os, first, got, ends, shuffle⟩ := ih alone
      by_cases own : u = t
      · subst own
        rw [Function.update_self] at got
        rw [Function.update_idem] at ends
        refine ⟨os, line :: first, ?_, ends, .right shuffle⟩
        rw [here]
        exact List.cons_prefix_cons.mpr ⟨rfl, got⟩
      · rw [Function.update_of_ne (Ne.symm own)] at got
        rw [Function.update_comm own] at ends
        have here : Function.update todo t [] u = line :: more := by
          rw [Function.update_of_ne own]
          exact here
        exact ⟨line :: os, first, got, .work here ends, .left shuffle⟩

/-- Its lines can stand anywhere: the shuffle says how many of them come before each line of
the rest. -/
theorem Ends.shuffled {others : τ → List κ} {os first later : List κ}
    (ends : Ends body script joinable others os) (without : Function.update todo t [] = others)
    (alone : ∀ i ∈ script, i.Concerns t = false) (got : todo t = first ++ later)
    (shuffle : Shuffle os first zs) : Ends body script joinable todo zs := by
  induction ends generalizing todo first zs with
  | nil joinable others =>
      have done : Ends body [] joinable (Function.update todo t later) [] := .nil _ _
      have logged := done.work_append got
      rw [List.append_nil] at logged
      rw [shuffle.eq_of_nil_left]
      exact logged
  | skip resolved ends ih =>
      exact .skip resolved
        (ih without (fun i member => alone i (List.mem_cons_of_mem _ member)) got shuffle)
  | log resolved ends ih =>
      obtain ⟨early, first', zs', rfl, rfl, tail⟩ := shuffle.cons_left
      rw [List.append_assoc] at got
      refine Ends.work_append got (.log resolved ?_)
      refine ih ?_ (fun i member => alone i (List.mem_cons_of_mem _ member)) ?_ tail
      · rw [Function.update_idem]
        exact without
      · rw [Function.update_self]
  | start resolved ends ih =>
      have other := ne_of_start (alone _ List.mem_cons_self) resolved
      refine .start resolved
        (ih ?_ (fun i member => alone i (List.mem_cons_of_mem _ member)) ?_ shuffle)
      · rw [Function.update_comm other, without]
      · rw [Function.update_of_ne other.symm]
        exact got
  | wait resolved ended ends ih =>
      have other := ne_of_wait (alone _ List.mem_cons_self) resolved
      refine .wait resolved ?_
        (ih without (fun i member => alone i (List.mem_cons_of_mem _ member)) got shuffle)
      rw [← without, Function.update_of_ne other] at ended
      exact ended
  | @work script joinable others zs u line more here ends ih =>
      have other : u ≠ t := by
        rintro rfl
        rw [← without, Function.update_self] at here
        cases here
      obtain ⟨early, first', zs', rfl, rfl, tail⟩ := shuffle.cons_left
      rw [List.append_assoc] at got
      rw [← without, Function.update_of_ne other] at here
      have here : Function.update todo t (first' ++ later) u = line :: more := by
        rw [Function.update_of_ne other]
        exact here
      refine Ends.work_append got (.work here ?_)
      refine ih ?_ alone ?_ tail
      · rw [Function.update_comm other, Function.update_idem, ← without]
      · rw [Function.update_of_ne other.symm, Function.update_self]

/-- **Detached.** A thread that nobody waits for gets as far as it happens to get, and
what it logs is shuffled into what there is without it. -/
theorem ends_detached (alone : ∀ i ∈ script, i.Concerns t = false) :
    Ends body script joinable todo zs ↔
      ∃ os first, first <+: todo t ∧ Ends body script joinable (Function.update todo t []) os ∧
        Shuffle os first zs := by
  constructor
  · exact Ends.erase alone
  · rintro ⟨os, first, ⟨later, got⟩, ends, shuffle⟩
    exact ends.shuffled rfl alone got.symm shuffle

/-- Instructions that log these lines, whatever the threads do. -/
abbrev Logs (joinable : τ → Bool) : List (Instr τ κ) → List κ → Prop :=
  List.Forall₂ fun i line => i.resolve joinable = some (.log line, joinable)

theorem logs_map (joinable : τ → Bool) (lines : List κ) : Logs joinable (lines.map .log) lines := by
  induction lines with
  | nil => exact .nil
  | cons line lines ih => exact .cons rfl ih

variable {front : List (Instr τ κ)} {lines : List κ}

/-- No thread is left. -/
theorem none_left (idle : ∀ u, u ≠ t → todo u = []) (own : todo t = []) :
    todo = fun _ => [] := by
  funext u
  by_cases same : u = t
  · rw [same, own]
  · exact idle u same

theorem idle_update (idle : ∀ u, u ≠ t → todo u = []) (more : List κ) :
    ∀ u, u ≠ t → Function.update todo t more u = [] := by
  intro u other
  rw [Function.update_of_ne other]
  exact idle u other

/-- What is logged up to the end of a wait is a shuffle. -/
theorem Ends.split (ends : Ends body (front ++ i :: rest) joinable todo zs)
    (logs : Logs joinable front lines) (waits : i.resolve joinable = some (.wait t, after))
    (idle : ∀ u, u ≠ t → todo u = []) :
    ∃ first os, Shuffle lines (todo t) first ∧ Ends body rest after (fun _ => []) os ∧
      zs = first ++ os := by
  generalize whole : front ++ i :: rest = script at ends
  induction ends generalizing front lines with
  | nil joinable todo => exact absurd whole (List.append_ne_nil_of_right_ne_nil _ nofun)
  | skip other ends | start other ends =>
      cases logs with
      | nil =>
          cases whole
          rw [waits] at other
          cases other
      | cons line logs =>
          cases whole
          rw [line] at other
          cases other
  | log other ends ih =>
      cases logs with
      | nil =>
          cases whole
          rw [waits] at other
          cases other
      | cons line logs =>
          cases whole
          rw [line] at other
          cases other
          obtain ⟨first, os, shuffle, later, rfl⟩ := ih logs waits idle rfl
          exact ⟨_, os, .left shuffle, later, rfl⟩
  | wait other ended ends =>
      cases logs with
      | nil =>
          cases whole
          rw [waits] at other
          cases other
          rw [none_left idle ended] at ends
          refine ⟨[], _, ?_, ends, rfl⟩
          rw [ended]
          exact .nil
      | cons line logs =>
          cases whole
          rw [line] at other
          cases other
  | @work script joinable todo zs u line more here ends ih =>
      have own : u = t := by
        by_contra other
        rw [idle u other] at here
        cases here
      subst own
      obtain ⟨first, os, shuffle, later, rfl⟩ := ih logs waits (idle_update idle more) whole
      rw [Function.update_self] at shuffle
      refine ⟨line :: first, os, ?_, later, rfl⟩
      rw [here]
      exact .right shuffle

/-- Every shuffle is one that can be logged. -/
theorem Ends.joined {first os more : List κ} (ends : Ends body rest after (fun _ => []) os)
    (logs : Logs joinable front lines) (waits : i.resolve joinable = some (.wait t, after))
    (idle : ∀ u, u ≠ t → todo u = []) (thread : todo t = more)
    (shuffle : Shuffle lines more first) :
    Ends body (front ++ i :: rest) joinable todo (first ++ os) := by
  induction shuffle generalizing todo front with
  | nil =>
      cases logs
      rw [← none_left idle thread] at ends
      exact .wait waits thread ends
  | left shuffle ih =>
      cases logs with
      | cons line logs => exact .log line (ih logs idle thread)
  | @right line lines more first shuffle ih =>
      exact .work thread (ih logs (idle_update idle more) (Function.update_self ..))

/-- **Joined.** While one thread alone runs, it is shuffled with the lines of the script up
to where that waits for it. -/
theorem ends_join (logs : Logs joinable front lines)
    (waits : i.resolve joinable = some (.wait t, after)) (idle : ∀ u, u ≠ t → todo u = []) :
    Ends body (front ++ i :: rest) joinable todo zs ↔
      ∃ first os, Shuffle lines (todo t) first ∧ Ends body rest after (fun _ => []) os ∧
        zs = first ++ os := by
  constructor
  · intro ends
    exact ends.split logs waits idle
  · rintro ⟨first, os, shuffle, ends, rfl⟩
    exact ends.joined logs waits idle rfl shuffle

/-- A thread that is started while no other one runs, up to where it is waited for. -/
theorem ends_fork {starter : Instr τ κ} {between : τ → Bool}
    (starts : starter.resolve joinable = some (.start t, between))
    (logs : Logs between front lines) (waits : i.resolve between = some (.wait t, after)) :
    Ends body (starter :: (front ++ i :: rest)) joinable (fun _ => []) zs ↔
      ∃ first os, Shuffle lines (body t) first ∧ Ends body rest after (fun _ => []) os ∧
        zs = first ++ os := by
  rw [ends_start starts rfl, ends_join logs waits (idle_update (fun _ _ => rfl) _),
    Function.update_self]

/-- The script alone. -/
theorem ends_log (logs : Logs joinable front lines) :
    Ends body (front ++ rest) joinable (fun _ => []) zs ↔
      ∃ os, Ends body rest joinable (fun _ => []) os ∧ zs = lines ++ os := by
  induction logs generalizing zs with
  | nil => simp
  | @cons i line front lines own logs ih =>
      constructor
      · intro ends
        cases ends with
        | skip other ends | start other ends | wait other ended ends =>
            rw [own] at other
            cases other
        | work here ends => cases here
        | log other ends =>
            rw [own] at other
            cases other
            obtain ⟨os, later, rfl⟩ := ih.mp ends
            exact ⟨os, later, rfl⟩
      · rintro ⟨os, ends, rfl⟩
        exact .log own (ih.mpr ⟨os, ends, rfl⟩)

/-- Nobody is left to wait for. -/
theorem ends_wait (waits : i.resolve joinable = some (.wait t, after)) :
    Ends body (i :: rest) joinable (fun _ => []) zs ↔ Ends body rest after (fun _ => []) zs := by
  constructor
  · intro ends
    obtain ⟨first, os, shuffle, later, rfl⟩ := (ends_join .nil waits fun _ _ => rfl).mp ends
    rw [shuffle.eq_of_nil_left]
    exact later
  · intro ends
    exact .wait waits rfl ends

theorem ends_nil : Ends body [] joinable (fun _ => []) zs ↔ zs = [] := by
  constructor
  · intro ends
    cases ends with
    | nil => rfl
    | work here ends => cases here
  · rintro rfl
    exact .nil _ _

/-! ## Runs -/

theorem Ends.of_runFrom {tr : List (Option τ)} (run : P.system.runFrom s tr = some s')
    (complete : s'.script = []) (running : s'.failed = false) :
    ∃ zs, s'.out = s.out ++ zs ∧ Ends P.body s.script s.joinable s.todo zs := by
  induction tr generalizing s with
  | nil =>
      cases run
      refine ⟨[], (List.append_nil _).symm, ?_⟩
      rw [complete]
      exact .nil _ _
  | cons l tr ih =>
      rw [System.runFrom_cons, Option.bind_eq_some_iff] at run
      obtain ⟨s₁, hstep, run⟩ := run
      obtain ⟨zs, out, ends⟩ := ih run
      obtain ⟨-, ⟨i, rest, rfl, script, fails, rfl⟩ |
        ⟨i, rest, action, joinable, rfl, script, resolved, hact⟩ |
        ⟨t, line, rest, rfl, here, rfl⟩⟩ := step_cases hstep
      · -- nothing moves any more
        cases tr with
        | nil =>
            cases run
            cases running
        | cons l tr => cases run
      · rw [script]
        cases action with
        | log line =>
            cases hact
            refine ⟨line :: zs, ?_, .log resolved ends⟩
            rw [out, List.append_assoc]
            rfl
        | start t =>
            cases hact
            exact ⟨zs, out, .start resolved ends⟩
        | skip =>
            cases hact
            exact ⟨zs, out, .skip resolved ends⟩
        | wait t =>
            simp only [act, Option.ite_none_right_eq_some, Option.some.injEq] at hact
            obtain ⟨ended, rfl⟩ := hact
            exact ⟨zs, out, .wait resolved ended ends⟩
      · refine ⟨line :: zs, ?_, .work here ends⟩
        rw [out, List.append_assoc]
        rfl

theorem Ends.exists_run (ends : Ends P.body script joinable todo zs) (out : List κ) :
    ∃ tr s', P.system.runFrom ⟨script, joinable, todo, out, false⟩ tr = some s' ∧
      s'.script = [] ∧ s'.failed = false ∧ s'.out = out ++ zs := by
  induction ends generalizing out with
  | nil joinable todo => exact ⟨[], _, rfl, rfl, rfl, (List.append_nil _).symm⟩
  | skip resolved ends ih =>
      obtain ⟨tr, s', run, ended⟩ := ih out
      refine ⟨none :: tr, s', ?_, ended⟩
      rw [System.runFrom_cons, step_script resolved]
      exact run
  | @log i rest joinable after todo zs line resolved ends ih =>
      obtain ⟨tr, s', run, complete, running, logged⟩ := ih (out ++ [line])
      refine ⟨none :: tr, s', ?_, complete, running, ?_⟩
      · rw [System.runFrom_cons, step_script resolved]
        exact run
      · rw [logged, List.append_assoc]
        rfl
  | start resolved ends ih =>
      obtain ⟨tr, s', run, ended⟩ := ih out
      refine ⟨none :: tr, s', ?_, ended⟩
      rw [System.runFrom_cons, step_script resolved]
      exact run
  | wait resolved here ends ih =>
      obtain ⟨tr, s', run, ended⟩ := ih out
      refine ⟨none :: tr, s', ?_, ended⟩
      rw [System.runFrom_cons, step_script resolved, act, if_pos here]
      exact run
  | @work script joinable todo zs t line rest here ends ih =>
      obtain ⟨tr, s', run, complete, running, logged⟩ := ih (out ++ [line])
      refine ⟨some t :: tr, s', ?_, complete, running, ?_⟩
      · rw [System.runFrom_cons, step_thread here]
        exact run
      · rw [logged, List.append_assoc]
        rfl

/-- **What can be logged.** By the interleavings in which the script gets to its end. -/
theorem completes_iff :
    (∃ tr s, P.system.run tr = some s ∧ s.script = [] ∧ s.failed = false ∧ s.out = zs) ↔
      Ends P.body P.script (fun _ => false) (fun _ => []) zs := by
  constructor
  · rintro ⟨tr, s, run, complete, running, rfl⟩
    obtain ⟨zs, out, ends⟩ := Ends.of_runFrom run complete running
    rw [out]
    exact ends
  · intro ends
    exact ends.exists_run []

end ForkJoin

end CppLab
