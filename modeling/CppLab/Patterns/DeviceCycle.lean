import CppLab.Patterns.DeviceContext

/-!
# The cycle of one device

What a device does next is not in its state alone: `ProcessingConcreteState`
looks at the parity of the counter. `phase` and `processings` say where a device
that began idle with an even counter is after `n` calls, and by how much it has
advanced the counter. `cycle_cases` is the step from one to the next, which
`operations_eq` carries over any number of calls.
-/

namespace CppLab.Patterns.Device

variable {δ : Type*} [DecidableEq δ]

/-- The state after `n` calls. -/
def phase (n : Nat) : IState :=
  match n % 5 with
  | 0 => .Ide
  | 1 => .Processing
  | 2 => .Error
  | 3 => .Ide
  | _ => .Processing

/-- Of `n` calls those that `ProcessingConcreteState` handles. -/
def processings (n : Nat) : Nat := 2 * (n / 5) + if n % 5 < 2 then 0 else 1

/-- The changes that `n` calls make. -/
def cycle (d : δ) (n : Nat) : List (Change δ) :=
  (List.range n).map fun i => ⟨d, phase i, phase (i + 1)⟩

/-- `n` calls of `operation()` of one device. -/
def operations (d : δ) (n : Nat) (s : State δ) : Option (State δ) :=
  (system s.devices).runFrom s (List.replicate n d)

/-! ## One call -/

theorem phase_of_mod {n r : Nat} (mod : n % 5 = r) : phase n = phase r := by
  have same : r % 5 = r := by omega
  unfold phase
  rw [mod, same]

/-- What call `n + 1` finds and leaves: of the two steps of `Processing` the one
with an even count fails. -/
theorem cycle_cases (n : Nat) :
    (phase n = .Ide ∧ phase (n + 1) = .Processing ∧ processings (n + 1) = processings n) ∨
    (phase n = .Processing ∧ Even (processings n) ∧ phase (n + 1) = .Error ∧
      processings (n + 1) = processings n + 1) ∨
    (phase n = .Error ∧ phase (n + 1) = .Ide ∧ processings (n + 1) = processings n) ∨
    (phase n = .Processing ∧ ¬ Even (processings n) ∧ phase (n + 1) = .Ide ∧
      processings (n + 1) = processings n + 1) := by
  have small : n % 5 = 0 ∨ n % 5 = 1 ∨ n % 5 = 2 ∨ n % 5 = 3 ∨ n % 5 = 4 := by omega
  unfold processings
  rcases small with mod | mod | mod | mod | mod
  · have next : (n + 1) % 5 = 1 := by omega
    have same : (n + 1) / 5 = n / 5 := by omega
    rw [phase_of_mod mod, phase_of_mod next, mod, next, same]
    exact .inl ⟨rfl, rfl, rfl⟩
  · have next : (n + 1) % 5 = 2 := by omega
    have same : (n + 1) / 5 = n / 5 := by omega
    rw [phase_of_mod mod, phase_of_mod next, mod, next, same]
    exact .inr (.inl ⟨rfl, ⟨n / 5, by simp; omega⟩, rfl, rfl⟩)
  · have next : (n + 1) % 5 = 3 := by omega
    have same : (n + 1) / 5 = n / 5 := by omega
    rw [phase_of_mod mod, phase_of_mod next, mod, next, same]
    exact .inr (.inr (.inl ⟨rfl, rfl, rfl⟩))
  · have next : (n + 1) % 5 = 4 := by omega
    have same : (n + 1) / 5 = n / 5 := by omega
    rw [phase_of_mod mod, phase_of_mod next, mod, next, same]
    exact .inl ⟨rfl, rfl, rfl⟩
  · have next : (n + 1) % 5 = 0 := by omega
    have more : (n + 1) / 5 = n / 5 + 1 := by omega
    rw [phase_of_mod mod, phase_of_mod next, mod, next, more, Nat.even_iff]
    exact .inr (.inr (.inr ⟨rfl, by simp, rfl, rfl⟩))

theorem processings_succ (n : Nat) :
    processings (n + 1) = processings n + if phase n = .Processing then 1 else 0 := by
  rcases cycle_cases n with ⟨here, -, count⟩ | ⟨here, -, -, count⟩ | ⟨here, -, count⟩ |
    ⟨here, -, -, count⟩
  all_goals rw [count, here]; rfl

/-- `Processing` fails when it has handled an even number of calls. -/
theorem phase_succ_of_processing {n : Nat} (processing : phase n = .Processing) :
    phase (n + 1) = if Even (processings n) then .Error else .Ide := by
  rcases cycle_cases n with ⟨here, -⟩ | ⟨-, parity, next, -⟩ | ⟨here, -⟩ | ⟨-, parity, next, -⟩
  · rw [processing] at here
    cases here
  · rw [next, if_pos parity]
  · rw [processing] at here
    cases here
  · rw [next, if_neg parity]

/-- The handler that is called goes to the next phase, with an even number of
steps before those of the device. -/
theorem handle_phase {start : Nat} (even : Even start) (n : Nat)
    (small : start + processings (n + 1) ≤ INT_MAX) :
    (phase n).handle (start + processings n) =
      some (phase (n + 1), start + processings (n + 1)) := by
  rcases cycle_cases n with ⟨here, next, count⟩ | ⟨here, parity, next, count⟩ |
    ⟨here, next, count⟩ | ⟨here, parity, next, count⟩
  · rw [here, next, count]
    rfl
  · have room : start + processings n < INT_MAX := by omega
    have odd : ¬ (start + processings n + 1) % 2 = 0 := by
      rw [Nat.even_iff] at even parity
      omega
    rw [here, next, count, ← Nat.add_assoc]
    show IState.handleProcessing _ = _
    rw [IState.handleProcessing, if_pos room]
    simp only [if_neg odd]
  · rw [here, next, count]
    rfl
  · have room : start + processings n < INT_MAX := by omega
    have ok : (start + processings n + 1) % 2 = 0 := by
      rw [Nat.even_iff] at even parity
      omega
    rw [here, next, count, ← Nat.add_assoc]
    show IState.handleProcessing _ = _
    rw [IState.handleProcessing, if_pos room]
    simp only [if_pos ok]

theorem operations_succ (d : δ) (n : Nat) (s : State δ) :
    operations d (n + 1) s = (operations d n s).bind fun t => t.operation d := by
  unfold operations
  rw [List.replicate_succ', System.runFrom_append]
  simp only [System.runFrom_cons, System.runFrom_nil, Option.bind_fun_some]
  rfl

omit [DecidableEq δ] in
theorem cycle_succ (d : δ) (n : Nat) :
    cycle d (n + 1) = cycle d n ++ [⟨d, phase n, phase (n + 1)⟩] := by
  unfold cycle
  rw [List.range_succ, List.map_append]
  rfl

/-! ## Any number of calls -/

/-- **Run lemma.** The state, the counter and the changes after `n` calls. -/
theorem operations_eq {s : State δ} {d : δ} (idle : s.devices d = .Ide) (even : Even s.index)
    (n : Nat) (small : s.index + processings n ≤ INT_MAX) :
    ∃ s', operations d n s = some s' ∧ s'.devices d = phase n ∧
      s'.index = s.index + processings n ∧ s'.log = s.log ++ cycle d n := by
  induction n with
  | zero => exact ⟨s, rfl, idle, rfl, (List.append_nil _).symm⟩
  | succ n ih =>
      have fewer : processings n ≤ processings (n + 1) := by
        rw [processings_succ]
        exact Nat.le_add_right _ _
      obtain ⟨t, run, device, index, log⟩ := ih (by omega)
      have handled : (t.devices d).handle t.index =
          some (phase (n + 1), s.index + processings (n + 1)) := by
        rw [device, index]
        exact handle_phase even n small
      have step := operation_eq_some.mpr ⟨_, _, handled, rfl⟩
      rw [← Option.bind_some (f := fun t : State δ => t.operation d), ← run,
        ← operations_succ] at step
      refine ⟨_, step, ?_, rfl, ?_⟩
      · exact Function.update_self ..
      · show t.log ++ _ = _
        rw [log, device, cycle_succ, List.append_assoc]

section Changes

omit [DecidableEq δ]

theorem getElem_cycle {d : δ} {n i : Nat} {c : Change δ} (at_ : (cycle d n)[i]? = some c) :
    c = ⟨d, phase i, phase (i + 1)⟩ := by
  unfold cycle at at_
  rw [List.getElem?_map, Option.map_eq_some_iff] at at_
  obtain ⟨j, index, rfl⟩ := at_
  obtain ⟨-, rfl⟩ := List.getElem?_eq_some_iff.mp index
  rw [List.getElem_range]

/-- The changes made by `ProcessingConcreteState`. -/
def processingChanges (d : δ) (n : Nat) : List (Change δ) :=
  (cycle d n).filter (·.from_ = .Processing)

theorem processingChanges_succ (d : δ) (n : Nat) :
    processingChanges d (n + 1) = processingChanges d n ++
      if phase n = .Processing then [⟨d, phase n, phase (n + 1)⟩] else [] := by
  unfold processingChanges
  rw [cycle_succ, List.filter_append]
  by_cases processing : phase n = .Processing
  · rw [if_pos processing, List.filter_cons_of_pos (by simpa using processing)]
    rfl
  · rw [if_neg processing, List.filter_cons_of_neg (by simpa using processing)]
    rfl

theorem length_processingChanges (d : δ) (n : Nat) :
    (processingChanges d n).length = processings n := by
  induction n with
  | zero => rfl
  | succ n ih =>
      rw [processingChanges_succ, List.length_append, ih, processings_succ]
      by_cases processing : phase n = .Processing
      · rw [if_pos processing, if_pos processing]
        rfl
      · rw [if_neg processing, if_neg processing]
        rfl

/-- Every other processing step fails, the first of them first. -/
theorem processingChanges_alternate {d : δ} {n k : Nat} {c : Change δ}
    (at_ : (processingChanges d n)[k]? = some c) : c.to_ = if Even k then .Error else .Ide := by
  induction n with
  | zero => cases at_
  | succ n ih =>
      rw [processingChanges_succ, List.getElem?_append, length_processingChanges] at at_
      by_cases before : k < processings n
      · rw [if_pos before] at at_
        exact ih at_
      · rw [if_neg before] at at_
        by_cases processing : phase n = .Processing
        · rw [if_pos processing] at at_
          obtain ⟨last, rfl⟩ := List.getElem?_eq_some_iff.mp at_
          -- the last change is number `processings n`
          have number : k = processings n := by
            rw [List.length_singleton] at last
            omega
          subst number
          simp only [List.getElem_singleton, phase_succ_of_processing processing]
        · rw [if_neg processing] at at_
          cases at_

/-- An error is entered from processing and left to idle. -/
theorem error_between {n : Nat} (error : phase (n + 1) = .Error) :
    phase n = .Processing ∧ phase (n + 2) = .Ide := by
  have here : phase n = .Processing := by
    rcases cycle_cases n with ⟨-, next, -⟩ | ⟨here, -⟩ | ⟨-, next, -⟩ | ⟨here, -⟩
    · rw [next] at error
      cases error
    · exact here
    · rw [next] at error
      cases error
    · exact here
  refine ⟨here, ?_⟩
  rcases cycle_cases (n + 1) with ⟨other, -⟩ | ⟨other, -⟩ | ⟨-, after, -⟩ | ⟨other, -⟩
  · rw [other] at error
    cases error
  · rw [other] at error
    cases error
  · exact after
  · rw [other] at error
    cases error

theorem even_processings {n : Nat} (whole : 5 ∣ n) : Even (processings n) := by
  have mod : n % 5 = 0 := Nat.mod_eq_zero_of_dvd whole
  refine ⟨n / 5, ?_⟩
  unfold processings
  rw [mod]
  show 2 * (n / 5) + 0 = n / 5 + n / 5
  omega

end Changes

/-! ## The main result -/

/-- **The cycle of one device.** From idle with an even counter that stays below
its limit, `n` calls leave the device in the state that `n` modulo five says. An
error is entered from processing and left to idle by the next call, the
processing steps fail and succeed in turn, and after a multiple of five calls the
counter is even again. -/
theorem device_cycle {s : State δ} {d : δ} (idle : s.devices d = .Ide) (even : Even s.index)
    (n : Nat) (small : s.index + processings n ≤ INT_MAX) :
    ∃ (s' : State δ) (log : List (Change δ)), operations d n s = some s' ∧
      s'.log = s.log ++ log ∧ log.length = n ∧
      (n % 5 = 0 → s'.devices d = .Ide ∧ Even s'.index) ∧
      (n % 5 = 1 → s'.devices d = .Processing) ∧
      (n % 5 = 2 → s'.devices d = .Error) ∧
      (n % 5 = 3 → s'.devices d = .Ide) ∧
      (n % 5 = 4 → s'.devices d = .Processing) ∧
      (∀ (i : Nat) c, log[i]? = some c → c.to_ = .Error → c.from_ = .Processing ∧
        ∀ c', log[i + 1]? = some c' → c'.from_ = .Error ∧ c'.to_ = .Ide) ∧
      (∀ (k : Nat) c, (log.filter (·.from_ = .Processing))[k]? = some c →
        c.to_ = if Even k then .Error else .Ide) := by
  obtain ⟨s', run, device, index, log⟩ := operations_eq idle even n small
  have length : (cycle d n).length = n := by simp [cycle]
  refine ⟨s', cycle d n, run, log, length, ?_, ?_, ?_, ?_, ?_, ?_, ?_⟩
  · intro mod
    rw [device, index, phase_of_mod mod]
    exact ⟨rfl, even.add (even_processings (Nat.dvd_of_mod_eq_zero mod))⟩
  · intro mod
    rw [device, phase_of_mod mod]
    rfl
  · intro mod
    rw [device, phase_of_mod mod]
    rfl
  · intro mod
    rw [device, phase_of_mod mod]
    rfl
  · intro mod
    rw [device, phase_of_mod mod]
    rfl
  · intro i c here failed
    rw [getElem_cycle here] at failed
    obtain ⟨before, after⟩ := error_between failed
    refine ⟨?_, ?_⟩
    · rw [getElem_cycle here]
      exact before
    · intro c' next
      rw [getElem_cycle next]
      exact ⟨failed, after⟩
  · intro k c here
    exact processingChanges_alternate here

/-- A device in a process whose counter stands at two. -/
theorem device_cycle_seven :
    ∃ s', operations () 7 ⟨2, fun _ => .Ide, []⟩ = some s' ∧ s'.devices () = .Error := by
  obtain ⟨s', -, run, -, -, -, -, error, -⟩ :=
    device_cycle (s := ⟨2, fun _ => .Ide, []⟩) (d := ()) rfl (by decide) 7 (by decide)
  exact ⟨s', run, error rfl⟩

end CppLab.Patterns.Device
