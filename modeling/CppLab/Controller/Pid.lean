import Mathlib.Algebra.Field.Rat
import Mathlib.Algebra.Order.Ring.Rat
import Mathlib.Tactic.NormNum

/-!
# The PID controller and its simulation

The numbers are any type with the operations that the code applies, in its order and
with its association, so that nothing is rearranged: for `double` addition is not
associative, division by zero is not an error and a comparison with a NaN is false.

`calculate_history` says what the controller answers after any history, and
`simulate_lines` what it does in a loop with what it controls.
-/

namespace CppLab.Controller.Pid

variable {α : Type*} [LT α] [DecidableLT α]

/-- "Restrict to max/min". -/
def restrict (max min output : α) : α :=
  if max < output then max else if output < min then min else output

/-- What is restricted is neither above the one bound nor below the other. -/
theorem restrict_spec (irrefl : ∀ x : α, ¬ x < x) {max min : α} (ordered : ¬ max < min)
    (output : α) :
    ¬ max < restrict max min output ∧ ¬ restrict max min output < min := by
  rw [restrict]
  split
  · exact ⟨irrefl max, ordered⟩
  · rename_i below
    split
    · exact ⟨ordered, irrefl min⟩
    · rename_i above
      exact ⟨below, above⟩

variable [Zero α] [Add α] [Sub α] [Mul α] [Div α]

structure PIDImpl (α : Type*) where
  _dt : α
  _max : α
  _min : α
  _Kp : α
  _Kd : α
  _Ki : α
  _pre_error : α
  _integral : α
  deriving DecidableEq, Repr

/-- The constructor. -/
def PIDImpl.construct (dt max min Kp Kd Ki : α) : PIDImpl α :=
  ⟨dt, max, min, Kp, Kd, Ki, 0, 0⟩

/-- `calculate(setpoint, pv)`. -/
def PIDImpl.calculate (pid : PIDImpl α) (setpoint pv : α) : α × PIDImpl α :=
  let error := setpoint - pv
  let Pout := pid._Kp * error
  let _integral := pid._integral + error * pid._dt
  let Iout := pid._Ki * _integral
  let derivative := (error - pid._pre_error) / pid._dt
  let Dout := pid._Kd * derivative
  let output := restrict pid._max pid._min (Pout + Iout + Dout)
  (output, { pid with _pre_error := error, _integral := _integral })

/-- A history of calls: the answers, and the controller afterwards. -/
def PIDImpl.calls (pid : PIDImpl α) : List (α × α) → List α × PIDImpl α
  | [] => ([], pid)
  | (setpoint, pv) :: history =>
      let (output, pid) := pid.calculate setpoint pv
      let (outputs, pid) := pid.calls history
      (output :: outputs, pid)

/-- `run()` of the simulation from some value on: the set point, the value and the
increment of each line, and the value and the controller at the end. -/
def simulate (setpoint : α) : Nat → PIDImpl α → α → List (α × α × α) × α × PIDImpl α
  | 0, pid, val => ([], val, pid)
  | n + 1, pid, val =>
      let (inc, pid) := pid.calculate setpoint val
      let (lines, last) := simulate setpoint n pid (val + inc)
      ((setpoint, val, inc) :: lines, last)

/-! ## What a history leaves -/

/-- The error of each call. -/
def errors (history : List (α × α)) : List α := history.map fun (setpoint, pv) => setpoint - pv

/-- The errors summed up over time, from the oldest on. -/
def integral (dt : α) (es : List α) : α := es.foldl (fun sum error => sum + error * dt) 0

/-- The error before the next one. -/
def previous (es : List α) : α := es.getLast?.getD 0

/-- The controller after the errors `es`. -/
def after (dt max min Kp Kd Ki : α) (es : List α) : PIDImpl α :=
  ⟨dt, max, min, Kp, Kd, Ki, previous es, integral dt es⟩

/-- The answer to one more error: proportional to it, to the sum so far and to the
difference to the one before. -/
def answer (dt max min Kp Kd Ki : α) (es : List α) (error : α) : α :=
  restrict max min
    (Kp * error + Ki * integral dt (es ++ [error]) + Kd * ((error - previous es) / dt))

variable {dt max min Kp Kd Ki : α}

/-- One call. -/
theorem calculate_after (es : List α) (setpoint pv : α) :
    (after dt max min Kp Kd Ki es).calculate setpoint pv =
      (answer dt max min Kp Kd Ki es (setpoint - pv),
        after dt max min Kp Kd Ki (es ++ [setpoint - pv])) := by
  have sum : integral dt (es ++ [setpoint - pv]) = integral dt es + (setpoint - pv) * dt := by
    rw [integral, List.foldl_append]
    rfl
  have last : previous (es ++ [setpoint - pv]) = setpoint - pv := by
    rw [previous, List.getLast?_concat]
    rfl
  rw [answer, after, after, last, sum]
  rfl

theorem calls_after (es : List α) (history : List (α × α)) :
    ((after dt max min Kp Kd Ki es).calls history).2 =
        after dt max min Kp Kd Ki (es ++ errors history) ∧
      ∀ k, ((after dt max min Kp Kd Ki es).calls history).1[k]? =
        ((errors history)[k]?).map
          (answer dt max min Kp Kd Ki (es ++ (errors history).take k)) := by
  induction history generalizing es with
  | nil =>
      refine ⟨?_, fun k => rfl⟩
      show _ = after dt max min Kp Kd Ki (es ++ [])
      rw [List.append_nil]
      rfl
  | cons call history ih =>
      obtain ⟨setpoint, pv⟩ := call
      obtain ⟨state, answers⟩ := ih (es ++ [setpoint - pv])
      rw [PIDImpl.calls, calculate_after]
      refine ⟨?_, fun k => ?_⟩
      · show ((after dt max min Kp Kd Ki (es ++ [setpoint - pv])).calls history).2 = _
        rw [state, List.append_assoc]
        rfl
      · cases k with
        | zero =>
            show some _ = some (answer dt max min Kp Kd Ki (es ++ []) _)
            rw [List.append_nil]
        | succ k =>
            show ((after dt max min Kp Kd Ki (es ++ [setpoint - pv])).calls history).1[k]? = _
            rw [answers, List.append_assoc]
            rfl

omit [Zero α] in
/-- The lines of the simulation are a history of calls, and each value is the one before
with the increment added. -/
theorem simulate_calls (setpoint : α) (n : Nat) (pid : PIDImpl α) (val : α) :
    let (lines, last, final) := simulate setpoint n pid val
    let incs := lines.map (·.2.2)
    lines.length = n ∧ pid.calls (lines.map fun line => (line.1, line.2.1)) = (incs, final) ∧
      last = incs.foldl (· + ·) val ∧
      ∀ k line, lines[k]? = some line →
        line.1 = setpoint ∧ line.2.1 = (incs.take k).foldl (· + ·) val := by
  induction n generalizing pid val with
  | zero => exact ⟨rfl, rfl, rfl, fun k line there => absurd there (by simp)⟩
  | succ n ih =>
      obtain ⟨size, calls, sum, each⟩ :=
        ih (pid.calculate setpoint val).2 (val + (pid.calculate setpoint val).1)
      refine ⟨congrArg (· + 1) size, ?_, sum, fun k line there => ?_⟩
      · exact congrArg (fun r => ((pid.calculate setpoint val).1 :: r.1, r.2)) calls
      · cases k with
        | zero =>
            obtain rfl := Option.some.inj there
            exact ⟨rfl, rfl⟩
        | succ k => exact each k line there

/-- After any history the controller answers with the three terms of all the errors so far,
restricted to its bounds, and nothing of what it has answered before matters. Where no
number is below itself and the bounds are in order, the answer is within them. -/
theorem calculate_history (dt max min Kp Kd Ki : α) (history : List (α × α)) (setpoint pv : α) :
    let pid := ((PIDImpl.construct dt max min Kp Kd Ki).calls history).2
    let output := (pid.calculate setpoint pv).1
    output = answer dt max min Kp Kd Ki (errors history) (setpoint - pv) ∧
      ((∀ x : α, ¬ x < x) → ¬ max < min → ¬ max < output ∧ ¬ output < min) := by
  intro pid output
  have same : output = answer dt max min Kp Kd Ki (errors history) (setpoint - pv) := by
    show ((((after dt max min Kp Kd Ki []).calls history).2).calculate setpoint pv).1 = _
    rw [(calls_after [] history).1, calculate_after]
    rfl
  refine ⟨same, ?_⟩
  intro irrefl ordered
  rw [same]
  exact restrict_spec irrefl ordered _

theorem calculate_history_rat :
    let pid := ((PIDImpl.construct (1 / 10) 100 (-100) (1 / 10) (1 / 100) (1 / 2 : ℚ)).calls
      [(100, 20)]).2
    ¬ 100 < (pid.calculate 100 32).1 ∧ ¬ (pid.calculate 100 32).1 < -100 :=
  (calculate_history (1 / 10) 100 (-100) (1 / 10) (1 / 100) (1 / 2 : ℚ) [(100, 20)] 100 32).2
    (fun _ => lt_irrefl _) (by norm_num)

/-- In the loop each value is the first one with the increments so far, and each increment
is the answer to the errors so far. Where no number is below itself and the bounds are in
order, each increment is within them. -/
theorem simulate_lines (dt max min Kp Kd Ki setpoint val : α) (n : Nat) :
    let lines := (simulate setpoint n (PIDImpl.construct dt max min Kp Kd Ki) val).1
    lines.length = n ∧ ∀ k line, lines[k]? = some line →
      line.1 = setpoint ∧
      line.2.1 = ((lines.take k).map (·.2.2)).foldl (· + ·) val ∧
      line.2.2 = answer dt max min Kp Kd Ki ((lines.take k).map fun l => l.1 - l.2.1)
        (line.1 - line.2.1) ∧
      ((∀ x : α, ¬ x < x) → ¬ max < min → ¬ max < line.2.2 ∧ ¬ line.2.2 < min) := by
  intro lines
  obtain ⟨size, calls, -, each⟩ :=
    simulate_calls setpoint n (PIDImpl.construct dt max min Kp Kd Ki) val
  refine ⟨size, fun k line there => ?_⟩
  obtain ⟨same, sum⟩ := each k line there
  have calls : (after dt max min Kp Kd Ki []).calls _ = _ := calls
  have answers : ((after dt max min Kp Kd Ki []).calls _).1[k]? = _ :=
    (calls_after [] (lines.map fun line => (line.1, line.2.1))).2 k
  rw [calls] at answers
  simp only [errors, List.map_map, ← List.map_take, List.getElem?_map, there, Option.map_some,
    List.nil_append] at answers
  have answers : line.2.2 = answer dt max min Kp Kd Ki ((lines.take k).map fun l => l.1 - l.2.1)
      (line.1 - line.2.1) :=
    Option.some.inj
      ((congrArg (Option.map fun l : α × α × α => l.2.2) there).symm.trans answers)
  refine ⟨same, ?_, answers, ?_⟩
  · rw [sum, List.map_take]
  · intro irrefl ordered
    rw [answers]
    exact restrict_spec irrefl ordered _

/-- The loop of `run()`: all of its increments are within its bounds. -/
theorem simulate_lines_rat :
    let lines := (simulate 100 200
      (PIDImpl.construct (1 / 10) 100 (-100) (1 / 10) (1 / 100) (1 / 2 : ℚ)) 20).1
    lines.length = 200 ∧ ∀ (k : Nat) (line : ℚ × ℚ × ℚ), lines[k]? = some line →
      ¬ 100 < line.2.2 ∧ ¬ line.2.2 < -100 := by
  intro lines
  obtain ⟨size, each⟩ :=
    simulate_lines (1 / 10) 100 (-100) (1 / 10) (1 / 100) (1 / 2 : ℚ) 100 20 200
  refine ⟨size, fun k line there => ?_⟩
  exact (each k line there).2.2.2 (fun _ => lt_irrefl _) (by norm_num)

end CppLab.Controller.Pid
