import CppLab.Env.StdString
import CppLab.Lib.System

/-!
# `uart_puts`

`uart_putc` waits for the transmit-empty flag in `USART1_SR` and writes
`USART1_DR`; `uart_puts` puts a `\r` before each `\n`. The hardware clears the flag
when the data register is written and sets it when it likes.

A label is what the hardware does in front of the next step of the program: it may
set the flag, and it chooses the other bits of the status register. What is written
is the string with its line ends translated, of which nothing is lost: `restore`
gives the string back.
-/

namespace CppLab.Embedded.Uart

/-- What the hardware does in front of a step. -/
structure Tick where
  empties : Bool
  others : BitVec 32
  deriving DecidableEq, Repr

/-- Control points. `puts` is the head of the loop in `uart_puts`, with the memory
from `s` on; `poll` and `store` are in `uart_putc`, with the point it returns to.
`fault` has read behind the memory of the string. -/
inductive Pc
  | puts (s : Bytes)
  | poll (c : UInt8) (return_ : Pc)
  | store (c : UInt8) (return_ : Pc)
  | done
  | fault
  deriving DecidableEq, Repr

/-- A write of the data register, and whether the flag was set. -/
structure Write where
  byte : UInt8
  txe : Bool
  deriving DecidableEq, Repr

/-- The flag, the program, and the writes of the data register. -/
structure State where
  txe : Bool
  pc : Pc
  written : List Write
  deriving DecidableEq, Repr

/-- `1 << 7`. -/
def txeMask : BitVec 32 := 1#32 <<< 7

/-- The value of `USART1_SR`: bit 7 is the flag. -/
def statusRegister (txe : Bool) (others : BitVec 32) : BitVec 32 :=
  if txe then others ||| txeMask else others &&& ~~~txeMask

/-- One step, after the hardware. -/
def State.tick (s : State) (t : Tick) : State :=
  let txe := s.txe || t.empties
  match s.pc with
  | .puts [] => ⟨txe, .fault, s.written⟩
  | .puts (c :: rest) =>
      if c = 0 then ⟨txe, .done, s.written⟩
      else if c = 10 then ⟨txe, .poll 13 (.poll c (.puts rest)), s.written⟩
      else ⟨txe, .poll c (.puts rest), s.written⟩
  | .poll c return_ =>
      if statusRegister txe t.others &&& txeMask = 0 then ⟨txe, .poll c return_, s.written⟩
      else ⟨txe, .store c return_, s.written⟩
  | .store c return_ => ⟨false, return_, s.written ++ [⟨c, txe⟩]⟩
  | .done => ⟨txe, .done, s.written⟩
  | .fault => ⟨txe, .fault, s.written⟩

/-- `uart_puts` of the string at the start of a memory. -/
def system (memory : Bytes) (txe : Bool) : System State Tick where
  init := ⟨txe, .puts memory, []⟩
  step s t := some (s.tick t)

/-- The state after `k` ticks of a schedule. -/
def trace (memory : Bytes) (txe : Bool) (schedule : Nat → Tick) : Nat → State
  | 0 => ⟨txe, .puts memory, []⟩
  | k + 1 => (trace memory txe schedule k).tick (schedule k)

/-- A string with a carriage return before each line feed. -/
def translate (s : Bytes) : Bytes := s.flatMap fun c => if c = 10 then [13, 10] else [c]

/-- The carriage returns immediately before a line feed deleted. -/
def restore : Bytes → Bytes
  | [] => []
  | c :: s => if c = 13 ∧ s.head? = some 10 then restore s else c :: restore s

/-! ## The translation -/

theorem translate_cons (c : UInt8) (s : Bytes) :
    translate (c :: s) = (if c = 10 then [13, 10] else [c]) ++ translate s := rfl

theorem head_translate (s : Bytes) : (translate s).head? ≠ some 10 := by
  cases s with
  | nil => nofun
  | cons c s =>
      rw [translate_cons]
      by_cases feed : c = 10
      · rw [if_pos feed]
        show some (13 : UInt8) ≠ some 10
        decide
      · rw [if_neg feed]
        show some c ≠ some 10
        exact fun same => feed (Option.some.inj same)

/-- Nothing is lost, whatever carriage returns the string has itself. -/
theorem restore_translate (s : Bytes) : restore (translate s) = s := by
  induction s with
  | nil => rfl
  | cons c s ih =>
      rw [translate_cons]
      by_cases feed : c = 10
      · subst feed
        show restore (13 :: 10 :: translate s) = _
        have added : (13 : UInt8) = 13 ∧ (10 :: translate s).head? = some 10 := ⟨rfl, rfl⟩
        have kept : ¬ ((10 : UInt8) = 13 ∧ (translate s).head? = some 10) :=
          fun both => absurd both.1 (by decide)
        rw [restore, if_pos added, restore, if_neg kept, ih]
      · rw [if_neg feed]
        show restore (c :: translate s) = _
        have kept : ¬ (c = 13 ∧ (translate s).head? = some 10) :=
          fun both => head_translate s both.2
        rw [restore, if_neg kept, ih]

/-! ## Writes -/

/-- The loop in `uart_putc` ends when the flag is set. -/
theorem statusRegister_and (txe : Bool) (others : BitVec 32) :
    statusRegister txe others &&& txeMask = 0 ↔ txe = false := by
  unfold statusRegister
  cases txe with
  | false =>
      have cleared : others &&& ~~~txeMask &&& txeMask = 0 := by
        have apart : ~~~txeMask &&& txeMask = 0 := by decide
        rw [BitVec.and_assoc, apart]
        exact BitVec.and_zero
      exact iff_of_true cleared rfl
  | true =>
      have set_ : (others ||| txeMask) &&& txeMask ≠ 0 := by
        intro zero
        have bit := congrArg (fun v : BitVec 32 => v.getLsbD 7) zero
        simp [txeMask] at bit
      exact iff_of_false set_ nofun

/-- The bytes of the string that a memory starts with. -/
def cstring (memory : Bytes) : Bytes := memory.takeWhile (· ≠ 0)

/-- What is still to be written. -/
def Pc.remaining : Pc → Bytes
  | .puts memory => translate (cstring memory)
  | .poll c return_ | .store c return_ => c :: return_.remaining
  | .done | .fault => []

/-- The terminating zero is still ahead. -/
def Pc.Terminated : Pc → Prop
  | .puts memory => 0 ∈ memory
  | .poll _ return_ | .store _ return_ => return_.Terminated
  | .done => True
  | .fault => False

/-- The flag has been seen. -/
def Pc.Stores : Pc → Prop
  | .store _ _ => True
  | _ => False

/-- The writes so far and those to come are the translated string, each with the
flag set. -/
structure Sound (s : Bytes) (st : State) : Prop where
  bytes : st.written.map (·.byte) ++ st.pc.remaining = translate s
  terminated : st.pc.Terminated
  ready : st.pc.Stores → st.txe = true
  flags : ∀ w ∈ st.written, w.txe = true

/-- The point that `uart_putc` returns to is none that stores. -/
def Pc.Returns : Pc → Prop
  | .poll _ return_ | .store _ return_ => ¬ return_.Stores ∧ return_.Returns
  | _ => True

/-- **Step lemma.** -/
theorem Sound.tick {s : Bytes} {st : State} (sound : Sound s st) (returns : st.pc.Returns)
    (t : Tick) : Sound s (st.tick t) ∧ (st.tick t).pc.Returns := by
  obtain ⟨bytes, terminated, ready, flags⟩ := sound
  unfold State.tick
  cases here : st.pc with
  | puts memory =>
      rw [here] at bytes terminated
      cases memory with
      | nil => exact absurd terminated List.not_mem_nil
      | cons c rest =>
          -- the loop ends at the zero, and never reads past it
          by_cases zero : c = 0
          · subst zero
            simp only [if_pos]
            exact ⟨⟨bytes, trivial, nofun, flags⟩, trivial⟩
          · have more : (0 : UInt8) ∈ rest := by
              rcases List.mem_cons.mp terminated with first | more
              · exact absurd first.symm zero
              · exact more
            have next : cstring (c :: rest) = c :: cstring rest :=
              List.takeWhile_cons_of_pos (by simpa using zero)
            have bytes : st.written.map (·.byte) ++ translate (cstring (c :: rest)) = translate s :=
              bytes
            rw [next, translate_cons] at bytes
            simp only [if_neg zero]
            by_cases feed : c = 10
            · rw [if_pos feed] at bytes ⊢
              subst feed
              exact ⟨⟨bytes, more, nofun, flags⟩, nofun, nofun, trivial⟩
            · rw [if_neg feed] at bytes ⊢
              exact ⟨⟨bytes, more, nofun, flags⟩, nofun, trivial⟩
  | poll c return_ =>
      rw [here] at bytes terminated returns
      simp only [statusRegister_and]
      by_cases wait : (st.txe || t.empties) = false
      · rw [if_pos wait]
        exact ⟨⟨bytes, terminated, nofun, flags⟩, returns⟩
      · rw [if_neg wait]
        exact ⟨⟨bytes, terminated, fun _ => Bool.eq_true_of_not_eq_false wait, flags⟩, returns⟩
  | store c return_ =>
      rw [here] at bytes terminated ready returns
      -- the hardware does not clear a flag that has been seen
      have seen : (st.txe || t.empties) = true := by
        rw [ready trivial, Bool.true_or]
      refine ⟨⟨?_, terminated, fun stores => absurd stores returns.1, ?_⟩, returns.2⟩
      · rw [← bytes, List.map_append, List.append_assoc]
        rfl
      · intro w member
        rcases List.mem_append.mp member with before | now
        · exact flags w before
        · rw [List.mem_singleton.mp now]
          exact seen
  | done =>
      rw [here] at bytes
      exact ⟨⟨bytes, trivial, nofun, flags⟩, trivial⟩
  | fault =>
      rw [here] at terminated
      exact absurd terminated not_false

theorem cstring_append {s : Bytes} (nonzero : 0 ∉ s) (rest : Bytes) :
    cstring (s ++ 0 :: rest) = s := by
  unfold cstring
  rw [List.takeWhile_append_of_pos]
  · show s ++ [] = s
    exact List.append_nil s
  · intro c member
    rw [decide_eq_true_eq]
    rintro rfl
    exact nonzero member

/-- **Run lemma.** -/
theorem sound_run {s rest : Bytes} {txe : Bool} {ticks : List Tick} {st : State}
    (nonzero : 0 ∉ s) (run : (system (s ++ 0 :: rest) txe).run ticks = some st) : Sound s st := by
  have both : Sound s st ∧ st.pc.Returns := by
    refine System.state_invariant (I := fun st => Sound s st ∧ st.pc.Returns) ?_ ?_ run
    · refine ⟨⟨?_, ?_, nofun, nofun⟩, trivial⟩
      · show translate (cstring (s ++ 0 :: rest)) = translate s
        rw [cstring_append nonzero]
      · exact List.mem_append_right s List.mem_cons_self
    · rintro st t st' ⟨sound, returns⟩ hstep
      cases hstep
      exact sound.tick returns t
  exact both.1

/-! ## Termination -/

section Schedule

variable {memory : Bytes} {txe : Bool} {schedule : Nat → Tick}

theorem run_trace (k : Nat) :
    (system memory txe).run ((List.range k).map schedule) =
      some (trace memory txe schedule k) := by
  induction k with
  | zero => rfl
  | succ k ih =>
      rw [List.range_succ, List.map_append]
      exact System.run_concat_eq_some.mpr ⟨_, ih, rfl⟩

/-- The busy-wait ends when the hardware sets the flag. -/
theorem polled (often : ∀ k, ∃ k', k ≤ k' ∧ (schedule k').empties = true) {k : Nat} {c : UInt8}
    {return_ : Pc} (here : (trace memory txe schedule k).pc = .poll c return_) :
    ∃ k', k ≤ k' ∧ (trace memory txe schedule k').pc = .store c return_ := by
  have still : ∀ d, (trace memory txe schedule (k + d)).pc = .poll c return_ ∨
      ∃ k', k ≤ k' ∧ (trace memory txe schedule k').pc = .store c return_ := by
    intro d
    induction d with
    | zero => exact .inl here
    | succ d ih =>
        rcases ih with waiting | stored
        · have next : (trace memory txe schedule (k + d + 1)).pc = .poll c return_ ∨
              (trace memory txe schedule (k + d + 1)).pc = .store c return_ := by
            show ((trace memory txe schedule (k + d)).tick (schedule (k + d))).pc = _ ∨
              ((trace memory txe schedule (k + d)).tick (schedule (k + d))).pc = _
            unfold State.tick
            simp only [waiting]
            split
            · exact .inl rfl
            · exact .inr rfl
          rcases next with waiting | stored
          · exact .inl waiting
          · exact .inr ⟨k + d + 1, by omega, stored⟩
        · exact .inr stored
  obtain ⟨k', later, empties⟩ := often k
  rcases still (k' - k) with waiting | stored
  · have same : k + (k' - k) = k' := by omega
    rw [same] at waiting
    refine ⟨k' + 1, by omega, ?_⟩
    show ((trace memory txe schedule k').tick (schedule k')).pc = _
    unfold State.tick
    have set_ : ¬ ((trace memory txe schedule k').txe || (schedule k').empties) = false := by
      rw [empties, Bool.or_true]
      nofun
    simp only [waiting, statusRegister_and, if_neg set_]
  · exact stored

/-- `uart_putc` returns. -/
theorem put (often : ∀ k, ∃ k', k ≤ k' ∧ (schedule k').empties = true) {k : Nat} {c : UInt8}
    {return_ : Pc} (here : (trace memory txe schedule k).pc = .poll c return_) :
    ∃ k', k ≤ k' ∧ (trace memory txe schedule k').pc = return_ := by
  obtain ⟨k', later, stored⟩ := polled often here
  refine ⟨k' + 1, by omega, ?_⟩
  show ((trace memory txe schedule k').tick (schedule k')).pc = _
  unfold State.tick
  simp only [stored]

/-- `uart_puts` returns from any place in the string. -/
theorem puts_done (often : ∀ k, ∃ k', k ≤ k' ∧ (schedule k').empties = true) {s rest : Bytes}
    (nonzero : 0 ∉ s) {k : Nat} (here : (trace memory txe schedule k).pc = .puts (s ++ 0 :: rest)) :
    ∃ k', (trace memory txe schedule k').pc = .done := by
  induction s generalizing k with
  | nil =>
      refine ⟨k + 1, ?_⟩
      show ((trace memory txe schedule k).tick (schedule k)).pc = _
      unfold State.tick
      simp only [here, List.nil_append, if_pos]
  | cons c s ih =>
      rw [List.mem_cons, not_or] at nonzero
      obtain ⟨notZero, nonzero⟩ := nonzero
      have first : (trace memory txe schedule (k + 1)).pc =
          if c = 10 then .poll 13 (.poll c (.puts (s ++ 0 :: rest)))
          else .poll c (.puts (s ++ 0 :: rest)) := by
        show ((trace memory txe schedule k).tick (schedule k)).pc = _
        unfold State.tick
        simp only [here, List.cons_append, if_neg (Ne.symm notZero)]
        split
        · rfl
        · rfl
      by_cases feed : c = 10
      · rw [if_pos feed] at first
        obtain ⟨k₁, -, second⟩ := put often first
        obtain ⟨k₂, -, next⟩ := put often second
        exact ih nonzero next
      · rw [if_neg feed] at first
        obtain ⟨k₁, -, next⟩ := put often first
        exact ih nonzero next

end Schedule

/-! ## The main result -/

/-- **Line ends on the wire.** In every run of `uart_puts` the data register is
written only while the flag is set, and the bytes written are the start of the
string with a carriage return before each line feed, all of it when the function
has returned. It returns on every schedule on which the flag is set again and
again. Deleting the carriage returns immediately before line feeds gives the string
back. -/
theorem uart_puts_lossless {s : Bytes} (nonzero : 0 ∉ s) (rest : Bytes) (txe : Bool) :
    (∀ ticks st, (system (s ++ 0 :: rest) txe).run ticks = some st →
      (∀ w ∈ st.written, w.txe = true) ∧ st.written.map (·.byte) <+: translate s ∧
      (st.pc = .done → st.written.map (·.byte) = translate s) ∧ st.pc ≠ .fault) ∧
    (∀ schedule : Nat → Tick, (∀ k, ∃ k', k ≤ k' ∧ (schedule k').empties = true) →
      ∃ k st, (system (s ++ 0 :: rest) txe).run ((List.range k).map schedule) = some st ∧
        st.pc = .done ∧ st.written.map (·.byte) = translate s) ∧
    restore (translate s) = s := by
  have finished : ∀ {st : State}, Sound s st → st.pc = .done →
      st.written.map (·.byte) = translate s := by
    intro st sound done
    rw [← sound.bytes, done]
    exact (List.append_nil _).symm
  refine ⟨?_, ?_, restore_translate s⟩
  · intro ticks st run
    have sound := sound_run nonzero run
    refine ⟨sound.flags, ⟨st.pc.remaining, sound.bytes⟩, finished sound, ?_⟩
    intro fault
    have terminated := sound.terminated
    rw [fault] at terminated
    exact terminated
  · intro schedule often
    have start : (trace (s ++ 0 :: rest) txe schedule 0).pc = .puts (s ++ 0 :: rest) := rfl
    obtain ⟨k, done⟩ := puts_done often nonzero start
    have run := @run_trace (s ++ 0 :: rest) txe schedule k
    exact ⟨k, _, run, done, finished (sound_run nonzero run) done⟩

/-- A string with a line end of its own, on hardware that takes some time. -/
theorem uart_puts_lossless_crlf : ∃ k st,
    (system [97, 13, 10, 0] false).run ((List.range k).map fun k => ⟨k % 5 = 4, 0⟩) = some st ∧
      st.written.map (·.byte) = [97, 13, 13, 10] ∧ restore [97, 13, 13, 10] = [97, 13, 10] := by
  obtain ⟨-, returns, lossless⟩ := uart_puts_lossless (s := [97, 13, 10]) (by decide) [] false
  obtain ⟨k, st, run, -, bytes⟩ := returns (fun k => ⟨k % 5 = 4, 0⟩) fun k =>
    ⟨5 * k + 4, by omega, decide_eq_true (by omega)⟩
  exact ⟨k, st, run, bytes, lossless⟩

end CppLab.Embedded.Uart
