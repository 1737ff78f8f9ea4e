import CppLab.Embedded.Uart

/-!
# `main` of the firmware

`main` sets up `USART1` and then, for ever, sends a message over it, waits a second
on `SysTick`, sends a message to the host and waits again. Every access to a device
register is a step, and what the hardware answers is the label: the transmit flag as
in `uart_puts`, and any value of the other registers that are read.

`script` is what `main` does to the devices; `main_script` says that it does that on
every hardware, and goes on for ever on one that sets both flags again and again.
-/

namespace CppLab.Embedded.Main

/-- The registers that are written, but for `USART1_DR`. -/
inductive Register
  | SYST_CSR
  | SYST_RVR
  | SYST_CVR
  | RCC_APB2ENR
  | USART1_BRR
  | USART1_CR1
  deriving DecidableEq, Repr

/-- What the devices see: a register is written, `USART1_DR` among them, or `bkpt 0xAB`
is executed, with `r0` and the string at `r1`. -/
inductive Event
  | store (register : Register) (value : BitVec 32)
  | data (w : Uart.Write)
  | bkpt (op : BitVec 32) (msg : Bytes)
  deriving DecidableEq, Repr

/-- What the hardware does in front of a step: to `USART1`, and the values that a read of
`RCC_APB2ENR` and of `SYST_CSR` gives. -/
structure Tick where
  uart : Uart.Tick
  apb2enr : BitVec 32
  csr : BitVec 32
  deriving DecidableEq, Repr

/-- Control points of `delay_ms`: the head of its loop, with `ms` before it is decremented,
and the accesses to `SysTick` in one round. -/
inductive Delay
  | head (ms : BitVec 32)
  | current (ms : BitVec 32)
  | start (ms : BitVec 32)
  | wait (ms : BitVec 32)
  | stop (ms : BitVec 32)
  deriving DecidableEq, Repr

/-- Which of the two delays in the loop of `main`. -/
inductive Which
  | first
  | second
  deriving DecidableEq, Repr

/-- Control points of `main`: `enable` to `control` are in `uart_init`, `puts` is in
`uart_puts` with what it has written. -/
inductive Pc
  | enable
  | clock (value : BitVec 32)
  | baud
  | control
  | puts (pc : Uart.Pc) (written : List Uart.Write)
  | delay (which : Which) (d : Delay)
  | semihost
  deriving DecidableEq, Repr

/-- The program, the transmit flag, and what the devices have seen, but for the call of
`uart_puts` that is under way. -/
structure State where
  pc : Pc
  txe : Bool
  log : List Event
  deriving DecidableEq, Repr

/-- `"Hello STM32-QEMU UART1\n"`. -/
def uartMessage : Bytes := ascii "Hello STM32-QEMU UART1\n"

/-- `"Hello STM32-QEMU semihosting\n"`. -/
def hostMessage : Bytes := ascii "Hello STM32-QEMU semihosting\n"

/-- The head of `while (1)`. -/
def Pc.loop : Pc := .puts (.puts (uartMessage ++ [0])) []

/-- Where a delay returns to. -/
def Which.next : Which → Pc
  | .first => .semihost
  | .second => .loop

/-- One step, after the hardware. -/
def State.tick (s : State) (t : Tick) : State :=
  let txe := s.txe || t.uart.empties
  match s.pc with
  | .enable => ⟨.clock (t.apb2enr ||| 1#32 <<< 14), txe, s.log⟩
  | .clock value => ⟨.baud, txe, s.log ++ [.store .RCC_APB2ENR value]⟩
  | .baud => ⟨.control, txe, s.log ++ [.store .USART1_BRR 0x45]⟩
  | .control => ⟨.loop, txe, s.log ++ [.store .USART1_CR1 (1#32 <<< 13 ||| 1#32 <<< 3)]⟩
  | .puts pc written =>
      let call := (⟨s.txe, pc, written⟩ : Uart.State).tick t.uart
      if call.pc = .done then
        ⟨.delay .first (.head 1000), call.txe, s.log ++ call.written.map .data⟩
      else ⟨.puts call.pc call.written, call.txe, s.log⟩
  | .delay which (.head ms) =>
      if ms = 0 then ⟨which.next, txe, s.log⟩
      else ⟨.delay which (.current (ms - 1)), txe, s.log ++ [.store .SYST_RVR (8000 - 1)]⟩
  | .delay which (.current ms) =>
      ⟨.delay which (.start ms), txe, s.log ++ [.store .SYST_CVR 0]⟩
  | .delay which (.start ms) => ⟨.delay which (.wait ms), txe, s.log ++ [.store .SYST_CSR 5]⟩
  | .delay which (.wait ms) =>
      if t.csr &&& 1#32 <<< 16 = 0 then ⟨.delay which (.wait ms), txe, s.log⟩
      else ⟨.delay which (.stop ms), txe, s.log⟩
  | .delay which (.stop ms) => ⟨.delay which (.head ms), txe, s.log ++ [.store .SYST_CSR 0]⟩
  | .semihost => ⟨.delay .second (.head 1000), txe, s.log ++ [.bkpt 0x04 hostMessage]⟩

/-- `main`, with the flag as it is at reset. -/
def system (txe : Bool) : System State Tick where
  init := ⟨.enable, txe, []⟩
  step s t := some (s.tick t)

/-- Everything that the devices have seen. -/
def State.events (s : State) : List Event :=
  match s.pc with
  | .puts _ written => s.log ++ written.map .data
  | _ => s.log

/-! ## The script -/

/-- What `uart_init` does, where `RCC_APB2ENR` reads as `value`. -/
def setup (value : BitVec 32) : List Event :=
  [.store .RCC_APB2ENR (value ||| 1#32 <<< 14), .store .USART1_BRR 0x45,
    .store .USART1_CR1 (1#32 <<< 13 ||| 1#32 <<< 3)]

/-- A string on the wire: each byte is written with the flag set. -/
def message (s : Bytes) : List Event := (Uart.translate s).map fun c => .data ⟨c, true⟩

/-- A round of `delay_ms`. -/
def round : List Event :=
  [.store .SYST_RVR (8000 - 1), .store .SYST_CVR 0, .store .SYST_CSR 5, .store .SYST_CSR 0]

/-- `delay_ms(ms)`. -/
def pause (ms : Nat) : List Event := (List.replicate ms round).flatten

/-- The body of `while (1)`. -/
def cycle : List Event :=
  message uartMessage ++ pause 1000 ++ [.bkpt 0x04 hostMessage] ++ pause 1000

/-- `main` up to its loop and `n` times through it. -/
def script (value : BitVec 32) (n : Nat) : List Event :=
  setup value ++ (List.replicate n cycle).flatten

theorem script_succ (value : BitVec 32) (n : Nat) :
    script value (n + 1) = script value n ++ cycle := by
  rw [script, script, List.replicate_succ', List.flatten_append, List.flatten_singleton,
    List.append_assoc]

theorem pause_succ (ms : Nat) : pause (ms + 1) = round ++ pause ms := by
  rw [pause, List.replicate_succ, List.flatten_cons]
  rfl

/-- What a delay has still to do. -/
def Delay.remaining : Delay → List Event
  | .head ms => pause ms.toNat
  | .current ms => [.store .SYST_CVR 0, .store .SYST_CSR 5, .store .SYST_CSR 0] ++ pause ms.toNat
  | .start ms => [.store .SYST_CSR 5, .store .SYST_CSR 0] ++ pause ms.toNat
  | .wait ms | .stop ms => [.store .SYST_CSR 0] ++ pause ms.toNat

/-- Where the script is in front of what a delay does. -/
def Which.before (value : BitVec 32) (n : Nat) : Which → List Event
  | .first => script value n ++ message uartMessage
  | .second => script value n ++ message uartMessage ++ pause 1000 ++ [.bkpt 0x04 hostMessage]

/-- The log at a control point, after `n` times through the loop. -/
def Pc.Follows (txe : Bool) (log : List Event) : Pc → Prop
  | .enable => log = []
  | .clock set_ => log = [] ∧ ∃ value, set_ = value ||| 1#32 <<< 14
  | .baud => ∃ value, log = (setup value).take 1
  | .control => ∃ value, log = (setup value).take 2
  | .puts pc written => ∃ value n, log = script value n ∧
      Uart.Sound uartMessage ⟨txe, pc, written⟩ ∧ pc.Returns
  | .delay which d => ∃ value n, log ++ d.remaining = which.before value n ++ pause 1000
  | .semihost => ∃ value n, log = script value n ++ message uartMessage ++ pause 1000

/-- `main` follows its script. -/
def State.Follows (s : State) : Prop := s.pc.Follows s.txe s.log

/-! ## Steps -/

theorem toNat_sub_one {ms : BitVec 32} (more : ms ≠ 0) : ms.toNat = (ms - 1).toNat + 1 := by
  have pos : ms.toNat ≠ 0 := fun zero => more (BitVec.eq_of_toNat_eq zero)
  have bound := ms.isLt
  rw [BitVec.toNat_sub]
  show ms.toNat = (2 ^ 32 - 1 + ms.toNat) % 2 ^ 32 + 1
  omega

/-- The writes of a call of `uart_puts` that has returned. -/
theorem data_of_done {s : Bytes} {st : Uart.State} (sound : Uart.Sound s st)
    (done : st.pc = .done) : st.written.map Event.data = message s := by
  have bytes := sound.bytes
  rw [done] at bytes
  have all : st.written.map (·.byte) = Uart.translate s := by
    rw [← bytes]
    exact (List.append_nil _).symm
  rw [message, ← all, List.map_map]
  refine List.map_congr_left fun w member => ?_
  have flag := sound.flags w member
  show Event.data w = .data ⟨w.byte, true⟩
  rw [← flag]

/-- The head of the loop is the start of a call of `uart_puts`. -/
theorem follows_loop (value : BitVec 32) (n : Nat) (txe : Bool) :
    Pc.Follows txe (script value n) .loop := by
  refine ⟨value, n, rfl, ⟨?_, ?_, nofun, nofun⟩, trivial⟩
  · show Uart.translate (Uart.cstring (uartMessage ++ [0])) = Uart.translate uartMessage
    rw [Uart.cstring_append (by decide)]
  · exact List.mem_append_right _ List.mem_cons_self

/-- A delay of a second starts. -/
theorem follows_delay (value : BitVec 32) (n : Nat) (which : Which) (txe : Bool) :
    Pc.Follows txe (which.before value n) (.delay which (.head 1000)) :=
  ⟨value, n, rfl⟩

/-- A delay returns. -/
theorem follows_next {which : Which} {log : List Event} {value : BitVec 32} {n : Nat}
    (returned : log = which.before value n ++ pause 1000) (txe : Bool) :
    which.next.Follows txe log := by
  cases which with
  | first => exact ⟨value, n, returned⟩
  | second =>
      have through : log = script value (n + 1) := by
        rw [returned, script_succ]
        simp only [Which.before, cycle, List.append_assoc]
      rw [through]
      exact follows_loop value (n + 1) txe

/-- A step in a delay. -/
theorem follows_delay_step {which : Which} {d : Delay} {log : List Event} {txe : Bool}
    (follows : Pc.Follows txe log (.delay which d)) (t : Tick) :
    State.Follows ((⟨.delay which d, txe, log⟩ : State).tick t) := by
  obtain ⟨value, n, rest⟩ := follows
  cases d with
  | head ms =>
      show State.Follows (if ms = 0 then ⟨which.next, _, log⟩ else
        ⟨.delay which (.current (ms - 1)), _, log ++ [.store .SYST_RVR (8000 - 1)]⟩)
      by_cases zero : ms = 0
      · rw [if_pos zero]
        subst zero
        exact follows_next ((List.append_nil log).symm.trans rest) _
      · rw [if_neg zero]
        refine ⟨value, n, ?_⟩
        rw [← rest, List.append_assoc]
        show log ++ (round ++ pause (ms - 1).toNat) = log ++ pause ms.toNat
        rw [toNat_sub_one zero, pause_succ]
  | current ms => exact ⟨value, n, (List.append_assoc log [.store .SYST_CVR 0] _).trans rest⟩
  | start ms => exact ⟨value, n, (List.append_assoc log [.store .SYST_CSR 5] _).trans rest⟩
  | wait ms =>
      show State.Follows (if t.csr &&& 1#32 <<< 16 = 0 then ⟨.delay which (.wait ms), _, log⟩
        else ⟨.delay which (.stop ms), _, log⟩)
      split
      · exact ⟨value, n, rest⟩
      · exact ⟨value, n, rest⟩
  | stop ms => exact ⟨value, n, (List.append_assoc log [.store .SYST_CSR 0] _).trans rest⟩

/-- **Step lemma.** -/
theorem State.Follows.tick {s : State} (follows : s.Follows) (t : Tick) :
    (s.tick t).Follows := by
  obtain ⟨pc, txe, log⟩ := s
  cases pc with
  | enable => exact ⟨follows, t.apb2enr, rfl⟩
  | clock set_ =>
      obtain ⟨rfl, value, rfl⟩ := follows
      exact ⟨value, rfl⟩
  | baud =>
      obtain ⟨value, rfl⟩ := follows
      exact ⟨value, rfl⟩
  | control =>
      obtain ⟨value, rfl⟩ := follows
      have set_up : (setup value).take 2 ++ [.store .USART1_CR1 (1#32 <<< 13 ||| 1#32 <<< 3)] =
          script value 0 := rfl
      show Pc.Follows _ ((setup value).take 2 ++ [_]) .loop
      rw [set_up]
      exact follows_loop value 0 _
  | puts pc written =>
      obtain ⟨value, n, rfl, sound, returns⟩ := follows
      obtain ⟨sound', returns'⟩ := sound.tick returns t.uart
      generalize next : (⟨txe, pc, written⟩ : Uart.State).tick t.uart = call at sound' returns'
      have step : (⟨.puts pc written, txe, script value n⟩ : State).tick t =
          if call.pc = .done then
            ⟨.delay .first (.head 1000), call.txe, script value n ++ call.written.map .data⟩
          else ⟨.puts call.pc call.written, call.txe, script value n⟩ := by
        rw [← next]
        rfl
      rw [step]
      by_cases done : call.pc = .done
      · rw [if_pos done, data_of_done sound' done]
        exact follows_delay value n .first _
      · rw [if_neg done]
        exact ⟨value, n, rfl, sound', returns'⟩
  | delay which d => exact follows_delay_step follows t
  | semihost =>
      obtain ⟨value, n, rfl⟩ := follows
      exact follows_delay value n .second _

/-- **Run lemma.** -/
theorem follows_run {txe : Bool} {ticks : List Tick} {s : State}
    (run : (system txe).run ticks = some s) : s.Follows := by
  refine System.state_invariant (T := system txe) (I := State.Follows) rfl ?_ run
  intro s t s' follows hstep
  cases hstep
  exact follows.tick t

theorem before_le_script (value : BitVec 32) (n : Nat) (which : Which) :
    which.before value n ++ pause 1000 <+: script value (n + 1) := by
  rw [script_succ]
  cases which with
  | first =>
      refine ⟨[.bkpt 0x04 hostMessage] ++ pause 1000, ?_⟩
      simp only [Which.before, cycle, List.append_assoc]
  | second =>
      refine ⟨[], ?_⟩
      simp only [Which.before, cycle, List.append_assoc, List.append_nil]

/-- What the devices have seen is the start of the script. -/
theorem State.Follows.events_le_script {s : State} (follows : s.Follows) :
    ∃ value n, s.events <+: script value n := by
  obtain ⟨pc, txe, log⟩ := s
  cases pc with
  | enable =>
      obtain rfl : log = [] := follows
      exact ⟨0, 0, List.nil_prefix⟩
  | clock set_ =>
      obtain ⟨rfl, -⟩ := follows
      exact ⟨0, 0, List.nil_prefix⟩
  | baud =>
      obtain ⟨value, rfl⟩ := follows
      exact ⟨value, 0, (List.take_prefix 1 _).trans (List.prefix_append _ _)⟩
  | control =>
      obtain ⟨value, rfl⟩ := follows
      exact ⟨value, 0, (List.take_prefix 2 _).trans (List.prefix_append _ _)⟩
  | puts pc written =>
      obtain ⟨value, n, rfl, sound, -⟩ := follows
      refine ⟨value, n + 1, ?_⟩
      -- the call has written the start of its message
      have start : written.map Event.data <+: message uartMessage := by
        refine ⟨pc.remaining.map fun c => .data ⟨c, true⟩, ?_⟩
        have flagged : written.map Event.data =
            (written.map (·.byte)).map fun c => .data ⟨c, true⟩ := by
          rw [List.map_map]
          refine List.map_congr_left fun w member => ?_
          have flag : w.txe = true := sound.flags w member
          show Event.data w = .data ⟨w.byte, true⟩
          rw [← flag]
        have bytes : written.map (·.byte) ++ pc.remaining = Uart.translate uartMessage :=
          sound.bytes
        rw [flagged, ← List.map_append, bytes]
        rfl
      show script value n ++ written.map Event.data <+: _
      rw [script_succ, List.prefix_append_right_inj, cycle, List.append_assoc, List.append_assoc]
      exact start.trans (List.prefix_append _ _)
  | delay which d =>
      obtain ⟨value, n, rest⟩ := follows
      refine ⟨value, n + 1, ?_⟩
      have here : log <+: which.before value n ++ pause 1000 := ⟨d.remaining, rest⟩
      exact here.trans (before_le_script value n which)
  | semihost =>
      obtain ⟨value, n, rfl⟩ := follows
      exact ⟨value, n + 1, before_le_script value n .first⟩

/-! ## The loop goes on for ever -/

/-- The state after `k` ticks of a schedule. -/
def trace (txe : Bool) (schedule : Nat → Tick) : Nat → State
  | 0 => ⟨.enable, txe, []⟩
  | k + 1 => (trace txe schedule k).tick (schedule k)

/-- The hardware sets both flags again and again. -/
structure Responsive (schedule : Nat → Tick) : Prop where
  empties : ∀ k, ∃ k', k ≤ k' ∧ (schedule k').uart.empties = true
  counts : ∀ k, ∃ k', k ≤ k' ∧ (schedule k').csr &&& 1#32 <<< 16 ≠ 0

section Schedule

variable {txe : Bool} {schedule : Nat → Tick}

theorem run_trace (k : Nat) :
    (system txe).run ((List.range k).map schedule) = some (trace txe schedule k) := by
  induction k with
  | zero => rfl
  | succ k ih =>
      rw [List.range_succ, List.map_append]
      exact System.run_concat_eq_some.mpr ⟨_, ih, rfl⟩

/-- The timer is waited for until it has counted down. -/
theorem waited (responsive : Responsive schedule) {k : Nat} {which : Which} {ms : BitVec 32}
    {flag : Bool} {log : List Event}
    (here : trace txe schedule k = ⟨.delay which (.wait ms), flag, log⟩) :
    ∃ k' flag', trace txe schedule k' = ⟨.delay which (.stop ms), flag', log⟩ := by
  have still : ∀ d, (∃ flag', trace txe schedule (k + d) = ⟨.delay which (.wait ms), flag', log⟩) ∨
      ∃ k' flag', trace txe schedule k' = ⟨.delay which (.stop ms), flag', log⟩ := by
    intro d
    induction d with
    | zero => exact .inl ⟨flag, here⟩
    | succ d ih =>
        rcases ih with ⟨flag', waiting⟩ | stopped
        · have next : trace txe schedule (k + d + 1) =
              (⟨.delay which (.wait ms), flag', log⟩ : State).tick (schedule (k + d)) := by
            rw [← waiting]
            rfl
          by_cases counting : (schedule (k + d)).csr &&& 1#32 <<< 16 = 0
          · exact .inl ⟨_, next.trans (if_pos counting)⟩
          · exact .inr ⟨k + d + 1, _, next.trans (if_neg counting)⟩
        · exact .inr stopped
  obtain ⟨k', later, counted⟩ := responsive.counts k
  rcases still (k' - k) with ⟨flag', waiting⟩ | stopped
  · have same : k + (k' - k) = k' := by omega
    rw [same] at waiting
    have next : trace txe schedule (k' + 1) =
        (⟨.delay which (.wait ms), flag', log⟩ : State).tick (schedule k') := by
      rw [← waiting]
      rfl
    exact ⟨k' + 1, _, next.trans (if_neg counted)⟩
  · exact stopped

/-- `delay_ms(ms)` returns, after `ms` rounds. -/
theorem delayed (responsive : Responsive schedule) (which : Which) (rounds : Nat) :
    ∀ {k : Nat} {ms : BitVec 32} {flag : Bool} {log : List Event}, ms.toNat = rounds →
      trace txe schedule k = ⟨.delay which (.head ms), flag, log⟩ →
      ∃ k' flag', trace txe schedule k' = ⟨which.next, flag', log ++ pause rounds⟩ := by
  induction rounds with
  | zero =>
      intro k ms flag log none here
      have zero : ms = 0 := BitVec.eq_of_toNat_eq none
      refine ⟨k + 1, flag || (schedule k).uart.empties, ?_⟩
      show (trace txe schedule k).tick (schedule k) = _
      rw [here]
      exact (if_pos zero).trans (by rw [pause, List.replicate_zero, List.flatten_nil,
        List.append_nil])
  | succ rounds ih =>
      intro k ms flag log many here
      have more : ms ≠ 0 := by
        rintro rfl
        cases many
      have less : (ms - 1).toNat = rounds := by
        have step := toNat_sub_one more
        omega
      -- three writes, the wait, and the write that stops the timer
      have first : trace txe schedule (k + 1) = ⟨.delay which (.current (ms - 1)),
          flag || (schedule k).uart.empties, log ++ [.store .SYST_RVR (8000 - 1)]⟩ := by
        show (trace txe schedule k).tick (schedule k) = _
        rw [here]
        exact if_neg more
      have waiting : trace txe schedule (k + 3) = ⟨.delay which (.wait (ms - 1)),
          flag || (schedule k).uart.empties || (schedule (k + 1)).uart.empties ||
            (schedule (k + 2)).uart.empties,
          log ++ [.store .SYST_RVR (8000 - 1)] ++ [.store .SYST_CVR 0] ++
            [.store .SYST_CSR 5]⟩ := by
        show ((trace txe schedule (k + 1)).tick (schedule (k + 1))).tick (schedule (k + 2)) = _
        rw [first]
        rfl
      obtain ⟨k₂, flag₂, stopping⟩ := waited responsive waiting
      have stopped : trace txe schedule (k₂ + 1) = (⟨.delay which (.stop (ms - 1)), flag₂, log ++
          [.store .SYST_RVR (8000 - 1)] ++ [.store .SYST_CVR 0] ++ [.store .SYST_CSR 5]⟩ :
            State).tick (schedule k₂) := by
        rw [← stopping]
        rfl
      obtain ⟨k', flag', returned⟩ := ih less stopped
      refine ⟨k', flag', returned.trans ?_⟩
      rw [pause_succ, round]
      simp only [List.append_assoc, List.cons_append, List.nil_append]

/-- A call of `uart_puts` in `main` goes as it goes alone. -/
theorem calling {k : Nat} {memory : Bytes} {flag : Bool} {log : List Event}
    (here : trace txe schedule k = ⟨.puts (.puts memory) [], flag, log⟩) (d : Nat) :
    let alone := Uart.trace memory flag fun i => (schedule (k + i)).uart
    ((alone d).pc ≠ .done ∧
      trace txe schedule (k + d) = ⟨.puts (alone d).pc (alone d).written, (alone d).txe, log⟩) ∨
      ∃ k' d', (alone d').pc = .done ∧ trace txe schedule k' =
        ⟨.delay .first (.head 1000), (alone d').txe, log ++ (alone d').written.map .data⟩ := by
  intro alone
  induction d with
  | zero => exact .inl ⟨nofun, here⟩
  | succ d ih =>
      rcases ih with ⟨-, inside⟩ | returned
      · have next : trace txe schedule (k + d + 1) =
            if (alone (d + 1)).pc = .done then ⟨.delay .first (.head 1000), (alone (d + 1)).txe,
              log ++ (alone (d + 1)).written.map .data⟩
            else ⟨.puts (alone (d + 1)).pc (alone (d + 1)).written, (alone (d + 1)).txe, log⟩ := by
          show (trace txe schedule (k + d)).tick (schedule (k + d)) = _
          rw [inside]
          rfl
        by_cases done : (alone (d + 1)).pc = .done
        · rw [if_pos done] at next
          exact .inr ⟨k + d + 1, d + 1, done, next⟩
        · rw [if_neg done] at next
          exact .inl ⟨done, next⟩
      · exact .inr returned

/-- `uart_puts` returns, with its message on the wire. -/
theorem called (responsive : Responsive schedule) {k : Nat} {flag : Bool} {log : List Event}
    (here : trace txe schedule k = ⟨.loop, flag, log⟩) :
    ∃ k' flag', trace txe schedule k' =
      ⟨.delay .first (.head 1000), flag', log ++ message uartMessage⟩ := by
  have often : ∀ i, ∃ i', i ≤ i' ∧ (schedule (k + i')).uart.empties = true := by
    intro i
    obtain ⟨k', later, empties⟩ := responsive.empties (k + i)
    have same : k + (k' - k) = k' := by omega
    exact ⟨k' - k, by omega, by rw [same]; exact empties⟩
  have nonzero : (0 : UInt8) ∉ uartMessage := by decide
  have written : ∀ d, (Uart.trace (uartMessage ++ [0]) flag
      (fun i => (schedule (k + i)).uart) d).pc = .done →
      (Uart.trace (uartMessage ++ [0]) flag (fun i => (schedule (k + i)).uart) d).written.map
        Event.data = message uartMessage := by
    intro d done
    exact data_of_done (Uart.sound_run nonzero (Uart.run_trace d)) done
  obtain ⟨d, done⟩ : ∃ d, (Uart.trace (uartMessage ++ [0]) flag
      (fun i => (schedule (k + i)).uart) d).pc = .done :=
    Uart.puts_done (k := 0) often nonzero rfl
  rcases calling here d with ⟨inside, -⟩ | ⟨k', d', done', returned⟩
  · exact absurd done inside
  · rw [written d' done'] at returned
    exact ⟨k', _, returned⟩

/-- `main` comes to its loop, and through it any number of times. -/
theorem looped (responsive : Responsive schedule) (n : Nat) :
    ∃ k flag value, trace txe schedule k = ⟨.loop, flag, script value n⟩ := by
  induction n with
  | zero => exact ⟨4, _, (schedule 0).apb2enr, rfl⟩
  | succ n ih =>
      obtain ⟨k, flag, value, here⟩ := ih
      obtain ⟨k₁, flag₁, sent⟩ := called responsive here
      obtain ⟨k₂, flag₂, rested⟩ := delayed responsive .first 1000 rfl sent
      have told : trace txe schedule (k₂ + 1) = ⟨.delay .second (.head 1000),
          flag₂ || (schedule k₂).uart.empties,
          script value n ++ message uartMessage ++ pause 1000 ++ [.bkpt 0x04 hostMessage]⟩ := by
        show (trace txe schedule k₂).tick (schedule k₂) = _
        rw [rested]
        rfl
      obtain ⟨k₃, flag₃, again⟩ := delayed responsive .second 1000 rfl told
      refine ⟨k₃, flag₃, value, again.trans ?_⟩
      rw [script_succ, cycle]
      simp only [List.append_assoc]
      rfl

end Schedule

/-- **`main` follows its script.** On every hardware, what the devices see is the start of
the script: `USART1` is set up before its data register is written, which happens only with
the transmit flag set, each message has its line end translated, and each delay is 1000
rounds of the timer. Where both flags are set again and again, `main` goes through its loop
any number of times. -/
theorem main_script (txe : Bool) :
    (∀ ticks s, (system txe).run ticks = some s → ∃ value n, s.events <+: script value n) ∧
    (∀ schedule, Responsive schedule → ∀ n, ∃ k s value,
      (system txe).run ((List.range k).map schedule) = some s ∧ s.events = script value n) := by
  refine ⟨fun ticks s run => (follows_run run).events_le_script, fun schedule responsive n => ?_⟩
  obtain ⟨k, flag, value, here⟩ := @looped txe schedule responsive n
  refine ⟨k, _, value, run_trace k, ?_⟩
  rw [here]
  exact List.append_nil _

/-- Hardware that takes five ticks to send a byte and seven to count down. -/
def sampleSchedule (k : Nat) : Tick :=
  ⟨⟨k % 5 = 4, 0⟩, 0, if k % 7 = 6 then 1#32 <<< 16 else 0⟩

theorem main_script_sample : ∃ k s value,
    (system false).run ((List.range k).map sampleSchedule) = some s ∧
      s.events = script value 2 := by
  obtain ⟨-, forever⟩ := main_script false
  apply forever sampleSchedule
  constructor
  · exact fun k => ⟨5 * k + 4, by omega, decide_eq_true (by omega)⟩
  · intro k
    refine ⟨7 * k + 6, by omega, ?_⟩
    have counted : (sampleSchedule (7 * k + 6)).csr = 1#32 <<< 16 := if_pos (by omega)
    rw [counted]
    decide

end CppLab.Embedded.Main
