import CppLab.Socket.SimpleTCPClient

/-!
# Client descriptors

Which descriptors a `TCPClient` has open. A second `connect` loses the
descriptor of the first, a failed one leaves its descriptor behind, usable by
`send` and `receive`; callers that do neither of these keep one descriptor at
most and talk on established connections only. `run()` is such a caller, but of
its ways out only the last closes.
-/

namespace CppLab.Socket.TCPClient

open CppLab.Posix

/-- The condition on a method call: `connect` on an object without a
descriptor, `receive` and `send` of something not on one whose last `connect`
failed. -/
def Meets (t : TCPClient) : Label → Prop
  | .call .connect => t.clientFd < 0
  | .call (.send msg) => 0 ≤ t.clientFd → msg = [] ∨ t.connectOk = true
  | .call .receive => 0 ≤ t.clientFd → t.connectOk = true
  | _ => True

instance (t : TCPClient) : (l : Label) → Decidable (Meets t l)
  | .call .connect => inferInstanceAs (Decidable (t.clientFd < 0))
  | .call (.send msg) =>
      inferInstanceAs (Decidable (0 ≤ t.clientFd → msg = [] ∨ t.connectOk = true))
  | .call .receive => inferInstanceAs (Decidable (0 ≤ t.clientFd → t.connectOk = true))
  | .call .close => .isTrue trivial
  | .sys _ => .isTrue trivial

/-- The descriptors an object with this `client_fd_` answers for. -/
def held (clientFd : Int) : List Int := if clientFd < 0 then [] else [clientFd]

theorem held_of_neg {fd : Int} (neg : fd < 0) : held fd = [] := if_pos neg

theorem held_of_nonneg {fd : Int} (nonneg : 0 ≤ fd) : held fd = [fd] := if_neg (by omega)

/-- The methods that use the connection. -/
def Pc.OnConnection : Pc → Prop
  | .sending _ => True
  | .receiving => True
  | _ => False

/-- The control points at which the object has a descriptor. -/
def Pc.HasFd : Pc → Prop
  | .idle => False
  | .connecting .socket => False
  | _ => True

/-- What the completed calls and the members say about each other in a history
that meets the condition. -/
structure Sound (es : List Event) (t : TCPClient) : Prop where
  book : Ledger.replay (ledger es) = some (held t.clientFd)
  creating : t.pc = .connecting .socket → t.clientFd < 0
  hasFd : t.pc.HasFd → 0 ≤ t.clientFd
  connecting : ∀ c, t.pc = .connecting c → t.connectOk = false
  onConnection : t.pc.OnConnection → t.connectOk = true
  connected : t.connectOk = true → 0 ≤ t.clientFd → t.clientFd ∈ established es

theorem sound_init : Sound [] histories.init where
  book := rfl
  creating := nofun
  hasFd := nofun
  connecting := nofun
  onConnection := nofun
  connected := nofun

/-- Moves to a control point outside `connect()`. -/
theorem Sound.goto {es : List Event} {t : TCPClient} {pc : Pc} (sound : Sound es t)
    (outside : ∀ c, pc ≠ .connecting c) (hasFd : pc.HasFd → 0 ≤ t.clientFd)
    (onConnection : pc.OnConnection → t.connectOk = true) : Sound es { t with pc := pc } where
  book := sound.book
  creating := fun h => absurd h (outside _)
  hasFd := hasFd
  connecting := fun c h => absurd h (outside c)
  onConnection := onConnection
  connected := sound.connected

theorem Sound.idle {es : List Event} {t : TCPClient} (sound : Sound es t) :
    Sound es { t with pc := .idle } :=
  sound.goto nofun nofun nofun

theorem Sound.receiving {es : List Event} {t : TCPClient} (sound : Sound es t)
    (nonneg : 0 ≤ t.clientFd) (ok : t.connectOk = true) : Sound es { t with pc := .receiving } :=
  sound.goto nofun (fun _ => nonneg) (fun _ => ok)

theorem Sound.closing {es : List Event} {t : TCPClient} (sound : Sound es t)
    (nonneg : 0 ≤ t.clientFd) : Sound es { t with pc := .closing } :=
  sound.goto nofun (fun _ => nonneg) nofun

/-- `connect()` is entered without a descriptor. -/
theorem Sound.connect {es : List Event} {t : TCPClient} (sound : Sound es t)
    (neg : t.clientFd < 0) : Sound es ⟨t.clientFd, .connecting .socket, false⟩ :=
  ⟨sound.book, fun _ => neg, nofun, fun _ _ => rfl, nofun, nofun⟩

/-- A send loop that has moved, on a connection. -/
theorem Sound.ofSend {es : List Event} {t : TCPClient} (sound : Sound es t) (l : SendLoop)
    (nonneg : 0 ≤ t.clientFd) (ok : t.connectOk = true) :
    Sound es { t with pc := .ofSend l } := by
  cases l with
  | sending s => exact sound.goto nofun (fun _ => nonneg) (fun _ => ok)
  | returned => exact sound.idle
  | threw what => exact sound.idle

/-- Entering a method completes no call. -/
theorem Sound.begin {es : List Event} {t : TCPClient} {op : Op} (sound : Sound es t)
    (meets : Meets t (.call op)) : Sound es (t.begin op) := by
  cases op with
  | connect => exact sound.connect meets
  | send msg =>
      show Sound es { t with pc := .ofSend (TCPClient.send t.clientFd msg) }
      unfold TCPClient.send requireFd
      by_cases neg : t.clientFd < 0
      · rw [if_pos neg]
        exact sound.idle
      · have nonneg : 0 ≤ t.clientFd := by omega
        rw [if_neg neg]
        rcases meets nonneg with rfl | ok
        · exact sound.idle
        · exact sound.ofSend _ nonneg ok
  | receive =>
      simp only [TCPClient.begin, requireFd]
      by_cases neg : t.clientFd < 0
      · rw [if_pos neg]
        exact sound
      · have nonneg : 0 ≤ t.clientFd := by omega
        rw [if_neg neg]
        exact sound.receiving nonneg (meets nonneg)
  | close =>
      show Sound es (if 0 ≤ t.clientFd then { t with pc := .closing } else t)
      split
      · rename_i nonneg
        exact sound.closing nonneg
      · exact sound

theorem ledger_concat_none {es : List Event} {e : Event} (h : entry e = none) :
    ledger (es ++ [e]) = ledger es :=
  System.filterMap_concat_none h

theorem ledger_concat_some {es : List Event} {e : Event} {x : Entry Int} (h : entry e = some x) :
    ledger (es ++ [e]) = ledger es ++ [x] :=
  System.filterMap_concat_some h

theorem established_concat (es : List Event) (e : Event) :
    established (es ++ [e]) = establish (established es) e := by
  simp [established]

/-- A completed call that has to do with no descriptor's life. -/
theorem Sound.concat {es : List Event} {t : TCPClient} {e : Event} (sound : Sound es t)
    (noEntry : entry e = none) (same : ∀ fds, establish fds e = fds) : Sound (es ++ [e]) t where
  book := by
    rw [ledger_concat_none noEntry]
    exact sound.book
  creating := sound.creating
  hasFd := sound.hasFd
  connecting := sound.connecting
  onConnection := sound.onConnection
  connected := by
    rw [established_concat, same]
    exact sound.connected

/-- `socket` answers an object without a descriptor. -/
theorem Sound.socket {es : List Event} {fd : Int}
    (sound : Sound es ⟨fd, .connecting .socket, false⟩) (new : Int) :
    Sound (es ++ [(.socket, .int new)]) (resume ⟨fd, .connecting .socket, false⟩ (.int new)) := by
  have book := sound.book
  rw [held_of_neg (sound.creating rfl)] at book
  rw [resume_socket]
  split
  · rename_i neg
    have failed : entry (.socket, .int new) = none := if_pos neg
    refine ⟨?_, nofun, nofun, nofun, nofun, nofun⟩
    rw [ledger_concat_none failed, book, held_of_neg neg]
  · rename_i nonneg
    have opened : entry (.socket, .int new) = some (.opened new) := if_neg nonneg
    refine ⟨?_, nofun, fun _ => Int.not_lt.mp nonneg, fun _ _ => rfl, nofun, nofun⟩
    rw [ledger_concat_some opened, held_of_nonneg (Int.not_lt.mp nonneg)]
    exact Ledger.replay_concat book (Ledger.record_opened List.not_mem_nil)

/-- A bad address ends `connect`, with the descriptor. -/
theorem Sound.inetPton {es : List Event} {fd : Int}
    (sound : Sound es ⟨fd, .connecting .inetPton, false⟩) (n : Int) :
    Sound (es ++ [(.inetPton, .int n)]) (resume ⟨fd, .connecting .inetPton, false⟩ (.int n)) := by
  have nonneg : 0 ≤ fd := sound.hasFd trivial
  have sound := sound.concat (show entry (.inetPton, .int n) = none from rfl) fun _ => rfl
  rw [resume_inetPton]
  split
  · exact ⟨sound.book, nofun, nofun, nofun, nofun, nofun⟩
  · exact ⟨sound.book, nofun, fun _ => nonneg, fun _ _ => rfl, nofun, nofun⟩

/-- `connect` succeeds with the connection established. -/
theorem Sound.ofConnect {es : List Event} {fd : Int}
    (sound : Sound es ⟨fd, .connecting .connect, false⟩) (n : Int) :
    Sound (es ++ [(.connect fd, .int n)]) (resume ⟨fd, .connecting .connect, false⟩ (.int n)) := by
  refine ⟨?_, nofun, nofun, nofun, nofun, ?_⟩
  · rw [ledger_concat_none rfl]
    exact sound.book
  · intro established _
    have zero : n = 0 := of_decide_eq_true established
    subst zero
    rw [established_concat]
    exact List.mem_cons_self

/-- `close` gives the descriptor back. -/
theorem Sound.closed {es : List Event} {fd : Int} {ok : Bool}
    (sound : Sound es ⟨fd, .closing, ok⟩) (n : Int) :
    Sound (es ++ [(.close fd, .int n)]) ⟨-1, .idle, ok⟩ := by
  have nonneg : 0 ≤ fd := sound.hasFd trivial
  have book := sound.book
  rw [held_of_nonneg nonneg] at book
  have noFd : ¬ (0 : Int) ≤ -1 := by decide
  refine ⟨?_, nofun, nofun, nofun, nofun, fun _ neg => absurd neg noFd⟩
  have closed := Ledger.replay_concat book (Ledger.record_closed List.mem_cons_self)
  rw [ledger_concat_some (show entry (.close fd, .int n) = some (.closed fd) from rfl), closed,
    List.erase_cons_head]
  rfl

/-- Completing the call a method is blocked in. -/
theorem Sound.resume {es : List Event} {t : TCPClient} {e : Event} (sound : Sound es t)
    (pending : t.pc.pending t.clientFd = some e.1) (answer : allowed e.1 e.2 = true) :
    Sound (es ++ [e]) (t.resume e.2) := by
  obtain ⟨fd, pc, ok⟩ := t
  obtain ⟨call, r⟩ := e
  cases pc with
  | idle => cases pending
  | connecting c =>
      have notOk : ok = false := sound.connecting c rfl
      subst notOk
      cases c with
      | socket =>
          injection pending with pending
          subst pending
          obtain ⟨new, rfl⟩ := exists_int_of_allowed answer rfl
          exact sound.socket new
      | inetPton =>
          injection pending with pending
          subst pending
          obtain ⟨n, rfl⟩ := exists_int_of_allowed answer rfl
          exact sound.inetPton n
      | connect =>
          injection pending with pending
          subst pending
          obtain ⟨n, rfl⟩ := exists_int_of_allowed answer rfl
          exact sound.ofConnect n
  | sending s =>
      injection pending with pending
      subst pending
      obtain ⟨sent, rfl⟩ := exists_int_of_allowed answer rfl
      exact (sound.concat rfl fun _ => rfl).ofSend _ (sound.hasFd trivial)
        (sound.onConnection trivial)
  | receiving =>
      injection pending with pending
      subst pending
      exact (sound.concat rfl fun _ => rfl).goto nofun nofun nofun
  | closing =>
      injection pending with pending
      subst pending
      obtain ⟨n, rfl⟩ := exists_int_of_allowed answer rfl
      exact sound.closed n

/-- The completed calls of a longer history. -/
@[simp] theorem events_concat_call (tr : List Label) (op : Op) :
    events (tr ++ [.call op]) = events tr :=
  System.filterMap_concat_none rfl

@[simp] theorem events_concat_sys (tr : List Label) (e : Event) :
    events (tr ++ [.sys e]) = events tr ++ [e] :=
  System.filterMap_concat_some rfl

/-- Run lemma. -/
theorem sound_run {tr : List Label} {t : TCPClient}
    (run : (histories.restrict Meets).run tr = some t) : Sound (events tr) t := by
  refine System.run_invariant (T := histories.restrict Meets)
    (I := fun tr t => Sound (events tr) t) sound_init ?_ run
  intro tr t l t' _ sound h
  obtain ⟨meets, h⟩ := System.restrict_step_eq_some.mp h
  cases l with
  | call op =>
      simp only [histories, Option.ite_none_right_eq_some, Option.some.injEq] at h
      obtain ⟨_, rfl⟩ := h
      rw [events_concat_call]
      exact sound.begin meets
  | sys e =>
      simp only [histories, Option.ite_none_right_eq_some, Option.some.injEq] at h
      obtain ⟨⟨pending, answer⟩, rfl⟩ := h
      rw [events_concat_sys]
      exact sound.resume pending answer

/-- Only the methods that use the connection block in `send` or `recv`, on
`client_fd_`. -/
theorem onConnection_of_pending {pc : Pc} {clientFd fd : Int} {c : Call}
    (pending : pc.pending clientFd = some c)
    (transfers : (∃ buf, c = .send fd buf) ∨ ∃ len, c = .recv fd len) :
    pc.OnConnection ∧ fd = clientFd := by
  cases pc with
  | idle => cases pending
  | connecting k =>
      injection pending with pending
      rcases transfers with ⟨buf, rfl⟩ | ⟨len, rfl⟩ <;> cases k <;> cases pending
  | sending s =>
      injection pending with pending
      rcases transfers with ⟨buf, rfl⟩ | ⟨len, rfl⟩
      · injection pending with same
        exact ⟨trivial, same.symm⟩
      · cases pending
  | receiving =>
      injection pending with pending
      rcases transfers with ⟨buf, rfl⟩ | ⟨len, rfl⟩
      · cases pending
      · injection pending with same
        exact ⟨trivial, same.symm⟩
  | closing =>
      injection pending with pending
      rcases transfers with ⟨buf, rfl⟩ | ⟨len, rfl⟩ <;> cases pending

/-- In a history that meets the condition at most one descriptor is open, and a
blocked `send` or `recv` is on an established connection. -/
theorem one_descriptor {tr : List Label} {t : TCPClient}
    (run : (histories.restrict Meets).run tr = some t) :
    (∃ o, Ledger.replay (ledger (events tr)) = some o ∧ o.length ≤ 1) ∧
      (∀ fd buf, t.pc.pending t.clientFd = some (.send fd buf) →
        fd ∈ established (events tr)) ∧
      ∀ fd len, t.pc.pending t.clientFd = some (.recv fd len) →
        fd ∈ established (events tr) := by
  have sound := sound_run run
  have onConnection : t.pc.OnConnection → t.clientFd ∈ established (events tr) := by
    intro on
    refine sound.connected (sound.onConnection on) (sound.hasFd ?_)
    cases hpc : t.pc <;> rw [hpc] at on <;> trivial
  refine ⟨⟨_, sound.book, ?_⟩, ?_, ?_⟩
  · unfold held
    split
    · exact Nat.zero_le 1
    · exact Nat.le_refl 1
  · intro fd buf pending
    obtain ⟨on, rfl⟩ := onConnection_of_pending pending (.inl ⟨buf, rfl⟩)
    exact onConnection on
  · intro fd len pending
    obtain ⟨on, rfl⟩ := onConnection_of_pending pending (.inr ⟨len, rfl⟩)
    exact onConnection on

end CppLab.Socket.TCPClient

namespace CppLab.Socket.SimpleTCPClient

open CppLab.Posix CppLab.Socket.TCPClient

/-! ## `run()` as a history of its client -/

/-- Where the client stands while `run()` is at a control point. -/
def Pc.client : Pc → TCPClient.Pc
  | .connecting c => .connecting c
  | .greeting => .receiving
  | .getline => .idle
  | .sending s => .sending s
  | .receiving => .receiving
  | .closing => .closing
  | .returned _ => .idle

/-- The control points past `if (!client.connect()) return;`. -/
def Pc.Connected : Pc → Prop
  | .greeting => True
  | .getline => True
  | .sending _ => True
  | .receiving => True
  | _ => False

/-- The client of `run()`. -/
structure Refines (s : Run) (t : TCPClient) : Prop where
  clientFd : t.clientFd = s.clientFd
  pc : t.pc = s.pc.client
  connectOk : s.pc.Connected → t.connectOk = true

/-- The client moves on to `s` without completing a call. -/
def Enters (t : TCPClient) (s : Run) : Prop :=
  ∃ ls t', (histories.restrict Meets).runFrom t ls = some t' ∧ events ls = [] ∧ Refines s t'

theorem Refines.enters {s : Run} {t : TCPClient} (h : Refines s t) : Enters t s :=
  ⟨[], t, rfl, rfl, h⟩

/-- One method call of an idle client. -/
theorem runFrom_call {t : TCPClient} (op : Op) (idle : t.pc = .idle)
    (meets : Meets t (.call op)) :
    (histories.restrict Meets).runFrom t [.call op] = some (t.begin op) := by
  have step : (histories.restrict Meets).step t (.call op) = some (t.begin op) :=
    System.restrict_step_eq_some.mpr ⟨meets, if_pos idle⟩
  rw [System.runFrom_cons, step]
  rfl

theorem enters_receiveAt {fd : Int} {pc : Pc} (recv : pc.client = .receiving) :
    Enters ⟨fd, .idle, true⟩ ⟨fd, receiveAt fd pc⟩ := by
  refine ⟨[.call .receive], _, runFrom_call .receive rfl fun _ => rfl, rfl, ?_⟩
  unfold receiveAt TCPClient.begin requireFd
  by_cases neg : fd < 0
  · simp only [if_pos neg]
    exact ⟨rfl, rfl, fun _ => rfl⟩
  · simp only [if_neg neg]
    exact ⟨rfl, recv.symm, fun _ => rfl⟩

theorem enters_afterSend (fd : Int) (l : SendLoop) :
    Enters ⟨fd, .ofSend l, true⟩ ⟨fd, afterSend fd l⟩ := by
  cases l with
  | sending s => exact Refines.enters ⟨rfl, rfl, fun _ => rfl⟩
  | returned => exact enters_receiveAt rfl
  | threw what => exact Refines.enters ⟨rfl, rfl, fun _ => rfl⟩

theorem enters_afterReceive {fd : Int} (result : Except String Bytes) :
    Enters ⟨fd, .idle, true⟩ ⟨fd, afterReceive result⟩ := by
  cases result with
  | error what => exact Refines.enters ⟨rfl, rfl, fun _ => rfl⟩
  | ok text => exact Refines.enters ⟨rfl, rfl, fun _ => rfl⟩

/-- A call of a method is completed, and the next method entered. -/
theorem completes {t : TCPClient} {s : Run} {e : Event} (completed : clientCall e = [e])
    (pending : t.pc.pending t.clientFd = some e.1) (answer : allowed e.1 e.2 = true)
    (enters : Enters (t.resume e.2) s) :
    ∃ ls t', (histories.restrict Meets).runFrom t ls = some t' ∧
      events ls = clientCall e ∧ Refines s t' := by
  obtain ⟨ls, t', ran, none, refines⟩ := enters
  have first : (histories.restrict Meets).step t (.sys e) = some (t.resume e.2) :=
    System.restrict_step_eq_some.mpr ⟨trivial, if_pos ⟨pending, answer⟩⟩
  refine ⟨.sys e :: ls, t', ?_, ?_, refines⟩
  · rw [System.runFrom_cons, first]
    exact ran
  · rw [completed]
    exact congrArg (e :: ·) none

/-- While it connects, `run()` does what `connect` does. -/
theorem enters_connecting (fd : Int) (ok : Bool) (c : Connect) (n : Int) :
    Enters (TCPClient.resume ⟨fd, .connecting c, ok⟩ (.int n))
      (Run.resume ⟨fd, .connecting c⟩ (.int n)) := by
  cases c with
  | socket =>
      rw [TCPClient.resume_socket, Run.resume_socket]
      split
      · exact Refines.enters ⟨rfl, rfl, False.elim⟩
      · exact Refines.enters ⟨rfl, rfl, False.elim⟩
  | inetPton =>
      rw [TCPClient.resume_inetPton, Run.resume_inetPton]
      split
      · exact Refines.enters ⟨rfl, rfl, False.elim⟩
      · exact Refines.enters ⟨rfl, rfl, False.elim⟩
  | connect =>
      show Enters ⟨fd, .idle, decide (n = 0)⟩ (Run.resume ⟨fd, .connecting .connect⟩ (.int n))
      rw [Run.resume_connect]
      by_cases zero : n = 0
      · rw [if_pos zero, decide_eq_true zero]
        exact enters_receiveAt rfl
      · rw [if_neg zero]
        exact Refines.enters ⟨rfl, rfl, False.elim⟩

/-- Once the line is read, `run()` sends it, and at the end of the input it closes. -/
theorem refines_getline {fd : Int} {r : Ret} (answer : allowed .getline r = true) :
    ∃ ls t', (histories.restrict Meets).runFrom ⟨fd, .idle, true⟩ ls = some t' ∧
      events ls = [] ∧ Refines (Run.resume ⟨fd, .getline⟩ r) t' := by
  cases r with
  | int n => simp [allowed] at answer
  | data bytes => simp [allowed] at answer
  | line msg =>
      cases msg with
      | none =>
          refine ⟨[.call .close], _, runFrom_call .close rfl trivial, rfl, ?_⟩
          show Refines ⟨fd, enterClose fd⟩ _
          unfold enterClose TCPClient.begin
          split
          · exact ⟨rfl, rfl, False.elim⟩
          · exact ⟨rfl, rfl, False.elim⟩
      | some msg =>
          obtain ⟨ls, t', ran, none, refines⟩ :=
            enters_afterSend fd (TCPClient.send fd (msg ++ [newline]))
          refine ⟨[.call (.send (msg ++ [newline]))] ++ ls, t', ?_, none, refines⟩
          have first := runFrom_call (t := ⟨fd, .idle, true⟩) (.send (msg ++ [newline])) rfl
            fun _ => .inr rfl
          show (histories.restrict Meets).runFrom ⟨fd, .idle, true⟩ _ = _
          rw [System.runFrom_append, first]
          exact ran

/-- Step lemma: a step of `run()` is, for its client, a completed call (none
where `run()` reads a line) followed by entering the next method. -/
theorem refines_step {s s' : Run} {t : TCPClient} {e : Event} (h : Refines s t)
    (hstep : program.step s e = some s') :
    ∃ ls t', (histories.restrict Meets).runFrom t ls = some t' ∧
      events ls = clientCall e ∧ Refines s' t' := by
  obtain ⟨fd, pc⟩ := s
  obtain ⟨tfd, tpc, ok⟩ := t
  have sameFd : tfd = fd := h.clientFd
  have samePc : tpc = pc.client := h.pc
  have connected : pc.Connected → ok = true := h.connectOk
  subst sameFd samePc
  obtain ⟨call, r⟩ := e
  obtain ⟨pending, answer, rfl⟩ := Process.step_eq_some.mp hstep
  cases pc with
  | connecting c =>
      injection pending with pending
      subst pending
      refine completes (by cases c <;> rfl) rfl answer ?_
      obtain ⟨n, rfl⟩ : ∃ n, r = .int n := by
        cases c <;> exact exists_int_of_allowed answer rfl
      exact enters_connecting tfd ok c n
  | greeting | receiving =>
      injection pending with pending
      subst pending
      refine completes rfl rfl answer ?_
      obtain rfl := connected trivial
      exact enters_afterReceive (received r)
  | getline =>
      injection pending with pending
      subst pending
      obtain rfl := connected trivial
      exact refines_getline answer
  | sending l =>
      injection pending with pending
      subst pending
      refine completes rfl rfl answer ?_
      obtain rfl := connected trivial
      obtain ⟨sent, rfl⟩ := exists_int_of_allowed answer rfl
      exact enters_afterSend tfd (l.resume sent)
  | closing =>
      injection pending with pending
      subst pending
      refine completes rfl rfl answer ?_
      obtain ⟨n, rfl⟩ := exists_int_of_allowed answer rfl
      exact Refines.enters ⟨rfl, rfl, False.elim⟩
  | returned how => cases pending

/-- `run()` is a history of its client that meets the condition. -/
theorem exists_history {tr : List Event} {s : Run} (run : program.run tr = some s) :
    ∃ ltr t, (histories.restrict Meets).run ltr = some t ∧
      ledger (events ltr) = ledger tr ∧ Refines s t := by
  refine System.run_invariant (I := fun tr s => ∃ ltr t,
    (histories.restrict Meets).run ltr = some t ∧ ledger (events ltr) = ledger tr ∧
      Refines s t) ?_ ?_ run
  · exact ⟨[.call .connect], ⟨-1, .connecting .socket, false⟩, by decide, rfl, rfl, rfl, nofun⟩
  · rintro tr s e s' _ ⟨ltr, t, ran, book, refines⟩ hstep
    obtain ⟨ls, t', ran', completed, refines'⟩ := refines_step refines hstep
    refine ⟨ltr ++ ls, t', ?_, ?_, refines'⟩
    · rw [System.run_append, ran]
      exact ran'
    · have split : events (ltr ++ ls) = events ltr ++ events ls := List.filterMap_append
      rw [split, completed]
      have same : (clientCall e).filterMap entry = [e].filterMap entry := by
        obtain ⟨call, r⟩ := e
        cases call <;> rfl
      rw [ledger, ledger, List.filterMap_append, List.filterMap_append, same]
      exact congrArg (· ++ [e].filterMap entry) book

/-! ## How `run()` returns -/

/-- The two events that spare `run()` a leak: `socket` has failed, so that there
is no descriptor, or the input has ended, so that the loop is left. -/
def Spares (e : Event) : Prop :=
  (∃ r < 0, e = (.socket, .int r)) ∨ e = (.getline, .line none)

/-- Whether the client has a descriptor, by control point. -/
def Stage (spared : Prop) (s : Run) : Prop :=
  match s.pc with
  | .connecting .socket => s.clientFd < 0 ∧ ¬ spared
  | .closing => 0 ≤ s.clientFd ∧ spared
  | .returned _ => s.clientFd < 0 ↔ spared
  | _ => 0 ≤ s.clientFd ∧ ¬ spared

theorem stage_returned {spared : Prop} {fd : Int} (nonneg : 0 ≤ fd) (notSpared : ¬ spared)
    (how : Exit) : Stage spared ⟨fd, .returned how⟩ :=
  ⟨fun neg => absurd neg (Int.not_lt.mpr nonneg), fun h => absurd h notSpared⟩

theorem stage_receiveAt {spared : Prop} {fd : Int} {pc : Pc} (nonneg : 0 ≤ fd)
    (h : Stage spared ⟨fd, pc⟩) : Stage spared ⟨fd, receiveAt fd pc⟩ := by
  unfold receiveAt requireFd
  rw [if_neg (Int.not_lt.mpr nonneg)]
  exact h

theorem stage_afterSend {spared : Prop} {fd : Int} (nonneg : 0 ≤ fd) (notSpared : ¬ spared)
    (l : SendLoop) : Stage spared ⟨fd, afterSend fd l⟩ := by
  cases l with
  | sending s => exact ⟨nonneg, notSpared⟩
  | returned => exact stage_receiveAt nonneg ⟨nonneg, notSpared⟩
  | threw what => exact stage_returned nonneg notSpared _

theorem stage_afterReceive {spared : Prop} {fd : Int} (nonneg : 0 ≤ fd) (notSpared : ¬ spared)
    (result : Except String Bytes) : Stage spared ⟨fd, afterReceive result⟩ := by
  cases result with
  | ok text => exact ⟨nonneg, notSpared⟩
  | error what => exact stage_returned nonneg notSpared _

/-- A call on a descriptor spares nothing. -/
theorem not_spares {c : Call} {fd : Int} (r : Ret) (on : c.fd? = some fd) :
    ¬ Spares (c, r) := by
  rintro (⟨n, _, h⟩ | h)
  · cases h
    cases on
  · cases h
    cases on

theorem not_spares_inetPton (r : Ret) : ¬ Spares (.inetPton, r) := by
  rintro (⟨n, _, h⟩ | h) <;> cases h

theorem stage_connecting {spared : Prop} {fd : Int} {c : Connect} {n : Int}
    (stage : Stage spared ⟨fd, .connecting c⟩) :
    Stage (spared ∨ Spares (c.pending fd, .int n)) (Run.resume ⟨fd, .connecting c⟩ (.int n)) := by
  cases c with
  | socket =>
      have notSpared : ¬ spared := stage.2
      rw [Run.resume_socket]
      split
      · rename_i neg
        exact ⟨fun _ => .inr (.inl ⟨n, neg, rfl⟩), fun _ => neg⟩
      · rename_i nonneg
        refine ⟨Int.not_lt.mp nonneg, ?_⟩
        rintro (h | ⟨m, neg, h⟩ | h)
        · exact notSpared h
        · cases h
          exact nonneg neg
        · cases h
  | inetPton =>
      obtain ⟨nonneg, notSpared⟩ := stage
      have notSpared := not_or.mpr ⟨notSpared, not_spares_inetPton (.int n)⟩
      rw [Run.resume_inetPton]
      split
      · exact stage_returned nonneg notSpared _
      · exact ⟨nonneg, notSpared⟩
  | connect =>
      obtain ⟨nonneg, notSpared⟩ := stage
      have notSpared := not_or.mpr ⟨notSpared, not_spares (c := .connect fd) (.int n) rfl⟩
      rw [Run.resume_connect]
      split
      · exact stage_receiveAt nonneg ⟨nonneg, notSpared⟩
      · exact stage_returned nonneg notSpared _

/-- Only the end of the input spares `run()` a leak. -/
theorem stage_getline {spared : Prop} {fd : Int} {r : Ret} (nonneg : 0 ≤ fd)
    (notSpared : ¬ spared) (answer : allowed .getline r = true) :
    Stage (spared ∨ Spares (.getline, r)) (Run.resume ⟨fd, .getline⟩ r) := by
  cases r with
  | int n => simp [allowed] at answer
  | data bytes => simp [allowed] at answer
  | line msg =>
      cases msg with
      | none =>
          show Stage _ ⟨fd, enterClose fd⟩
          unfold enterClose
          rw [if_pos nonneg]
          exact ⟨nonneg, .inr (.inr rfl)⟩
      | some msg =>
          refine stage_afterSend nonneg ?_ (TCPClient.send fd (msg ++ [newline]))
          rintro (h | ⟨m, _, h⟩ | h)
          · exact notSpared h
          · cases h
          · cases h

/-- Step lemma. -/
theorem stage_step {spared : Prop} {s s' : Run} {e : Event} (stage : Stage spared s)
    (hstep : program.step s e = some s') : Stage (spared ∨ Spares e) s' := by
  obtain ⟨fd, pc⟩ := s
  obtain ⟨call, r⟩ := e
  obtain ⟨pending, answer, rfl⟩ := Process.step_eq_some.mp hstep
  cases pc with
  | connecting c =>
      injection pending with pending
      subst pending
      obtain ⟨n, rfl⟩ : ∃ n, r = .int n := by
        cases c <;> exact exists_int_of_allowed answer rfl
      exact stage_connecting stage
  | greeting | receiving =>
      obtain ⟨nonneg, notSpared⟩ := stage
      injection pending with pending
      subst pending
      have notSpared := not_or.mpr ⟨notSpared, not_spares (c := .recv fd recvRoom) r rfl⟩
      exact stage_afterReceive nonneg notSpared (received r)
  | getline =>
      obtain ⟨nonneg, notSpared⟩ := stage
      injection pending with pending
      subst pending
      exact stage_getline nonneg notSpared answer
  | sending l =>
      obtain ⟨nonneg, notSpared⟩ := stage
      injection pending with pending
      subst pending
      obtain ⟨sent, rfl⟩ := exists_int_of_allowed answer rfl
      have notSpared := not_or.mpr ⟨notSpared, not_spares (c := l.call fd) (.int sent) rfl⟩
      exact stage_afterSend nonneg notSpared (l.resume sent)
  | closing =>
      obtain ⟨nonneg, spared⟩ := stage
      injection pending with pending
      subst pending
      obtain ⟨n, rfl⟩ := exists_int_of_allowed answer rfl
      exact ⟨fun _ => .inl spared, fun _ => show (-1 : Int) < 0 by decide⟩
  | returned how => cases pending

/-- Run lemma. -/
theorem stage_run {tr : List Event} {s : Run} (run : program.run tr = some s) :
    Stage (∃ e ∈ tr, Spares e) s := by
  refine System.run_invariant (I := fun tr s => Stage (∃ e ∈ tr, Spares e) s) ?_ ?_ run
  · exact ⟨by decide, by simp⟩
  · intro tr s e s' _ stage hstep
    have split : (∃ x ∈ tr ++ [e], Spares x) ↔ (∃ x ∈ tr, Spares x) ∨ Spares e := by
      simp [or_and_right, exists_or]
    rw [split]
    exact stage_step stage hstep

/-- **Client descriptors.** A caller that connects only without a descriptor,
and uses no object whose last `connect` failed, has one descriptor open at most
and talks on established connections only. `run()` is such a caller; once it
has returned nothing is open if and only if `socket` failed or the run got to
the end of the input. -/
theorem client_descriptors (htr : List TCPClient.Label) (t : TCPClient) (tr : List Event)
    (s : Run) :
    ((histories.restrict Meets).run htr = some t →
      (∃ o, Ledger.replay (ledger (events htr)) = some o ∧ o.length ≤ 1) ∧
      (∀ fd buf, t.pc.pending t.clientFd = some (.send fd buf) →
        fd ∈ established (events htr)) ∧
      ∀ fd len, t.pc.pending t.clientFd = some (.recv fd len) →
        fd ∈ established (events htr)) ∧
    (program.run tr = some s →
      (∃ ltr t, (histories.restrict Meets).run ltr = some t ∧
        ledger (events ltr) = ledger tr ∧ Refines s t) ∧
      ∀ how, s.pc = .returned how →
        (Ledger.replay (ledger tr) = some [] ↔ ∃ e ∈ tr, Spares e)) := by
  refine ⟨fun run => one_descriptor run, fun run => ⟨exists_history run, ?_⟩⟩
  intro how returned
  obtain ⟨ltr, t, ran, book, refines⟩ := exists_history run
  obtain ⟨fd, pc⟩ := s
  obtain rfl : pc = .returned how := returned
  have stage : fd < 0 ↔ ∃ e ∈ tr, Spares e := stage_run run
  rw [← book, (sound_run ran).book, refines.clientFd, ← stage, Option.some.injEq]
  unfold held
  constructor
  · intro none
    by_contra nonneg
    rw [if_neg nonneg] at none
    cases none
  · exact fun neg => if_pos neg

/-- A run to the end of the input, over one line. -/
def sampleRun : List Event :=
  [(.socket, .int 3), (.inetPton, .int 1), (.connect 3, .int 0),
    (.recv 3 1024, .data (ascii "hello")), (.getline, .line (some (ascii "a"))),
    (.send 3 (ascii "a\n"), .int 2), (.recv 3 1024, .data (ascii "a\n")),
    (.getline, .line none), (.close 3, .int 0)]

theorem client_descriptors_sample : Ledger.replay (ledger sampleRun) = some [] := by
  have run : program.run sampleRun = some ⟨-1, .returned .finished⟩ := by decide
  have returned := ((client_descriptors [] histories.init _ _).2 run).2 .finished rfl
  exact returned.mpr ⟨(.getline, .line none), by decide, .inr rfl⟩

/-- `connect` is refused. -/
def refused : List Event := [(.socket, .int 3), (.inetPton, .int 1), (.connect 3, .int (-1))]

/-- A `connect()` that is refused, and what the caller does next. -/
def refusedThen (ls : List TCPClient.Label) : List TCPClient.Label :=
  .call .connect :: (refused.map .sys ++ ls)

/-- A refused `connect` leaves its descriptor: `run()` returns with it open, a
`receive` reads from it, and the next `connect` makes it two. -/
theorem not_client_descriptors :
    (program.run refused = some ⟨3, .returned .connectFailed⟩ ∧
      Ledger.replay (ledger refused) = some [3]) ∧
    (histories.run (refusedThen [.call .receive]) = some ⟨3, .receiving, false⟩ ∧
      3 ∉ established (events (refusedThen [.call .receive]))) ∧
    ∃ t, histories.run (refusedThen [.call .connect, .sys (.socket, .int 4)]) = some t ∧
      Ledger.replay (ledger (events (refusedThen [.call .connect, .sys (.socket, .int 4)]))) =
        some [4, 3] :=
  ⟨by decide, by decide, ⟨4, .connecting .inetPton, false⟩, by decide, by decide⟩

end CppLab.Socket.SimpleTCPClient
