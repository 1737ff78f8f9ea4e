import CppLab.Socket.Lockstep
import CppLab.Socket.SendDeadlock

/-!
# Progress over one connection

What the two parties owe each other comes back byte by byte, whatever the order
of their calls and the sizes of the buffers. No party waits in `recv` for ever:
the parties come to a halt only where each of them has returned or is in `send`
before a full buffer. And they do come to a halt: a run is as long as its input
allows.
-/

namespace CppLab.Socket.Link

open CppLab.Posix CppLab.Socket.TCPServer

variable {port : UInt16} {cfd sfd : Nat} {upCap downCap : Option Nat} {s s' : Link}

/-! ## Every byte comes back -/

/-- The bytes a step hands to `receive()`. -/
def receivedBy : Label → Bytes
  | .client e => taken e
  | .server _ => []

/-- The bytes of the line a step reads, with the newline `run()` appends. -/
def enteredBy : Label → Bytes
  | .client e => entered e
  | .server _ => []

/-- One step: what is outstanding loses what is received and gains what is read. -/
theorem outstanding_step {l : Label} (attached : Attached cfd s.client)
    (h : (link port cfd sfd upCap downCap).step s l = some s') :
    receivedBy l ++ outstanding s' = outstanding s ++ enteredBy l := by
  cases l with
  | client e => exact outstanding_client attached h
  | server e =>
      obtain ⟨-, same⟩ := outstanding_server h
      show [] ++ outstanding s' = outstanding s ++ []
      rw [same, List.nil_append, List.append_nil]

theorem attached_step {l : Label} (attached : Attached cfd s.client)
    (h : (link port cfd sfd upCap downCap).step s l = some s') : Attached cfd s'.client := by
  cases l with
  | client e => exact (step_client attached h).2.1
  | server e =>
      obtain ⟨-, client, -⟩ := step_server h
      rw [client]
      exact attached

/-- The connection starts with the welcome in the server's hand. -/
theorem outstanding_init (port : UInt16) (cfd sfd : Nat) (upCap downCap : Option Nat) :
    outstanding (link port cfd sfd upCap downCap).init = welcome port := by
  obtain ⟨l, entry, -, hrest⟩ := sendFrom_zero_of_ne_nil (welcome_ne_nil port)
  have writing : (handleClient port sfd).init = .welcome l := by
    show afterWelcome (sendFrom (welcome port) 0) = .welcome l
    rw [entry]
    rfl
  show [] ++ hold (handleClient port sfd).init ++ [] ++ [] = welcome port
  rw [writing, List.append_nil, List.append_nil, List.nil_append]
  exact hrest

/-- **Conservation.** In every interleaving, over buffers of any sizes, what the
client has received and what is outstanding are together the welcome and the
lines read so far: no byte is lost, repeated or moved. -/
theorem bytes_conserved {tr : List Label}
    (run : (link port cfd sfd upCap downCap).run tr = some s) :
    tr.flatMap receivedBy ++ outstanding s = welcome port ++ tr.flatMap enteredBy := by
  suffices inv : Attached cfd s.client ∧
      tr.flatMap receivedBy ++ outstanding s = welcome port ++ tr.flatMap enteredBy from inv.2
  refine System.run_invariant (T := link port cfd sfd upCap downCap)
    (I := fun tr s => Attached cfd s.client ∧
      tr.flatMap receivedBy ++ outstanding s = welcome port ++ tr.flatMap enteredBy) ?_ ?_ run
  · refine ⟨.inl ⟨rfl, trivial⟩, ?_⟩
    rw [outstanding_init, List.flatMap_nil, List.flatMap_nil, List.append_nil, List.nil_append]
  · intro tr s l s' _ inv h
    obtain ⟨attached, whole⟩ := inv
    refine ⟨attached_step attached h, ?_⟩
    calc (tr ++ [l]).flatMap receivedBy ++ outstanding s'
        = tr.flatMap receivedBy ++ (receivedBy l ++ outstanding s') := by simp
      _ = tr.flatMap receivedBy ++ outstanding s ++ enteredBy l := by
          rw [outstanding_step attached h, List.append_assoc]
      _ = welcome port ++ (tr ++ [l]).flatMap enteredBy := by rw [whole]; simp

/-- In a run that ends before the echo, the line is still to come. -/
theorem bytes_conserved_sample :
    ∃ s, (link 80 3 4 none none).run (sampleLockstep.take 5) = some s ∧
      (sampleLockstep.take 5).flatMap receivedBy ++ outstanding s = welcome 80 ++ ascii "a\n" := by
  have complete : ((link 80 3 4 none none).run (sampleLockstep.take 5)).isSome = true := by decide
  obtain ⟨s, run⟩ := Option.isSome_iff_exists.mp complete
  exact ⟨s, run, bytes_conserved run⟩

/-! ## No party waits for ever -/

/-- The client has returned, or is in `send` before a full buffer. -/
def ClientHalted (upCap : Option Nat) (s : Link) : Prop :=
  (∃ how, s.client.pc = .returned how) ∨
    (∃ l, s.client.pc = .sending l) ∧ ¬ Fits upCap (s.up.length + 1)

/-- The session has returned, or is in `sendAll` before a full buffer. -/
def ServerHalted (downCap : Option Nat) (s : Link) : Prop :=
  (∃ why, s.server = .returned why) ∨
    (∃ l, s.server = .welcome l ∨ s.server = .echo l) ∧ ¬ Fits downCap (s.down.length + 1)

/-- What makes waiting in `recv` safe: a client that awaits something has it coming,
and one that has given up has seen the server close. -/
structure Sane (cfd : Nat) (s : Link) : Prop where
  attached : Attached cfd s.client
  coming : Awaits s.client.pc → outstanding s ≠ []
  returned : ∀ how, s.client.pc = .returned how → how = .finished ∨ s.serverEnded = true
  unbroken : ∀ what, s.server ≠ .threw what

theorem transfer_ended {cap : Option Nat} {ended : Bool} {out inn : Bytes} {fd r : Int}
    {len : Nat} {next : Bytes × Bytes}
    (h : transfer cap ended out inn (.recv fd len, .int r) = some next) : ended = true := by
  simp only [transfer, Option.ite_none_right_eq_some] at h
  exact h.1.2.2

theorem sane_init (port : UInt16) (cfd sfd : Nat) (upCap downCap : Option Nat) :
    Sane cfd (link port cfd sfd upCap downCap).init where
  attached := .inl ⟨rfl, trivial⟩
  coming := by
    intro _
    rw [outstanding_init]
    exact welcome_ne_nil port
  returned := nofun
  unbroken := by
    intro what
    obtain ⟨l, entry, -⟩ := sendFrom_zero_of_ne_nil (welcome_ne_nil port)
    show afterWelcome (sendFrom (welcome port) 0) ≠ .threw what
    rw [entry]
    nofun

/-- Step lemma, for the server. -/
theorem sane_server {e : Event} (sane : Sane cfd s)
    (h : (link port cfd sfd upCap downCap).step s (.server e) = some s') : Sane cfd s' := by
  obtain ⟨client, same⟩ := outstanding_server h
  obtain ⟨move, -, htransfer⟩ := step_server h
  constructor
  · exact attached_step sane.attached h
  · rw [client, same]
    exact sane.coming
  · intro how here
    rw [client] at here
    rcases sane.returned how here with finished | ended
    · exact .inl finished
    · -- a session that has returned makes no further move
      obtain ⟨why, gone⟩ : ∃ why, s.server = .returned why := by
        unfold serverEnded at ended
        split at ended
        · exact ⟨_, by assumption⟩
        · exact Bool.noConfusion ended
      rw [gone] at move
      cases move
  · intro what here
    rw [here] at move
    generalize s.server = pc at move
    cases move with
    | welcomeFail neg =>
        obtain ⟨pos, -⟩ := transfer_send htransfer
        omega
    | recvFail neg =>
        obtain ⟨zero, -⟩ := transfer_end htransfer
        omega
    | echoFail neg =>
        obtain ⟨pos, -⟩ := transfer_send htransfer
        omega

/-- Step lemma, for the client. -/
theorem sane_client {e : Event} (sane : Sane cfd s)
    (h : (link port cfd sfd upCap downCap).step s (.client e) = some s') : Sane cfd s' := by
  have flow := outstanding_client sane.attached h
  obtain ⟨move, attached', server, htransfer⟩ := step_client sane.attached h
  have stays : s'.serverEnded = s.serverEnded := by
    unfold serverEnded
    rw [server]
  have unbroken : ∀ what, s'.server ≠ .threw what := by
    rw [server]
    exact sane.unbroken
  -- a `send` leaves outstanding what it moves
  have same : taken e = [] → entered e = [] → outstanding s' = outstanding s := by
    intro nothing nothing'
    rw [nothing, nothing', List.append_nil] at flow
    exact flow
  have coming := sane.coming
  suffices there : (Awaits s'.client.pc → outstanding s' ≠ []) ∧
      ∀ how, s'.client.pc = .returned how → how = .finished ∨ s'.serverEnded = true from
    ⟨attached', there.1, there.2, unbroken⟩
  rw [stays]
  generalize s.client.pc = pc at move coming
  generalize s'.client.pc = pc' at move
  cases move with
  | greet => exact ⟨nofun, nofun⟩
  | greetEnd => exact ⟨nofun, fun _ _ => .inr (transfer_ended htransfer)⟩
  | @line msg l hrest =>
      refine ⟨fun _ => ?_, nofun⟩
      have flow : outstanding s' = outstanding s ++ (msg ++ [newline]) := flow
      rw [flow]
      simp
  | inputEnd => exact ⟨nofun, nofun⟩
  | sendFail neg =>
      obtain ⟨pos, -⟩ := transfer_send htransfer
      omega
  | sendMore _ hrest =>
      refine ⟨fun _ => ?_, nofun⟩
      rw [same rfl rfl]
      exact coming trivial
  | sendDone _ hrest =>
      refine ⟨fun _ => ?_, nofun⟩
      rw [same rfl rfl]
      exact coming trivial
  | response => exact ⟨nofun, nofun⟩
  | responseEnd => exact ⟨nofun, fun _ _ => .inr (transfer_ended htransfer)⟩
  | close =>
      refine ⟨nofun, fun how here => .inl ?_⟩
      injection here with here
      exact here.symm

theorem sane_step {l : Label} (sane : Sane cfd s)
    (h : (link port cfd sfd upCap downCap).step s l = some s') : Sane cfd s' := by
  cases l with
  | client e => exact sane_client sane h
  | server e => exact sane_server sane h

/-- Run lemma. -/
theorem sane_run {tr : List Label} (run : (link port cfd sfd upCap downCap).run tr = some s) :
    Sane cfd s :=
  System.state_invariant (T := link port cfd sfd upCap downCap)
    (sane_init port cfd sfd upCap downCap) (fun _ _ _ => sane_step) run

/-! ### Which calls can complete -/

theorem exists_client {call : Call} {r : Ret} {next : Bytes × Bytes}
    (pending : s.client.pending = some call) (answer : allowed call r = true)
    (room : transfer upCap s.serverEnded s.up s.down (call, r) = some next) :
    ∃ l s', (link port cfd sfd upCap downCap).step s l = some s' := by
  have step : SimpleTCPClient.program.step s.client (call, r) = some (s.client.resume r) :=
    Process.step_eq_some.mpr ⟨pending, answer, rfl⟩
  refine ⟨.client (call, r), ⟨s.client.resume r, s.server, next.1, next.2⟩, ?_⟩
  show (transfer upCap s.serverEnded s.up s.down (call, r)).bind _ = _
  rw [room, Option.bind_some, step]
  rfl

theorem exists_server {call : Call} {r : Ret} {next : Bytes × Bytes}
    (pending : s.server.pending sfd = some call) (answer : allowed call r = true)
    (room : transfer downCap s.clientEnded s.down s.up (call, r) = some next) :
    ∃ l s', (link port cfd sfd upCap downCap).step s l = some s' := by
  have step : (session port sfd).step s.server (call, r) = some (s.server.resume r) :=
    Process.step_eq_some.mpr ⟨pending, answer, rfl⟩
  refine ⟨.server (call, r), ⟨s.client, s.server.resume r, next.2, next.1⟩, ?_⟩
  show (transfer downCap s.clientEnded s.down s.up (call, r)).bind _ = _
  rw [room, Option.bind_some, step]
  rfl

/-- With room for a byte a `send` can complete. -/
theorem transfer_one {cap : Option Nat} {out : Bytes} (ended : Bool) (inn : Bytes) (fd : Int)
    (l : Sending) (room : Fits cap (out.length + 1)) :
    allowed (l.call fd) (.int 1) = true ∧
      transfer cap ended out inn (l.call fd, .int 1) = some (out ++ l.rest.take 1, inn) := by
  have pos := l.rest_length_pos
  constructor
  · show decide ((1 : Int) ≤ l.rest.length) = true
    exact decide_eq_true (by omega)
  · exact if_pos ⟨by omega, room⟩

/-- With a byte there, or the writer gone, a `recv` can complete. -/
theorem transfer_recv {ended : Bool} {inn : Bytes} (cap : Option Nat) (out : Bytes) (fd : Int)
    {len : Nat} (space : 0 < len) (ready : inn ≠ [] ∨ ended = true) :
    ∃ r next, allowed (.recv fd len) r = true ∧
      transfer cap ended out inn (.recv fd len, r) = some next := by
  cases inn with
  | nil =>
      have gone : ended = true := ready.resolve_left fun h => h rfl
      exact ⟨.int 0, (out, []), rfl, if_pos ⟨rfl, rfl, gone⟩⟩
  | cons b rest =>
      refine ⟨.data [b], (out, rest), ?_, ?_⟩
      · show (decide (0 < 1) && decide (1 ≤ len)) = true
        rw [decide_eq_true Nat.zero_lt_one, decide_eq_true (by omega : 1 ≤ len)]
        rfl
      · exact if_pos ⟨rest, rfl⟩

/-- A server that is neither waiting for bytes nor halted can go on. -/
theorem exists_server_step (sane : Sane cfd s)
    (waiting : s.server = .recv → s.up ≠ [] ∨ s.clientEnded = true)
    (running : ¬ ServerHalted downCap s) :
    ∃ l s', (link port cfd sfd upCap downCap).step s l = some s' := by
  -- `send` has room, since the session has not halted
  have room : (∃ l, s.server = .welcome l ∨ s.server = .echo l) →
      Fits downCap (s.down.length + 1) := by
    intro writing
    by_contra full
    exact running (.inr ⟨writing, full⟩)
  cases here : s.server with
  | welcome l =>
      obtain ⟨answer, htransfer⟩ :=
        transfer_one s.clientEnded s.up sfd l (room ⟨l, .inl here⟩)
      exact exists_server (by rw [here]; rfl) answer htransfer
  | recv =>
      obtain ⟨r, next, answer, htransfer⟩ := transfer_recv downCap s.down sfd
        (by decide : 0 < recvRoom) (waiting here)
      exact exists_server (by rw [here]; rfl) answer htransfer
  | echo l =>
      obtain ⟨answer, htransfer⟩ :=
        transfer_one s.clientEnded s.up sfd l (room ⟨l, .inr here⟩)
      exact exists_server (by rw [here]; rfl) answer htransfer
  | close why => exact exists_server (r := .int 0) (by rw [here]; rfl) rfl rfl
  | returned why => exact absurd (.inl ⟨why, here⟩) running
  | threw what => exact absurd here (sane.unbroken what)

/-- A client that waits in `recv` can go on, or the server can. -/
theorem exists_awaiting_step (sane : Sane cfd s) (downRoom : Fits downCap 1)
    (pending : s.client.pending = some (.recv cfd 1024)) (awaits : Awaits s.client.pc)
    (written : unsent s.client.pc = []) :
    ∃ l s', (link port cfd sfd upCap downCap).step s l = some s' := by
  by_cases ready : s.down ≠ [] ∨ s.serverEnded = true
  · obtain ⟨r, next, answer, htransfer⟩ := transfer_recv upCap s.up cfd
      (by decide : 0 < 1024) ready
    exact exists_client pending answer htransfer
  · rw [not_or, not_not] at ready
    obtain ⟨empty, live⟩ := ready
    have coming := sane.coming awaits
    unfold outstanding at coming
    rw [empty, written, List.nil_append, List.append_nil] at coming
    refine exists_server_step sane ?_ ?_
    · -- the server holds nothing in `recv`, so what is coming lies in `up`
      intro here
      rw [here] at coming
      exact .inl coming
    · rintro (⟨why, here⟩ | ⟨-, full⟩)
      · unfold serverEnded at live
        rw [here] at live
        exact live rfl
      · rw [empty] at full
        exact full downRoom

/-- A client that has not halted can go on, or the server can. -/
theorem exists_client_step (sane : Sane cfd s) (downRoom : Fits downCap 1)
    (running : ¬ ClientHalted upCap s) :
    ∃ l s', (link port cfd sfd upCap downCap).step s l = some s' := by
  have same : s.client.clientFd = cfd := by
    rcases sane.attached with ⟨same, -⟩ | done
    · exact same
    · exact absurd (.inl ⟨_, done⟩) running
  -- the call `run()` is blocked in, by its control point
  have pending : ∀ pc, s.client.pc = pc →
      s.client.pending = SimpleTCPClient.Run.pending ⟨cfd, pc⟩ := by
    rintro pc rfl
    rw [← same]
  cases here : s.client.pc with
  | connecting c =>
      rcases sane.attached with ⟨-, past⟩ | done
      · rw [here] at past
        exact past.elim
      · rw [here] at done
        cases done
  | greeting =>
      have awaits : Awaits s.client.pc := by rw [here]; trivial
      exact exists_awaiting_step sane downRoom (pending _ here) awaits (by rw [here]; rfl)
  | getline => exact exists_client (r := .line none) (pending _ here) rfl rfl
  | sending l =>
      have room : Fits upCap (s.up.length + 1) := by
        by_contra full
        exact running (.inr ⟨⟨l, here⟩, full⟩)
      obtain ⟨answer, htransfer⟩ :=
        transfer_one s.serverEnded s.down cfd l room
      exact exists_client (pending _ here) answer htransfer
  | receiving =>
      have awaits : Awaits s.client.pc := by rw [here]; trivial
      exact exists_awaiting_step sane downRoom (pending _ here) awaits (by rw [here]; rfl)
  | closing => exact exists_client (r := .int 0) (pending _ here) rfl rfl
  | returned how => exact absurd (.inl ⟨how, here⟩) running

theorem Fits.mono {cap : Option Nat} {m n : Nat} (fits : Fits cap n) (le : m ≤ n) : Fits cap m :=
  fun c bound => Nat.le_trans le (fits c bound)

/-- The calls a client makes at most after its last line, apart from those that move bytes. -/
def clientLeft : SimpleTCPClient.Pc → Nat
  | .closing => 1
  | .returned _ => 0
  | _ => 2

/-- The same for the session. -/
def serverLeft : HandleClient → Nat
  | .close _ => 1
  | .returned _ | .threw _ => 0
  | _ => 2

/-- The calls that can still complete without a further line: a byte in the hand of the
client is moved four times at most, by `send`, `recv`, `send` and `recv`. -/
def potential (s : Link) : Nat :=
  4 * (unsent s.client.pc).length + 3 * s.up.length + 2 * (hold s.server).length +
    s.down.length + clientLeft s.client.pc + serverLeft s.server

/-- What reading a line adds: the call itself, and four for each byte. -/
def lineCost (l : Label) : Nat :=
  match line? l with
  | some msg => 4 * (msg.length + 1) + 1
  | none => 0

/-- A completed `send` moves one byte or more. -/
theorem moved_of_send {cap : Option Nat} {ended : Bool} {out inn out' inn' held : Bytes} {fd : Int}
    {l : Sending} {sent : Int}
    (h : transfer cap ended out inn (l.call fd, .int sent) = some (out', inn'))
    (split : l.rest.take sent.toNat ++ held = l.rest) :
    ∃ k, 0 < k ∧ out'.length = out.length + k ∧ l.rest.length = held.length + k ∧ inn' = inn := by
  obtain ⟨pos, -, hout, hinn⟩ := transfer_send h
  refine ⟨(l.rest.take sent.toNat).length, ?_, ?_, ?_, hinn⟩
  · exact List.length_pos_iff.mpr (l.take_rest_ne_nil pos)
  · rw [hout, List.length_append]
  · have lengths := congrArg List.length split
    rw [List.length_append] at lengths
    omega

/-- A completed `recv` of the client takes one byte or more. -/
theorem moved_of_recv {fd : Int} {len : Nat} {chunk : Bytes}
    (h : (link port cfd sfd upCap downCap).step s (.client (.recv fd len, .data chunk)) =
      some s') : s.down.length = chunk.length + s'.down.length ∧ s'.up = s.up ∧
        0 < chunk.length := by
  obtain ⟨⟨up, down⟩, htransfer, h⟩ := Option.bind_eq_some_iff.mp h
  obtain ⟨client, hclient, rfl⟩ := Option.map_eq_some_iff.mp h
  obtain ⟨-, answer, -⟩ := Process.step_eq_some.mp hclient
  obtain ⟨hup, hdown⟩ := transfer_data htransfer
  refine ⟨?_, hup, ?_⟩
  · rw [hdown, List.length_append]
  · simp only [allowed, Bool.and_eq_true, decide_eq_true_eq] at answer
    exact answer.1

/-- Step lemma, for the client. -/
theorem potential_client {e : Event} (attached : Attached cfd s.client)
    (h : (link port cfd sfd upCap downCap).step s (.client e) = some s') :
    potential s' + 1 ≤ potential s + lineCost (.client e) := by
  obtain ⟨move, -, server, htransfer⟩ := step_client attached h
  unfold potential
  rw [server]
  generalize s.client.pc = pc at move
  generalize s'.client.pc = pc' at move
  cases move with
  | greet =>
      obtain ⟨hdown, hup, pos⟩ := moved_of_recv h
      simp only [clientLeft, unsent, hup]
      omega
  | greetEnd =>
      obtain ⟨-, -, hup, hdown⟩ := transfer_end htransfer
      simp only [clientLeft, unsent, hup, hdown]
      omega
  | @line msg l hrest =>
      obtain ⟨hup, hdown⟩ := transfer_getline htransfer
      have cost : lineCost (.client (.getline, .line (some msg))) = 4 * (msg.length + 1) + 1 := rfl
      simp only [clientLeft, unsent, hup, hdown, hrest, cost, List.length_append,
        List.length_singleton, List.length_nil]
      omega
  | inputEnd =>
      obtain ⟨hup, hdown⟩ := transfer_getline htransfer
      simp only [clientLeft, unsent, hup, hdown]
      omega
  | sendFail neg =>
      obtain ⟨pos, -⟩ := transfer_send htransfer
      omega
  | sendMore _ hrest =>
      obtain ⟨k, pos, hup, hheld, hdown⟩ := moved_of_send htransfer hrest
      simp only [clientLeft, unsent, hup, hdown, hheld]
      omega
  | sendDone _ hrest =>
      obtain ⟨k, pos, hup, hheld, hdown⟩ :=
        moved_of_send htransfer ((List.append_nil _).trans hrest)
      simp only [clientLeft, unsent, hup, hdown, hheld, List.length_nil]
      omega
  | response =>
      obtain ⟨hdown, hup, pos⟩ := moved_of_recv h
      simp only [clientLeft, unsent, hup]
      omega
  | responseEnd =>
      obtain ⟨-, -, hup, hdown⟩ := transfer_end htransfer
      simp only [clientLeft, unsent, hup, hdown]
      omega
  | close =>
      obtain ⟨hup, hdown⟩ := transfer_close htransfer
      simp only [clientLeft, unsent, hup, hdown]
      omega

/-- Step lemma, for the server. -/
theorem potential_server {e : Event}
    (h : (link port cfd sfd upCap downCap).step s (.server e) = some s') :
    potential s' + 1 ≤ potential s := by
  obtain ⟨move, client, htransfer⟩ := step_server h
  unfold potential
  rw [client]
  generalize s.server = pc at move
  generalize s'.server = pc' at move
  -- the last `send` of a loop leaves nothing in hand
  have last : ∀ {l : Sending} {sent : Int}, l.rest.take sent.toNat = l.rest →
      l.rest.take sent.toNat ++ [] = l.rest := by
    intro l sent all
    rw [all, List.append_nil]
  cases move with
  | welcomeFail neg =>
      obtain ⟨pos, -⟩ := transfer_send htransfer
      omega
  | welcomeMore _ hrest =>
      obtain ⟨k, pos, hdown, hheld, hup⟩ := moved_of_send htransfer hrest
      simp only [serverLeft, hold, hup, hdown, hheld]
      omega
  | welcomeDone _ hrest =>
      obtain ⟨k, pos, hdown, hheld, hup⟩ := moved_of_send htransfer (last hrest)
      simp only [serverLeft, hold, hup, hdown, hheld, List.length_nil]
      omega
  | eof =>
      obtain ⟨-, -, hdown, hup⟩ := transfer_end htransfer
      simp only [serverLeft, hold, hup, hdown]
      omega
  | recvFail neg =>
      obtain ⟨zero, -⟩ := transfer_end htransfer
      omega
  | @recvData l _ hrest =>
      obtain ⟨hdown, hup⟩ := transfer_data htransfer
      have pos := l.rest_length_pos
      simp only [serverLeft, hold, hdown, hup, hrest, List.length_append,
        List.length_nil] at pos ⊢
      omega
  | echoFail neg =>
      obtain ⟨pos, -⟩ := transfer_send htransfer
      omega
  | echoMore _ _ hrest =>
      obtain ⟨k, pos, hdown, hheld, hup⟩ := moved_of_send htransfer hrest
      simp only [serverLeft, hold, hup, hdown, hheld]
      omega
  | echoQuit _ hrest _ =>
      obtain ⟨k, pos, hdown, hheld, hup⟩ := moved_of_send htransfer (last hrest)
      simp only [serverLeft, hold, hup, hdown, hheld, List.length_nil]
      omega
  | echoNext _ hrest _ =>
      obtain ⟨k, pos, hdown, hheld, hup⟩ := moved_of_send htransfer (last hrest)
      simp only [serverLeft, hold, hup, hdown, hheld, List.length_nil]
      omega
  | close =>
      obtain ⟨hdown, hup⟩ := transfer_close htransfer
      simp only [serverLeft, hold, hup, hdown]
      omega

theorem potential_step {l : Label} (attached : Attached cfd s.client)
    (h : (link port cfd sfd upCap downCap).step s l = some s') :
    potential s' + 1 ≤ potential s + lineCost l := by
  cases l with
  | client e => exact potential_client attached h
  | server e => exact potential_server h

/-- What there is to move at first is the welcome. -/
theorem potential_init (port : UInt16) (cfd sfd : Nat) (upCap downCap : Option Nat) :
    potential (link port cfd sfd upCap downCap).init = 2 * (welcome port).length + 4 := by
  obtain ⟨l, entry, -, hrest⟩ := sendFrom_zero_of_ne_nil (welcome_ne_nil port)
  have writing : (handleClient port sfd).init = .welcome l := by
    show afterWelcome (sendFrom (welcome port) 0) = .welcome l
    rw [entry]
    rfl
  show 4 * 0 + 3 * 0 + 2 * (hold (handleClient port sfd).init).length + 0 + 2 +
    serverLeft (handleClient port sfd).init = _
  rw [writing]
  simp only [hold, serverLeft, hrest]
  omega

/-- **The parties come to a halt.** In every interleaving, over buffers of any sizes, a run
has two calls for each byte of the welcome, four for each byte of a line and its newline,
one for each line read, and four more, at most. -/
theorem calls_le {tr : List Label} (run : (link port cfd sfd upCap downCap).run tr = some s) :
    tr.length ≤ 2 * (welcome port).length + 4 +
      ((tr.filterMap line?).map fun msg => 4 * (msg.length + 1) + 1).sum := by
  have bound := System.length_add_le (T := link port cfd sfd upCap downCap)
    (I := fun s => Attached cfd s.client)
    (fun _ _ _ => attached_step) (fun _ _ _ => potential_step) run (.inl ⟨rfl, trivial⟩)
  have costs : (tr.map lineCost).sum =
      ((tr.filterMap line?).map fun msg => 4 * (msg.length + 1) + 1).sum := by
    clear run bound
    induction tr with
    | nil => rfl
    | cons l tr ih =>
        rw [List.map_cons, List.sum_cons, ih]
        unfold lineCost
        cases found : line? l with
        | none => rw [List.filterMap_cons_none found, Nat.zero_add]
        | some msg => rw [List.filterMap_cons_some found, List.map_cons, List.sum_cons]
  rw [potential_init, costs] at bound
  omega

theorem calls_le_sample : sampleLockstep.length ≤ 2 * (welcome 80).length + 4 + 9 := by
  have complete : ((link 80 3 4 none none).run sampleLockstep).isSome = true := by decide
  obtain ⟨s, run⟩ := Option.isSome_iff_exists.mp complete
  exact calls_le run

/-! ## Every response comes -/

/-- Until its `recv` completes, a client that awaits a response goes on awaiting it, and
reads no line. -/
theorem awaits_step {l : Label} (attached : Attached cfd s.client) (awaits : Awaits s.client.pc)
    (silent : answer? l = none) (h : (link port cfd sfd upCap downCap).step s l = some s') :
    Awaits s'.client.pc ∧ lineCost l = 0 := by
  cases l with
  | server e =>
      obtain ⟨-, client, -⟩ := step_server h
      rw [client]
      exact ⟨awaits, rfl⟩
  | client e =>
      obtain ⟨move, -⟩ := step_client attached h
      obtain ⟨-, -, -, htransfer⟩ := step_client attached h
      generalize s.client.pc = pc at move awaits
      generalize s'.client.pc = pc' at move
      cases move with
      | greet => cases silent
      | greetEnd => cases silent
      | line _ => exact awaits.elim
      | inputEnd => exact awaits.elim
      | sendFail neg =>
          obtain ⟨pos, -⟩ := transfer_send htransfer
          omega
      | sendMore _ _ => exact ⟨trivial, rfl⟩
      | sendDone _ _ => exact ⟨trivial, rfl⟩
      | response => cases silent
      | responseEnd => cases silent
      | close => exact awaits.elim

/-- Run lemma. -/
theorem awaits_runFrom {more : List Label}
    (later : (link port cfd sfd upCap downCap).runFrom s more = some s') (sane : Sane cfd s)
    (awaits : Awaits s.client.pc) (silent : answers more = []) :
    Sane cfd s' ∧ Awaits s'.client.pc ∧ more.length + potential s' ≤ potential s := by
  induction more generalizing s with
  | nil =>
      injection later with later
      subst later
      exact ⟨sane, awaits, Nat.le_of_eq (Nat.zero_add _)⟩
  | cons l more ih =>
      rw [System.runFrom_cons, Option.bind_eq_some_iff] at later
      obtain ⟨s₁, first, later⟩ := later
      have quiet : answer? l = none := by
        cases found : answer? l with
        | none => rfl
        | some r =>
            rw [answers, List.filterMap_cons_some found] at silent
            cases silent
      rw [answers, List.filterMap_cons_none quiet] at silent
      obtain ⟨awaits₁, free⟩ := awaits_step sane.attached awaits quiet first
      have lower := potential_step sane.attached first
      obtain ⟨sane', awaits', bound⟩ := ih later (sane_step sane first) awaits₁ silent
      refine ⟨sane', awaits', ?_⟩
      rw [List.length_cons]
      omega

/-- **Every response comes.** Over buffers that hold a byte each: from a state in which the
client awaits a response, the parties make a bounded number of calls before its `recv`
completes, in any order; and they can go on until then, unless the client is in `send`
before a full buffer and the session has returned or is in `sendAll` before another. -/
theorem response_comes (upRoom : Fits upCap 1) (downRoom : Fits downCap 1) {tr more : List Label}
    (run : (link port cfd sfd upCap downCap).run tr = some s) (awaits : Awaits s.client.pc)
    (later : (link port cfd sfd upCap downCap).runFrom s more = some s')
    (silent : answers more = []) :
    more.length ≤ potential s ∧
      ((∃ l s'', (link port cfd sfd upCap downCap).step s' l = some s'') ∨
        (∃ l, s'.client.pc = .sending l) ∧ ¬ Fits upCap (s'.up.length + 1) ∧
          ServerHalted downCap s') := by
  obtain ⟨sane, awaits', bound⟩ := awaits_runFrom later (sane_run run) awaits silent
  refine ⟨by omega, ?_⟩
  by_cases client : ClientHalted upCap s'
  · rcases client with ⟨how, returned⟩ | ⟨writing, full⟩
    · rw [returned] at awaits'
      exact awaits'.elim
    · by_cases server : ServerHalted downCap s'
      · exact .inr ⟨writing, full, server⟩
      · left
        refine exists_server_step sane (fun _ => .inl ?_) server
        intro empty
        rw [empty] at full
        exact full upRoom
  · exact .inl (exists_client_step sane downRoom client)

/-- A line and half of its echo. -/
theorem response_comes_sample : ∃ s s',
    (link 80 3 4 none none).run (sampleLockstep.take 3) = some s ∧
      (link 80 3 4 none none).runFrom s [.client (.send 3 (ascii "a\n"), .int 2)] = some s' ∧
      (1 ≤ potential s ∧ ((∃ l s'', (link 80 3 4 none none).step s' l = some s'') ∨
        (∃ l, s'.client.pc = .sending l) ∧ ¬ Fits none (s'.up.length + 1) ∧
          ServerHalted none s')) := by
  have room : Fits none 1 := by decide
  have first : (link 80 3 4 none none).run (sampleLockstep.take 3) =
      some ⟨⟨3, .sending ⟨ascii "a\n", 0, by decide⟩⟩, .recv, [], []⟩ := by decide
  have later : ((link 80 3 4 none none).runFrom
      ⟨⟨3, .sending ⟨ascii "a\n", 0, by decide⟩⟩, .recv, [], []⟩
      [.client (.send 3 (ascii "a\n"), .int 2)]).isSome = true := by decide
  obtain ⟨s', later⟩ := Option.isSome_iff_exists.mp later
  exact ⟨_, s', first, later, response_comes room room first trivial later rfl⟩

end CppLab.Socket.Link
