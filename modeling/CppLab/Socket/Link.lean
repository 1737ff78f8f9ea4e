import CppLab.Socket.HandleClient
import CppLab.Socket.SimpleTCPClient

/-!
# Client and server over one connection

`SimpleTCPClient`'s `run()`, from the point where `connect()` has succeeded,
and a session of `handleClient`, over two FIFO byte buffers. A `send` moves one
byte or more into a buffer with room, a `recv` takes one byte or more from the
front of a buffer, or sees the end once the buffer is empty and the writer has
closed; nothing fails. A capacity of `none` is a buffer without a bound.
-/

namespace CppLab.Socket.Link

open CppLab.Posix CppLab.Socket.TCPServer

/-- Room for `n` bytes in all. -/
def Fits (cap : Option Nat) (n : Nat) : Prop := ∀ c ∈ cap, n ≤ c

instance (cap : Option Nat) (n : Nat) : Decidable (Fits cap n) :=
  inferInstanceAs (Decidable (∀ c ∈ cap, n ≤ c))

/-- The two buffers, the one written and the one read by the party that
completes `e`, after the call; `none` where the call cannot complete so. -/
def transfer (cap : Option Nat) (ended : Bool) (out inn : Bytes) : Event → Option (Bytes × Bytes)
  | (.send _ buf, .int sent) =>
      if 0 < sent ∧ Fits cap (out.length + sent.toNat) then
        some (out ++ buf.take sent.toNat, inn)
      else none
  | (.recv _ _, .data chunk) =>
      if chunk <+: inn then some (out, inn.drop chunk.length) else none
  | (.recv _ _, .int r) => if r = 0 ∧ inn = [] ∧ ended = true then some (out, inn) else none
  | _ => some (out, inn)

end Link

open CppLab.Posix CppLab.Socket.TCPServer

/-- The two parties, and the bytes on their way to the server (`up`) and to the
client (`down`). -/
structure Link where
  client : SimpleTCPClient.Run
  server : HandleClient
  up : Bytes
  down : Bytes
  deriving DecidableEq

namespace Link

/-- A completed call of one of the parties. -/
inductive Label
  | client (e : Event)
  | server (e : Event)
  deriving DecidableEq, Repr

/-- The client has closed its end. -/
def clientEnded (s : Link) : Bool := s.client.pc = .returned .finished

/-- The server has closed its end. -/
def serverEnded (s : Link) : Bool :=
  match s.server with
  | .returned _ => true
  | _ => false

/-- The connection after `connect()` and `accept`, under descriptor `cfd` of
the client and `sfd` of the server. -/
def link (port : UInt16) (cfd sfd : Nat) (upCap downCap : Option Nat) : System Link Label where
  init := ⟨⟨cfd, .greeting⟩, (handleClient port sfd).init, [], []⟩
  step s
    | .client e =>
        (transfer upCap s.serverEnded s.up s.down e).bind fun (up, down) =>
          (SimpleTCPClient.program.step s.client e).map fun client => ⟨client, s.server, up, down⟩
    | .server e =>
        (transfer downCap s.clientEnded s.down s.up e).bind fun (down, up) =>
          ((session port sfd).step s.server e).map fun server => ⟨s.client, server, up, down⟩

/-! ## What the parties hold -/

/-- The bytes the server has in hand to write. -/
def hold : HandleClient → Bytes
  | .welcome s => s.rest
  | .echo s => s.rest
  | _ => []

/-- The bytes the client has in hand to write. -/
def unsent : SimpleTCPClient.Pc → Bytes
  | .sending s => s.rest
  | _ => []

/-- The moves of the client over a connection. -/
inductive ClientMove (fd : Int) : SimpleTCPClient.Pc → Event → SimpleTCPClient.Pc → Prop
  | greet {chunk} : ClientMove fd .greeting (.recv fd 1024, .data chunk) .getline
  | greetEnd {r what} : ClientMove fd .greeting (.recv fd 1024, .int r) (.returned (.error what))
  | line {msg s} : s.rest = msg ++ [newline] →
      ClientMove fd .getline (.getline, .line (some msg)) (.sending s)
  | inputEnd : ClientMove fd .getline (.getline, .line none) .closing
  | sendFail {s sent} : sent ≤ 0 →
      ClientMove fd (.sending s) (s.call fd, .int sent) (.returned (.error "send failed"))
  | sendMore {s s' sent} : 0 < sent → s.rest.take sent.toNat ++ s'.rest = s.rest →
      ClientMove fd (.sending s) (s.call fd, .int sent) (.sending s')
  | sendDone {s sent} : 0 < sent → s.rest.take sent.toNat = s.rest →
      ClientMove fd (.sending s) (s.call fd, .int sent) .receiving
  | response {chunk} : ClientMove fd .receiving (.recv fd 1024, .data chunk) .getline
  | responseEnd {r what} :
      ClientMove fd .receiving (.recv fd 1024, .int r) (.returned (.error what))
  | close {r} : ClientMove fd .closing (.close fd, .int r) (.returned .finished)

/-- Past `connect()`. -/
def Past : SimpleTCPClient.Pc → Prop
  | .connecting _ => False
  | _ => True

/-- The client is on its connection, or has closed it. -/
def Attached (fd : Nat) (c : SimpleTCPClient.Run) : Prop :=
  (c.clientFd = fd ∧ Past c.pc) ∨ c.pc = .returned .finished

/-- A line has its newline at least, so writing it waits in `send`. -/
theorem send_line (fd : Nat) (msg : Bytes) :
    ∃ s, TCPClient.send fd (msg ++ [newline]) = .sending s ∧ s.rest = msg ++ [newline] := by
  have connected : ¬ ((fd : Int) < 0) := by omega
  have ne : msg ++ [newline] ≠ [] := by simp
  obtain ⟨s, hs, _, hrest⟩ := sendFrom_zero_of_ne_nil ne
  refine ⟨s, ?_, hrest⟩
  unfold TCPClient.send TCPClient.requireFd
  rw [if_neg connected]
  exact hs

open SimpleTCPClient in
/-- The client sends the line that it has read, and closes at the end of the input. -/
theorem clientMove_getline {fd : Nat} {r : Ret} (answer : allowed .getline r = true) :
    ClientMove fd .getline (.getline, r) (Run.resume ⟨fd, .getline⟩ r).pc ∧
      Attached fd (Run.resume ⟨fd, .getline⟩ r) := by
  cases r with
  | int n => simp [allowed] at answer
  | data chunk => simp [allowed] at answer
  | line msg =>
      cases msg with
      | none =>
          have closing : enterClose fd = .closing := if_pos (by omega)
          show ClientMove fd .getline _ (enterClose fd) ∧ Attached fd ⟨fd, enterClose fd⟩
          rw [closing]
          exact ⟨.inputEnd, .inl ⟨rfl, trivial⟩⟩
      | some msg =>
          obtain ⟨s, sending, hrest⟩ := send_line fd msg
          show ClientMove fd .getline _
              (afterSend fd (TCPClient.send fd (msg ++ [newline]))) ∧
            Attached fd ⟨fd, afterSend fd (TCPClient.send fd (msg ++ [newline]))⟩
          rw [sending]
          exact ⟨.line hrest, .inl ⟨rfl, trivial⟩⟩

open SimpleTCPClient in
/-- A `send` fails, leaves something to send, or is the last of the line. -/
theorem clientMove_sending {fd : Nat} (s : Sending) (sent : Int) :
    ClientMove fd (.sending s) (s.call fd, .int sent) (afterSend fd (s.resume sent)) ∧
      Attached fd ⟨fd, afterSend fd (s.resume sent)⟩ := by
  -- a descriptor number is not negative, so no method refuses to start
  have connected : ¬ ((fd : Int) < 0) := by omega
  rcases s.resume_cases sent with ⟨hs, he⟩ | ⟨hs, hrest, he⟩ | ⟨hs, s', he, _, hrest⟩ <;>
    rw [he]
  · exact ⟨.sendFail hs, .inl ⟨rfl, trivial⟩⟩
  · have receiving : afterSend fd .returned = .receiving := by
      unfold afterSend receiveAt TCPClient.requireFd
      rw [if_neg connected]
    rw [receiving]
    exact ⟨.sendDone hs hrest, .inl ⟨rfl, trivial⟩⟩
  · exact ⟨.sendMore hs hrest, .inl ⟨rfl, trivial⟩⟩

open SimpleTCPClient in
/-- Every step of an attached client is one of its moves. -/
theorem clientMove_of_step {fd : Nat} {c c' : Run} {e : Event} (attached : Attached fd c)
    (h : program.step c e = some c') : ClientMove fd c.pc e c'.pc ∧ Attached fd c' := by
  obtain ⟨cfd, pc⟩ := c
  obtain ⟨call, r⟩ := e
  obtain ⟨pending, answer, rfl⟩ := Process.step_eq_some.mp h
  rcases attached with ⟨same, past⟩ | done
  · obtain rfl : cfd = (fd : Int) := same
    cases pc with
    | connecting k => exact past.elim
    | greeting =>
        injection pending with pending
        subst pending
        cases r with
        | int n => exact ⟨.greetEnd, .inl ⟨rfl, trivial⟩⟩
        | data chunk => exact ⟨.greet, .inl ⟨rfl, trivial⟩⟩
        | line msg => simp [allowed] at answer
    | getline =>
        injection pending with pending
        subst pending
        exact clientMove_getline answer
    | sending s =>
        injection pending with pending
        subst pending
        obtain ⟨sent, rfl, _⟩ := eq_int_of_allowed_send answer
        exact clientMove_sending s sent
    | receiving =>
        injection pending with pending
        subst pending
        cases r with
        | int n => exact ⟨.responseEnd, .inl ⟨rfl, trivial⟩⟩
        | data chunk => exact ⟨.response, .inl ⟨rfl, trivial⟩⟩
        | line msg => simp [allowed] at answer
    | closing =>
        injection pending with pending
        subst pending
        cases r with
        | int n => exact ⟨.close, .inr rfl⟩
        | data chunk => simp [allowed] at answer
        | line msg => simp [allowed] at answer
    | returned how => cases pending
  · obtain rfl : pc = .returned .finished := done
    cases pending

/-- A step of the client. -/
theorem step_client {port : UInt16} {cfd sfd : Nat} {upCap downCap : Option Nat} {s s' : Link}
    {e : Event} (attached : Attached cfd s.client)
    (h : (link port cfd sfd upCap downCap).step s (.client e) = some s') :
    ClientMove cfd s.client.pc e s'.client.pc ∧ Attached cfd s'.client ∧
      s'.server = s.server ∧ transfer upCap s.serverEnded s.up s.down e = some (s'.up, s'.down) := by
  obtain ⟨⟨up, down⟩, htransfer, h⟩ := Option.bind_eq_some_iff.mp h
  obtain ⟨client, hclient, rfl⟩ := Option.map_eq_some_iff.mp h
  obtain ⟨move, attached'⟩ := clientMove_of_step attached hclient
  exact ⟨move, attached', rfl, htransfer⟩

/-- A step of the server. -/
theorem step_server {port : UInt16} {cfd sfd : Nat} {upCap downCap : Option Nat} {s s' : Link}
    {e : Event} (h : (link port cfd sfd upCap downCap).step s (.server e) = some s') :
    Move sfd s.server e s'.server ∧ s'.client = s.client ∧
      transfer downCap s.clientEnded s.down s.up e = some (s'.down, s'.up) := by
  obtain ⟨⟨down, up⟩, htransfer, h⟩ := Option.bind_eq_some_iff.mp h
  obtain ⟨server, hserver, rfl⟩ := Option.map_eq_some_iff.mp h
  exact ⟨move_of_step hserver, rfl, htransfer⟩

/-! ## What a call does to the buffers -/

theorem transfer_send {cap : Option Nat} {ended : Bool} {out inn out' inn' buf : Bytes}
    {fd sent : Int} (h : transfer cap ended out inn (.send fd buf, .int sent) = some (out', inn')) :
    0 < sent ∧ Fits cap (out.length + sent.toNat) ∧ out' = out ++ buf.take sent.toNat ∧
      inn' = inn := by
  simp only [transfer, Option.ite_none_right_eq_some, Option.some.injEq, Prod.mk.injEq] at h
  obtain ⟨⟨pos, fits⟩, rfl, rfl⟩ := h
  exact ⟨pos, fits, rfl, rfl⟩

theorem transfer_data {cap : Option Nat} {ended : Bool} {out inn out' inn' chunk : Bytes}
    {fd : Int} {len : Nat}
    (h : transfer cap ended out inn (.recv fd len, .data chunk) = some (out', inn')) :
    out' = out ∧ inn = chunk ++ inn' := by
  simp only [transfer, Option.ite_none_right_eq_some, Option.some.injEq, Prod.mk.injEq] at h
  obtain ⟨⟨rest, rfl⟩, rfl, rfl⟩ := h
  exact ⟨rfl, by rw [List.drop_left]⟩

theorem transfer_end {cap : Option Nat} {ended : Bool} {out inn out' inn' : Bytes}
    {fd r : Int} {len : Nat}
    (h : transfer cap ended out inn (.recv fd len, .int r) = some (out', inn')) :
    r = 0 ∧ inn = [] ∧ out' = out ∧ inn' = inn := by
  simp only [transfer, Option.ite_none_right_eq_some, Option.some.injEq, Prod.mk.injEq] at h
  obtain ⟨⟨rfl, rfl, _⟩, rfl, rfl⟩ := h
  exact ⟨rfl, rfl, rfl, rfl⟩

theorem transfer_getline {cap : Option Nat} {ended : Bool} {out inn out' inn' : Bytes} {r : Ret}
    (h : transfer cap ended out inn (.getline, r) = some (out', inn')) :
    out' = out ∧ inn' = inn := by
  injection h with h
  injection h with hout hinn
  exact ⟨hout.symm, hinn.symm⟩

theorem transfer_close {cap : Option Nat} {ended : Bool} {out inn out' inn' : Bytes} {fd : Int}
    {r : Ret} (h : transfer cap ended out inn (.close fd, r) = some (out', inn')) :
    out' = out ∧ inn' = inn := by
  injection h with h
  injection h with hout hinn
  exact ⟨hout.symm, hinn.symm⟩

/-- The server copies: its buffers and what it holds are one byte string before
and after each of its moves. -/
theorem server_conserves {cap : Option Nat} {ended : Bool} {up down up' down' : Bytes} {fd : Int}
    {pc pc' : HandleClient} {e : Event} (move : Move fd pc e pc')
    (h : transfer cap ended down up e = some (down', up')) :
    down' ++ hold pc' ++ up' = down ++ hold pc ++ up := by
  -- bytes that a `send` accepts leave what is held and join the buffer behind it
  have sends : ∀ {s : Sending} {sent : Int} {held : Bytes},
      transfer cap ended down up (s.call fd, .int sent) = some (down', up') →
      s.rest.take sent.toNat ++ held = s.rest → down' ++ held ++ up' = down ++ s.rest ++ up := by
    intro s sent held h split
    obtain ⟨_, _, hdown, hup⟩ := transfer_send h
    rw [hdown, hup]
    simp only [List.append_assoc]
    rw [← List.append_assoc (List.take _ _), split]
  cases move with
  | welcomeFail neg =>
      obtain ⟨pos, _⟩ := transfer_send h
      omega
  | welcomeMore _ hrest => exact sends h hrest
  | welcomeDone _ hrest => exact sends h (by rw [hrest]; exact List.append_nil _)
  | eof =>
      obtain ⟨_, _, hdown, hup⟩ := transfer_end h
      rw [hdown, hup]
      rfl
  | recvFail neg =>
      obtain ⟨zero, _⟩ := transfer_end h
      omega
  | @recvData s _ hrest =>
      obtain ⟨hdown, hup⟩ := transfer_data h
      rw [hdown, hup]
      show down ++ s.rest ++ up' = down ++ [] ++ (s.data ++ up')
      rw [hrest, List.append_nil, List.append_assoc]
  | echoFail neg =>
      obtain ⟨pos, _⟩ := transfer_send h
      omega
  | echoMore _ _ hrest => exact sends h hrest
  | echoQuit _ hrest _ => exact sends h (by rw [hrest]; exact List.append_nil _)
  | echoNext _ hrest _ => exact sends h (by rw [hrest]; exact List.append_nil _)
  | close =>
      obtain ⟨hdown, hup⟩ := transfer_close h
      rw [hdown, hup]
      rfl

/-- The chunk a completed call takes from the buffer. -/
def taken : Event → Bytes
  | (.recv _ _, .data chunk) => chunk
  | _ => []

/-- The bytes a completed call adds to what the client has to send. -/
def entered : Event → Bytes
  | (.getline, .line (some msg)) => msg ++ [newline]
  | _ => []

/-- What the client sends goes into its buffer, what it receives comes out of
the other; `mid` is whatever lies between the two. -/
theorem client_conserves {cap : Option Nat} {ended : Bool} {up down up' down' : Bytes} {fd : Int}
    {pc pc' : SimpleTCPClient.Pc} {e : Event} (move : ClientMove fd pc e pc')
    (h : transfer cap ended up down e = some (up', down')) (mid : Bytes) :
    taken e ++ (down' ++ mid ++ up' ++ unsent pc') =
      down ++ mid ++ up ++ unsent pc ++ entered e := by
  have sends : ∀ {s : Sending} {sent : Int} {held : Bytes},
      transfer cap ended up down (s.call fd, .int sent) = some (up', down') →
      s.rest.take sent.toNat ++ held = s.rest →
      down' ++ mid ++ up' ++ held = down ++ mid ++ up ++ s.rest ++ [] := by
    intro s sent held h split
    obtain ⟨_, _, hup, hdown⟩ := transfer_send h
    rw [hdown, hup]
    simp only [List.append_assoc, List.append_nil]
    rw [split]
  have receives : ∀ {chunk : Bytes} {len : Nat},
      transfer cap ended up down (.recv fd len, .data chunk) = some (up', down') →
      chunk ++ (down' ++ mid ++ up' ++ []) = down ++ mid ++ up ++ [] ++ [] := by
    intro chunk len h
    obtain ⟨hup, hdown⟩ := transfer_data h
    rw [hup, hdown]
    simp only [List.append_assoc, List.append_nil]
  have ends : ∀ {r : Int} {len : Nat},
      transfer cap ended up down (.recv fd len, .int r) = some (up', down') →
      down' ++ mid ++ up' ++ [] = down ++ mid ++ up ++ [] ++ [] := by
    intro r len h
    obtain ⟨_, _, hup, hdown⟩ := transfer_end h
    rw [hup, hdown, List.append_nil, List.append_nil]
  cases move with
  | greet => exact receives h
  | greetEnd => exact ends h
  | @line msg s hrest =>
      obtain ⟨hup, hdown⟩ := transfer_getline h
      rw [hup, hdown]
      show down ++ mid ++ up ++ s.rest = down ++ mid ++ up ++ [] ++ (msg ++ [newline])
      rw [hrest, List.append_nil]
  | inputEnd =>
      obtain ⟨hup, hdown⟩ := transfer_getline h
      rw [hup, hdown]
      exact (List.append_nil _).symm
  | sendFail neg =>
      obtain ⟨pos, _⟩ := transfer_send h
      omega
  | sendMore _ hrest => exact sends h hrest
  | sendDone _ hrest => exact sends h (by rw [hrest]; exact List.append_nil _)
  | response => exact receives h
  | responseEnd => exact ends h
  | close =>
      obtain ⟨hup, hdown⟩ := transfer_close h
      rw [hup, hdown]
      exact (List.append_nil _).symm

end Link

end CppLab.Socket
