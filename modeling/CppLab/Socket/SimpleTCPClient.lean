import CppLab.Socket.TCPClient

/-!
# `SimpleTCPClient`

`run()` as a process: connect, one `receive()` for the greeting, then `getline`,
`send(msg + "\n")`, `receive()` until the input ends, and `client.close()`. An
exception out of any method lands in the `catch` block, which prints it and
returns.
-/

namespace CppLab.Socket.SimpleTCPClient

open CppLab.Posix CppLab.Socket.TCPClient

/-- The ways out of `run()`. -/
inductive Exit
  | connectFailed
  | finished
  | error (what : String)
  deriving DecidableEq, Repr

/-- Control points of `run()`: the call it is blocked in, or how it returned. -/
inductive Pc
  | connecting (c : Connect)
  | greeting
  | getline
  | sending (s : Sending)
  | receiving
  | closing
  | returned (how : Exit)
  deriving DecidableEq

/-- `client_fd_` of the local `TCPClient`, and where `run()` is. -/
structure Run where
  clientFd : Int
  pc : Pc
  deriving DecidableEq

/-- Entering `client.receive()`, to block at `pc`. -/
def receiveAt (clientFd : Int) (pc : Pc) : Pc :=
  match requireFd clientFd with
  | .error what => .returned (.error what)
  | .ok () => pc

/-- `if (!client.connect()) return;` and on to the greeting. -/
def afterConnect (clientFd : Int) : Except String Bool → Pc
  | .error what => .returned (.error what)
  | .ok false => .returned .connectFailed
  | .ok true => receiveAt clientFd .greeting

/-- After `client.receive()`: the head of the loop. -/
def afterReceive : Except String Bytes → Pc
  | .error what => .returned (.error what)
  | .ok _ => .getline

/-- After the loop of `client.send` has moved. -/
def afterSend (clientFd : Int) : SendLoop → Pc
  | .sending s => .sending s
  | .returned => receiveAt clientFd .receiving
  | .threw what => .returned (.error what)

/-- Entering `client.close()`. -/
def enterClose (clientFd : Int) : Pc :=
  if 0 ≤ clientFd then .closing else .returned .finished

namespace Run

/-- The call `run()` is blocked in. -/
def pending (s : Run) : Option Call :=
  match s.pc with
  | .connecting c => some (c.pending s.clientFd)
  | .greeting => some (.recv s.clientFd recvRoom)
  | .getline => some .getline
  | .sending l => some (l.call s.clientFd)
  | .receiving => some (.recv s.clientFd recvRoom)
  | .closing => some (.close s.clientFd)
  | .returned _ => none

/-- What `run()` does with the answer to that call. -/
def resume (s : Run) (r : Ret) : Run :=
  match s.pc, r with
  | .connecting c, r =>
      match c.resume s.clientFd r with
      | (fd, .inl c') => ⟨fd, .connecting c'⟩
      | (fd, .inr result) => ⟨fd, afterConnect fd result⟩
  | .greeting, r => { s with pc := afterReceive (received r) }
  | .getline, .line none => { s with pc := enterClose s.clientFd }
  | .getline, .line (some msg) =>
      { s with pc := afterSend s.clientFd (send s.clientFd (msg ++ [newline])) }
  | .sending l, .int sent => { s with pc := afterSend s.clientFd (l.resume sent) }
  | .receiving, r => { s with pc := afterReceive (received r) }
  | .closing, .int _ => ⟨-1, .returned .finished⟩
  | _, _ => s

theorem resume_socket (clientFd fd : Int) :
    resume ⟨clientFd, .connecting .socket⟩ (.int fd) =
      if fd < 0 then ⟨fd, .returned (.error "socket failed.")⟩
      else ⟨fd, .connecting .inetPton⟩ := by
  by_cases neg : fd < 0
  · simp only [resume, Connect.resume, if_pos neg, afterConnect]
  · simp only [resume, Connect.resume, if_neg neg]

theorem resume_inetPton (clientFd r : Int) :
    resume ⟨clientFd, .connecting .inetPton⟩ (.int r) =
      if r ≤ 0 then ⟨clientFd, .returned (.error "invalid address")⟩
      else ⟨clientFd, .connecting .connect⟩ := by
  by_cases invalid : r ≤ 0
  · simp only [resume, Connect.resume, if_pos invalid, afterConnect]
  · simp only [resume, Connect.resume, if_neg invalid]

theorem resume_connect (clientFd r : Int) :
    resume ⟨clientFd, .connecting .connect⟩ (.int r) =
      ⟨clientFd, if r = 0 then receiveAt clientFd .greeting else .returned .connectFailed⟩ := by
  by_cases ok : r = 0
  · simp only [resume, Connect.resume, ok, decide_true, afterConnect, if_pos]
  · simp only [resume, Connect.resume, ok, decide_false, afterConnect, if_neg, not_false_iff]

end Run

/-- `run()`, up to the first call of `client.connect()`. -/
def simpleClient : Process Run Call Ret where
  init := ⟨-1, .connecting .socket⟩
  pending := Run.pending
  resume := Run.resume

/-- What a step of `run()` is for its client: a completed call, or nothing where
`run()` reads a line. -/
def clientCall : Event → List Event
  | (.getline, _) => []
  | e => [e]

/-- The system of `run()`. -/
abbrev program : System Run Event := simpleClient.system allowed

end CppLab.Socket.SimpleTCPClient
