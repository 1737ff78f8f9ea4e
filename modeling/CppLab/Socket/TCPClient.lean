import CppLab.Lib.Ledger
import CppLab.Socket.SendLoop

/-!
# `TCPClient`

The four methods over `client_fd_`, each by the call it is blocked in, and the
histories of one object: any methods in any order, with any results. `connect`
writes `client_fd_` before it can fail, and only `close` takes it back.
-/

namespace CppLab.Socket

open CppLab.Posix

namespace TCPClient

/-- Control points of `connect()`. -/
inductive Connect
  | socket
  | inetPton
  | connect
  deriving DecidableEq, Repr

namespace Connect

/-- The call a control point of `connect()` is blocked in. -/
def pending (clientFd : Int) : Connect → Call
  | .socket => .socket
  | .inetPton => .inetPton
  | .connect => .connect clientFd

/-- `client_fd_` and the rest of `connect()` after the answer: still inside, or
left with its value or exception. -/
def resume (clientFd : Int) : Connect → Ret → Int × (Connect ⊕ Except String Bool)
  | .socket, .int fd =>
      (fd, if fd < 0 then .inr (.error "socket failed.") else .inl .inetPton)
  | .inetPton, .int r =>
      (clientFd, if r ≤ 0 then .inr (.error "invalid address") else .inl .connect)
  | .connect, .int r => (clientFd, .inr (.ok (r = 0)))
  | c, _ => (clientFd, .inl c)

end Connect

/-- The check `send` and `receive` start with. -/
def requireFd (clientFd : Int) : Except String Unit :=
  if clientFd < 0 then .error "socket not connected" else .ok ()

/-- `send(msg)` up to its first blocking call. -/
def send (clientFd : Int) (msg : Bytes) : SendLoop :=
  match requireFd clientFd with
  | .error what => .threw what
  | .ok () => sendFrom msg 0

/-- `sizeof(buffer)` in `receive()`. -/
def recvRoom : Nat := 1024

/-- `receive()` after its `recv` has answered. -/
def received : Ret → Except String Bytes
  | .data bytes => .ok bytes
  | .int bytes => .error (if bytes < 0 then "recv failed" else "connection closed")
  | .line _ => .error "recv failed"

/-! ## Histories of one object -/

/-- A method call. -/
inductive Op
  | connect
  | send (msg : Bytes)
  | receive
  | close
  deriving DecidableEq, Repr

/-- Between two methods, or the call a method is blocked in. -/
inductive Pc
  | idle
  | connecting (c : Connect)
  | sending (s : Sending)
  | receiving
  | closing
  deriving DecidableEq

/-- The call a control point is blocked in. -/
def Pc.pending (clientFd : Int) : Pc → Option Call
  | .idle => none
  | .connecting c => some (c.pending clientFd)
  | .sending s => some (s.call clientFd)
  | .receiving => some (.recv clientFd recvRoom)
  | .closing => some (.close clientFd)

end TCPClient

open TCPClient in
/-- The object. `connectOk` is what the caller knows: the last `connect()`
returned true. -/
structure TCPClient where
  clientFd : Int
  pc : Pc
  connectOk : Bool
  deriving DecidableEq

namespace TCPClient

/-- `call` starts a method, `sys` completes the call it is blocked in. -/
inductive Label
  | call (op : Op)
  | sys (e : Event)
  deriving DecidableEq, Repr

/-- The control point after a send loop has moved. -/
def Pc.ofSend : SendLoop → Pc
  | .sending s => .sending s
  | _ => .idle

/-- A method up to its first blocking call. -/
def begin (t : TCPClient) : Op → TCPClient
  | .connect => { t with pc := .connecting .socket, connectOk := false }
  | .send msg => { t with pc := .ofSend (send t.clientFd msg) }
  | .receive =>
      match requireFd t.clientFd with
      | .error _ => t
      | .ok () => { t with pc := .receiving }
  | .close => if 0 ≤ t.clientFd then { t with pc := .closing } else t

/-- The object after the answer to the call its method is blocked in. -/
def resume (t : TCPClient) (r : Ret) : TCPClient :=
  match t.pc, r with
  | .connecting c, r =>
      match c.resume t.clientFd r with
      | (fd, .inl c') => { t with clientFd := fd, pc := .connecting c' }
      | (fd, .inr result) => ⟨fd, .idle, match result with | .ok ok => ok | .error _ => false⟩
  | .sending s, .int sent => { t with pc := .ofSend (s.resume sent) }
  | .receiving, _ => { t with pc := .idle }
  | .closing, .int _ => { t with clientFd := -1, pc := .idle }
  | _, _ => t

theorem resume_socket (clientFd fd : Int) (ok : Bool) :
    resume ⟨clientFd, .connecting .socket, ok⟩ (.int fd) =
      if fd < 0 then ⟨fd, .idle, false⟩ else ⟨fd, .connecting .inetPton, ok⟩ := by
  by_cases neg : fd < 0
  · simp only [resume, Connect.resume, if_pos neg]
  · simp only [resume, Connect.resume, if_neg neg]

theorem resume_inetPton (clientFd r : Int) (ok : Bool) :
    resume ⟨clientFd, .connecting .inetPton, ok⟩ (.int r) =
      if r ≤ 0 then ⟨clientFd, .idle, false⟩ else ⟨clientFd, .connecting .connect, ok⟩ := by
  by_cases invalid : r ≤ 0
  · simp only [resume, Connect.resume, if_pos invalid]
  · simp only [resume, Connect.resume, if_neg invalid]

/-- The histories of one `TCPClient`: a caller that may catch every exception
and call anything next. -/
def histories : System TCPClient Label where
  init := ⟨-1, .idle, false⟩
  step t
    | .call op => if t.pc = .idle then some (t.begin op) else none
    | .sys e =>
        if t.pc.pending t.clientFd = some e.1 ∧ allowed e.1 e.2 then some (t.resume e.2)
        else none

/-- What a completed call does to descriptors. -/
def entry : Event → Option (Entry Int)
  | (.socket, .int fd) => if fd < 0 then none else some (.opened fd)
  | (.close fd, _) => some (.closed fd)
  | _ => none

/-- The completed calls of a history. -/
def events (tr : List Label) : List Event :=
  tr.filterMap fun
    | .sys e => some e
    | .call _ => none

/-- The ledger of created descriptors. -/
def ledger (es : List Event) : List (Entry Int) := es.filterMap entry

/-- The descriptors under which a connection stands after one more call. -/
def establish (fds : List Int) : Event → List Int
  | (.connect fd, .int r) => if r = 0 then fd :: fds else fds
  | (.socket, .int fd) => fds.filter (· ≠ fd)
  | (.close fd, _) => fds.filter (· ≠ fd)
  | _ => fds

/-- The descriptors whose `connect` has succeeded. -/
def established (es : List Event) : List Int := es.foldl establish []

end TCPClient

end CppLab.Socket
