import CppLab.Env.StdString
import CppLab.Lib.System

/-!
# The calls of the socket programs

The calls into the kernel and the C++ runtime that decide what the socket
programs do, and the answers these may give. `allowed` is the contract POSIX
promises: a `send` accepts at most what it was offered, a `recv` delivers
between one byte and the room it was given. Failures are answers like any
other. Calls whose answer the programs ignore (console output) do not appear.
-/

namespace CppLab.Posix

/-- An outstanding call, with the arguments the program passes. -/
inductive Call
  | socket
  | inetPton
  | connect (fd : Int)
  | send (fd : Int) (buf : Bytes)
  | recv (fd : Int) (len : Nat)
  | close (fd : Int)
  | getline
  deriving DecidableEq, Repr

/-- An answer: an integer result, the bytes a `recv` delivered, or the line
`std::getline` read (`none` at the end of the input). -/
inductive Ret
  | int (r : Int)
  | data (bytes : Bytes)
  | line (msg : Option Bytes)
  deriving DecidableEq, Repr

/-- The descriptor a call is made on. -/
def Call.fd? : Call → Option Int
  | .connect fd => some fd
  | .send fd _ => some fd
  | .recv fd _ => some fd
  | .close fd => some fd
  | _ => none

/-- Whether a call is a `close`. -/
def Call.isClose : Call → Bool
  | .close _ => true
  | _ => false

/-- The byte `'\n'`. -/
def newline : UInt8 := 10

/-- The answers a call may get. -/
def allowed : Call → Ret → Bool
  | .send _ buf, .int r => r ≤ buf.length
  | .recv _ len, .data bytes => 0 < bytes.length && bytes.length ≤ len
  | .recv _ _, .int r => r ≤ 0
  | .getline, .line (some msg) => newline ∉ msg
  | .getline, .line none => true
  | .socket, .int _ => true
  | .inetPton, .int _ => true
  | .connect _, .int _ => true
  | .close _, .int _ => true
  | _, _ => false

/-- The calls whose every answer is an integer. -/
def Call.answersInt : Call → Bool
  | .recv _ _ => false
  | .getline => false
  | _ => true

theorem exists_int_of_allowed {c : Call} {r : Ret} (h : allowed c r = true)
    (answersInt : c.answersInt = true) : ∃ n, r = .int n := by
  cases r with
  | int n => exact ⟨n, rfl⟩
  | data bytes => cases c <;> simp_all [allowed, Call.answersInt]
  | line msg => cases c <;> cases msg <;> simp_all [allowed, Call.answersInt]

/-- One completed call. -/
abbrev Event := Call × Ret

/-- The bytes an event hands to the kernel: the accepted part of a `send`. -/
def acceptedBy : Event → Bytes
  | (.send _ buf, .int r) => buf.take r.toNat
  | _ => []

/-- The bytes a trace hands to the kernel, in order. -/
def accepted (tr : List Event) : Bytes := tr.flatMap acceptedBy

/-- The answer of a completed `recv`. -/
def recvRet : Event → Option Ret
  | (.recv _ _, r) => some r
  | _ => none

/-- The answers of the `recv` calls of a trace, in order. -/
def recvRets (tr : List Event) : List Ret := tr.filterMap recvRet

/-- The chunk an answer delivers. -/
def chunk? : Ret → Option Bytes
  | .data bytes => some bytes
  | _ => none

/-- The chunks received in a trace, in order. -/
def received (tr : List Event) : List Bytes := (recvRets tr).filterMap chunk?

/-- A `send` or a `recv` that reports a failure. -/
def failed : Event → Bool
  | (.send _ _, .int r) => r ≤ 0
  | (.recv _ _, .int r) => r < 0
  | _ => false

@[simp] theorem accepted_nil : accepted [] = [] := rfl

@[simp] theorem accepted_concat (tr : List Event) (e : Event) :
    accepted (tr ++ [e]) = accepted tr ++ acceptedBy e := by
  simp [accepted]

@[simp] theorem recvRets_nil : recvRets [] = [] := rfl

theorem recvRets_concat (tr : List Event) (e : Event) :
    recvRets (tr ++ [e]) = recvRets tr ++ (recvRet e).toList := by
  cases h : recvRet e <;> simp [recvRets, h]

@[simp] theorem recvRets_concat_recv (tr : List Event) (fd : Int) (len : Nat) (r : Ret) :
    recvRets (tr ++ [(.recv fd len, r)]) = recvRets tr ++ [r] :=
  recvRets_concat tr _

@[simp] theorem recvRets_concat_send (tr : List Event) (fd : Int) (buf : Bytes) (r : Ret) :
    recvRets (tr ++ [(.send fd buf, r)]) = recvRets tr := by
  simp [recvRets_concat, recvRet]

@[simp] theorem recvRets_concat_close (tr : List Event) (fd : Int) (r : Ret) :
    recvRets (tr ++ [(.close fd, r)]) = recvRets tr := by
  simp [recvRets_concat, recvRet]

end CppLab.Posix
