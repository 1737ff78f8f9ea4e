import CppLab.Socket.LeaveNothing

/-!
# After `stop()`

`stop()` clears `running_` and nothing else that the loop looks at: a blocked `accept`
goes on, and clients that are being served are served to their end. What follows is
bounded all the same.
-/

namespace CppLab.Socket.MultiTCPServer

open CppLab.Posix CppLab.Socket.TCPServer

variable {port : UInt16} {s s' : Server}

/-- An `accept` that returns a client. -/
def Label.accepts : Label → Nat
  | .accept fd => if fd < 0 then 0 else 1
  | _ => 0

end CppLab.Socket.MultiTCPServer
