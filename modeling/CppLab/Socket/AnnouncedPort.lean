import CppLab.Lib.System

/-!
# The port of `TCPServer`

`start` reads `port_` in `bindSocket` and sets `running_` two steps later, and
`setPort` looks at `running_`. The steps of `start` are interleaved with calls of
`setPort` and `stop` from another thread, over any number of starts.

Port 0 asks the kernel for a port of its choice, which `port_` does not learn.
-/

namespace CppLab.Socket.TCPServer.AnnouncedPort

/-- The step that `start` takes next; `run` sets `running_`. -/
inductive Pc
  | idle
  | createSocket
  | bindSocket
  | listenSocket
  | run
  | accepting
  deriving DecidableEq, Repr

/-- The members, and the port that the last `bindSocket` has bound. -/
structure Server where
  port_ : UInt16
  running_ : Bool
  pc : Pc
  bound : Option UInt16
  deriving DecidableEq, Repr

/-- The steps of `start` with their outcomes, an exception for `false` and `none`;
the ends of `acceptLoop`, by return or by exception; and the calls. -/
inductive Label
  | start
  | createSocket (ok : Bool)
  | bindSocket (port : Option UInt16)
  | listenSocket (ok : Bool)
  | setRunning
  | loopReturns
  | loopThrows
  | setPort (port : UInt16)
  | stop
  deriving DecidableEq, Repr

namespace Server

def getPort (s : Server) : UInt16 := s.port_

def isRunning (s : Server) : Bool := s.running_

/-- `if (!running_) port_ = port;` -/
def setPort (s : Server) (port : UInt16) : Server :=
  if s.running_ then s else { s with port_ := port }

/-- `if (running_) { close(server_fd_); running_ = false; }` -/
def stop (s : Server) : Server := if s.running_ then { s with running_ := false } else s

/-- A step of `start`, which an exception leaves. -/
def goto (s : Server) (ok : Bool) (next : Pc) : Server :=
  { s with pc := if ok then next else .idle }

/-- What `bind` may bind for a port. -/
def Binds (port bound : UInt16) : Prop := if port = 0 then bound ≠ 0 else bound = port

instance (port bound : UInt16) : Decidable (Binds port bound) := by
  unfold Binds
  infer_instance

/-- The outcome of `bindSocket`. -/
def bindSocket (s : Server) : Option UInt16 → Option Server
  | none => some (s.goto false .listenSocket)
  | some bound =>
      if Binds s.port_ bound then some { s.goto true .listenSocket with bound := some bound }
      else none

end Server

/-- A server constructed with a port. -/
def system (port : UInt16) : System Server Label where
  init := ⟨port, false, .idle, none⟩
  step s
    | .start => if s.pc = .idle then some (s.goto true .createSocket) else none
    | .createSocket ok => if s.pc = .createSocket then some (s.goto ok .bindSocket) else none
    | .bindSocket bound => if s.pc = .bindSocket then s.bindSocket bound else none
    | .listenSocket ok => if s.pc = .listenSocket then some (s.goto ok .run) else none
    | .setRunning =>
        if s.pc = .run then some { s.goto true .accepting with running_ := true } else none
    | .loopReturns =>
        if s.pc = .accepting ∧ s.running_ = false then some (s.goto true .idle) else none
    | .loopThrows => if s.pc = .accepting then some (s.goto true .idle) else none
    | .setPort port => some (s.setPort port)
    | .stop => some s.stop

/-- `start` has bound the socket and has not set `running_` yet. -/
def Pc.Window (pc : Pc) : Prop := pc = .listenSocket ∨ pc = .run

instance (pc : Pc) : Decidable pc.Window := inferInstanceAs (Decidable (_ ∨ _))

/-- The condition on a step: the port that is bound is not 0, and in the window
`setPort` changes nothing. -/
def Meets (s : Server) : Label → Prop
  | .bindSocket (some _) => s.port_ ≠ 0
  | .setPort port => s.pc.Window → s.running_ = false → port = s.port_
  | _ => True

instance (s : Server) : (l : Label) → Decidable (Meets s l)
  | .bindSocket (some _) => inferInstanceAs (Decidable (s.port_ ≠ 0))
  | .setPort port => inferInstanceAs (Decidable (s.pc.Window → s.running_ = false → port = s.port_))
  | .start | .createSocket _ | .bindSocket none | .listenSocket _ | .setRunning | .loopReturns
  | .loopThrows | .stop => .isTrue trivial

/-! ## Runs that meet the condition -/

/-- From `bindSocket` on, `port_` is the port that is bound. -/
def Announced (s : Server) : Prop :=
  s.running_ = true ∨ s.pc.Window → s.bound = some s.port_

theorem not_window {pc : Pc} (other : pc ≠ .listenSocket) (other' : pc ≠ .run) : ¬ pc.Window := by
  rintro (same | same)
  · exact other same
  · exact other' same

/-- `start` goes to a point outside the window. -/
theorem Announced.goto {s : Server} (announced : Announced s) {ok : Bool} {next : Pc}
    (outside : ¬ next.Window) : Announced (s.goto ok next) := by
  rintro (running | window)
  · exact announced (.inl running)
  · cases ok with
    | true => exact absurd window outside
    | false => exact absurd window (not_window nofun nofun)

theorem Announced.bindSocket {s s' : Server} (announced : Announced s) {bound : Option UInt16}
    (meets : Meets s (.bindSocket bound)) (bind : s.bindSocket bound = some s') : Announced s' := by
  cases bound with
  | none =>
      cases bind
      rintro (running | window)
      · exact announced (.inl running)
      · exact absurd window (not_window nofun nofun)
  | some bound =>
      obtain ⟨binds, same⟩ := Option.ite_none_right_eq_some.mp bind
      cases same
      have nonzero : s.port_ ≠ 0 := meets
      unfold Server.Binds at binds
      rw [if_neg nonzero] at binds
      exact fun _ => congrArg some binds

theorem Announced.setPort {s : Server} (announced : Announced s) {port : UInt16}
    (meets : Meets s (.setPort port)) : Announced (s.setPort port) := by
  unfold Server.setPort
  cases running : s.running_ with
  | true => exact announced
  | false =>
      rintro (now | window)
      · cases now
      · -- the guard lets the call through, so the port has to be the same
        have same : port = s.port_ := meets window running
        subst same
        exact announced (.inr window)

theorem Announced.stop {s : Server} (announced : Announced s) : Announced s.stop := by
  unfold Server.stop
  cases running : s.running_ with
  | true =>
      rintro (now | window)
      · cases now
      · exact announced (.inr window)
  | false => exact announced

/-- **Step lemma.** -/
theorem announced_step {port : UInt16} {s s' : Server} {l : Label} (announced : Announced s)
    (meets : Meets s l) (hstep : (system port).step s l = some s') : Announced s' := by
  cases l with
  | start | createSocket ok | loopReturns | loopThrows =>
      obtain ⟨-, same⟩ := Option.ite_none_right_eq_some.mp hstep
      cases same
      exact announced.goto (not_window nofun nofun)
  | bindSocket bound =>
      obtain ⟨-, bind⟩ := Option.ite_none_right_eq_some.mp hstep
      exact announced.bindSocket meets bind
  | listenSocket ok =>
      obtain ⟨here, same⟩ := Option.ite_none_right_eq_some.mp hstep
      cases same
      intro _
      exact announced (.inr (.inl here))
  | setRunning =>
      obtain ⟨here, same⟩ := Option.ite_none_right_eq_some.mp hstep
      cases same
      intro _
      exact announced (.inr (.inr here))
  | setPort port' =>
      cases hstep
      exact announced.setPort meets
  | stop =>
      cases hstep
      exact announced.stop

/-- **Run lemma.** -/
theorem announced_run {port : UInt16} {tr : List Label} {s : Server}
    (run : ((system port).restrict Meets).run tr = some s) : Announced s := by
  refine System.state_invariant (T := (system port).restrict Meets) (I := Announced) ?_ ?_ run
  · rintro (running | window)
    · cases running
    · exact absurd window (not_window nofun nofun)
  · intro s l s' announced hstep
    obtain ⟨meets, hstep⟩ := System.restrict_step_eq_some.mp hstep
    exact announced_step announced meets hstep

/-! ## The window -/

/-- In the window `start` can go on to `acceptLoop` with what it has bound. -/
theorem exists_running {port : UInt16} {s : Server} (window : s.pc.Window)
    (other : s.bound ≠ some s.port_) : ∃ ls t, (system port).runFrom s ls = some t ∧
      t.isRunning = true ∧ t.bound ≠ some t.getPort := by
  rcases window with here | here
  · refine ⟨[.listenSocket true, .setRunning],
      { s with pc := .accepting, running_ := true }, ?_, rfl, other⟩
    have listen : (system port).step s (.listenSocket true) = some (s.goto true .run) :=
      if_pos here
    rw [System.runFrom_cons, listen]
    rfl
  · refine ⟨[.setRunning], { s with pc := .accepting, running_ := true }, ?_, rfl, other⟩
    have run : (system port).step s .setRunning =
        some { s.goto true .accepting with running_ := true } := if_pos here
    rw [System.runFrom_cons, run]
    rfl

/-- A step that breaks the condition leaves the window with another port. -/
theorem window_of_breaks {port : UInt16} {s s' : Server} {l : Label} (announced : Announced s)
    (breaks : ¬ Meets s l) (hstep : (system port).step s l = some s') :
    s'.pc.Window ∧ s'.bound ≠ some s'.port_ := by
  cases l with
  | bindSocket bound =>
      obtain ⟨-, bind⟩ := Option.ite_none_right_eq_some.mp hstep
      cases bound with
      | none => exact absurd trivial breaks
      | some bound =>
          obtain ⟨binds, same⟩ := Option.ite_none_right_eq_some.mp bind
          cases same
          -- the port that the kernel chooses is not 0
          have zero : s.port_ = 0 := not_not.mp breaks
          unfold Server.Binds at binds
          rw [if_pos zero] at binds
          refine ⟨.inl rfl, ?_⟩
          show some bound ≠ some s.port_
          rw [zero]
          exact fun same => binds (Option.some.inj same)
  | setPort port' =>
      cases hstep
      have breaks : ¬ (s.pc.Window → s.running_ = false → port' = s.port_) := breaks
      rw [Classical.not_imp, Classical.not_imp] at breaks
      obtain ⟨window, stopped, other⟩ := breaks
      unfold Server.setPort
      rw [stopped]
      refine ⟨window, ?_⟩
      show s.bound ≠ some port'
      rw [announced (.inr window)]
      exact fun same => other (Option.some.inj same).symm
  | start | createSocket ok | listenSocket ok | setRunning | loopReturns | loopThrows | stop =>
      exact absurd trivial breaks

/-! ## The main result -/

/-- **The announced port.** In a run in which no bound port is 0 and `setPort`
changes nothing between `bindSocket` and `running_ = true`, `getPort()` is the port
that is bound in every state in which the server is running. After a step that
breaks the condition, `start` alone leads to a running server with another port. -/
theorem port_announced {port : UInt16} {tr : List Label} {s : Server}
    (run : ((system port).restrict Meets).run tr = some s) :
    (s.isRunning = true → s.bound = some s.getPort) ∧
    ∀ l s', ¬ Meets s l → (system port).step s l = some s' →
      ∃ ls t, (system port).runFrom s' ls = some t ∧ t.isRunning = true ∧
        t.bound ≠ some t.getPort := by
  have announced := announced_run run
  refine ⟨fun running => announced (.inl running), ?_⟩
  intro l s' breaks hstep
  obtain ⟨window, other⟩ := window_of_breaks announced breaks hstep
  exact exists_running window other

/-- Two starts, with the port set between them and again while the server runs. -/
def sampleStarts : List Label :=
  [.start, .createSocket true, .bindSocket (some 80), .listenSocket true, .setRunning, .stop,
    .setPort 8080, .loopReturns, .start, .createSocket true, .bindSocket (some 8080),
    .setPort 8080, .listenSocket true, .setRunning, .setPort 9090]

theorem port_announced_starts : ∃ s, ((system 80).restrict Meets).run sampleStarts = some s ∧
    s.bound = some s.getPort :=
  ⟨_, rfl, (@port_announced 80 sampleStarts _ rfl).1 rfl⟩

/-- The port is set after `bindSocket`: the server runs on 80 and says 8080. -/
theorem not_announced_window : ∃ s, (system 80).run [.start, .createSocket true,
    .bindSocket (some 80), .setPort 8080, .listenSocket true, .setRunning] = some s ∧
    s.isRunning = true ∧ s.bound = some 80 ∧ s.getPort = 8080 :=
  ⟨_, rfl, rfl, rfl, rfl⟩

end CppLab.Socket.TCPServer.AnnouncedPort
