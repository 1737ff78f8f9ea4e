import CppLab.Lib.Ledger
import CppLab.Socket.HandleClient

/-!
# `TCPServer::acceptLoop`

The sequential server: accept, serve the client to its end, accept again. The
`close` of an accepted descriptor is split between the end of `handleClient`
and the `catch` block around it; `Serve` joins the two, and its step lemma says
that a served session closes its descriptor in its last step and in no other.
-/

namespace CppLab.Socket.TCPServer

open CppLab.Posix

/-- Control points of `try { handleClient(fd); } catch (...) { close(fd); }`. -/
inductive Serve
  | body (pc : HandleClient)
  | caught (what : String)
  | done
  deriving DecidableEq

/-- The statement after `handleClient` has moved. -/
def Serve.enter : HandleClient → Serve
  | .returned _ => .done
  | .threw what => .caught what
  | pc => .body pc

/-- One served client: the body of both accept loops. -/
def serveClient (port : UInt16) (fd : Int) : Process Serve Call Ret where
  init := Serve.enter (handleClient port fd).init
  pending
    | .body pc => HandleClient.pending fd pc
    | .caught _ => some (.close fd)
    | .done => none
  resume
    | .body pc, r => Serve.enter (pc.resume r)
    | .caught _, .int _ => .done
    | st, _ => st

/-- The system of one served client. -/
abbrev service (port : UInt16) (fd : Int) : System Serve Event :=
  (serveClient port fd).system allowed

theorem serveClient_init_ne_done (port : UInt16) (fd : Int) :
    (serveClient port fd).init ≠ .done := by
  obtain ⟨s, hs, _⟩ := sendFrom_zero_of_ne_nil (welcome_ne_nil port)
  show Serve.enter (afterWelcome (sendFrom (welcome port) 0)) ≠ .done
  rw [hs]
  exact fun h => nomatch h

/-- A step of the guarded session inside the body is a move of the session. -/
theorem body_step {port : UInt16} {fd : Int} {pc : HandleClient} {e : Event} {st' : Serve}
    (h : (service port fd).step (.body pc) e = some st') :
    ∃ pc', Move fd pc e pc' ∧ st' = Serve.enter pc' := by
  obtain ⟨hc, hr, rfl⟩ := Process.step_eq_some.mp h
  have hs : (session port fd).step pc e = some (pc.resume e.2) :=
    Process.step_eq_some.mpr ⟨hc, hr, rfl⟩
  exact ⟨pc.resume e.2, move_of_step hs, rfl⟩

/-- A session that has a step to make is not done. -/
theorem ne_done_of_step {port : UInt16} {fd : Int} {st st' : Serve} {e : Event}
    (h : (service port fd).step st e = some st') : st ≠ .done := by
  rintro rfl
  obtain ⟨hc, _, _⟩ := Process.step_eq_some.mp h
  simp [serveClient] at hc

/-- What a step does to the descriptor: the last step closes it, no other does. -/
theorem service_step_cases {port : UInt16} {fd : Int} {st st' : Serve} {e : Event}
    (h : (service port fd).step st e = some st') :
    ((∃ r, e = (.close fd, .int r)) ∧ st' = .done) ∨
    (e.1.isClose = false ∧ st' ≠ .done) := by
  cases st with
  | body pc =>
      obtain ⟨pc', move, rfl⟩ := body_step h
      cases move with
      | close => exact .inl ⟨⟨_, rfl⟩, rfl⟩
      | welcomeFail _ => exact .inr ⟨rfl, nofun⟩
      | welcomeMore _ _ => exact .inr ⟨rfl, nofun⟩
      | welcomeDone _ _ => exact .inr ⟨rfl, nofun⟩
      | eof => exact .inr ⟨rfl, nofun⟩
      | recvFail _ => exact .inr ⟨rfl, nofun⟩
      | recvData _ _ => exact .inr ⟨rfl, nofun⟩
      | echoFail _ => exact .inr ⟨rfl, nofun⟩
      | echoMore _ _ _ => exact .inr ⟨rfl, nofun⟩
      | echoQuit _ _ _ => exact .inr ⟨rfl, nofun⟩
      | echoNext _ _ _ => exact .inr ⟨rfl, nofun⟩
  | caught what =>
      obtain ⟨c, r⟩ := e
      obtain ⟨hc, hr, rfl⟩ := Process.step_eq_some.mp h
      simp only [serveClient, Option.some.injEq] at hc
      subst hc
      cases r with
      | int result => exact .inl ⟨⟨result, rfl⟩, rfl⟩
      | data bytes => simp [allowed] at hr
      | line msg => simp [allowed] at hr
  | done =>
      obtain ⟨hc, _, _⟩ := Process.step_eq_some.mp h
      simp [serveClient] at hc

/-- A served session calls the kernel on its own descriptor only. -/
theorem service_step_fd {port : UInt16} {fd : Int} {st st' : Serve} {e : Event}
    (h : (service port fd).step st e = some st') : e.1.fd? = some fd := by
  cases st with
  | body pc =>
      obtain ⟨pc', move, _⟩ := body_step h
      cases move <;> rfl
  | caught what =>
      obtain ⟨hc, _, _⟩ := Process.step_eq_some.mp h
      simp only [serveClient, Option.some.injEq] at hc
      rw [← hc]
      rfl
  | done =>
      obtain ⟨hc, _, _⟩ := Process.step_eq_some.mp h
      simp [serveClient] at hc

/-! ## The loop -/

/-- Control points of `acceptLoop`. -/
inductive AcceptPc
  | head
  | accept
  | serving (fd : Int) (st : Serve)
  | left
  deriving DecidableEq

/-- The loop together with the flag it polls, which `stop` clears from
outside. -/
structure AcceptLoop where
  running : Bool
  pc : AcceptPc
  deriving DecidableEq

/-- `check` evaluates `while (running_)`, `accept` completes the call of that
name, `client` completes a call of the served session, `stop` is another
thread's `stop()`. -/
inductive Label
  | check
  | accept (fd : Int)
  | client (e : Event)
  | stop
  deriving DecidableEq

/-- The control point after a step of the session. -/
def AcceptPc.served (fd : Int) : Serve → AcceptPc
  | .done => .head
  | st => .serving fd st

theorem served_of_ne_done {fd : Int} {st : Serve} (live : st ≠ .done) :
    AcceptPc.served fd st = .serving fd st := by
  cases st with
  | done => exact absurd rfl live
  | body pc => rfl
  | caught what => rfl

/-- `acceptLoop()`, entered by `start` with `running_` set. -/
def acceptLoop (port : UInt16) : System AcceptLoop Label where
  init := ⟨true, .head⟩
  step
    | ⟨running, .head⟩, .check => some ⟨running, if running then .accept else .left⟩
    | ⟨running, .accept⟩, .accept fd =>
        if fd < 0 then some ⟨running, .head⟩
        else some ⟨running, .serving fd (serveClient port fd).init⟩
    | ⟨running, .serving fd st⟩, .client e =>
        ((service port fd).step st e).map fun st' => ⟨running, .served fd st'⟩
    | ⟨_, pc⟩, .stop => some ⟨false, pc⟩
    | _, _ => none

/-- What a label does to accepted descriptors. -/
def entry : Label → Option (Entry Int)
  | .accept fd => if fd < 0 then none else some (.opened fd)
  | .client (.close fd, _) => some (.closed fd)
  | _ => none

/-- The ledger of accepted descriptors. -/
def ledger (tr : List Label) : List (Entry Int) := tr.filterMap entry

/-- The accepted descriptors the loop still has to close. -/
def AcceptPc.openFds : AcceptPc → List Int
  | .serving fd _ => [fd]
  | _ => []

theorem ledger_append (as bs : List Label) : ledger (as ++ bs) = ledger as ++ ledger bs :=
  List.filterMap_append

theorem ledger_concat_none {tr : List Label} {l : Label} (h : entry l = none) :
    ledger (tr ++ [l]) = ledger tr :=
  System.filterMap_concat_none h

theorem ledger_concat_some {tr : List Label} {l : Label} {e : Entry Int}
    (h : entry l = some e) : ledger (tr ++ [l]) = ledger tr ++ [e] :=
  System.filterMap_concat_some h

/-- Step lemma: the ledger has open exactly the descriptor being served. -/
theorem ledger_step {port : UInt16} {tr : List Label} {s s' : AcceptLoop} {l : Label}
    (inv : Ledger.replay (ledger tr) = some s.pc.openFds)
    (h : (acceptLoop port).step s l = some s') :
    Ledger.replay (ledger (tr ++ [l])) = some s'.pc.openFds := by
  obtain ⟨running, pc⟩ := s
  cases l with
  | check =>
      rw [ledger_concat_none rfl]
      cases pc <;> simp only [acceptLoop, Option.some.injEq, reduceCtorEq] at h
      subst h
      cases running <;> exact inv
  | stop =>
      rw [ledger_concat_none rfl]
      cases pc <;> simp only [acceptLoop, Option.some.injEq] at h <;> subst h <;> exact inv
  | accept fd =>
      cases pc <;> simp only [acceptLoop, reduceCtorEq] at h
      by_cases neg : fd < 0
      · have failed : entry (.accept fd) = none := if_pos neg
        rw [if_pos neg, Option.some.injEq] at h
        subst h
        rw [ledger_concat_none failed]
        exact inv
      · have opened : entry (.accept fd) = some (.opened fd) := if_neg neg
        rw [if_neg neg, Option.some.injEq] at h
        subst h
        rw [ledger_concat_some opened]
        exact Ledger.replay_concat inv (Ledger.record_opened List.not_mem_nil)
  | client e =>
      cases pc <;> simp only [acceptLoop, reduceCtorEq] at h
      rename_i fd st
      obtain ⟨st', hst, rfl⟩ := Option.map_eq_some_iff.mp h
      rcases service_step_cases hst with ⟨⟨r, rfl⟩, rfl⟩ | ⟨notClose, notDone⟩
      · rw [ledger_concat_some rfl]
        have closes := Ledger.replay_concat inv
          (Ledger.record_closed (List.mem_singleton.mpr rfl))
        simpa [AcceptPc.openFds, AcceptPc.served] using closes
      · rw [served_of_ne_done notDone, ledger_concat_none]
        · exact inv
        · obtain ⟨c, r⟩ := e
          cases c <;> first | rfl | cases notClose

/-- Run lemma. -/
theorem ledger_run {port : UInt16} {tr : List Label} {s : AcceptLoop}
    (run : (acceptLoop port).run tr = some s) :
    Ledger.replay (ledger tr) = some s.pc.openFds :=
  System.run_invariant (I := fun tr s => Ledger.replay (ledger tr) = some s.pc.openFds) rfl
    (fun _ _ _ _ _ inv h => ledger_step inv h) run

theorem openFds_length_le_one (pc : AcceptPc) : pc.openFds.length ≤ 1 := by
  cases pc <;> simp [AcceptPc.openFds]

/-- `accept` is only called with nothing open. -/
theorem openFds_of_accept {port : UInt16} {s s' : AcceptLoop} {fd : Int}
    (h : (acceptLoop port).step s (.accept fd) = some s') : s.pc.openFds = [] := by
  obtain ⟨running, pc⟩ := s
  cases pc <;> first | rfl | simp [acceptLoop] at h

/-- **Accepted descriptors of the sequential server.** At any moment at most
one is open; none is closed twice; by the next `accept`, and when the loop is
left, each has been closed exactly once, however its session ended. -/
theorem acceptLoop_descriptors (port : UInt16) {tr : List Label} {s : AcceptLoop}
    (run : (acceptLoop port).run tr = some s) :
    (∀ pre post, tr = pre ++ post →
      ∃ o, Ledger.replay (ledger pre) = some o ∧ o.length ≤ 1) ∧
    ∀ pre fd post, tr = pre ++ .accept fd :: post → 0 ≤ fd →
      Ledger.closesOf fd (ledger post) ≤ 1 ∧
      (s.pc = .left → Ledger.closesOf fd (ledger post) = 1) ∧
      ∀ mid r late, post = mid ++ .accept r :: late →
        Ledger.closesOf fd (ledger mid) = 1 := by
  refine ⟨?_, ?_⟩
  · rintro pre post rfl
    obtain ⟨s₁, run₁, _⟩ := System.run_prefix run
    exact ⟨_, ledger_run run₁, openFds_length_le_one s₁.pc⟩
  · rintro pre fd post rfl nonneg
    have opened : ∀ rest, ledger (pre ++ .accept fd :: rest) =
        ledger pre ++ .opened fd :: ledger rest := by
      intro rest
      have hentry : entry (.accept fd) = some (.opened fd) := if_neg (by omega)
      rw [ledger_append, ledger, ledger, List.filterMap_cons_some hentry]
      rfl
    have book := ledger_run run
    rw [opened] at book
    refine ⟨Ledger.atMostOnce_of_replay book _ _ _ rfl, ?_, ?_⟩
    · intro left
      exact Ledger.closesOf_eq_one book (by simp [left, AcceptPc.openFds])
    · rintro mid r late rfl
      -- the run up to the next `accept`, which is called with nothing open
      have upTo : (acceptLoop port).run ((pre ++ .accept fd :: mid) ++ .accept r :: late) =
          some s := by simpa using run
      obtain ⟨s₁, run₁, rest⟩ := System.run_prefix upTo
      rw [System.runFrom_cons, Option.bind_eq_some_iff] at rest
      obtain ⟨s₂, hstep, _⟩ := rest
      have book₁ := ledger_run run₁
      rw [opened, openFds_of_accept hstep] at book₁
      exact Ledger.closesOf_eq_one book₁ List.not_mem_nil

/-- A run over two clients: the welcome to the first fails and the `catch`
block closes its descriptor, the second takes the same number, and the loop is
left after a `stop`. -/
def sampleAccepts : List Label :=
  [.check, .accept 4, .client (.send 4 (welcome 80), .int (-1)), .client (.close 4, .int 0),
    .check, .accept 4, .client (.send 4 (welcome 80), .int 72),
    .client (.recv 4 1023, .int 0), .stop, .client (.close 4, .int 0), .check]

theorem sampleAccepts_run :
    (acceptLoop 80).run sampleAccepts = some ⟨false, .left⟩ := by decide

theorem acceptLoop_descriptors_sample :
    Ledger.closesOf 4 (ledger [.client (.send 4 (welcome 80), .int (-1)),
      .client (.close 4, .int 0), .check]) = 1 :=
  ((acceptLoop_descriptors 80 sampleAccepts_run).2 [.check] 4 _ rfl (by decide)).2.2 _ _ _ rfl

end CppLab.Socket.TCPServer
