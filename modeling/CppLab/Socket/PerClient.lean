import CppLab.Socket.MultiTCPServer

/-!
# The threaded server, client by client

Whatever the interleaving, each client of `MultiTCPServer` is served as the
sequential server would serve it alone: the calls made for a client are a run
of `TCPServer::acceptLoop` over that client, and they are the only such run
with the same results, since a session is determined by its results.
-/

namespace CppLab.Socket.MultiTCPServer

open CppLab.Posix CppLab.Socket.TCPServer

/-- The sequential server serving one client alone. -/
def alone (fd : Int) (es : List Event) : List TCPServer.Label :=
  .check :: .accept fd :: es.map .client

/-- While the sequential server is in a session it moves as the session does. -/
theorem runFrom_serving {port : UInt16} {fd : Int} {st : Serve} {es : List Event}
    {s : TCPServer.AcceptLoop} (live : st ≠ .done) :
    (TCPServer.acceptLoop port).runFrom ⟨true, .serving fd st⟩ (es.map .client) = some s ↔
      ∃ st', (service port fd).runFrom st es = some st' ∧ s = ⟨true, .served fd st'⟩ := by
  induction es generalizing st with
  | nil =>
      rw [List.map_nil, System.runFrom_nil, System.runFrom_nil]
      constructor
      · intro h
        injection h with h
        exact ⟨st, rfl, by rw [← h, served_of_ne_done live]⟩
      · rintro ⟨st', h, rfl⟩
        injection h with h
        rw [← h, served_of_ne_done live]
  | cons e es ih =>
      rw [List.map_cons, System.runFrom_cons, System.runFrom_cons]
      cases hst : (service port fd).step st e with
      | none => simp [TCPServer.acceptLoop, hst]
      | some st₁ =>
          have hstep : (TCPServer.acceptLoop port).step ⟨true, .serving fd st⟩ (.client e) =
              some ⟨true, .served fd st₁⟩ := by
            simp only [TCPServer.acceptLoop, hst, Option.map_some]
          rw [hstep, Option.bind_some, Option.bind_some]
          by_cases done : st₁ = .done
          · -- the session is over: neither side has another call of it
            subst done
            cases es with
            | nil => simp [AcceptPc.served, eq_comm]
            | cons e' es =>
                have ended : (service port fd).step .done e' = none :=
                  Option.eq_none_iff_forall_ne_some.mpr fun _ h => ne_done_of_step h rfl
                simp [System.runFrom_cons, AcceptPc.served, TCPServer.acceptLoop, ended]
          · rw [served_of_ne_done done]
            exact ih done

/-- Serving a client alone is running its session. -/
theorem run_alone {port : UInt16} {fd : Int} {es : List Event} {s : TCPServer.AcceptLoop}
    (nonneg : 0 ≤ fd) :
    (TCPServer.acceptLoop port).run (alone fd es) = some s ↔
      ∃ st, (service port fd).run es = some st ∧ s = ⟨true, .served fd st⟩ := by
  have accepted : (TCPServer.acceptLoop port).run (alone fd es) =
      (TCPServer.acceptLoop port).runFrom
        ⟨true, .serving fd (serveClient port fd).init⟩ (es.map .client) := by
    show ((TCPServer.acceptLoop port).step ⟨true, .accept⟩ (.accept fd)).bind _ = _
    have neg : ¬ fd < 0 := by omega
    simp only [TCPServer.acceptLoop, if_neg neg, Option.bind_some]
  rw [accepted]
  exact runFrom_serving (serveClient_init_ne_done port fd)

/-- Every accepted connection is at a point of its session: that of its thread,
or the first one where no thread was made for it. -/
theorem exists_session {port : UInt16} {s : Server} (inv : Inv port s) {i : Nat} {c : Conn}
    (hc : s.conns[i]? = some c) :
    ∃ st, (service port c.fd).run c.log = some st ∧ (c.live = true ↔ st ≠ .done) := by
  cases ht : s.threads[i]? with
  | some t =>
      obtain ⟨d, hd, serves⟩ := inv.serves i t ht
      rw [hc] at hd
      injection hd with hd
      subst hd
      exact ⟨t.st, serves.run, serves.live⟩
  | none =>
      -- only the connection accepted last can be without a thread
      have beyond : s.threads.length ≤ i := List.getElem?_eq_none_iff.mp ht
      have within : i < s.conns.length := (List.getElem?_eq_some_iff.mp hc).1
      have waiting : ∀ fd, s.conns.length = s.threads.length + 1 →
          s.conns[s.threads.length]? = some ⟨fd, true, []⟩ →
          ∃ st, (service port c.fd).run c.log = some st ∧ (c.live = true ↔ st ≠ .done) := by
        intro fd len last
        have same : i = s.threads.length := by omega
        rw [same, last] at hc
        injection hc with hc
        subst hc
        exact ⟨_, rfl, by simpa using serveClient_init_ne_done port fd⟩
      have extra := inv.extra
      cases hpc : s.pc <;> rw [hpc] at extra
      case emplace fd => exact waiting fd extra.1 extra.2
      case threw =>
        obtain ⟨fd, len, last⟩ := extra
        exact waiting fd len last
      all_goals
        have len : s.conns.length = s.threads.length := extra
        omega

/-- **Per-client equivalence.** In every run of the threaded server, the calls
that reached the `i`-th accepted client are those its own thread made, and the
sequential server makes the same calls for that client alone, closing its
descriptor at the same point; with the same results it cannot make any others. -/
theorem client_alone (port : UInt16) {tr : List Label} {s : Server}
    (run : (acceptLoop port).run tr = some s) {i : Nat} {fd : Int}
    (client : (accepts tr)[i]? = some fd) :
    ∃ live st, s.conns[i]? = some ⟨fd, live, calls i tr⟩ ∧
      (TCPServer.acceptLoop port).run (alone fd (calls i tr)) =
        some ⟨true, .served fd st⟩ ∧
      (live = false ↔ st = .done) ∧
      ∀ es, ((TCPServer.acceptLoop port).run (alone fd es)).isSome = true →
        es.map Prod.snd = (calls i tr).map Prod.snd → es = calls i tr := by
  have inv := inv_run run
  have logged := logged_run run
  rw [← logged.fds, List.getElem?_map, Option.map_eq_some_iff] at client
  obtain ⟨c, hc, rfl⟩ := client
  have log : c.log = calls i tr := logged.logs i c hc
  have nonneg : 0 ≤ c.fd := inv.nonneg c (List.mem_of_getElem? hc)
  obtain ⟨st, session, live⟩ := exists_session inv hc
  rw [log] at session
  refine ⟨c.live, st, ?_, (run_alone nonneg).mpr ⟨st, session, rfl⟩, ?_, ?_⟩
  · rw [hc, ← log]
  · rw [← Bool.not_eq_true, live, not_not]
  · intro es ran answers
    obtain ⟨s', hs'⟩ := Option.isSome_iff_exists.mp ran
    obtain ⟨st', session', _⟩ := (run_alone nonneg).mp hs'
    exact Process.runFrom_eq_of_answers session' session answers

/-- Two clients at once: the welcome to the first fails, the second goes on and
quits. -/
def sampleThreads : List Label :=
  [.check, .accept 4, .emplace true, .check, .accept 5, .emplace true,
    .thread 1 (.send 5 (welcome 80), .int 72), .thread 0 (.send 4 (welcome 80), .int (-1)),
    .thread 1 (.recv 5 1023, .data (ascii "Q\n")), .thread 0 (.close 4, .int 0),
    .thread 1 (.send 5 (ascii "Q\n"), .int 2), .thread 1 (.close 5, .int 0)]

theorem sampleThreads_run :
    ∃ s, (acceptLoop 80).run sampleThreads = some s :=
  Option.isSome_iff_exists.mp (by decide)

theorem client_alone_sample :
    ∃ st, (TCPServer.acceptLoop 80).run (alone 5 (calls 1 sampleThreads)) =
      some ⟨true, .served 5 st⟩ := by
  obtain ⟨s, run⟩ := sampleThreads_run
  have client : (accepts sampleThreads)[1]? = some 5 := by decide
  obtain ⟨_, st, _, sequential, _, _⟩ := client_alone 80 run client
  exact ⟨st, sequential⟩

end CppLab.Socket.MultiTCPServer
