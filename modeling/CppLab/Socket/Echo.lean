import CppLab.Socket.HandleClient

/-!
# Echo fidelity of a session

What a session hands to the kernel, against what it has received. The
invariant `EchoInv` says, for each control point of `handleClient`, which
chunks have been received (none of them the quit command, except possibly the
last), which answers `recv` has given, and that the bytes accepted so far
followed by the bytes the current buffer still owes are the welcome and the
received chunks. It is kept by every `Move`; `handleClient_echo` reads the
session's contract off it.
-/

namespace CppLab.Socket.TCPServer

open CppLab.Posix

/-- The chunks a session serves: up to and including the first quit command. -/
def untilQuit : List Bytes → List Bytes
  | [] => []
  | c :: cs => if isQuit c then [c] else c :: untilQuit cs

/-- No chunk reads as the quit command. -/
def Plain (cs : List Bytes) : Prop := ∀ c ∈ cs, isQuit c = false

theorem Plain.nil : Plain [] := by
  intro c hc
  exact absurd hc List.not_mem_nil

theorem Plain.concat {cs : List Bytes} {c : Bytes} (h : Plain cs) (hc : isQuit c = false) :
    Plain (cs ++ [c]) := by
  intro d hd
  rcases List.mem_append.mp hd with hd | hd
  · exact h d hd
  · rw [List.mem_singleton.mp hd]
    exact hc

theorem untilQuit_of_plain {cs : List Bytes} (h : Plain cs) : untilQuit cs = cs := by
  induction cs with
  | nil => rfl
  | cons c cs ih =>
      have hc : isQuit c = false := h c List.mem_cons_self
      have hcs : Plain cs := fun d hd => h d (List.mem_cons_of_mem c hd)
      simp [untilQuit, hc, ih hcs]

/-- Plain chunks and at most one more, where the script begins with them, are
all served. -/
theorem prefix_untilQuit {cs last chunks : List Bytes} (h : Plain cs) (short : last.length ≤ 1)
    (hp : cs ++ last <+: chunks) : cs ++ last <+: untilQuit chunks := by
  induction cs generalizing chunks with
  | nil =>
      match last, chunks, short, hp with
      | [], _, _, _ => exact List.nil_prefix
      | [c], d :: ds, _, hp =>
          rw [List.nil_append, List.cons_prefix_cons] at hp
          rw [hp.1, List.nil_append, untilQuit]
          split
          · exact List.prefix_rfl
          · exact List.cons_prefix_cons.mpr ⟨rfl, List.nil_prefix⟩
  | cons c cs ih =>
      match chunks, hp with
      | d :: ds, hp =>
          rw [List.cons_append, List.cons_prefix_cons] at hp
          obtain ⟨rfl, hp⟩ := hp
          have hc : isQuit c = false := h c List.mem_cons_self
          have hcs : Plain cs := fun d hd => h d (List.mem_cons_of_mem c hd)
          simp only [untilQuit, hc, Bool.false_eq_true, if_false, List.cons_append]
          exact List.cons_prefix_cons.mpr ⟨rfl, ih hcs hp⟩

/-- Once the last one is the quit command, they are exactly what is served. -/
theorem untilQuit_eq_of_quit {cs chunks : List Bytes} {c : Bytes} (h : Plain cs)
    (hc : isQuit c = true) (hp : cs ++ [c] <+: chunks) : untilQuit chunks = cs ++ [c] := by
  induction cs generalizing chunks with
  | nil =>
      match chunks, hp with
      | d :: ds, hp =>
          rw [List.nil_append, List.cons_prefix_cons] at hp
          obtain ⟨rfl, _⟩ := hp
          simp [untilQuit, hc]
  | cons d cs ih =>
      match chunks, hp with
      | e :: es, hp =>
          rw [List.cons_append, List.cons_prefix_cons] at hp
          obtain ⟨rfl, hp⟩ := hp
          have hd : isQuit d = false := h d List.mem_cons_self
          have hcs : Plain cs := fun x hx => h x (List.mem_cons_of_mem d hx)
          simp [untilQuit, hd, ih hcs hp]

/-! ## The invariant -/

/-- The session has received the plain chunks `cs`, then `last`, then the
answers `fin`, and still owes `owed` of what it must send. -/
structure Served (port : UInt16) (tr : List Event) (owed : Bytes) (cs last : List Bytes)
    (fin : List Ret) : Prop where
  plain : Plain cs
  answers : recvRets tr = (cs ++ last).map Ret.data ++ fin
  bytes : accepted tr ++ owed = welcome port ++ (cs ++ last).flatten

/-- How the session stands when the loop has been left. -/
def Ended (port : UInt16) (tr : List Event) : Ending → Prop
  | .eof => ∃ cs, Served port tr [] cs [] [.int 0]
  | .quit => ∃ cs c, isQuit c = true ∧ Served port tr [] cs [c] []

/-- The echo invariant, by control point. -/
def EchoInv (port : UInt16) (tr : List Event) : HandleClient → Prop
  | .welcome s => Served port tr s.rest [] [] []
  | .recv => ∃ cs, Served port tr [] cs [] []
  | .echo s => ∃ cs, Served port tr s.rest cs [s.data] []
  | .close why => Ended port tr why
  | .returned why => Ended port tr why
  | .threw _ => (∃ owed cs last r, last.length ≤ 1 ∧
      (Served port tr owed cs last [] ∨ Served port tr owed cs last [.int r])) ∧
      ∃ e ∈ tr, failed e = true

namespace Served

variable {port : UInt16} {tr : List Event} {owed : Bytes} {cs last : List Bytes} {fin : List Ret}

/-- A `send` moves accepted bytes from `owed` to `accepted`. -/
theorem send {fd : Int} {s : Sending} {sent : Int} {owed' : Bytes}
    (h : Served port tr s.rest cs last fin)
    (hrest : s.rest.take sent.toNat ++ owed' = s.rest) :
    Served port (tr ++ [(s.call fd, .int sent)]) owed' cs last fin where
  plain := h.plain
  answers := by
    rw [Sending.call, recvRets_concat_send]
    exact h.answers
  bytes := by
    rw [accepted_concat, Sending.acceptedBy_call, List.append_assoc, hrest]
    exact h.bytes

/-- A failed `send` accepts nothing. -/
theorem sendFail {fd : Int} {s : Sending} {sent : Int} (h : Served port tr s.rest cs last fin)
    (hs : sent ≤ 0) :
    Served port (tr ++ [(s.call fd, .int sent)]) s.rest cs last fin :=
  h.send (by rw [Int.toNat_of_nonpos hs, List.take_zero, List.nil_append])

/-- An answer to `recv` extends the answers and sends nothing. -/
theorem recv (fd : Int) (len : Nat) (r : Ret) (h : Served port tr owed cs [] []) :
    accepted (tr ++ [(Call.recv fd len, r)]) ++ owed = welcome port ++ cs.flatten ∧
      recvRets (tr ++ [(Call.recv fd len, r)]) = cs.map Ret.data ++ [r] := by
  refine ⟨?_, ?_⟩
  · have bytes := h.bytes
    rw [List.append_nil] at bytes
    simpa [acceptedBy] using bytes
  · rw [recvRets_concat_recv, h.answers, List.append_nil, List.append_nil]

/-- A `close` changes nothing that is sent or received. -/
theorem close {fd : Int} {r : Ret} (h : Served port tr owed cs last fin) :
    Served port (tr ++ [(Call.close fd, r)]) owed cs last fin where
  plain := h.plain
  answers := by
    rw [recvRets_concat_close]
    exact h.answers
  bytes := by
    rw [accepted_concat]
    simpa [acceptedBy] using h.bytes

end Served

theorem Ended.close {port : UInt16} {tr : List Event} {why : Ending} {fd : Int} {r : Ret}
    (h : Ended port tr why) : Ended port (tr ++ [(Call.close fd, r)]) why := by
  cases why with
  | eof =>
      obtain ⟨cs, hs⟩ := h
      exact ⟨cs, hs.close⟩
  | quit =>
      obtain ⟨cs, c, hc, hs⟩ := h
      exact ⟨cs, c, hc, hs.close⟩

/-- A session starts with the whole welcome to send and nothing received. -/
theorem echoInv_init (port : UInt16) (fd : Int) : EchoInv port [] (session port fd).init := by
  obtain ⟨s, hs, _, hrest⟩ := sendFrom_zero_of_ne_nil (welcome_ne_nil port)
  show EchoInv port [] (afterWelcome (sendFrom (welcome port) 0))
  rw [hs]
  exact ⟨Plain.nil, rfl, by simp [hrest]⟩

theorem exists_failed_concat {tr : List Event} {e : Event} (h : failed e = true) :
    ∃ e' ∈ tr ++ [e], failed e' = true :=
  ⟨e, List.mem_append_right tr (List.mem_singleton.mpr rfl), h⟩

/-- Step lemma: every move of the session keeps the echo invariant. -/
theorem echoInv_move {port : UInt16} {fd : Int} {tr : List Event} {pc pc' : HandleClient}
    {e : Event} (inv : EchoInv port tr pc) (move : Move fd pc e pc') :
    EchoInv port (tr ++ [e]) pc' := by
  cases move with
  | welcomeFail hs =>
      refine ⟨⟨_, [], [], 0, Nat.zero_le 1, .inl (Served.sendFail inv hs)⟩, ?_⟩
      exact exists_failed_concat (by simpa [Sending.call, failed] using hs)
  | welcomeMore hs hrest => exact Served.send inv hrest
  | welcomeDone hs hrest =>
      exact ⟨[], Served.send inv (by rw [hrest, List.append_nil])⟩
  | eof =>
      obtain ⟨cs, inv⟩ := inv
      obtain ⟨bytes, answers⟩ := inv.recv fd recvRoom (.int 0)
      exact ⟨cs, inv.plain, by simpa using answers, by simpa using bytes⟩
  | @recvFail r hr =>
      obtain ⟨cs, inv⟩ := inv
      obtain ⟨bytes, answers⟩ := inv.recv fd recvRoom (.int r)
      refine ⟨⟨[], cs, [], r, by simp, .inr ⟨inv.plain, by simpa using answers,
        by simpa using bytes⟩⟩, ?_⟩
      exact exists_failed_concat (by simpa [failed] using hr)
  | @recvData s _ hrest =>
      obtain ⟨cs, inv⟩ := inv
      obtain ⟨bytes, answers⟩ := inv.recv fd recvRoom (.data s.data)
      refine ⟨cs, inv.plain, by simpa using answers, ?_⟩
      -- the echo owes exactly the chunk just received
      rw [List.append_nil] at bytes
      rw [hrest, List.flatten_append, List.flatten_singleton, ← List.append_assoc, bytes]
  | @echoFail s sent hs =>
      obtain ⟨cs, inv⟩ := inv
      refine ⟨⟨_, cs, [s.data], 0, Nat.le_refl 1, .inl (inv.sendFail hs)⟩, ?_⟩
      exact exists_failed_concat (by simpa [Sending.call, failed] using hs)
  | echoMore hs hdata hrest =>
      obtain ⟨cs, inv⟩ := inv
      refine ⟨cs, ?_⟩
      rw [hdata]
      exact inv.send hrest
  | echoQuit hs hrest hq =>
      obtain ⟨cs, inv⟩ := inv
      exact ⟨cs, _, hq, inv.send (by rw [hrest, List.append_nil])⟩
  | @echoNext s sent hs hrest hq =>
      obtain ⟨cs, inv⟩ := inv
      have sentAll : Served port (tr ++ [(s.call fd, .int sent)]) [] cs [s.data] [] :=
        inv.send (by rw [hrest, List.append_nil])
      refine ⟨cs ++ [s.data], sentAll.plain.concat hq, ?_, ?_⟩
      · rw [sentAll.answers, List.append_nil (cs ++ [s.data])]
      · rw [sentAll.bytes, List.append_nil (cs ++ [s.data])]
  | close => exact Ended.close inv

/-- Run lemma for the echo invariant. -/
theorem echoInv_run {port : UInt16} {fd : Int} {tr : List Event} {pc : HandleClient}
    (run : (session port fd).run tr = some pc) : EchoInv port tr pc :=
  System.run_invariant (I := EchoInv port) (echoInv_init port fd)
    (fun _ _ _ _ _ inv h => echoInv_move inv (move_of_step h)) run

/-! ## A session ends -/

/-- The calls of a session are paid for: a `send` that succeeds by a byte it
accepts, a `recv` by its answer. Only the last call of a session, the `close`
or the one that fails, may be in excess. -/
def CallsInv (tr : List Event) : HandleClient → Prop
  | .returned _ => tr.length ≤ (accepted tr).length + (recvRets tr).length + 1
  | .threw _ => tr.length ≤ (accepted tr).length + (recvRets tr).length + 1
  | _ => tr.length ≤ (accepted tr).length + (recvRets tr).length

/-- One more call than is paid for. -/
theorem calls_excess {tr : List Event} (inv : tr.length ≤ (accepted tr).length + (recvRets tr).length)
    (e : Event) : (tr ++ [e]).length ≤
      (accepted (tr ++ [e])).length + (recvRets (tr ++ [e])).length + 1 := by
  rw [accepted_concat, recvRets_concat, List.length_append, List.length_append,
    List.length_append, List.length_singleton]
  omega

/-- A `recv` is paid for by its answer. -/
theorem calls_recv {tr : List Event} (inv : tr.length ≤ (accepted tr).length + (recvRets tr).length)
    (fd : Int) (len : Nat) (r : Ret) : (tr ++ [(Call.recv fd len, r)]).length ≤
      (accepted (tr ++ [(Call.recv fd len, r)])).length +
        (recvRets (tr ++ [(Call.recv fd len, r)])).length := by
  rw [accepted_concat, recvRets_concat_recv, List.length_append, List.length_append,
    List.length_append, List.length_singleton, List.length_singleton]
  omega

/-- A `send` that succeeds is paid for by the bytes it accepts. -/
theorem calls_send {tr : List Event} (inv : tr.length ≤ (accepted tr).length + (recvRets tr).length)
    (s : Sending) (fd : Int) {n : Int} (pos : 0 < n) : (tr ++ [(s.call fd, Ret.int n)]).length ≤
      (accepted (tr ++ [(s.call fd, Ret.int n)])).length +
        (recvRets (tr ++ [(s.call fd, Ret.int n)])).length := by
  have := List.length_pos_iff.mpr (s.take_rest_ne_nil pos)
  rw [accepted_concat, Sending.acceptedBy_call, List.length_append, List.length_append,
    Sending.call, recvRets_concat_send, List.length_singleton]
  omega

theorem callsInv_move {fd : Int} {tr : List Event} {pc pc' : HandleClient} {e : Event}
    (inv : CallsInv tr pc) (move : Move fd pc e pc') : CallsInv (tr ++ [e]) pc' := by
  cases move with
  | welcomeFail hs => exact calls_excess inv _
  | welcomeMore hs hrest => exact calls_send inv _ fd hs
  | welcomeDone hs hrest => exact calls_send inv _ fd hs
  | eof => exact calls_recv inv fd _ _
  | recvFail hr => exact calls_excess inv _
  | recvData hroom hrest => exact calls_recv inv fd _ _
  | echoFail hs => exact calls_excess inv _
  | echoMore hs hdata hrest => exact calls_send inv _ fd hs
  | echoQuit hs hrest hq => exact calls_send inv _ fd hs
  | echoNext hs hrest hq => exact calls_send inv _ fd hs
  | close => exact calls_excess inv _

theorem callsInv_run {port : UInt16} {fd : Int} {tr : List Event} {pc : HandleClient}
    (run : (session port fd).run tr = some pc) : CallsInv tr pc := by
  refine System.run_invariant (I := CallsInv) ?_ ?_ run
  · obtain ⟨s, hs, _⟩ := sendFrom_zero_of_ne_nil (welcome_ne_nil port)
    show CallsInv [] (afterWelcome (sendFrom (welcome port) 0))
    rw [hs]
    exact Nat.zero_le _
  · intro ls s l s' _ inv h
    exact callsInv_move inv (move_of_step h)

/-! ## Reading the contract off the invariant -/

/-- Chunks answered so far, where the answers begin a script of chunks. -/
theorem prefix_of_answers {cs chunks : List Bytes} {fin : List Ret} {last : Int}
    (h : cs.map Ret.data ++ fin <+: chunks.map Ret.data ++ [Ret.int last]) : cs <+: chunks := by
  induction cs generalizing chunks with
  | nil => exact List.nil_prefix
  | cons c cs ih =>
      cases chunks with
      | nil => simp [List.cons_prefix_cons] at h
      | cons d ds =>
          simp only [List.map_cons, List.cons_append, List.cons_prefix_cons,
            Ret.data.injEq] at h
          exact List.cons_prefix_cons.mpr ⟨h.1, ih h.2⟩

/-- Once `recv` has answered the integer that ends the script, every chunk of
the script has been received. -/
theorem eq_of_answers {cs chunks : List Bytes} {r last : Int}
    (h : cs.map Ret.data ++ [Ret.int r] <+: chunks.map Ret.data ++ [Ret.int last]) : cs = chunks := by
  induction cs generalizing chunks with
  | nil =>
      cases chunks with
      | nil => rfl
      | cons d ds => simp [List.cons_prefix_cons] at h
  | cons c cs ih =>
      cases chunks with
      | nil => simp [List.cons_prefix_cons] at h
      | cons d ds =>
          simp only [List.map_cons, List.cons_append, List.cons_prefix_cons,
            Ret.data.injEq] at h
          rw [h.1, ih h.2]

theorem filterMap_chunk?_data (cs : List Bytes) : (cs.map Ret.data).filterMap chunk? = cs := by
  induction cs with
  | nil => rfl
  | cons c cs ih => simp only [List.map_cons, List.filterMap_cons, chunk?, ih]

theorem Served.received_eq {port : UInt16} {tr : List Event} {owed : Bytes}
    {cs last : List Bytes} {fin : List Ret} (h : Served port tr owed cs last fin)
    (hfin : fin.filterMap chunk? = []) : received tr = cs ++ last := by
  rw [received, h.answers, List.filterMap_append, filterMap_chunk?_data, hfin, List.append_nil]

/-- What every control point has in common. -/
def Viewed (port : UInt16) (tr : List Event) : Prop :=
  ∃ owed cs last fin, Served port tr owed cs last fin ∧ last.length ≤ 1 ∧
    fin.filterMap chunk? = []

theorem Ended.view {port : UInt16} {tr : List Event} {why : Ending} (h : Ended port tr why) :
    Viewed port tr := by
  cases why with
  | eof =>
      obtain ⟨cs, hs⟩ := h
      exact ⟨_, cs, _, _, hs, Nat.zero_le 1, rfl⟩
  | quit =>
      obtain ⟨cs, c, _, hs⟩ := h
      exact ⟨_, cs, _, _, hs, Nat.le_refl 1, rfl⟩

theorem EchoInv.view {port : UInt16} {tr : List Event} {pc : HandleClient}
    (inv : EchoInv port tr pc) : Viewed port tr := by
  cases pc with
  | welcome s => exact ⟨_, _, _, _, inv, Nat.zero_le 1, rfl⟩
  | recv =>
      obtain ⟨cs, inv⟩ := inv
      exact ⟨_, cs, _, _, inv, Nat.zero_le 1, rfl⟩
  | echo s =>
      obtain ⟨cs, inv⟩ := inv
      exact ⟨_, cs, _, _, inv, Nat.le_refl 1, rfl⟩
  | close why => exact Ended.view inv
  | returned why => exact Ended.view inv
  | threw what =>
      obtain ⟨⟨owed, cs, last, r, short, inv | inv⟩, _⟩ := inv
      · exact ⟨_, cs, _, _, inv, short, rfl⟩
      · exact ⟨_, cs, _, _, inv, short, rfl⟩

/-- A session that has returned served its script to the end or to the first
quit command, and has nothing left to send. -/
theorem Ended.complete {port : UInt16} {tr : List Event} {why : Ending} {chunks : List Bytes}
    {fin : Int} (h : Ended port tr why)
    (script : recvRets tr <+: chunks.map Ret.data ++ [.int fin]) :
    accepted tr = welcome port ++ (untilQuit chunks).flatten ∧
      received tr = untilQuit chunks := by
  cases why with
  | eof =>
      obtain ⟨cs, hs⟩ := h
      have bytes := hs.bytes
      have chunksEq := hs.received_eq rfl
      rw [hs.answers, List.append_nil] at script
      have all : cs = chunks := eq_of_answers script
      subst all
      rw [untilQuit_of_plain hs.plain]
      simpa using And.intro bytes chunksEq
  | quit =>
      obtain ⟨cs, c, hc, hs⟩ := h
      have bytes := hs.bytes
      have chunksEq := hs.received_eq rfl
      rw [hs.answers] at script
      rw [untilQuit_eq_of_quit hs.plain hc (prefix_of_answers script)]
      rw [List.append_nil] at bytes
      exact ⟨bytes, chunksEq⟩

/-- **Echo fidelity of a session.** Whatever the fragmentation of the input
and of the output: the bytes handed to the kernel are a prefix of the welcome
and the chunks up to the first quit command, nothing beyond those chunks is
received, a session in which no call fails ends with exactly those bytes sent,
and the number of calls is bounded, so the session does end. -/
theorem handleClient_echo (port : UInt16) (fd : Int) (chunks : List Bytes) (fin : Int)
    {tr : List Event} {pc : HandleClient} (run : (session port fd).run tr = some pc)
    (script : recvRets tr <+: chunks.map Ret.data ++ [.int fin]) :
    accepted tr <+: welcome port ++ (untilQuit chunks).flatten ∧
    received tr <+: untilQuit chunks ∧
    (HandleClient.pending fd pc = none → (∀ e ∈ tr, failed e = false) →
      accepted tr = welcome port ++ (untilQuit chunks).flatten ∧
        received tr = untilQuit chunks) ∧
    tr.length ≤ (welcome port ++ (untilQuit chunks).flatten).length + chunks.length + 2 := by
  have inv := echoInv_run run
  obtain ⟨owed, cs, last, fin', hs, short, hfin⟩ := inv.view
  have served : cs ++ last <+: untilQuit chunks := by
    rw [hs.answers] at script
    exact prefix_untilQuit hs.plain short (prefix_of_answers script)
  have sent : accepted tr <+: welcome port ++ (untilQuit chunks).flatten := by
    have within : welcome port ++ (cs ++ last).flatten <+:
        welcome port ++ (untilQuit chunks).flatten :=
      (List.prefix_append_right_inj _).mpr served.flatten
    exact List.IsPrefix.trans ⟨owed, hs.bytes⟩ within
  refine ⟨sent, ?_, ?_, ?_⟩
  · rw [hs.received_eq hfin]
    exact served
  · intro ended clean
    cases pc with
    | welcome s => simp [HandleClient.pending] at ended
    | recv => simp [HandleClient.pending] at ended
    | echo s => simp [HandleClient.pending] at ended
    | close why => simp [HandleClient.pending] at ended
    | returned why => exact Ended.complete inv script
    | threw what =>
        -- a session only throws out of a call that failed
        obtain ⟨_, e, he, hf⟩ := inv
        rw [clean e he] at hf
        cases hf
  · have calls : tr.length ≤ (accepted tr).length + (recvRets tr).length + 1 := by
      have h := callsInv_run run
      cases pc <;> simp only [CallsInv] at h <;> omega
    have hsent := sent.length_le
    have hrecv := script.length_le
    simp only [List.length_append, List.length_map, List.length_singleton] at hsent hrecv ⊢
    omega

/-- A session on port 80: the welcome in two pieces, one plain chunk, then the
quit command; the rest of the script is never read. -/
def sampleSession : List Event :=
  [(.send 4 (welcome 80), .int 10), (.send 4 ((welcome 80).drop 10), .int 62),
    (.recv 4 1023, .data (ascii "hi\n")), (.send 4 (ascii "hi\n"), .int 3),
    (.recv 4 1023, .data (ascii "Q\r\n")), (.send 4 (ascii "Q\r\n"), .int 3),
    (.close 4, .int 0)]

theorem sampleSession_run :
    (session 80 4).run sampleSession = some (.returned .quit) := by decide

theorem handleClient_echo_sample :
    accepted sampleSession = welcome 80 ++
      (untilQuit [ascii "hi\n", ascii "Q\r\n", ascii "late\n"]).flatten := by
  have served := handleClient_echo 80 4 [ascii "hi\n", ascii "Q\r\n", ascii "late\n"] 0
    sampleSession_run (by decide)
  exact (served.2.2.1 rfl (by decide)).1

end CppLab.Socket.TCPServer
