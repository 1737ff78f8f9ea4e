import CppLab.Socket.MultiTCPServer

/-!
# What `MultiTCPServer::acceptLoop` leaves behind

The joins after the loop run only when the loop is left by its condition or its
`break`. An exception out of `emplace_back` skips them, and also leaves the
descriptor just accepted without a session to close it.
-/

namespace CppLab.Socket.MultiTCPServer

open CppLab.Posix CppLab.Socket.TCPServer

/-- Some connection is open under a number. -/
def Opened (conns : List Conn) (fd : Int) : Prop :=
  ∃ (i : Nat) (c : Conn), conns[i]? = some c ∧ c.live = true ∧ c.fd = fd

/-- The last call of a session frees the number of its connection only. -/
theorem opened_set_closed {port : UInt16} {s : Server} {i : Nat} {c c' : Conn} {fd : Int}
    (inv : Inv port s) (hc : s.conns[i]? = some c) (live : c.live = true)
    (closed : c'.live = false) :
    Opened (s.conns.set i c') fd ↔ fd ≠ c.fd ∧ Opened s.conns fd := by
  constructor
  · rintro ⟨j, d, hd, dlive, rfl⟩
    rcases getElem?_set_cases hd with ⟨rfl, rfl⟩ | ⟨ne, hd⟩
    · rw [closed] at dlive
      cases dlive
    · exact ⟨fun same => ne (inv.distinct j i d c hd hc dlive live same), j, d, hd, dlive, rfl⟩
  · rintro ⟨ne, j, d, hd, dlive, rfl⟩
    have other : i ≠ j := by
      rintro rfl
      rw [hc] at hd
      injection hd with hd
      exact ne (hd ▸ rfl)
    exact ⟨j, d, by rw [List.getElem?_set_ne other, hd], dlive, rfl⟩

/-- Any other call leaves the open numbers as they are. -/
theorem opened_set_live {s : Server} {i : Nat} {c c' : Conn} {fd : Int}
    (hc : s.conns[i]? = some c) (live : c.live = true) (live' : c'.live = true)
    (same : c'.fd = c.fd) : Opened (s.conns.set i c') fd ↔ Opened s.conns fd := by
  have lt : i < s.conns.length := (List.getElem?_eq_some_iff.mp hc).1
  constructor
  · rintro ⟨j, d, hd, dlive, rfl⟩
    rcases getElem?_set_cases hd with ⟨rfl, rfl⟩ | ⟨_, hd⟩
    · exact ⟨j, c, hc, live, same.symm⟩
    · exact ⟨j, d, hd, dlive, rfl⟩
  · rintro ⟨j, d, hd, dlive, rfl⟩
    by_cases eq : i = j
    · subst eq
      rw [hc] at hd
      injection hd with hd
      exact ⟨i, c', List.getElem?_set_self lt, live', hd ▸ same⟩
    · exact ⟨j, d, by rw [List.getElem?_set_ne eq, hd], dlive, rfl⟩

/-- `accept` opens the number it returns. -/
theorem opened_concat {conns : List Conn} {fd g : Int} :
    Opened (conns ++ [⟨fd, true, []⟩]) g ↔ g = fd ∨ Opened conns g := by
  constructor
  · rintro ⟨j, d, hd, dlive, rfl⟩
    rcases getElem?_concat_cases hd with ⟨_, rfl⟩ | hd
    · exact .inl rfl
    · exact .inr ⟨j, d, hd, dlive, rfl⟩
  · rintro (rfl | ⟨j, d, hd, dlive, rfl⟩)
    · exact ⟨conns.length, _, List.getElem?_concat_length, rfl, rfl⟩
    · have lt : j < conns.length := (List.getElem?_eq_some_iff.mp hd).1
      exact ⟨j, d, by rw [List.getElem?_append_left lt, hd], dlive, rfl⟩

/-- Step lemma: the book-keeper has open exactly the numbers of the open
connections. -/
theorem ledger_step {port : UInt16} {tr : List Label} {s s' : Server} {l : Label}
    (inv : Inv port s)
    (book : ∃ o, Ledger.replay (ledger tr) = some o ∧ ∀ fd, fd ∈ o ↔ Opened s.conns fd)
    (h : (acceptLoop port).step s l = some s') :
    ∃ o, Ledger.replay (ledger (tr ++ [l])) = some o ∧ ∀ fd, fd ∈ o ↔ Opened s'.conns fd := by
  obtain ⟨o, replay, mem⟩ := book
  rcases conns_step inv h with
    ⟨i, t, e, c, st', rfl, hc, serves, hst, conns⟩ | ⟨fd, rfl, nonneg, fresh, conns⟩ | ⟨quiet, conns⟩
  · have own : e.1.fd? = some c.fd := serves.fd ▸ service_step_fd hst
    have live : c.live = true := serves.live.mpr (ne_done_of_step hst)
    rw [conns, Conn.route_own live own]
    rcases service_step_cases hst with ⟨⟨r, rfl⟩, rfl⟩ | ⟨notClose, _⟩
    · have same : t.fd = c.fd := serves.fd
      have hmem : t.fd ∈ o := (mem t.fd).mpr ⟨i, c, hc, live, same.symm⟩
      rw [ledger_concat_some (show entry _ = some (.closed t.fd) from rfl)]
      refine ⟨o.erase t.fd, Ledger.replay_concat replay (Ledger.record_closed hmem), fun g => ?_⟩
      rw [(Ledger.replay_nodup replay).mem_erase_iff, mem, same]
      exact (opened_set_closed inv hc live rfl).symm
    · have skipped : entry (.thread i e) = none := by
        obtain ⟨call, r⟩ := e
        cases call <;> first | rfl | cases notClose
      rw [ledger_concat_none skipped]
      have live' : (!e.1.isClose) = true := by
        rw [notClose]
        rfl
      refine ⟨o, replay, fun g => ?_⟩
      rw [mem]
      exact Iff.symm (opened_set_live hc live live' rfl)
  · have opened : entry (.accept fd) = some (.opened fd) := if_neg (by omega)
    have closed : fd ∉ o := by
      intro hfd
      obtain ⟨j, c, hc, live, same⟩ := (mem fd).mp hfd
      exact fresh c (List.mem_of_getElem? hc) live same
    rw [ledger_concat_some opened, conns]
    refine ⟨fd :: o, Ledger.replay_concat replay (Ledger.record_opened closed), fun g => ?_⟩
    rw [List.mem_cons, mem, opened_concat]
  · rw [ledger_concat_none (entry_quiet quiet), conns]
    exact ⟨o, replay, mem⟩

/-- Run lemma. -/
theorem ledger_run {port : UInt16} {tr : List Label} {s : Server}
    (run : (acceptLoop port).run tr = some s) :
    ∃ o, Ledger.replay (ledger tr) = some o ∧ ∀ fd, fd ∈ o ↔ Opened s.conns fd := by
  refine System.run_invariant (I := fun tr s => ∃ o, Ledger.replay (ledger tr) = some o ∧
    ∀ fd, fd ∈ o ↔ Opened s.conns fd) ⟨[], rfl, by simp [Opened, acceptLoop]⟩ ?_ run
  intro tr s l s' run book h
  exact ledger_step (inv_run run) book h

/-! ## Leaving the loop -/

/-- The main thread makes no step from `threw`, and comes there by a failed
`emplace_back` only. -/
theorem main_threw {port : UInt16} {s s' : Server} {l : Label}
    (h : mainStep port s l = some s') :
    s.pc ≠ .threw ∧ (s'.pc = .threw ↔ l = .emplace false) := by
  cases hpc : s.pc with
  | threw => cases l <;> simp [mainStep, hpc] at h
  | left => cases l <;> simp [mainStep, hpc] at h
  | head =>
      cases l <;> simp only [mainStep, hpc, Option.some.injEq, reduceCtorEq] at h
      subst h
      refine ⟨by simp, ?_⟩
      split <;> simp
  | failed =>
      cases l <;> simp only [mainStep, hpc, Option.some.injEq, reduceCtorEq] at h
      subst h
      refine ⟨by simp, ?_⟩
      split <;> simp
  | accept =>
      cases l <;> simp only [mainStep, hpc, reduceCtorEq] at h
      refine ⟨by simp, ?_⟩
      split at h
      · injection h with h
        simp [← h]
      · split at h
        · cases h
        · injection h with h
          simp [← h]
  | emplace fd =>
      cases l <;> simp only [mainStep, hpc, reduceCtorEq] at h
      refine ⟨by simp, ?_⟩
      split at h <;> injection h with h <;> simp_all [← h]
  | join i =>
      cases l <;> simp only [mainStep, hpc, reduceCtorEq] at h
      refine ⟨by simp, ?_⟩
      cases ht : s.threads[i]? with
      | none =>
          simp only [ht, Option.some.injEq] at h
          simp [← h]
      | some t =>
          simp only [ht] at h
          split at h
          · injection h with h
            simp [← h]
          · split at h
            · injection h with h
              simp [← h]
            · cases h

/-- The loop is left by an exception once an `emplace_back` has thrown, and
only then. -/
theorem threw_iff {port : UInt16} {tr : List Label} {s : Server}
    (run : (acceptLoop port).run tr = some s) : s.pc = .threw ↔ Label.emplace false ∈ tr := by
  refine System.run_invariant (I := fun tr s => s.pc = .threw ↔ Label.emplace false ∈ tr)
    (by simp [acceptLoop]) ?_ run
  intro tr s l s' _ inv h
  rw [List.mem_append, ← inv, List.mem_singleton]
  rcases step_cases h with ⟨i, t, e, st', rfl, _, _, rfl⟩ | ⟨rfl, rfl⟩ | main
  · simp
  · simp
  · obtain ⟨before, after⟩ := main_threw main
    rw [after]
    constructor
    · rintro rfl
      exact .inr rfl
    · rintro (threw | same)
      · exact absurd threw before
      · exact same.symm

/-- Once every thread has been joined no connection with a thread is open. -/
theorem not_opened_of_left {port : UInt16} {s : Server} (inv : Inv port s) (left : s.pc = .left)
    (fd : Int) : ¬ Opened s.conns fd := by
  rintro ⟨i, c, hc, live, _⟩
  have extra := inv.extra
  have passed := inv.passed
  rw [left] at extra passed
  have lt : i < s.threads.length := by
    have := (List.getElem?_eq_some_iff.mp hc).1
    have : s.conns.length = s.threads.length := extra
    omega
  obtain ⟨d, hd, serves⟩ := inv.serves i _ (List.getElem?_eq_getElem lt)
  rw [hc] at hd
  injection hd with hd
  subst hd
  have joined := passed i _ (List.getElem?_eq_getElem lt)
  exact serves.live.mp live (inv.joined i _ (List.getElem?_eq_getElem lt) joined)

/-- After an exception out of `emplace_back` the connection accepted last stays
open. -/
theorem opened_of_threw {port : UInt16} {s : Server} (inv : Inv port s) (threw : s.pc = .threw) :
    ∃ fd, Opened s.conns fd := by
  have extra := inv.extra
  rw [threw] at extra
  obtain ⟨fd, _, last⟩ := extra
  exact ⟨fd, s.threads.length, _, last, rfl, rfl⟩

/-- **What the loop leaves behind.** Whenever `acceptLoop` has been left, every
accepted descriptor has been closed exactly once and every thread has been
joined, if and only if no `emplace_back` of the run threw. -/
theorem acceptLoop_leavesNothing_iff (port : UInt16) {tr : List Label} {s : Server}
    (run : (acceptLoop port).run tr = some s) (left : s.pc = .left ∨ s.pc = .threw) :
    (Ledger.ExactlyOnce (ledger tr) ∧ ∀ t ∈ s.threads, t.joined = true) ↔
      Label.emplace false ∉ tr := by
  have inv := inv_run run
  obtain ⟨o, replay, mem⟩ := ledger_run run
  rw [Ledger.exactlyOnce_iff_of_replay replay, ← threw_iff run]
  constructor
  · rintro ⟨none, _⟩ threw
    obtain ⟨fd, opened⟩ := opened_of_threw inv threw
    have hfd := (mem fd).mpr opened
    rw [none] at hfd
    cases hfd
  · intro notThrew
    have left : s.pc = .left := left.resolve_right notThrew
    refine ⟨List.eq_nil_iff_forall_not_mem.mpr fun fd hfd => ?_, fun t ht => ?_⟩
    · exact not_opened_of_left inv left fd ((mem fd).mp hfd)
    · obtain ⟨i, hi⟩ := List.mem_iff_getElem?.mp ht
      have passed := inv.passed
      rw [left] at passed
      exact passed i t hi

/-- One client, then a `stop`, then the joins. -/
def sampleLeft : List Label :=
  [.check, .accept 4, .emplace true, .thread 0 (.send 4 (welcome 80), .int (-1)), .stop,
    .check, .thread 0 (.close 4, .int 0), .join, .join]

theorem acceptLoop_leavesNothing_iff_sample :
    Ledger.ExactlyOnce (ledger sampleLeft) ∧
      ∀ t ∈ [(⟨4, .done, true⟩ : Thread)], t.joined = true := by
  have run : (acceptLoop 80).run sampleLeft =
      some ⟨false, .left, [⟨4, .done, true⟩],
        [⟨4, false, [(.send 4 (welcome 80), .int (-1)), (.close 4, .int 0)]⟩]⟩ := by decide
  exact (acceptLoop_leavesNothing_iff 80 run (.inl rfl)).mpr (by decide)

/-- A second client arrives while the first is served, and the thread for it
cannot be created. -/
def sampleThrew : List Label :=
  [.check, .accept 4, .emplace true, .check, .accept 5, .emplace false]

/-- Its descriptor is never closed, and the first thread is not joined. -/
theorem not_leavesNothing_emplace :
    ∃ s, (acceptLoop 80).run sampleThrew = some s ∧ s.pc = .threw ∧
      ¬ Ledger.ExactlyOnce (ledger sampleThrew) ∧ ∃ t ∈ s.threads, t.joined = false := by
  refine ⟨⟨true, .threw, [⟨4, (serveClient 80 4).init, false⟩], [⟨4, true, []⟩, ⟨5, true, []⟩]⟩,
    by decide, rfl, ?_, ⟨_, List.mem_singleton.mpr rfl, rfl⟩⟩
  intro once
  have closed := once [.opened 4] 5 [] (by decide)
  exact absurd closed (by decide)

end CppLab.Socket.MultiTCPServer
