import CppLab.Socket.AcceptLoop

/-!
# `MultiTCPServer::acceptLoop`

The threaded server: one thread for each accepted client, all of them running
the same guarded session as the sequential server, and the joins after the
loop. The kernel's side is in the state too: every accepted connection with
the calls that reached it. A call names a descriptor number, and reaches
whatever is open under it, so that a session is served by its own thread and
by no other is something to prove.
-/

namespace CppLab.Socket.MultiTCPServer

open CppLab.Posix CppLab.Socket.TCPServer

/-- One accepted connection as the kernel sees it: the number `accept` returned
for it, whether that is still open, and the calls that reached it. -/
structure Conn where
  fd : Int
  live : Bool
  log : List Event
  deriving DecidableEq

/-- A completed call, as it reaches the connection open under its number. -/
def Conn.route (e : Event) (c : Conn) : Conn :=
  if c.live = true ∧ e.1.fd? = some c.fd then
    { c with live := !e.1.isClose, log := c.log ++ [e] }
  else c

/-- An element of `client_threads_`: the captured descriptor, where the lambda
stands, and whether `join` has returned. -/
structure Thread where
  fd : Int
  st : Serve
  joined : Bool
  deriving DecidableEq

/-- Control points of `acceptLoop`: `failed` is the branch of a negative
`accept`, `join i` the loop over `client_threads_` after it, `threw` an
exception out of `emplace_back`. -/
inductive Pc
  | head
  | accept
  | failed
  | emplace (fd : Int)
  | join (i : Nat)
  | left
  | threw
  deriving DecidableEq

structure Server where
  running : Bool
  pc : Pc
  threads : List Thread
  conns : List Conn
  deriving DecidableEq

/-- `check` evaluates `isRunning()`, `accept` completes the call of that name,
`emplace` is `emplace_back` with its outcome, `thread i` completes a call of
client thread `i`, `join` a pass of the join loop, `stop` another thread's
`stop()`. -/
inductive Label
  | check
  | accept (fd : Int)
  | emplace (ok : Bool)
  | thread (i : Nat) (e : Event)
  | join
  | stop
  deriving DecidableEq

/-- The main thread: the loop itself. -/
def mainStep (port : UInt16) (s : Server) : Label → Option Server
  | .check =>
      match s.pc with
      | .head => some { s with pc := if s.running then .accept else .join 0 }
      | .failed => some { s with pc := if s.running then .head else .join 0 }
      | _ => none
  | .accept fd =>
      match s.pc with
      | .accept =>
          if fd < 0 then some { s with pc := .failed }
          -- the kernel does not hand out a number that is still open
          else if s.conns.any fun c => c.live && c.fd = fd then none
          else some { s with pc := .emplace fd, conns := s.conns ++ [⟨fd, true, []⟩] }
      | _ => none
  | .emplace ok =>
      match s.pc with
      | .emplace fd =>
          if ok then
            some { s with
              pc := .head
              threads := s.threads ++ [⟨fd, (serveClient port fd).init, false⟩] }
          else some { s with pc := .threw }
      | _ => none
  | .join =>
      match s.pc with
      | .join i =>
          match s.threads[i]? with
          | none => some { s with pc := .left }
          | some t =>
              -- `t.joinable()`
              if t.joined then some { s with pc := .join (i + 1) }
              -- `join` returns once the thread has ended
              else if t.st = .done then
                some { s with
                  pc := .join (i + 1)
                  threads := s.threads.set i { t with joined := true } }
              else none
      | _ => none
  | _ => none

/-- `acceptLoop()`, entered by `start` with `running_` set. The registry makes a
fresh object for every execution, so `client_threads_` is empty. -/
def acceptLoop (port : UInt16) : System Server Label where
  init := ⟨true, .head, [], []⟩
  step s l :=
    match l with
    | .thread i e =>
        match s.threads[i]? with
        | none => none
        | some t =>
            ((service port t.fd).step t.st e).map fun st' =>
              { s with
                threads := s.threads.set i { t with st := st' }
                conns := s.conns.map (Conn.route e) }
    | .stop => some { s with running := false }
    | l => mainStep port s l

/-! ## Routing -/

/-- A call leaves a connection alone that is not open under its number. -/
theorem Conn.route_other {e : Event} {c : Conn} (other : c.live = true → e.1.fd? ≠ some c.fd) :
    c.route e = c := by
  unfold Conn.route
  exact if_neg fun h => other h.1 h.2

theorem Conn.route_own {e : Event} {c : Conn} (live : c.live = true)
    (own : e.1.fd? = some c.fd) :
    c.route e = { c with live := !e.1.isClose, log := c.log ++ [e] } := by
  unfold Conn.route
  exact if_pos ⟨live, own⟩

@[simp] theorem Conn.route_fd (e : Event) (c : Conn) : (c.route e).fd = c.fd := by
  unfold Conn.route
  split <;> rfl

theorem Conn.live_of_route {e : Event} {c : Conn} (h : (c.route e).live = true) :
    c.live = true := by
  unfold Conn.route at h
  split at h
  · rename_i own
    exact own.1
  · exact h

/-! ## The invariant -/

/-- Thread `t` serves connection `c`: the calls that reached the connection are
a run of the thread's session, and the connection is open until the session is
done. -/
structure Serves (port : UInt16) (t : Thread) (c : Conn) : Prop where
  fd : t.fd = c.fd
  run : (service port c.fd).run c.log = some t.st
  live : c.live = true ↔ t.st ≠ .done

/-- What the main thread has accepted beyond the `n` clients with a thread. -/
def Pc.Extra (pc : Pc) (n : Nat) (conns : List Conn) : Prop :=
  match pc with
  | .emplace fd => conns.length = n + 1 ∧ conns[n]? = some ⟨fd, true, []⟩
  | .threw => ∃ fd, conns.length = n + 1 ∧ conns[n]? = some ⟨fd, true, []⟩
  | _ => conns.length = n

/-- The threads the join loop has passed. -/
def Pc.Passed (pc : Pc) (threads : List Thread) : Prop :=
  match pc with
  | .join k => ∀ (i : Nat) (t : Thread), i < k → threads[i]? = some t → t.joined = true
  | .left => ∀ (i : Nat) (t : Thread), threads[i]? = some t → t.joined = true
  | _ => True

structure Inv (port : UInt16) (s : Server) : Prop where
  serves : ∀ (i : Nat) (t : Thread), s.threads[i]? = some t →
    ∃ c, s.conns[i]? = some c ∧ Serves port t c
  extra : s.pc.Extra s.threads.length s.conns
  distinct : ∀ (i j : Nat) (c d : Conn), s.conns[i]? = some c → s.conns[j]? = some d →
    c.live = true → d.live = true → c.fd = d.fd → i = j
  nonneg : ∀ c ∈ s.conns, 0 ≤ c.fd
  joined : ∀ (i : Nat) (t : Thread), s.threads[i]? = some t → t.joined = true → t.st = .done
  passed : s.pc.Passed s.threads

theorem inv_init (port : UInt16) : Inv port (acceptLoop port).init where
  serves := by simp [acceptLoop]
  extra := rfl
  distinct := by simp [acceptLoop]
  nonneg := by simp [acceptLoop]
  joined := by simp [acceptLoop]
  passed := trivial

/-- A thread and its connection move together. -/
theorem Serves.step {port : UInt16} {t : Thread} {c : Conn} {e : Event} {st' : Serve}
    (h : Serves port t c) (hst : (service port t.fd).step t.st e = some st') :
    Serves port { t with st := st' } (c.route e) := by
  have live : c.live = true := h.live.mpr (ne_done_of_step hst)
  have own : e.1.fd? = some c.fd := h.fd ▸ service_step_fd hst
  rw [Conn.route_own live own]
  have step : (service port c.fd).step t.st e = some st' := h.fd ▸ hst
  refine ⟨h.fd, System.run_concat_eq_some.mpr ⟨t.st, h.run, step⟩, ?_⟩
  show (!e.1.isClose) = true ↔ st' ≠ .done
  rcases service_step_cases hst with ⟨⟨r, rfl⟩, rfl⟩ | ⟨notClose, notDone⟩
  · simp [Call.isClose]
  · simp [notClose, notDone]

/-- The entries of a list with one entry replaced. -/
theorem getElem?_set_cases {α : Type} {l : List α} {i j : Nat} {a b : α}
    (h : (l.set i a)[j]? = some b) : (j = i ∧ b = a) ∨ (j ≠ i ∧ l[j]? = some b) := by
  rw [List.getElem?_set] at h
  split at h
  · rename_i eq
    split at h
    · injection h with h
      exact .inl ⟨eq.symm, h.symm⟩
    · cases h
  · rename_i ne
    exact .inr ⟨Ne.symm ne, h⟩

/-- The entries of a list with one entry added. -/
theorem getElem?_concat_cases {α : Type} {l : List α} {j : Nat} {a b : α}
    (h : (l ++ [a])[j]? = some b) : (j = l.length ∧ b = a) ∨ l[j]? = some b := by
  rcases Nat.lt_trichotomy j l.length with lt | eq | gt
  · rw [List.getElem?_append_left lt] at h
    exact .inr h
  · subst eq
    rw [List.getElem?_concat_length] at h
    injection h with h
    exact .inl ⟨rfl, h.symm⟩
  · rw [List.getElem?_eq_none (by simp; omega)] at h
    cases h

/-- The frame of a client thread: under distinct descriptors its call reaches
its own connection and no other. -/
theorem Inv.route_eq_set {port : UInt16} {s : Server} {i : Nat} {t : Thread} {c : Conn}
    {e : Event} {st' : Serve} (inv : Inv port s) (hc : s.conns[i]? = some c)
    (serves : Serves port t c) (hst : (service port t.fd).step t.st e = some st') :
    s.conns.map (Conn.route e) = s.conns.set i (c.route e) := by
  have hfd : e.1.fd? = some c.fd := serves.fd ▸ service_step_fd hst
  have live : c.live = true := serves.live.mpr (ne_done_of_step hst)
  refine List.ext_getElem? fun j => ?_
  rw [List.getElem?_map, List.getElem?_set]
  split
  · rename_i same
    have lt : i < s.conns.length := (List.getElem?_eq_some_iff.mp hc).1
    rw [← same, if_pos lt, hc]
    rfl
  · rename_i ne
    cases hd : s.conns[j]? with
    | none => rfl
    | some d =>
        refine congrArg some (Conn.route_other fun dlive sameFd => ne ?_)
        rw [hfd] at sameFd
        injection sameFd with sameFd
        exact inv.distinct i j c d hc hd live dlive sameFd

/-- A thread that takes a step stays joined, or not. -/
theorem Pc.Passed.set {pc : Pc} {threads : List Thread} {i : Nat} {t : Thread}
    (passed : pc.Passed threads) (ht : threads[i]? = some t) (st' : Serve) :
    pc.Passed (threads.set i { t with st := st' }) := by
  cases pc with
  | join k =>
      intro j t' hjk hj
      rcases getElem?_set_cases hj with ⟨rfl, rfl⟩ | ⟨_, hj⟩
      · exact passed j t hjk ht
      · exact passed j t' hjk hj
  | left =>
      intro j t' hj
      rcases getElem?_set_cases hj with ⟨rfl, rfl⟩ | ⟨_, hj⟩
      · exact passed j t ht
      · exact passed j t' hj
  | head | accept | failed | emplace fd | threw => trivial

/-- Step lemma for a client thread. -/
theorem inv_thread {port : UInt16} {s : Server} {i : Nat} {t : Thread} {c : Conn} {e : Event}
    {st' : Serve} (inv : Inv port s) (ht : s.threads[i]? = some t)
    (hc : s.conns[i]? = some c) (serves : Serves port t c)
    (hst : (service port t.fd).step t.st e = some st') :
    Inv port { s with
      threads := s.threads.set i { t with st := st' }
      conns := s.conns.set i (c.route e) } := by
  constructor
  case serves =>
    intro j t' hj
    rcases getElem?_set_cases hj with ⟨rfl, rfl⟩ | ⟨ne, hj⟩
    · have lt : j < s.conns.length := (List.getElem?_eq_some_iff.mp hc).1
      exact ⟨c.route e, List.getElem?_set_self lt, serves.step hst⟩
    · obtain ⟨d, hd, serves'⟩ := inv.serves j t' hj
      exact ⟨d, by rw [List.getElem?_set_ne (Ne.symm ne), hd], serves'⟩
  case extra =>
    have lt : i < s.threads.length := (List.getElem?_eq_some_iff.mp ht).1
    have same : (s.conns.set i (c.route e))[s.threads.length]? =
        s.conns[s.threads.length]? := List.getElem?_set_ne (by omega)
    simpa only [Pc.Extra, List.length_set, same] using inv.extra
  case distinct =>
    -- routing neither changes a number nor opens a connection
    have before : ∀ (j : Nat) (d : Conn), (s.conns.set i (c.route e))[j]? = some d →
        d.live = true → ∃ d', s.conns[j]? = some d' ∧ d'.live = true ∧ d'.fd = d.fd := by
      intro j d hd dlive
      rcases getElem?_set_cases hd with ⟨rfl, rfl⟩ | ⟨_, hd⟩
      · exact ⟨c, hc, Conn.live_of_route dlive, (Conn.route_fd e c).symm⟩
      · exact ⟨d, hd, dlive, rfl⟩
    intro j k d d' hd hd' dlive dlive' same
    obtain ⟨x, hx, xlive, xfd⟩ := before j d hd dlive
    obtain ⟨y, hy, ylive, yfd⟩ := before k d' hd' dlive'
    exact inv.distinct j k x y hx hy xlive ylive (by rw [xfd, yfd, same])
  case nonneg =>
    intro d hd
    obtain ⟨j, hj⟩ := List.mem_iff_getElem?.mp hd
    rcases getElem?_set_cases hj with ⟨_, rfl⟩ | ⟨_, hj⟩
    · rw [Conn.route_fd]
      exact inv.nonneg c (List.mem_of_getElem? hc)
    · exact inv.nonneg d (List.mem_of_getElem? hj)
  case joined =>
    intro j t' hj hjoined
    rcases getElem?_set_cases hj with ⟨rfl, rfl⟩ | ⟨_, hj⟩
    · exact absurd (inv.joined j t ht hjoined) (ne_done_of_step hst)
    · exact inv.joined j t' hj hjoined
  case passed => exact inv.passed.set ht st'

/-- The main thread moves only its own control point. -/
theorem Inv.goto {port : UInt16} {s : Server} {pc : Pc} (inv : Inv port s)
    (extra : pc.Extra s.threads.length s.conns) (passed : pc.Passed s.threads) :
    Inv port { s with pc := pc } where
  serves := inv.serves
  extra := extra
  distinct := inv.distinct
  nonneg := inv.nonneg
  joined := inv.joined
  passed := passed

/-- A connection is accepted under a number that nothing is open under. -/
theorem Inv.accepted {port : UInt16} {s : Server} {fd : Int} (inv : Inv port s)
    (len : s.conns.length = s.threads.length) (nonneg : 0 ≤ fd)
    (fresh : ∀ c ∈ s.conns, c.live = true → c.fd ≠ fd) :
    Inv port { s with pc := .emplace fd, conns := s.conns ++ [⟨fd, true, []⟩] } := by
  constructor
  case serves =>
    intro i t ht
    obtain ⟨c, hc, hserves⟩ := inv.serves i t ht
    have lt : i < s.conns.length := (List.getElem?_eq_some_iff.mp hc).1
    exact ⟨c, by rw [List.getElem?_append_left lt, hc], hserves⟩
  case extra =>
    refine ⟨by simp [len], ?_⟩
    rw [← len, List.getElem?_concat_length]
  case distinct =>
    intro i j c d hc hd clive dlive same
    rcases getElem?_concat_cases hc with ⟨rfl, rfl⟩ | hc <;>
      rcases getElem?_concat_cases hd with ⟨rfl, rfl⟩ | hd
    · rfl
    · exact absurd same.symm (fresh d (List.mem_of_getElem? hd) dlive)
    · exact absurd same (fresh c (List.mem_of_getElem? hc) clive)
    · exact inv.distinct i j c d hc hd clive dlive same
  case nonneg =>
    intro c hc
    rcases List.mem_append.mp hc with hc | hc
    · exact inv.nonneg c hc
    · rw [List.mem_singleton] at hc
      subst hc
      exact nonneg
  case joined => exact inv.joined
  case passed => trivial

/-- A thread is created for the connection accepted last. -/
theorem Inv.emplaced {port : UInt16} {s : Server} {fd : Int} (inv : Inv port s)
    (len : s.conns.length = s.threads.length + 1)
    (last : s.conns[s.threads.length]? = some ⟨fd, true, []⟩) :
    Inv port { s with
      pc := .head
      threads := s.threads ++ [⟨fd, (serveClient port fd).init, false⟩] } := by
  constructor
  case serves =>
    intro i t ht
    rcases getElem?_concat_cases ht with ⟨rfl, rfl⟩ | ht
    · exact ⟨_, last, rfl, rfl, by simpa using serveClient_init_ne_done port fd⟩
    · exact inv.serves i t ht
  case extra =>
    show s.conns.length = (s.threads ++ [_]).length
    rw [len, List.length_append]
    rfl
  case distinct => exact inv.distinct
  case nonneg => exact inv.nonneg
  case joined =>
    intro i t ht hjoined
    rcases getElem?_concat_cases ht with ⟨rfl, rfl⟩ | ht
    · cases hjoined
    · exact inv.joined i t ht hjoined
  case passed => trivial

/-- The join loop passes a thread that has ended. -/
theorem Inv.passes {port : UInt16} {s : Server} {k : Nat} {t : Thread} (inv : Inv port s)
    (hpc : s.pc = .join k) (ht : s.threads[k]? = some t) (hdone : t.st = .done) :
    Inv port { s with
      pc := .join (k + 1)
      threads := s.threads.set k { t with joined := true } } := by
  constructor
  case serves =>
    intro i t' hi
    rcases getElem?_set_cases hi with ⟨rfl, rfl⟩ | ⟨_, hi⟩
    · obtain ⟨c, hc, hserves⟩ := inv.serves i t ht
      exact ⟨c, hc, hserves.fd, hserves.run, hserves.live⟩
    · exact inv.serves i t' hi
  case extra =>
    have extra := inv.extra
    rw [hpc] at extra
    show s.conns.length = (s.threads.set k _).length
    rw [List.length_set]
    exact extra
  case distinct => exact inv.distinct
  case nonneg => exact inv.nonneg
  case joined =>
    intro i t' hi hjoined
    rcases getElem?_set_cases hi with ⟨rfl, rfl⟩ | ⟨_, hi⟩
    · exact hdone
    · exact inv.joined i t' hi hjoined
  case passed =>
    have passed := inv.passed
    rw [hpc] at passed
    intro i t' lt hi
    rcases getElem?_set_cases hi with ⟨rfl, rfl⟩ | ⟨ne, hi⟩
    · rfl
    · exact passed i t' (by omega) hi

/-- A pass of the join loop. -/
theorem inv_join {port : UInt16} {s s' : Server} (inv : Inv port s)
    (h : mainStep port s .join = some s') : Inv port s' := by
  have extra := inv.extra
  have passed := inv.passed
  cases hpc : s.pc <;> simp only [mainStep, hpc, reduceCtorEq] at h
  rename_i k
  rw [hpc] at extra passed
  cases ht : s.threads[k]? with
  | none =>
      simp only [ht, Option.some.injEq] at h
      subst h
      refine inv.goto extra fun i t hi => passed i t ?_ hi
      have lt := (List.getElem?_eq_some_iff.mp hi).1
      have le := List.getElem?_eq_none_iff.mp ht
      omega
  | some t =>
      simp only [ht] at h
      split at h
      · rename_i hjoined
        injection h with h
        subst h
        refine inv.goto extra fun i t' lt hi => ?_
        rcases Nat.lt_succ_iff_lt_or_eq.mp lt with before | rfl
        · exact passed i t' before hi
        · rw [ht] at hi
          injection hi with hi
          exact hi ▸ hjoined
      · split at h
        · rename_i hdone
          injection h with h
          exact h ▸ inv.passes hpc ht hdone
        · cases h

/-- Step lemma for the main thread. -/
theorem inv_main {port : UInt16} {s s' : Server} {l : Label} (inv : Inv port s)
    (h : mainStep port s l = some s') : Inv port s' := by
  have extra := inv.extra
  cases l with
  | check =>
      cases hpc : s.pc <;> simp only [mainStep, hpc, Option.some.injEq, reduceCtorEq] at h <;>
        subst h <;> rw [hpc] at extra <;> split
      · exact inv.goto extra trivial
      · exact inv.goto extra fun i t hi => absurd hi (Nat.not_lt_zero i)
      · exact inv.goto extra trivial
      · exact inv.goto extra fun i t hi => absurd hi (Nat.not_lt_zero i)
  | accept fd =>
      cases hpc : s.pc <;> simp only [mainStep, hpc, reduceCtorEq] at h
      rw [hpc] at extra
      split at h
      · injection h with h
        exact h ▸ inv.goto extra trivial
      · rename_i nonneg
        split at h
        · cases h
        · rename_i fresh
          injection h with h
          subst h
          refine inv.accepted extra (by omega) fun c hc live same => fresh ?_
          rw [List.any_eq_true]
          exact ⟨c, hc, by simp [live, same]⟩
  | emplace ok =>
      cases hpc : s.pc <;> simp only [mainStep, hpc, reduceCtorEq] at h
      rename_i fd
      rw [hpc] at extra
      split at h <;> injection h with h <;> subst h
      · exact inv.emplaced extra.1 extra.2
      · exact inv.goto ⟨fd, extra⟩ trivial
  | join => exact inv_join inv h
  | thread i e => cases h
  | stop => cases h

/-- A step is one of the main thread, of a client thread, or a `stop`. -/
theorem step_cases {port : UInt16} {s s' : Server} {l : Label}
    (h : (acceptLoop port).step s l = some s') :
    (∃ i t e st', l = .thread i e ∧ s.threads[i]? = some t ∧
      (service port t.fd).step t.st e = some st' ∧
      s' = { s with
        threads := s.threads.set i { t with st := st' }
        conns := s.conns.map (Conn.route e) }) ∨
    (l = .stop ∧ s' = { s with running := false }) ∨
    mainStep port s l = some s' := by
  cases l with
  | thread i e =>
      cases ht : s.threads[i]? with
      | none => simp only [acceptLoop, ht, reduceCtorEq] at h
      | some t =>
          simp only [acceptLoop, ht] at h
          obtain ⟨st', hst, hs⟩ := Option.map_eq_some_iff.mp h
          exact .inl ⟨i, t, e, st', rfl, ht, hst, hs.symm⟩
  | stop => exact .inr (.inl ⟨rfl, (Option.some.inj h).symm⟩)
  | check => exact .inr (.inr h)
  | accept fd => exact .inr (.inr h)
  | emplace ok => exact .inr (.inr h)
  | join => exact .inr (.inr h)

theorem inv_run {port : UInt16} {tr : List Label} {s : Server}
    (run : (acceptLoop port).run tr = some s) : Inv port s := by
  refine System.state_invariant (inv_init port) ?_ run
  intro s l s' inv h
  rcases step_cases h with ⟨i, t, e, st', _, ht, hst, rfl⟩ | ⟨_, rfl⟩ | main
  · obtain ⟨c, hc, serves⟩ := inv.serves i t ht
    rw [inv.route_eq_set hc serves hst]
    exact inv_thread inv ht hc serves hst
  · exact ⟨inv.serves, inv.extra, inv.distinct, inv.nonneg, inv.joined, inv.passed⟩
  · exact inv_main inv main

/-! ## The connections along a run -/

/-- The descriptors `accept` returned, in order. -/
def accepts (tr : List Label) : List Int :=
  tr.filterMap fun
    | .accept fd => if fd < 0 then none else some fd
    | _ => none

/-- The calls client thread `i` completed, in order. -/
def calls (i : Nat) (tr : List Label) : List Event :=
  tr.filterMap fun
    | .thread j e => if j = i then some e else none
    | _ => none

/-- What a label does to accepted descriptors. -/
def entry : Label → Option (Entry Int)
  | .accept fd => if fd < 0 then none else some (.opened fd)
  | .thread _ (.close fd, _) => some (.closed fd)
  | _ => none

/-- The ledger of accepted descriptors. -/
def ledger (tr : List Label) : List (Entry Int) := tr.filterMap entry

/-- A label that concerns no connection. -/
def Label.Quiet : Label → Prop
  | .accept fd => fd < 0
  | .thread _ _ => False
  | _ => True

/-- What a step does to the connections: a thread's call moves the thread's
connection, `accept` adds one under a free number, and nothing else. -/
theorem conns_step {port : UInt16} {s s' : Server} {l : Label} (inv : Inv port s)
    (h : (acceptLoop port).step s l = some s') :
    (∃ i t e c st', l = .thread i e ∧ s.conns[i]? = some c ∧ Serves port t c ∧
      (service port t.fd).step t.st e = some st' ∧ s'.conns = s.conns.set i (c.route e)) ∨
    (∃ fd, l = .accept fd ∧ 0 ≤ fd ∧ (∀ c ∈ s.conns, c.live = true → c.fd ≠ fd) ∧
      s'.conns = s.conns ++ [⟨fd, true, []⟩]) ∨
    (l.Quiet ∧ s'.conns = s.conns) := by
  rcases step_cases h with ⟨i, t, e, st', rfl, ht, hst, rfl⟩ | ⟨rfl, rfl⟩ | main
  · obtain ⟨c, hc, serves⟩ := inv.serves i t ht
    exact .inl ⟨i, t, e, c, st', rfl, hc, serves, hst, inv.route_eq_set hc serves hst⟩
  · exact .inr (.inr ⟨trivial, rfl⟩)
  · refine .inr ?_
    cases l with
    | accept fd =>
        cases hpc : s.pc <;> simp only [mainStep, hpc, reduceCtorEq] at main
        split at main
        · rename_i neg
          injection main with main
          exact .inr ⟨neg, main ▸ rfl⟩
        · rename_i nonneg
          split at main
          · cases main
          · rename_i fresh
            injection main with main
            refine .inl ⟨fd, rfl, by omega, fun c hc live same => fresh ?_, main ▸ rfl⟩
            rw [List.any_eq_true]
            exact ⟨c, hc, by simp [live, same]⟩
    | check =>
        refine .inr ⟨trivial, ?_⟩
        cases hpc : s.pc <;> simp only [mainStep, hpc, Option.some.injEq, reduceCtorEq] at main <;>
          exact main ▸ rfl
    | emplace ok =>
        refine .inr ⟨trivial, ?_⟩
        cases hpc : s.pc <;> simp only [mainStep, hpc, reduceCtorEq] at main
        split at main <;> injection main with main <;> exact main ▸ rfl
    | join =>
        refine .inr ⟨trivial, ?_⟩
        cases hpc : s.pc <;> simp only [mainStep, hpc, reduceCtorEq] at main
        rename_i k
        cases ht : s.threads[k]? with
        | none =>
            simp only [ht, Option.some.injEq] at main
            exact main ▸ rfl
        | some t =>
            simp only [ht] at main
            split at main
            · injection main with main
              exact main ▸ rfl
            · split at main
              · injection main with main
                exact main ▸ rfl
              · cases main
    | thread i e => cases main
    | stop => cases main

@[simp] theorem accepts_concat_accept {tr : List Label} {fd : Int} (nonneg : 0 ≤ fd) :
    accepts (tr ++ [.accept fd]) = accepts tr ++ [fd] :=
  System.filterMap_concat_some (if_neg (by omega))

@[simp] theorem accepts_concat_thread {tr : List Label} {i : Nat} {e : Event} :
    accepts (tr ++ [.thread i e]) = accepts tr :=
  System.filterMap_concat_none rfl

theorem accepts_concat_quiet {tr : List Label} {l : Label} (quiet : l.Quiet) :
    accepts (tr ++ [l]) = accepts tr := by
  refine System.filterMap_concat_none ?_
  cases l with
  | accept fd => exact if_pos quiet
  | thread i e => exact quiet.elim
  | check => rfl
  | emplace ok => rfl
  | join => rfl
  | stop => rfl

@[simp] theorem calls_concat_own {tr : List Label} {i : Nat} {e : Event} :
    calls i (tr ++ [.thread i e]) = calls i tr ++ [e] :=
  System.filterMap_concat_some (if_pos rfl)

theorem calls_concat_other {tr : List Label} {i : Nat} {l : Label}
    (other : ∀ j e, l = .thread j e → j ≠ i) : calls i (tr ++ [l]) = calls i tr := by
  refine System.filterMap_concat_none ?_
  cases l with
  | thread j e => exact if_neg (other j e rfl)
  | accept fd => rfl
  | check => rfl
  | emplace ok => rfl
  | join => rfl
  | stop => rfl

theorem ledger_concat_some {tr : List Label} {l : Label} {e : Entry Int}
    (h : entry l = some e) : ledger (tr ++ [l]) = ledger tr ++ [e] :=
  System.filterMap_concat_some h

theorem ledger_concat_none {tr : List Label} {l : Label} (h : entry l = none) :
    ledger (tr ++ [l]) = ledger tr :=
  System.filterMap_concat_none h

theorem entry_quiet {l : Label} (quiet : l.Quiet) : entry l = none := by
  cases l with
  | accept fd => exact if_pos quiet
  | thread i e => exact quiet.elim
  | check => rfl
  | emplace ok => rfl
  | join => rfl
  | stop => rfl

/-- The connections against the trace: their numbers are those `accept`
returned, what reached connection `i` is what thread `i` called. -/
structure Logged (tr : List Label) (s : Server) : Prop where
  fds : s.conns.map Conn.fd = accepts tr
  logs : ∀ (i : Nat) (c : Conn), s.conns[i]? = some c → c.log = calls i tr
  idle : ∀ i, s.conns.length ≤ i → calls i tr = []

theorem logged_run {port : UInt16} {tr : List Label} {s : Server}
    (run : (acceptLoop port).run tr = some s) : Logged tr s := by
  refine System.run_invariant (I := Logged) ⟨rfl, by simp [acceptLoop], fun _ _ => rfl⟩ ?_ run
  intro tr s l s' run logged h
  have inv := inv_run run
  rcases conns_step inv h with
    ⟨i, t, e, c, st', rfl, hc, serves, hst, conns⟩ | ⟨fd, rfl, nonneg, _, conns⟩ | ⟨quiet, conns⟩
  · have own : e.1.fd? = some c.fd := serves.fd ▸ service_step_fd hst
    have live : c.live = true := serves.live.mpr (ne_done_of_step hst)
    have other : ∀ k, k ≠ i → calls k (tr ++ [.thread i e]) = calls k tr := by
      intro k ne
      refine calls_concat_other fun j e' same => ?_
      injection same with same
      exact fun h => ne (h.symm.trans same.symm)
    refine ⟨?_, ?_, ?_⟩
    · have same : (s.conns.map Conn.fd)[i]? = some (c.route e).fd := by
        rw [List.getElem?_map, hc, Conn.route_fd]
        rfl
      obtain ⟨lt, same⟩ := List.getElem?_eq_some_iff.mp same
      rw [conns, accepts_concat_thread, List.map_set, ← same, List.set_getElem_self, logged.fds]
    · intro j d hd
      rw [conns] at hd
      rcases getElem?_set_cases hd with ⟨rfl, rfl⟩ | ⟨ne, hd⟩
      · rw [Conn.route_own live own, calls_concat_own, ← logged.logs j c hc]
      · rw [other j ne, logged.logs j d hd]
    · intro j hj
      have lt : i < s.conns.length := (List.getElem?_eq_some_iff.mp hc).1
      rw [conns, List.length_set] at hj
      rw [other j (by omega), logged.idle j hj]
  · have other : ∀ k, calls k (tr ++ [.accept fd]) = calls k tr :=
      fun k => calls_concat_other fun _ _ h => nomatch h
    refine ⟨?_, ?_, ?_⟩
    · rw [conns, accepts_concat_accept nonneg, List.map_append, logged.fds]
      rfl
    · intro j d hd
      rw [conns] at hd
      rw [other]
      rcases getElem?_concat_cases hd with ⟨rfl, rfl⟩ | hd
      · exact (logged.idle _ (Nat.le_refl _)).symm
      · exact logged.logs j d hd
    · intro j hj
      rw [conns, List.length_append] at hj
      rw [other, logged.idle j (by omega)]
  · have other : ∀ k, calls k (tr ++ [l]) = calls k tr := by
      refine fun k => calls_concat_other ?_
      rintro j e rfl
      exact quiet.elim
    refine ⟨?_, ?_, ?_⟩
    · rw [conns, accepts_concat_quiet quiet, logged.fds]
    · intro j d hd
      rw [conns] at hd
      rw [other, logged.logs j d hd]
    · intro j hj
      rw [conns] at hj
      rw [other, logged.idle j hj]

end CppLab.Socket.MultiTCPServer
