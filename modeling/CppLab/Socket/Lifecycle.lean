import CppLab.Lib.Ledger

/-!
# The listening descriptor of `TCPServer`

`createSocket`, `bindSocket`, `listenSocket`, `start`, `stop` and the
destructor, one control point for each system call, over the two members that
say who closes the descriptor: `server_fd_` and `running_`. `stop` closes
`server_fd_` and keeps its value, and `createSocket` overwrites it; both matter
for the histories below.
-/

namespace CppLab.Socket.TCPServer.Lifecycle

/-- Where the object is: outside `start`, in one of its calls, in `acceptLoop`,
or gone. -/
inductive Pc
  | idle
  | socket
  | setsockopt
  | bind
  | listen
  | accepting
  | destroyed
  deriving DecidableEq, Repr

/-- The object, the descriptors of it that the kernel has open, and the
`socket` and `close` calls made so far. -/
structure Server where
  serverFd : Int
  running : Bool
  pc : Pc
  opened : List Int
  log : List (Entry Int)
  deriving DecidableEq

/-- `start` and `destroy` begin the operation of that name, the next four
complete a system call of `start` with its result, `loopReturns` and
`loopThrows` leave `acceptLoop`, and `stop` is called by any thread. -/
inductive Label
  | start
  | socket (fd : Int)
  | setsockopt (r : Int)
  | bind (r : Int)
  | listen (r : Int)
  | loopReturns
  | loopThrows
  | stop
  | destroy
  deriving DecidableEq, Repr

namespace Server

/-- `close(server_fd_)`; on a negative number the kernel closes nothing. -/
def close (s : Server) : Server :=
  if s.serverFd < 0 then s
  else { s with
    opened := s.opened.erase s.serverFd
    log := s.log ++ [.closed s.serverFd] }

/-- The object is back outside `start`, by return or by exception. -/
def leave (s : Server) : Server := { s with pc := .idle }

/-- `if (running_) { close(server_fd_); running_ = false; }` -/
def stop (s : Server) : Server :=
  if s.running then { s.close with running := false } else s

/-- `if (server_fd_ >= 0) close(server_fd_);` -/
def destroy (s : Server) : Server := { s.close with pc := .destroyed }

/-- `server_fd_ = socket(...)` with a valid result. -/
def create (s : Server) (fd : Int) : Server :=
  { s with
    serverFd := fd
    pc := .setsockopt
    opened := fd :: s.opened
    log := s.log ++ [.opened fd] }

end Server

/-- The histories of one server object. -/
def lifecycle : System Server Label where
  init := ⟨-1, false, .idle, [], []⟩
  step s
    | .start => if s.pc = .idle then some { s with pc := .socket } else none
    | .socket fd =>
        -- the kernel does not hand out a number that is still open
        if s.pc = .socket ∧ fd ∉ s.opened then
          some (if fd < 0 then { s.leave with serverFd := fd } else s.create fd)
        else none
    | .setsockopt r =>
        if s.pc = .setsockopt then
          some (if r < 0 then s.leave else { s with pc := .bind })
        else none
    | .bind r =>
        if s.pc = .bind then
          some (if r < 0 then s.leave else { s with pc := .listen })
        else none
    | .listen r =>
        if s.pc = .listen then
          some (if r < 0 then s.leave else { s with pc := .accepting, running := true })
        else none
    | .loopReturns =>
        -- both loops end when they read `running_` as false
        if s.pc = .accepting ∧ s.running = false then some s.leave else none
    | .loopThrows => if s.pc = .accepting then some s.leave else none
    | .stop => if s.pc = .destroyed then none else some s.stop
    | .destroy => if s.pc = .idle then some s.destroy else none

/-- The condition on a step: `socket` replaces no descriptor that is still
open, and the object is not destroyed over a number that has been closed. -/
def Meets (s : Server) : Label → Prop
  | .socket _ => s.serverFd ∉ s.opened
  | .destroy => s.serverFd < 0 ∨ s.serverFd ∈ s.opened
  | _ => True

instance (s : Server) : (l : Label) → Decidable (Meets s l)
  | .socket _ => inferInstanceAs (Decidable (s.serverFd ∉ s.opened))
  | .destroy => inferInstanceAs (Decidable (s.serverFd < 0 ∨ s.serverFd ∈ s.opened))
  | .start | .setsockopt _ | .bind _ | .listen _ | .loopReturns | .loopThrows | .stop =>
      .isTrue trivial

/-! ## Histories that meet the condition -/

/-- `start` has a descriptor and has not reached `acceptLoop` with it. -/
def Pc.Setup (pc : Pc) : Prop := pc = .setsockopt ∨ pc = .bind ∨ pc = .listen

/-- Nothing is open but `server_fd_`, the book-keeper agrees, and `server_fd_`
is open while `start` sets it up or the server runs. -/
structure Sound (s : Server) : Prop where
  book : Ledger.replay s.log = some s.opened
  only : ∀ fd ∈ s.opened, fd = s.serverFd ∧ 0 ≤ fd
  acquired : 0 ≤ s.serverFd → Entry.opened s.serverFd ∈ s.log
  running : s.pc ≠ .destroyed → s.running = true → s.serverFd ∈ s.opened
  setup : s.pc.Setup → s.serverFd ∈ s.opened ∧ s.running = false
  gone : s.pc = .destroyed → s.opened = []

theorem sound_init : Sound lifecycle.init where
  book := rfl
  only := by simp [lifecycle]
  acquired := by simp [lifecycle]
  running := by simp [lifecycle]
  setup := by simp [lifecycle, Pc.Setup]
  gone := by simp [lifecycle]

theorem Sound.nodup {s : Server} (sound : Sound s) : s.opened.Nodup :=
  Ledger.replay_nodup sound.book

theorem Sound.opened_eq_nil {s : Server} (sound : Sound s) (closed : s.serverFd ∉ s.opened) :
    s.opened = [] := by
  refine List.eq_nil_iff_forall_not_mem.mpr fun fd hfd => ?_
  have same := (sound.only fd hfd).1
  exact closed (same ▸ hfd)

/-- Steps that only move the control point. -/
theorem Sound.goto {s : Server} {pc : Pc} (sound : Sound s) (before : s.pc ≠ .destroyed)
    (live : pc ≠ .destroyed) (setup : pc.Setup → s.serverFd ∈ s.opened ∧ s.running = false) :
    Sound { s with pc := pc } where
  book := sound.book
  only := sound.only
  acquired := sound.acquired
  running := fun _ => sound.running before
  setup := setup
  gone := fun h => absurd h live

theorem not_setup_idle : ¬ Pc.Setup .idle := by
  simp [Pc.Setup]

theorem Sound.leave {s : Server} (sound : Sound s) (before : s.pc ≠ .destroyed) :
    Sound s.leave :=
  sound.goto before nofun fun h => absurd h not_setup_idle

/-- Closing an open `server_fd_` leaves nothing open. -/
theorem Sound.close {s : Server} (sound : Sound s) (held : s.serverFd ∈ s.opened) :
    Ledger.replay s.close.log = some s.close.opened ∧ s.close.opened = [] := by
  have nonneg : ¬ s.serverFd < 0 := by
    have := (sound.only s.serverFd held).2
    omega
  unfold Server.close
  rw [if_neg nonneg]
  refine ⟨Ledger.replay_concat sound.book (Ledger.record_closed held), ?_⟩
  refine List.eq_nil_iff_forall_not_mem.mpr fun fd hfd => ?_
  have hfd : fd ∈ s.opened.erase s.serverFd := hfd
  rw [sound.nodup.mem_erase_iff] at hfd
  exact hfd.1 (sound.only fd hfd.2).1

@[simp] theorem close_serverFd (s : Server) : s.close.serverFd = s.serverFd := by
  unfold Server.close
  split <;> rfl

@[simp] theorem close_pc (s : Server) : s.close.pc = s.pc := by
  unfold Server.close
  split <;> rfl

/-- `close` only adds to the log. -/
theorem mem_close_log {s : Server} {e : Entry Int} (h : e ∈ s.log) : e ∈ s.close.log := by
  unfold Server.close
  split
  · exact h
  · exact List.mem_append_left _ h

/-- With nothing open there is nothing left to keep track of. -/
theorem sound_of_nothing_open {s : Server} (book : Ledger.replay s.log = some s.opened)
    (none : s.opened = []) (acquired : 0 ≤ s.serverFd → Entry.opened s.serverFd ∈ s.log)
    (stopped : s.pc ≠ .destroyed → s.running = false) (notSetup : ¬ s.pc.Setup) :
    Sound s where
  book := book
  only := by
    intro fd hfd
    rw [none] at hfd
    cases hfd
  acquired := acquired
  running := by
    intro live running
    rw [stopped live] at running
    cases running
  setup := fun h => absurd h notSetup
  gone := fun _ => none

theorem Sound.stop {s : Server} (sound : Sound s) (live : s.pc ≠ .destroyed) :
    Sound s.stop := by
  unfold Server.stop
  by_cases running : s.running = true
  · rw [if_pos running]
    obtain ⟨book, none⟩ := sound.close (sound.running live running)
    refine sound_of_nothing_open book none ?_ (fun _ => rfl) ?_
    · show 0 ≤ s.close.serverFd → Entry.opened s.close.serverFd ∈ s.close.log
      rw [close_serverFd]
      exact fun nonneg => mem_close_log (sound.acquired nonneg)
    · -- a server being set up does not run
      show ¬ s.close.pc.Setup
      rw [close_pc]
      intro setup
      rw [(sound.setup setup).2] at running
      cases running
  · rw [if_neg running]
    exact sound

theorem Sound.destroy {s : Server} (sound : Sound s)
    (meets : s.serverFd < 0 ∨ s.serverFd ∈ s.opened) : Sound s.destroy := by
  have closed : Ledger.replay s.close.log = some s.close.opened ∧ s.close.opened = [] := by
    rcases meets with neg | held
    · have none : s.opened = [] := by
        refine sound.opened_eq_nil fun h => ?_
        have := (sound.only s.serverFd h).2
        omega
      unfold Server.close
      rw [if_pos neg]
      exact ⟨sound.book, none⟩
    · exact sound.close held
  obtain ⟨book, none⟩ := closed
  refine sound_of_nothing_open book none ?_ (fun live => absurd rfl live) ?_
  · show 0 ≤ s.close.serverFd → Entry.opened s.close.serverFd ∈ s.close.log
    rw [close_serverFd]
    exact fun nonneg => mem_close_log (sound.acquired nonneg)
  · show ¬ Pc.Setup .destroyed
    simp [Pc.Setup]

theorem Sound.stopped {s : Server} (sound : Sound s) (live : s.pc ≠ .destroyed)
    (closed : s.serverFd ∉ s.opened) : s.running = false := by
  cases running : s.running with
  | false => rfl
  | true => exact absurd (sound.running live running) closed

theorem Sound.create {s : Server} {fd : Int} (sound : Sound s) (live : s.pc ≠ .destroyed)
    (meets : s.serverFd ∉ s.opened) (nonneg : 0 ≤ fd) : Sound (s.create fd) := by
  have none : s.opened = [] := sound.opened_eq_nil meets
  have stopped : s.running = false := sound.stopped live meets
  have held : fd ∈ fd :: s.opened := List.mem_cons_self
  have fresh : fd ∉ s.opened := by
    rw [none]
    exact List.not_mem_nil
  constructor
  case book => exact Ledger.replay_concat sound.book (Ledger.record_opened fresh)
  case only =>
    intro g hg
    have hg : g ∈ fd :: s.opened := hg
    rw [none, List.mem_singleton] at hg
    exact ⟨hg, hg ▸ nonneg⟩
  case acquired => exact fun _ => List.mem_append_right _ List.mem_cons_self
  case running => exact fun _ _ => held
  case setup => exact fun _ => ⟨held, stopped⟩
  case gone => exact fun h => nomatch h

/-- Step lemma. -/
theorem sound_step {s s' : Server} {l : Label} (sound : Sound s) (meets : Meets s l)
    (h : lifecycle.step s l = some s') : Sound s' := by
  cases l <;> simp only [lifecycle, Option.ite_none_right_eq_some, Option.ite_none_left_eq_some,
    Option.some.injEq] at h <;> obtain ⟨hpc, rfl⟩ := h
  case start =>
    refine sound.goto ?_ nofun (by simp [Pc.Setup])
    simp [hpc]
  case socket fd =>
    have live : s.pc ≠ .destroyed := by simp [hpc.1]
    split
    · -- no descriptor: the number is overwritten with the failure
      rename_i neg
      exact sound_of_nothing_open sound.book (sound.opened_eq_nil meets)
        (fun nonneg => absurd neg (Int.not_lt.mpr nonneg))
        (fun _ => sound.stopped live meets) not_setup_idle
    · exact sound.create live meets (by omega)
  case setsockopt r =>
    have setup := sound.setup (.inl hpc)
    have live : s.pc ≠ .destroyed := by simp [hpc]
    split
    · exact sound.leave live
    · exact sound.goto live nofun fun _ => setup
  case bind r =>
    have setup := sound.setup (.inr (.inl hpc))
    have live : s.pc ≠ .destroyed := by simp [hpc]
    split
    · exact sound.leave live
    · exact sound.goto live nofun fun _ => setup
  case listen r =>
    have setup := sound.setup (.inr (.inr hpc))
    have live : s.pc ≠ .destroyed := by simp [hpc]
    split
    · exact sound.leave live
    · exact ⟨sound.book, sound.only, sound.acquired, fun _ _ => setup.1,
        fun h => absurd h (by simp [Pc.Setup]), fun h => nomatch h⟩
  case loopReturns => exact sound.leave (by simp [hpc.1])
  case loopThrows => exact sound.leave (by simp [hpc])
  case stop => exact sound.stop hpc
  case destroy => exact sound.destroy meets

theorem sound_run {tr : List Label} {s : Server}
    (run : (lifecycle.restrict Meets).run tr = some s) : Sound s := by
  refine System.state_invariant (T := lifecycle.restrict Meets) sound_init ?_ run
  intro s l s' sound h
  obtain ⟨meets, h⟩ := System.restrict_step_eq_some.mp h
  exact sound_step sound meets h

/-! ## Histories that do not -/

/-- The part of the state that has to do with descriptors. -/
def Server.book (s : Server) : Int × List Int × List (Entry Int) := (s.serverFd, s.opened, s.log)

/-- What a step does to descriptors: nothing, or it overwrites `server_fd_` with
a number that is not open, creates one, or closes `server_fd_`. -/
theorem step_book {s s' : Server} {l : Label} (h : lifecycle.step s l = some s') :
    s'.book = s.book ∨
    (∃ fd, fd ∉ s.opened ∧
      (s'.book = (fd, s.opened, s.log) ∨ s'.book = (s.create fd).book)) ∨
    s'.book = s.close.book := by
  cases l <;> simp only [lifecycle, Option.ite_none_right_eq_some, Option.ite_none_left_eq_some,
    Option.some.injEq] at h <;> obtain ⟨hpc, rfl⟩ := h
  case start => exact .inl rfl
  case socket fd =>
    refine .inr (.inl ⟨fd, hpc.2, ?_⟩)
    split
    · exact .inl rfl
    · exact .inr rfl
  case setsockopt r => split <;> exact .inl rfl
  case bind r => split <;> exact .inl rfl
  case listen r => split <;> exact .inl rfl
  case loopReturns => exact .inl rfl
  case loopThrows => exact .inl rfl
  case stop =>
    unfold Server.stop
    split
    · exact .inr (.inr rfl)
    · exact .inl rfl
  case destroy => exact .inr (.inr rfl)

/-- A descriptor that `server_fd_` has lost: open, and never released. -/
structure Leaked (d : Int) (s : Server) : Prop where
  opened : d ∈ s.opened
  lost : s.serverFd ≠ d
  unreleased : ∃ pre post, s.log = pre ++ .opened d :: post ∧ Ledger.closesOf d post = 0

theorem Leaked.of_book {d : Int} {s s' : Server} (leaked : Leaked d s) (same : s'.book = s.book) :
    Leaked d s' := by
  simp only [Server.book, Prod.mk.injEq] at same
  obtain ⟨serverFd, opened, log⟩ := same
  refine ⟨?_, ?_, ?_⟩
  · rw [opened]
    exact leaked.opened
  · rw [serverFd]
    exact leaked.lost
  · rw [log]
    exact leaked.unreleased

/-- An instance stays unreleased under entries that do not release it. -/
theorem unreleased_concat {d : Int} {log : List (Entry Int)} {e : Entry Int}
    (h : ∃ pre post, log = pre ++ .opened d :: post ∧ Ledger.closesOf d post = 0)
    (ne : e ≠ .closed d) :
    ∃ pre post, log ++ [e] = pre ++ .opened d :: post ∧ Ledger.closesOf d post = 0 := by
  obtain ⟨pre, post, rfl, none⟩ := h
  refine ⟨pre, post ++ [e], by simp, ?_⟩
  rw [Ledger.closesOf_concat_of_ne ne, none]

theorem Leaked.close {d : Int} {s : Server} (leaked : Leaked d s) : Leaked d s.close := by
  unfold Server.close
  split
  · exact leaked
  · constructor
    case opened => exact (List.mem_erase_of_ne (Ne.symm leaked.lost)).mpr leaked.opened
    case lost => exact leaked.lost
    case unreleased =>
      refine unreleased_concat leaked.unreleased fun same => leaked.lost ?_
      injection same

/-- A lost descriptor stays lost. -/
theorem leaked_step {d : Int} {s s' : Server} {l : Label} (leaked : Leaked d s)
    (h : lifecycle.step s l = some s') : Leaked d s' := by
  rcases step_book h with same | ⟨fd, fresh, overwritten | created⟩ | closed
  · exact leaked.of_book same
  · have other : fd ≠ d := fun h => fresh (h ▸ leaked.opened)
    have leaked' : Leaked d { s with serverFd := fd } :=
      ⟨leaked.opened, other, leaked.unreleased⟩
    exact leaked'.of_book overwritten
  · have other : fd ≠ d := fun h => fresh (h ▸ leaked.opened)
    have leaked' : Leaked d (s.create fd) :=
      ⟨List.mem_cons_of_mem fd leaked.opened, other, unreleased_concat leaked.unreleased nofun⟩
    exact leaked'.of_book created
  · exact leaked.close.of_book closed

/-- Overwriting an open `server_fd_` loses it. -/
theorem leaked_of_socket {s s' : Server} {fd : Int} (sound : Sound s)
    (held : s.serverFd ∈ s.opened) (h : lifecycle.step s (.socket fd) = some s') :
    Leaked s.serverFd s' := by
  have unreleased := Ledger.exists_unreleased sound.book s.serverFd held
  simp only [lifecycle, Option.ite_none_right_eq_some, Option.some.injEq] at h
  obtain ⟨hpc, rfl⟩ := h
  have other : fd ≠ s.serverFd := fun same => hpc.2 (same ▸ held)
  split
  · exact ⟨held, other, unreleased⟩
  · exact ⟨List.mem_cons_of_mem fd held, other, unreleased_concat unreleased nofun⟩

/-- Nothing happens to a destroyed object. -/
theorem step_destroyed {s : Server} (gone : s.pc = .destroyed) (l : Label) :
    lifecycle.step s l = none := by
  cases l <;> simp [lifecycle, gone]

theorem runFrom_destroyed {s s' : Server} {ls : List Label} (gone : s.pc = .destroyed)
    (h : lifecycle.runFrom s ls = some s') : s' = s := by
  cases ls with
  | nil => exact (Option.some.inj h).symm
  | cons l ls =>
      rw [System.runFrom_cons, step_destroyed gone] at h
      cases h

/-- Destroying the object over a closed number releases an instance again. -/
theorem not_atMostOnce_of_destroy {s s' : Server} (sound : Sound s) (nonneg : 0 ≤ s.serverFd)
    (closed : s.serverFd ∉ s.opened) (h : lifecycle.step s .destroy = some s') :
    s'.pc = .destroyed ∧ ¬ Ledger.AtMostOnce s'.log := by
  simp only [lifecycle, Option.ite_none_right_eq_some, Option.some.injEq] at h
  obtain ⟨hpc, rfl⟩ := h
  refine ⟨rfl, ?_⟩
  show ¬ Ledger.AtMostOnce s.close.log
  unfold Server.close
  rw [if_neg (Int.not_lt.mpr nonneg)]
  exact Ledger.not_atMostOnce_of_closed_again sound.book closed (sound.acquired nonneg)

/-- **The listening descriptor.** In every history of a server object: if every
step meets the condition then no descriptor is closed twice; and once the
object has been destroyed every descriptor has been closed exactly once if and
only if every step met it. -/
theorem lifecycle_exactlyOnce_iff {tr : List Label} {s : Server}
    (run : lifecycle.run tr = some s) :
    ((lifecycle.restrict Meets).run tr = some s → Ledger.AtMostOnce s.log) ∧
    (s.pc = .destroyed →
      (Ledger.ExactlyOnce s.log ↔ (lifecycle.restrict Meets).run tr = some s)) := by
  refine ⟨fun meets => Ledger.atMostOnce_of_replay (sound_run meets).book, fun gone => ⟨?_, ?_⟩⟩
  · intro once
    -- the first step that breaks the condition leaks a descriptor or closes one again
    rcases System.restrict_or_breaks (C := Meets) run with
      meets | ⟨pre, l, post, s₁, s₂, rfl, hpre, broken, hstep, hpost⟩
    · exact meets
    · exfalso
      have sound := sound_run hpre
      cases l with
      | socket fd =>
          have held : s₁.serverFd ∈ s₁.opened := not_not.mp broken
          have leaked : Leaked s₁.serverFd s :=
            System.runFrom_invariant (fun _ _ _ => leaked_step) hpost
              (leaked_of_socket sound held hstep)
          obtain ⟨before, after, log, none⟩ := leaked.unreleased
          have one := once before _ after log
          omega
      | destroy =>
          obtain ⟨notNeg, closed⟩ := not_or.mp broken
          obtain ⟨end₂, again⟩ :=
            not_atMostOnce_of_destroy sound (Int.not_lt.mp notNeg) closed hstep
          rw [← runFrom_destroyed end₂ hpost] at again
          exact again fun before d after log => Nat.le_of_eq (once before d after log)
      | start => exact broken trivial
      | setsockopt r => exact broken trivial
      | bind r => exact broken trivial
      | listen r => exact broken trivial
      | loopReturns => exact broken trivial
      | loopThrows => exact broken trivial
      | stop => exact broken trivial
  · intro meets
    have sound := sound_run meets
    have book := sound.book
    rw [sound.gone gone] at book
    exact Ledger.exactlyOnce_of_replay book

/-- A start whose `listen` fails: `stop` does nothing, the destructor closes. -/
def sampleFailure : List Label :=
  [.start, .socket 3, .setsockopt 0, .bind 0, .listen (-1), .stop, .destroy]

theorem lifecycle_exactlyOnce_iff_sample :
    Ledger.ExactlyOnce ([.opened 3, .closed 3] : List (Entry Int)) := by
  have run : lifecycle.run sampleFailure =
      some ⟨3, false, .destroyed, [], [.opened 3, .closed 3]⟩ := by decide
  exact ((lifecycle_exactlyOnce_iff run).2 rfl).mpr (by decide)

/-- The ordinary life of a server: `stop` ends the loop, the destructor runs,
and `close` has been called twice on the one descriptor. -/
theorem not_exactlyOnce_stop :
    ∃ s, lifecycle.run [.start, .socket 3, .setsockopt 0, .bind 0, .listen 0, .stop,
        .loopReturns, .destroy] = some s ∧
      s.log = [.opened 3, .closed 3, .closed 3] ∧ ¬ Ledger.AtMostOnce s.log := by
  refine ⟨⟨3, false, .destroyed, [], [.opened 3, .closed 3, .closed 3]⟩, by decide, rfl, ?_⟩
  intro once
  have twice := once [] 3 _ rfl
  exact absurd twice (by decide)

end CppLab.Socket.TCPServer.Lifecycle
