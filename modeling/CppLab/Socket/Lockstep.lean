import CppLab.Socket.Link

/-!
# Request and response

Whether the `receive()` after a `send` returns that line's echo. Both send
loops go on until everything is written, but `receive()` is a single `recv`: it
returns the whole response exactly when the whole response lies in the buffer
and the `recv` takes all of it, and after one short answer every later one is
shifted.
-/

namespace CppLab.Socket.Link

open CppLab.Posix CppLab.Socket.TCPServer

/-- What `receive()`'s `recv` answered. -/
def answer? : Label → Option Ret
  | .client (.recv _ _, r) => some r
  | _ => none

/-- A line the client has read. -/
def line? : Label → Option Bytes
  | .client (.getline, .line msg) => msg
  | _ => none

/-- The answers to the calls of `receive()`, in order. -/
def answers (tr : List Label) : List Ret := tr.filterMap answer?

/-- What the calls of `receive()` are meant to return: the welcome, and each
line with its newline. -/
def responses (port : UInt16) (tr : List Label) : List Bytes :=
  welcome port :: (tr.filterMap line?).map (· ++ [newline])

/-- The condition on a step: a `recv` of the client is answered when the server
holds nothing back, and with everything there is. -/
def Whole (s : Link) : Label → Prop
  | .client (.recv _ _, r) => s.up = [] ∧ hold s.server = [] ∧ r = .data s.down
  | _ => True

instance (s : Link) : (l : Label) → Decidable (Whole s l)
  | .client (.recv _ _, r) =>
      inferInstanceAs (Decidable (s.up = [] ∧ hold s.server = [] ∧ r = .data s.down))
  | .client (.socket, _) | .client (.inetPton, _) | .client (.connect _, _)
  | .client (.send _ _, _) | .client (.close _, _) | .client (.getline, _)
  | .server _ => .isTrue trivial

/-- The bytes written by either party that the client has not received. -/
def outstanding (s : Link) : Bytes := s.down ++ hold s.server ++ s.up ++ unsent s.client.pc

/-- One response is owed, and it is what is outstanding. -/
def Owes (port : UInt16) (tr : List Label) (s : Link) : Prop :=
  ∃ before last, responses port tr = before ++ [last] ∧ answers tr = before.map .data ∧
    outstanding s = last

/-- Every response has been returned, and nothing is outstanding. -/
def Even (port : UInt16) (tr : List Label) (s : Link) : Prop :=
  answers tr = (responses port tr).map .data ∧ outstanding s = []

/-- From the reading of a line to the end of its `receive()`. -/
def Awaits : SimpleTCPClient.Pc → Prop
  | .greeting => True
  | .sending _ => True
  | .receiving => True
  | _ => False

structure Lockstep (port : UInt16) (cfd : Nat) (tr : List Label) (s : Link) : Prop where
  attached : Attached cfd s.client
  owes : Awaits s.client.pc → Owes port tr s
  even : ¬ Awaits s.client.pc → Even port tr s

theorem answers_concat_none {tr : List Label} {l : Label} (h : answer? l = none) :
    answers (tr ++ [l]) = answers tr :=
  System.filterMap_concat_none h

theorem answers_concat_some {tr : List Label} {l : Label} {r : Ret} (h : answer? l = some r) :
    answers (tr ++ [l]) = answers tr ++ [r] :=
  System.filterMap_concat_some h

theorem responses_concat_none {port : UInt16} {tr : List Label} {l : Label}
    (h : line? l = none) : responses port (tr ++ [l]) = responses port tr := by
  rw [responses, System.filterMap_concat_none h, responses]

theorem responses_concat_some {port : UInt16} {tr : List Label} {l : Label} {msg : Bytes}
    (h : line? l = some msg) :
    responses port (tr ++ [l]) = responses port tr ++ [msg ++ [newline]] := by
  rw [responses, System.filterMap_concat_some h, List.map_append, responses]
  rfl

/-- A step that neither reads a line nor completes a `receive()`, and conserves
what is outstanding. -/
theorem Owes.keep {port : UInt16} {tr : List Label} {s s' : Link} {l : Label}
    (owes : Owes port tr s) (noAnswer : answer? l = none) (noLine : line? l = none)
    (same : outstanding s' = outstanding s) : Owes port (tr ++ [l]) s' := by
  obtain ⟨before, last, hresponses, hanswers, hout⟩ := owes
  refine ⟨before, last, ?_, ?_, ?_⟩
  · rw [responses_concat_none noLine, hresponses]
  · rw [answers_concat_none noAnswer, hanswers]
  · rw [same, hout]

theorem Even.keep {port : UInt16} {tr : List Label} {s s' : Link} {l : Label}
    (even : Even port tr s) (noAnswer : answer? l = none) (noLine : line? l = none)
    (same : outstanding s' = outstanding s) : Even port (tr ++ [l]) s' := by
  obtain ⟨hanswers, hout⟩ := even
  refine ⟨?_, ?_⟩
  · rw [responses_concat_none noLine, answers_concat_none noAnswer, hanswers]
  · rw [same, hout]

/-- A line is read. -/
theorem Even.line {port : UInt16} {tr : List Label} {s s' : Link} {l : Label} {msg : Bytes}
    (even : Even port tr s) (noAnswer : answer? l = none) (read : line? l = some msg)
    (same : outstanding s' = outstanding s ++ (msg ++ [newline])) : Owes port (tr ++ [l]) s' := by
  obtain ⟨hanswers, hout⟩ := even
  refine ⟨responses port tr, msg ++ [newline], responses_concat_some read, ?_, ?_⟩
  · rw [answers_concat_none noAnswer, hanswers]
  · rw [same, hout, List.nil_append]

/-- A `receive()` that takes everything outstanding returns what is owed. -/
theorem Owes.receive {port : UInt16} {tr : List Label} {s s' : Link} {l : Label} {chunk : Bytes}
    (owes : Owes port tr s) (answer : answer? l = some (.data chunk)) (noLine : line? l = none)
    (all : chunk = outstanding s) (same : chunk ++ outstanding s' = outstanding s) :
    Even port (tr ++ [l]) s' := by
  obtain ⟨before, last, hresponses, hanswers, hout⟩ := owes
  refine ⟨?_, ?_⟩
  · rw [answers_concat_some answer, responses_concat_none noLine, hresponses, hanswers,
      List.map_append, all, hout]
    rfl
  · rw [← all] at same
    simpa using same

/-- What is outstanding survives every step of the server. -/
theorem outstanding_server {port : UInt16} {cfd sfd : Nat} {upCap downCap : Option Nat}
    {s s' : Link} {e : Event}
    (h : (link port cfd sfd upCap downCap).step s (.server e) = some s') :
    s'.client = s.client ∧ outstanding s' = outstanding s := by
  obtain ⟨move, client, htransfer⟩ := step_server h
  refine ⟨client, ?_⟩
  unfold outstanding
  rw [client, server_conserves move htransfer]

/-- The client takes from it what it receives, and adds what it has read. -/
theorem outstanding_client {port : UInt16} {cfd sfd : Nat} {upCap downCap : Option Nat}
    {s s' : Link} {e : Event} (attached : Attached cfd s.client)
    (h : (link port cfd sfd upCap downCap).step s (.client e) = some s') :
    taken e ++ outstanding s' = outstanding s ++ entered e := by
  obtain ⟨move, _, server, htransfer⟩ := step_client attached h
  unfold outstanding
  rw [server]
  exact client_conserves move htransfer (hold s.server)

theorem lockstep_init (port : UInt16) (cfd sfd : Nat) (upCap downCap : Option Nat) :
    Lockstep port cfd [] (link port cfd sfd upCap downCap).init := by
  obtain ⟨s, hs, _, hrest⟩ := sendFrom_zero_of_ne_nil (welcome_ne_nil port)
  have writing : (handleClient port sfd).init = .welcome s := by
    show afterWelcome (sendFrom (welcome port) 0) = .welcome s
    rw [hs]
    rfl
  refine ⟨.inl ⟨rfl, trivial⟩, fun _ => ⟨[], welcome port, rfl, rfl, ?_⟩, fun h => absurd trivial h⟩
  show [] ++ hold (handleClient port sfd).init ++ [] ++ [] = welcome port
  rw [writing]
  simpa [hold] using hrest

/-- The client has nothing in hand while it waits in `recv`. -/
theorem outstanding_eq_down {s : Link} (up : s.up = []) (held : hold s.server = [])
    (written : unsent s.client.pc = []) : outstanding s = s.down := by
  unfold outstanding
  rw [up, held, written]
  simp only [List.append_nil]

/-- Step lemma for a `recv` of the whole. -/
theorem Owes.whole {port : UInt16} {tr : List Label} {s s' : Link} {fd : Int} {len : Nat}
    {r : Ret} (owes : Owes port tr s) (written : unsent s.client.pc = [])
    (whole : Whole s (.client (.recv fd len, r)))
    (flow : taken (.recv fd len, r) ++ outstanding s' = outstanding s ++ []) :
    Even port (tr ++ [.client (.recv fd len, r)]) s' := by
  obtain ⟨up, held, rfl⟩ := whole
  rw [List.append_nil] at flow
  exact owes.receive rfl rfl (outstanding_eq_down up held written).symm flow

/-- Step lemma. -/
theorem lockstep_step {port : UInt16} {cfd sfd : Nat} {upCap downCap : Option Nat}
    {tr : List Label} {s s' : Link} {l : Label} (inv : Lockstep port cfd tr s)
    (whole : Whole s l) (h : (link port cfd sfd upCap downCap).step s l = some s') :
    Lockstep port cfd (tr ++ [l]) s' := by
  obtain ⟨attached, owes, even⟩ := inv
  cases l with
  | server e =>
      obtain ⟨client, same⟩ := outstanding_server h
      rw [← client] at attached
      rw [← client] at owes even
      exact ⟨attached, fun h => (owes h).keep rfl rfl same, fun h => (even h).keep rfl rfl same⟩
  | client e =>
      obtain ⟨move, attached', _, htransfer⟩ := step_client attached h
      have flow := outstanding_client attached h
      have keeps : taken e = [] → entered e = [] → outstanding s' = outstanding s := by
        intro none none'
        rw [none, none', List.append_nil] at flow
        exact flow
      suffices progress : (Awaits s'.client.pc → Owes port (tr ++ [.client e]) s') ∧
          (¬ Awaits s'.client.pc → Even port (tr ++ [.client e]) s') from
        ⟨attached', progress.1, progress.2⟩
      generalize hpc : s.client.pc = pc at move owes even
      generalize s'.client.pc = pc' at move
      cases move with
      | greet =>
          have owes := owes trivial
          exact ⟨nofun, fun _ => owes.whole (by rw [hpc]; rfl) whole flow⟩
      | greetEnd => exact nomatch whole.2.2
      | line hrest =>
          have even := even nofun
          exact ⟨fun _ => even.line rfl rfl flow, fun h => absurd trivial h⟩
      | inputEnd =>
          have even := even nofun
          exact ⟨nofun, fun _ => even.keep rfl rfl (keeps rfl rfl)⟩
      | sendFail neg =>
          obtain ⟨pos, _⟩ := transfer_send htransfer
          omega
      | sendMore _ hrest =>
          have owes := owes trivial
          exact ⟨fun _ => owes.keep rfl rfl (keeps rfl rfl), fun h => absurd trivial h⟩
      | sendDone _ hrest =>
          have owes := owes trivial
          exact ⟨fun _ => owes.keep rfl rfl (keeps rfl rfl), fun h => absurd trivial h⟩
      | response =>
          have owes := owes trivial
          exact ⟨nofun, fun _ => owes.whole (by rw [hpc]; rfl) whole flow⟩
      | responseEnd => exact nomatch whole.2.2
      | close =>
          have even := even nofun
          exact ⟨nofun, fun _ => even.keep rfl rfl (keeps rfl rfl)⟩

/-- Run lemma. -/
theorem lockstep_run {port : UInt16} {cfd sfd : Nat} {upCap downCap : Option Nat}
    {tr : List Label} {s : Link}
    (run : ((link port cfd sfd upCap downCap).restrict Whole).run tr = some s) :
    Lockstep port cfd tr s := by
  refine System.run_invariant (T := (link port cfd sfd upCap downCap).restrict Whole)
    (I := Lockstep port cfd) (lockstep_init port cfd sfd upCap downCap) ?_ run
  intro tr s l s' _ inv h
  obtain ⟨whole, h⟩ := System.restrict_step_eq_some.mp h
  exact lockstep_step inv whole h

/-- The answers so far are the responses due so far. -/
theorem Lockstep.answers_right {port : UInt16} {cfd : Nat} {tr : List Label} {s : Link}
    (inv : Lockstep port cfd tr s) : answers tr <+: (responses port tr).map .data := by
  by_cases awaits : Awaits s.client.pc
  · obtain ⟨before, last, hresponses, hanswers, _⟩ := inv.owes awaits
    rw [hresponses, hanswers, List.map_append]
    exact List.prefix_append _ _
  · rw [(inv.even awaits).1]

/-! ## An answer that is not the whole -/

/-- Answers and responses of a longer run. -/
theorem answers_append (as bs : List Label) : answers (as ++ bs) = answers as ++ answers bs :=
  List.filterMap_append

theorem responses_append (port : UInt16) (as bs : List Label) :
    responses port (as ++ bs) = responses port as ++ (bs.filterMap line?).map (· ++ [newline]) := by
  rw [responses, responses, List.filterMap_append, List.map_append, List.cons_append]

/-- The answer after those to all responses but the last. -/
theorem eq_of_prefix {before more : List Bytes} {last : Bytes} {r : Ret}
    (h : before.map Ret.data ++ [r] <+: (before ++ [last] ++ more).map .data) :
    r = .data last := by
  rw [List.append_assoc, List.map_append, List.prefix_append_right_inj] at h
  obtain ⟨rest, h⟩ := h
  injection h

/-- A right answer is one that takes the whole. -/
theorem whole_of_answer {port : UInt16} {cfd sfd : Nat} {upCap downCap : Option Nat}
    {tr : List Label} {s s' : Link} {l : Label} {more : List Bytes}
    (inv : Lockstep port cfd tr s)
    (h : (link port cfd sfd upCap downCap).step s l = some s')
    (right : answers (tr ++ [l]) <+: (responses port tr ++ more).map .data) : Whole s l := by
  cases l with
  | server e => trivial
  | client e =>
      obtain ⟨move, _, server, htransfer⟩ := step_client inv.attached h
      have flow := outstanding_client inv.attached h
      -- what a `recv` that is owed a response must answer
      have owed : ∀ {fd : Int} {len : Nat} {r : Ret}, e = (.recv fd len, r) →
          Awaits s.client.pc → r = .data (outstanding s) := by
        rintro fd len r rfl awaits
        obtain ⟨before, last, hresponses, hanswers, hout⟩ := inv.owes awaits
        rw [answers_concat_some rfl, hanswers, hresponses] at right
        rw [hout]
        exact eq_of_prefix right
      have chunk : ∀ {fd : Int} {len : Nat} {chunk : Bytes}, e = (.recv fd len, .data chunk) →
          Awaits s.client.pc → Whole s (.client e) := by
        rintro fd len chunk rfl awaits
        obtain ⟨hup, hdown⟩ := transfer_data htransfer
        have same : chunk = outstanding s := Ret.data.inj (owed rfl awaits)
        -- nothing is left outstanding, neither in the buffers nor with the server
        have none : outstanding s' = [] := by
          have flow : chunk ++ outstanding s' = outstanding s ++ [] := flow
          rw [← same] at flow
          exact List.append_cancel_left flow
        unfold outstanding at none
        simp only [List.append_eq_nil_iff] at none
        obtain ⟨⟨⟨down, held⟩, up⟩, _⟩ := none
        refine ⟨hup ▸ up, server ▸ held, ?_⟩
        rw [hdown, down, List.append_nil]
      generalize hpc : s.client.pc = pc at move
      generalize s'.client.pc = pc' at move
      cases move with
      | greet => exact chunk rfl (by rw [hpc]; trivial)
      | greetEnd => exact nomatch owed rfl (by rw [hpc]; trivial)
      | line _ => trivial
      | inputEnd => trivial
      | sendFail _ => trivial
      | sendMore _ _ => trivial
      | sendDone _ _ => trivial
      | response => exact chunk rfl (by rw [hpc]; trivial)
      | responseEnd => exact nomatch owed rfl (by rw [hpc]; trivial)
      | close => trivial

/-- **Lockstep.** The calls of `receive()` return the welcome and then, line by
line, what was sent, if and only if each of them is answered with the whole of
what is outstanding. -/
theorem lockstep_iff (port : UInt16) (cfd sfd : Nat) (upCap downCap : Option Nat)
    {tr : List Label} {s : Link} (run : (link port cfd sfd upCap downCap).run tr = some s) :
    answers tr <+: (responses port tr).map .data ↔
      ((link port cfd sfd upCap downCap).restrict Whole).run tr = some s := by
  constructor
  · intro right
    rcases System.restrict_or_breaks (C := Whole) run with
      whole | ⟨pre, l, post, s₁, s₂, rfl, hpre, broken, hstep, _⟩
    · exact whole
    · rw [responses_append] at right
      have split : pre ++ l :: post = (pre ++ [l]) ++ post := by simp
      rw [split, answers_append] at right
      have upTo := (List.prefix_append (answers (pre ++ [l])) (answers post)).trans right
      exact absurd (whole_of_answer (lockstep_run hpre) hstep upTo) broken
  · exact fun whole => (lockstep_run whole).answers_right

/-- The welcome, a line and its echo, each received in one piece. -/
def sampleLockstep : List Label :=
  [.server (.send 4 (welcome 80), .int 72), .client (.recv 3 1024, .data (welcome 80)),
    .client (.getline, .line (some (ascii "a"))), .client (.send 3 (ascii "a\n"), .int 2),
    .server (.recv 4 1023, .data (ascii "a\n")), .server (.send 4 (ascii "a\n"), .int 2),
    .client (.recv 3 1024, .data (ascii "a\n"))]

theorem lockstep_iff_sample :
    answers sampleLockstep <+: (responses 80 sampleLockstep).map .data := by
  have guarded : (((link 80 3 4 none none).restrict Whole).run sampleLockstep).isSome = true := by
    decide
  obtain ⟨s, run⟩ := Option.isSome_iff_exists.mp guarded
  exact (lockstep_iff 80 3 4 none none (System.run_of_restrict run)).mpr run

/-- The first `recv` of the client finds part of the welcome only. -/
def sampleSplit : List Label :=
  [.server (.send 4 (welcome 80), .int 10), .client (.recv 3 1024, .data (ascii "Connected ")),
    .server (.send 4 ((welcome 80).drop 10), .int 62),
    .client (.getline, .line (some (ascii "a"))), .client (.send 3 (ascii "a\n"), .int 2),
    .client (.recv 3 1024, .data ((welcome 80).drop 10))]

/-- The answer to the line is the rest of the welcome. -/
theorem not_lockstep_split :
    ((link 80 3 4 none none).run sampleSplit).isSome = true ∧
      ¬ answers sampleSplit <+: (responses 80 sampleSplit).map .data := by
  decide

end CppLab.Socket.Link
