import CppLab.Lib.Ledger
import CppLab.Env.StdString

/-!
# `problem::Server` and `ServerProxy`

The two classes look at the connection id in different places: `problem::Server`
in each request, `proxy_pattern::ServerProxy` in `checkAccess`, which also makes
the `Server` behind it when the first request is let through.

* `Problem.session` is what a `problem::Server` prints from its construction on;
* `system` is the proxy. A request carries the address that `new` would return;
  a call through a null or dangling `server_` and a `delete` of something that
  is not there are steps that do not exist.

`Tied` is the invariant: `server_` is null exactly as long as no request of the
id `"admin"` has come.
-/

namespace CppLab.Patterns.Proxy

/-- The methods of `IServer`. -/
inductive Request
  | request1
  | request2
  | request3
  deriving DecidableEq, Repr

/-- The number a request has in the printed text. -/
def Request.number : Request → Bytes
  | .request1 => ascii "1"
  | .request2 => ascii "2"
  | .request3 => ascii "3"

def kAdmin : Bytes := ascii "admin"

/-- What is printed, one event a line. -/
inductive Event
  | constructor (id : Bytes)
  | invalid (id : Bytes)
  | handling (r : Request) (id : Bytes)
  | proxyConstructor (id : Bytes)
  | checking
  | logging (id : Bytes)
  | proxyDestructor (id : Bytes)
  deriving DecidableEq, Repr

namespace Event

/-- The line. -/
def line : Event → Bytes
  | constructor id => ascii "[Server] Constructor: " ++ id ++ ascii "\n"
  | invalid id => ascii "[Server] Invalid ID: " ++ id ++ ascii "\n"
  | handling r id =>
      ascii "[Server] Handling request-" ++ r.number ++ ascii " for: " ++ id ++ ascii "\n"
  | proxyConstructor id => ascii "[Proxy] Constructor: " ++ id ++ ascii "\n"
  | checking => ascii "[Proxy] Checking access before forwarding request.\n"
  | logging id => ascii "[Proxy] Logging request time: " ++ id ++ ascii " .\n"
  | proxyDestructor id => ascii "[Proxy] Destructor: " ++ id ++ ascii "\n"

/-- A request that a `Server` handled, with the id it was handled for. -/
def handled : Event → Option (Request × Bytes)
  | handling r id => some (r, id)
  | _ => none

/-- Events printed by a `Server`. -/
def ofServer : Event → Bool
  | constructor _ => true
  | invalid _ => true
  | handling _ _ => true
  | _ => false

end Event

/-! ## The checked server -/

namespace Problem

structure Server where
  id_ : Bytes
  deriving DecidableEq, Repr

/-- The constructor. -/
def Server.new (id : Bytes) : Server × List Event := (⟨id⟩, [.constructor id])

/-- What the three requests share. -/
def Server.request (s : Server) (r : Request) : List Event :=
  if s.id_ ≠ kAdmin then [.invalid s.id_] else [.handling r s.id_]

def Server.request1 (s : Server) : List Event := s.request .request1

def Server.request2 (s : Server) : List Event := s.request .request2

def Server.request3 (s : Server) : List Event := s.request .request3

/-- A virtual call. -/
def Server.call (s : Server) : Request → List Event
  | .request1 => s.request1
  | .request2 => s.request2
  | .request3 => s.request3

/-- `new Server(id)` and calls on it. -/
def session (id : Bytes) (rs : List Request) : List Event :=
  (Server.new id).2 ++ rs.flatMap (Server.new id).1.call

theorem Server.call_eq (s : Server) (r : Request) : s.call r = s.request r := by
  cases r <;> rfl

/-- One call more. -/
theorem session_concat (id : Bytes) (rs : List Request) (r : Request) :
    session id (rs ++ [r]) =
      session id rs ++ if id ≠ kAdmin then [Event.invalid id] else [Event.handling r id] := by
  have last : [r].flatMap (Server.new id).1.call =
      if id ≠ kAdmin then [.invalid id] else [.handling r id] := by
    rw [List.flatMap_singleton, Server.call_eq]
    rfl
  rw [session, session, List.flatMap_append, last, List.append_assoc]

end Problem

/-! ## The proxy -/

/-- `proxy_pattern::Server`. -/
structure Server where
  id_ : Bytes
  deriving DecidableEq, Repr

def Server.request (s : Server) (r : Request) : List Event := [.handling r s.id_]

def Server.request1 (s : Server) : List Event := s.request .request1

def Server.request2 (s : Server) : List Event := s.request .request2

def Server.request3 (s : Server) : List Event := s.request .request3

structure ServerProxy where
  id_ : Bytes
  server_ : Option Nat := none
  deriving DecidableEq, Repr

/-- A proxy, whether it still exists, the `Server` objects in memory, what has
been printed, and what was made by `new Server` and given to `delete`. -/
structure State where
  this : ServerProxy
  alive : Bool
  heap : Nat → Option Server
  log : List Event
  ledger : List (Entry Nat)

namespace State

def print (s : State) (e : Event) : State := { s with log := s.log ++ [e] }

/-- `server_ = new Server(id_)`, at the address `p`. -/
def newServer (s : State) (p : Nat) : State :=
  { s with
    this.server_ := some p
    heap := Function.update s.heap p (some ⟨s.this.id_⟩)
    log := s.log ++ [.constructor s.this.id_]
    ledger := s.ledger ++ [.opened p] }

/-- `checkAccess()`; `p` is what `new` returns if it comes to that. -/
def checkAccess (s : State) (p : Nat) : Option (Bool × State) :=
  let s := s.print .checking
  if s.this.id_ ≠ kAdmin then
    some (false, s)
  else
    match s.this.server_ with
    | none => if s.heap p = none then some (true, s.newServer p) else none
    | some _ => some (true, s)

/-- `logAccess()`. -/
def logAccess (s : State) : State := s.print (.logging s.this.id_)

/-- What the three requests share; `forward` is the method called on `server_`. -/
def request (forward : Server → List Event) (s : State) (p : Nat) : Option State :=
  (s.checkAccess p).bind fun (ok, s) =>
    if ok then
      (s.this.server_.bind s.heap).map fun server =>
        { s with log := s.log ++ forward server }.logAccess
    else
      some s

def request1 : State → Nat → Option State := request Server.request1

def request2 : State → Nat → Option State := request Server.request2

def request3 : State → Nat → Option State := request Server.request3

/-- A virtual call. -/
def call (s : State) (p : Nat) : Request → Option State
  | .request1 => s.request1 p
  | .request2 => s.request2 p
  | .request3 => s.request3 p

/-- `~ServerProxy()`; `delete` of a null pointer has no effect. -/
def destructor (s : State) : Option State :=
  let s := { s.print (.proxyDestructor s.this.id_) with alive := false }
  match s.this.server_ with
  | none => some s
  | some p =>
      (s.heap p).map fun _ =>
        { s with heap := Function.update s.heap p none, ledger := s.ledger ++ [.closed p] }

end State

/-- Calls on the proxy. -/
inductive Op
  | request (r : Request) (p : Nat)
  | destroy
  deriving DecidableEq, Repr

/-- A `ServerProxy` for a connection id, in a memory with other `Server`s. -/
def system (id : Bytes) (heap : Nat → Option Server) : System State Op where
  init := ⟨{ id_ := id }, true, heap, [.proxyConstructor id], []⟩
  step s
    | .request r p => if s.alive then s.call p r else none
    | .destroy => if s.alive then s.destructor else none

/-- The requests of a sequence of calls. -/
def requests (tr : List Op) : List Request :=
  tr.filterMap fun
    | .request r _ => some r
    | .destroy => none

/-- Constructions of a `Server`. -/
def constructions (log : List Event) : Nat :=
  log.countP fun
    | .constructor _ => true
    | _ => false

/-! ## What a call does -/

variable {id : Bytes} {heap : Nat → Option Server}

/-- The three requests differ in the number only. -/
theorem State.call_eq (s : State) (p : Nat) (r : Request) :
    s.call p r = s.request (fun server => server.request r) p := by
  cases r <;> rfl

/-- A request of another id. -/
theorem request_refused {s : State} {r : Request} {p : Nat} (other : s.this.id_ ≠ kAdmin) :
    s.call p r = some (s.print .checking) := by
  have check : s.checkAccess p = some (false, s.print .checking) := if_pos other
  rw [State.call_eq, State.request, check]
  rfl

/-- The first request of the id `"admin"`. -/
theorem request_first {s : State} {r : Request} {p : Nat} (admin : s.this.id_ = kAdmin)
    (null : s.this.server_ = none) :
    s.call p r = if s.heap p = none then
      some { s with
        this.server_ := some p
        heap := Function.update s.heap p (some ⟨kAdmin⟩)
        log := s.log ++ [.checking, .constructor kAdmin, .handling r kAdmin, .logging kAdmin]
        ledger := s.ledger ++ [.opened p] }
    else none := by
  rw [State.call_eq, State.request]
  by_cases fresh : s.heap p = none
  · simp [State.checkAccess, State.print, State.newServer, State.logAccess, Server.request,
      admin, null, fresh]
  · simp [State.checkAccess, State.print, admin, null, fresh]

/-- A request that finds its `Server`. -/
theorem request_forwarded {s : State} {r : Request} {p q : Nat} (admin : s.this.id_ = kAdmin)
    (there : s.this.server_ = some q) (server : s.heap q = some ⟨kAdmin⟩) :
    s.call p r = some { s with
      log := s.log ++ [.checking, .handling r kAdmin, .logging kAdmin] } := by
  rw [State.call_eq, State.request]
  simp [State.checkAccess, State.print, State.logAccess, Server.request, admin, there, server]

/-- `~ServerProxy()` of a proxy that holds no `Server`. -/
theorem destructor_null {s : State} (null : s.this.server_ = none) :
    s.destructor = some { s.print (.proxyDestructor s.this.id_) with alive := false } := by
  simp [State.destructor, State.print, null]

/-- `~ServerProxy()` of a proxy that holds one. -/
theorem destructor_held {s : State} {p : Nat} {server : Server} (held : s.this.server_ = some p)
    (there : s.heap p = some server) :
    s.destructor = some { s with
      alive := false
      heap := Function.update s.heap p none
      log := s.log ++ [.proxyDestructor s.this.id_]
      ledger := s.ledger ++ [.closed p] } := by
  simp [State.destructor, State.print, held, there]

/-- **Invariant.** For another id nothing has happened to any `Server`. For
`"admin"` the pointer is null before the first request, and after it the proxy
holds the one `Server` it has made; destruction has freed that one. -/
structure Tied (id : Bytes) (heap : Nat → Option Server) (tr : List Op) (s : State) : Prop where
  id_ : s.this.id_ = id
  untouched : id ≠ kAdmin ∨ requests tr = [] →
    s.this.server_ = none ∧ s.heap = heap ∧ s.ledger = [] ∧ s.log.filter Event.ofServer = []
  made : id = kAdmin → requests tr ≠ [] →
    s.log.filter Event.ofServer = Problem.session id (requests tr) ∧
    ∃ p, heap p = none ∧ s.this.server_ = some p ∧
      (s.alive = true → s.heap = Function.update heap p (some ⟨kAdmin⟩) ∧
        s.ledger = [.opened p]) ∧
      (s.alive = false → s.heap = heap ∧ s.ledger = [.opened p, .closed p])

theorem requests_concat_request (tr : List Op) (r : Request) (p : Nat) :
    requests (tr ++ [Op.request r p]) = requests tr ++ [r] := by
  rw [requests, List.filterMap_append]
  rfl

theorem requests_concat_destroy (tr : List Op) : requests (tr ++ [Op.destroy]) = requests tr := by
  rw [requests, List.filterMap_append]
  exact List.append_nil _

theorem tied_init (id : Bytes) (heap : Nat → Option Server) :
    Tied id heap [] (system id heap).init where
  id_ := rfl
  untouched _ := ⟨rfl, rfl, rfl, rfl⟩
  made _ requested := absurd rfl requested

/-- One request. -/
theorem Tied.request {tr : List Op} {s s' : State} {r : Request} {p : Nat}
    (tied : Tied id heap tr s) (alive : s.alive = true) (hcall : s.call p r = some s') :
    Tied id heap (tr ++ [Op.request r p]) s' := by
  have some_request : requests (tr ++ [Op.request r p]) ≠ [] := by
    rw [requests_concat_request]
    simp
  by_cases admin : id = kAdmin
  · subst admin
    have session : Problem.session kAdmin (requests tr ++ [r]) =
        Problem.session kAdmin (requests tr) ++ [Event.handling r kAdmin] := by
      rw [Problem.session_concat, if_neg (not_not.mpr rfl)]
    by_cases first : requests tr = []
    · obtain ⟨null, same, nothing, silent⟩ := tied.untouched (.inr first)
      rw [request_first tied.id_ null, Option.ite_none_right_eq_some] at hcall
      obtain ⟨fresh, made⟩ := hcall
      injection made with made
      subst made
      refine ⟨tied.id_, fun h => absurd h (by simp [some_request]), fun _ _ => ⟨?_, p, ?_⟩⟩
      · rw [requests_concat_request, session, first, List.filter_append, silent]
        rfl
      · refine ⟨same ▸ fresh, rfl, fun _ => ⟨?_, ?_⟩, fun dead => ?_⟩
        · rw [← same]
        · show s.ledger ++ [.opened p] = [.opened p]
          rw [nothing]
          rfl
        · rw [show s.alive = false from dead] at alive
          cases alive
    · obtain ⟨lines, q, absent, held, living, dead⟩ := tied.made rfl first
      have server : s.heap q = some ⟨kAdmin⟩ := by
        rw [(living alive).1]
        exact Function.update_self ..
      rw [request_forwarded tied.id_ held server] at hcall
      injection hcall with made
      subst made
      refine ⟨tied.id_, fun h => absurd h (by simp [some_request]), fun _ _ => ⟨?_, q, ?_⟩⟩
      · rw [requests_concat_request, session, List.filter_append, lines]
        rfl
      · exact ⟨absent, held, living, dead⟩
  · rw [request_refused (tied.id_.symm ▸ admin)] at hcall
    injection hcall with made
    subst made
    obtain ⟨null, same, nothing, silent⟩ := tied.untouched (.inl admin)
    refine ⟨tied.id_, fun _ => ⟨null, same, nothing, ?_⟩, fun h => absurd h admin⟩
    show (s.log ++ [Event.checking]).filter Event.ofServer = []
    rw [List.filter_append, silent]
    rfl

/-- Destruction. -/
theorem Tied.destroy {tr : List Op} {s s' : State} (tied : Tied id heap tr s)
    (alive : s.alive = true) (hdestroy : s.destructor = some s') :
    Tied id heap (tr ++ [Op.destroy]) s' := by
  by_cases none_made : id ≠ kAdmin ∨ requests tr = []
  · obtain ⟨null, same, nothing, silent⟩ := tied.untouched none_made
    rw [destructor_null null] at hdestroy
    injection hdestroy with made
    subst made
    refine ⟨tied.id_, fun _ => ⟨null, same, nothing, ?_⟩, fun admin requested => ?_⟩
    · show (s.log ++ [Event.proxyDestructor s.this.id_]).filter Event.ofServer = []
      rw [List.filter_append, silent]
      rfl
    · rw [requests_concat_destroy] at requested
      exact absurd none_made (by simp [admin, requested])
  · rw [not_or, not_not] at none_made
    obtain ⟨lines, q, absent, held, living, -⟩ := tied.made none_made.1 none_made.2
    obtain ⟨memory, ledger⟩ := living alive
    have server : s.heap q = some ⟨kAdmin⟩ := by
      rw [memory]
      exact Function.update_self ..
    rw [destructor_held held server] at hdestroy
    injection hdestroy with made
    subst made
    refine ⟨tied.id_, fun h => ?_, fun _ _ => ⟨?_, q, absent, held, fun living => ?_, fun _ => ?_⟩⟩
    · rw [requests_concat_destroy] at h
      exact absurd h (by simp [none_made])
    · show (s.log ++ [Event.proxyDestructor s.this.id_]).filter Event.ofServer = _
      rw [requests_concat_destroy, List.filter_append, lines]
      exact List.append_nil _
    · cases living
    · constructor
      · show Function.update s.heap q none = heap
        rw [memory, Function.update_idem, ← absent, Function.update_eq_self]
      · show s.ledger ++ [.closed q] = [.opened q, .closed q]
        rw [ledger]
        rfl

/-- Step lemma. -/
theorem tied_step {tr : List Op} {s s' : State} {op : Op} (tied : Tied id heap tr s)
    (hstep : (system id heap).step s op = some s') : Tied id heap (tr ++ [op]) s' := by
  cases op with
  | request r p =>
      simp only [system, Option.ite_none_right_eq_some] at hstep
      exact tied.request hstep.1 hstep.2
  | destroy =>
      simp only [system, Option.ite_none_right_eq_some] at hstep
      exact tied.destroy hstep.1 hstep.2

theorem tied_run {tr : List Op} {s : State} (run : (system id heap).run tr = some s) :
    Tied id heap tr s :=
  System.run_invariant (tied_init id heap) (fun _ _ _ _ _ tied step => tied_step tied step) run

/-- A proxy that exists refuses no call: only `new` could not answer with the
address of an object that is there. -/
theorem progress {tr : List Op} {s : State} (tied : Tied id heap tr s) (alive : s.alive = true)
    {op : Op} (missing : (system id heap).step s op = none) :
    ∃ r p, op = .request r p ∧ s.heap p ≠ none := by
  cases op with
  | request r p =>
      refine ⟨r, p, rfl, fun fresh => ?_⟩
      simp only [system, if_pos alive] at missing
      by_cases admin : id = kAdmin
      · by_cases first : requests tr = []
        · have null := (tied.untouched (.inr first)).1
          rw [request_first (tied.id_.trans admin) null, if_pos fresh] at missing
          cases missing
        · obtain ⟨-, q, -, held, living, -⟩ := tied.made admin first
          have server : s.heap q = some ⟨kAdmin⟩ := by
            rw [(living alive).1]
            exact Function.update_self ..
          rw [request_forwarded (tied.id_.trans admin) held server] at missing
          cases missing
      · rw [request_refused (tied.id_.symm ▸ admin)] at missing
        cases missing
  | destroy =>
      simp only [system, if_pos alive] at missing
      by_cases none_made : id ≠ kAdmin ∨ requests tr = []
      · rw [destructor_null (tied.untouched none_made).1] at missing
        cases missing
      · rw [not_or, not_not] at none_made
        obtain ⟨-, q, -, held, living, -⟩ := tied.made none_made.1 none_made.2
        have server : s.heap q = some ⟨kAdmin⟩ := by
          rw [(living alive).1]
          exact Function.update_self ..
        rw [destructor_held held server] at missing
        cases missing

/-! ## The main result -/

/-- Only a `Server` handles requests. -/
theorem filterMap_handled (log : List Event) :
    log.filterMap Event.handled = (log.filter Event.ofServer).filterMap Event.handled := by
  rw [List.filterMap_filter]
  apply List.filterMap_congr
  intro e _
  cases e <;> rfl

/-- Only a `Server` announces its construction. -/
theorem constructions_eq (log : List Event) :
    constructions log = constructions (log.filter Event.ofServer) := by
  rw [constructions, constructions, List.countP_filter]
  apply List.countP_congr
  intro e _
  cases e <;> simp [Event.ofServer]

/-- The checked server handles nothing for another id. -/
theorem session_handled (other : id ≠ kAdmin) (rs : List Request) :
    (Problem.session id rs).filterMap Event.handled = [] := by
  induction rs using List.reverseRecOn with
  | nil => rfl
  | append_singleton rs r ih =>
      rw [Problem.session_concat, if_pos other, List.filterMap_append, ih]
      rfl

/-- It is constructed once. -/
theorem session_constructions (rs : List Request) :
    constructions (Problem.session id rs) = 1 := by
  induction rs using List.reverseRecOn with
  | nil => rfl
  | append_singleton rs r ih =>
      rw [Problem.session_concat, constructions, List.countP_append]
      rw [constructions] at ih
      rw [ih]
      split <;> rfl

theorem Tied.handled {tr : List Op} {s : State} (tied : Tied id heap tr s) :
    s.log.filterMap Event.handled =
      (Problem.session id (requests tr)).filterMap Event.handled := by
  rw [filterMap_handled]
  by_cases admin : id = kAdmin
  · by_cases first : requests tr = []
    · rw [(tied.untouched (.inr first)).2.2.2, first]
      rfl
    · rw [(tied.made admin first).1]
  · rw [(tied.untouched (.inl admin)).2.2.2, session_handled admin]
    rfl

theorem Tied.constructions {tr : List Op} {s : State} (tied : Tied id heap tr s) :
    constructions s.log = if id = kAdmin ∧ requests tr ≠ [] then 1 else 0 := by
  rw [constructions_eq]
  split
  · rename_i made
    rw [(tied.made made.1 made.2).1, session_constructions]
  · rename_i none_made
    have idle : id ≠ kAdmin ∨ requests tr = [] := by
      rw [not_and_or, not_not] at none_made
      exact none_made
    rw [(tied.untouched idle).2.2.2]
    rfl

/-- The ledger is in order, and empty once the proxy is gone. -/
theorem Tied.ledger {tr : List Op} {s : State} (tied : Tied id heap tr s) :
    ∃ o, Ledger.replay s.ledger = some o ∧ (s.alive = false → o = []) := by
  by_cases none_made : id ≠ kAdmin ∨ requests tr = []
  · obtain ⟨-, -, nothing, -⟩ := tied.untouched none_made
    rw [nothing]
    exact ⟨[], rfl, fun _ => rfl⟩
  · rw [not_or, not_not] at none_made
    obtain ⟨-, p, -, -, living, dead⟩ := tied.made none_made.1 none_made.2
    cases alive : s.alive with
    | true =>
        rw [(living alive).2]
        exact ⟨[p], rfl, fun h => by cases h⟩
    | false =>
        rw [(dead alive).2]
        refine ⟨[], ?_, fun _ => rfl⟩
        show Ledger.replay ([Entry.opened p] ++ [Entry.closed p]) = some []
        refine Ledger.replay_concat (o := [p]) rfl ?_
        rw [Ledger.record_closed List.mem_cons_self, List.erase_cons_head]

/-- What has been constructed is in the ledger. -/
theorem Tied.opened {tr : List Op} {s : State} (tied : Tied id heap tr s) :
    (∃ p, Entry.opened p ∈ s.ledger) ↔ CppLab.Patterns.Proxy.constructions s.log = 1 := by
  rw [tied.constructions]
  by_cases none_made : id ≠ kAdmin ∨ requests tr = []
  · have idle : ¬ (id = kAdmin ∧ requests tr ≠ []) := by
      rw [not_and_or, not_not]
      exact none_made
    rw [if_neg idle, (tied.untouched none_made).2.2.1]
    simp
  · rw [not_or, not_not] at none_made
    obtain ⟨-, q, -, -, living, dead⟩ := tied.made none_made.1 none_made.2
    rw [if_pos none_made]
    refine ⟨fun _ => rfl, fun _ => ⟨q, ?_⟩⟩
    cases alive : s.alive with
    | true => simp [(living alive).2]
    | false => simp [(dead alive).2]

/-- While the proxy exists it has freed nothing. -/
theorem Tied.not_freed {tr : List Op} {s : State} (tied : Tied id heap tr s)
    (alive : s.alive = true) (p : Nat) : Entry.closed p ∉ s.ledger := by
  by_cases none_made : id ≠ kAdmin ∨ requests tr = []
  · rw [(tied.untouched none_made).2.2.1]
    exact List.not_mem_nil
  · rw [not_or, not_not] at none_made
    obtain ⟨-, q, -, -, living, -⟩ := tied.made none_made.1 none_made.2
    rw [(living alive).2]
    simp

/-- `Server`s that were there before stay as they were. -/
theorem Tied.frame {tr : List Op} {s : State} (tied : Tied id heap tr s) {q : Nat}
    (other : heap q ≠ none) : s.heap q = heap q := by
  by_cases none_made : id ≠ kAdmin ∨ requests tr = []
  · rw [(tied.untouched none_made).2.1]
  · rw [not_or, not_not] at none_made
    obtain ⟨-, p, absent, -, living, dead⟩ := tied.made none_made.1 none_made.2
    have ne : q ≠ p := fun same => other (same ▸ absent)
    cases alive : s.alive with
    | true => rw [(living alive).1, Function.update_of_ne ne]
    | false => rw [(dead alive).1]

/-- A call that constructs a `Server` is the first request of `"admin"`. -/
theorem constructs_first {tr : List Op} {s s' : State} {op : Op} (tied : Tied id heap tr s)
    (hstep : (system id heap).step s op = some s')
    (new : constructions s'.log ≠ constructions s.log) :
    id = kAdmin ∧ requests tr = [] ∧ ∃ r p, op = .request r p := by
  have before := tied.constructions
  have after := (tied_step tied hstep).constructions
  cases op with
  | request r p =>
      have some_request : requests (tr ++ [Op.request r p]) ≠ [] := by
        rw [requests_concat_request]
        simp
      rw [before, after] at new
      by_cases admin : id = kAdmin
      · by_cases first : requests tr = []
        · exact ⟨admin, first, r, p, rfl⟩
        · rw [if_pos ⟨admin, some_request⟩, if_pos ⟨admin, first⟩] at new
          exact absurd rfl new
      · rw [if_neg (fun h => admin h.1), if_neg (fun h => admin h.1)] at new
        exact absurd rfl new
  | destroy =>
      rw [requests_concat_destroy] at after
      rw [before, after] at new
      exact absurd rfl new

/-- **The proxy is the checked server.** Whatever the id, the requests and the
end of the proxy: what is handled, and for whom, is what a `problem::Server` of
this id handles; a `Server` is constructed once if the id is `"admin"` and a
request has come, at the first request, and not at all otherwise; it is freed
once, by the destructor; of another id no call touches a `Server`; and no call
goes through a null or dangling pointer. -/
theorem proxy_refines {id : Bytes} {heap : Nat → Option Server} {tr : List Op} {s : State}
    (run : (system id heap).run tr = some s) :
    s.log.filterMap Event.handled =
      (Problem.session id (requests tr)).filterMap Event.handled ∧
    (constructions s.log = if id = kAdmin ∧ requests tr ≠ [] then 1 else 0) ∧
    (∀ op s', (system id heap).step s op = some s' →
      constructions s'.log ≠ constructions s.log →
        id = kAdmin ∧ requests tr = [] ∧ ∃ r p, op = .request r p) ∧
    (((∃ p, .opened p ∈ s.ledger) ↔ constructions s.log = 1) ∧ Ledger.AtMostOnce s.ledger ∧
      (s.alive = true → ∀ p, .closed p ∉ s.ledger) ∧
      (s.alive = false → Ledger.ExactlyOnce s.ledger)) ∧
    (id ≠ kAdmin → s.heap = heap ∧ s.ledger = [] ∧ s.log.filter Event.ofServer = []) ∧
    (∀ q, heap q ≠ none → s.heap q = heap q) ∧
    (s.alive = true → ∀ op, (system id heap).step s op = none →
      ∃ r p, op = .request r p ∧ s.heap p ≠ none) := by
  have tied := tied_run run
  obtain ⟨o, book, closed⟩ := tied.ledger
  refine ⟨tied.handled, tied.constructions, ?_, ⟨tied.opened, ?_, tied.not_freed, ?_⟩, ?_, ?_, ?_⟩
  · intro op s' hstep new
    exact constructs_first tied hstep new
  · exact Ledger.atMostOnce_of_replay book
  · intro dead
    rw [closed dead] at book
    exact Ledger.exactlyOnce_of_replay book
  · intro other
    exact (tied.untouched (.inl other)).2
  · intro q there
    exact tied.frame there
  · intro alive op missing
    exact progress tied alive missing

/-- The demo's calls for `"admin"`. -/
theorem proxy_refines_admin :
    ∃ s, (system (ascii "admin") fun _ => none).run
        [.request .request1 4, .request .request2 5, .request .request3 6, .destroy] = some s ∧
      s.log.filterMap Event.handled = [(.request1, ascii "admin"), (.request2, ascii "admin"),
        (.request3, ascii "admin")] ∧
      constructions s.log = 1 ∧ Ledger.ExactlyOnce s.ledger := by
  refine ⟨_, rfl, ?_⟩
  have run : (system (ascii "admin") fun _ => none).run
      [.request .request1 4, .request .request2 5, .request .request3 6, .destroy] =
        some _ := rfl
  obtain ⟨handled, constructed, -, ⟨-, -, -, released⟩, -⟩ := proxy_refines run
  exact ⟨handled, constructed, released rfl⟩

end CppLab.Patterns.Proxy
