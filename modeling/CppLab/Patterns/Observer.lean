import CppLab.Lib.System

/-!
# `ButtonConcreteSubject` notified while it changes

`notify` walks the list of listeners with an iterator, and each `update` may call
`attach` and `detach` on the same subject: elements appended are still walked
over, and the erased element must not be the one the iterator stands on, for
`++it` reads it after `update` has returned.

The nodes of a `std::list` have an identity that other insertions and removals do
not touch. `notify` is taken apart into its calls of `update`, their returns and its
own; what happens inside an `update` is any sequence of `attach` and `detach`.
An increment of an iterator to an erased node is a step that does not exist.

`Walk` is the invariant of the loop, and `notified_run` the main result, about the
programs that are `Orderly`.
-/

namespace CppLab.Patterns.Observer

inductive Event
  | kCreate
  | kRead
  | kUpdate
  | kDelete
  deriving DecidableEq, Repr

variable {ο : Type*}

/-- A call that has been made: `attach` and `detach` have returned, `update` has
begun. -/
inductive Call (ο : Type*)
  | attached (o : ο)
  | detached (o : ο)
  | updated (o : ο) (e : Event)
  deriving DecidableEq, Repr

/-- A `notify` that has not returned: its event, the node the iterator stands on
(`none` for `end()`), whether `update` is running. The rest is for the statements:
the listeners there were at its start and the calls since then. -/
structure Notify (ο : Type*) where
  event : Event
  cursor : Option Nat
  inside : Bool
  start : List ο
  calls : List (Call ο)

/-- `listeners_` with the identity of each node, the next identity, the `notify`
that is running, and all calls so far. -/
structure State (ο : Type*) where
  listeners : List (Nat × ο)
  next : Nat
  notify : Option (Notify ο)
  log : List (Call ο)

namespace State

/-- The listeners in order. -/
def observers (s : State ο) : List ο := s.listeners.map (·.2)

/-- A call is entered in both histories. -/
def record (s : State ο) (c : Call ο) : State ο :=
  { s with
    notify := s.notify.map fun f => { f with calls := f.calls ++ [c] }
    log := s.log ++ [c] }

/-- `listeners_.push_back(observer)`. -/
def attach (s : State ο) (o : ο) : State ο :=
  { s with listeners := s.listeners ++ [(s.next, o)], next := s.next + 1 }.record (.attached o)

/-- `listeners_.remove(observer)`. -/
def detach [DecidableEq ο] (s : State ο) (o : ο) : State ο :=
  { s with listeners := s.listeners.filter fun node => node.2 ≠ o }.record (.detached o)

/-- `begin()`. -/
def begin_ (s : State ο) : Option Nat := s.listeners.head?.map (·.1)

/-- `*it`, of an iterator to a node. -/
def deref (s : State ο) (n : Nat) : Option ο :=
  (s.listeners.find? fun node => node.1 = n).map (·.2)

/-- `++it`, of an iterator to a node; `none` if the node has been erased. -/
def increment (s : State ο) (n : Nat) : Option (Option Nat) :=
  match s.listeners.dropWhile fun node => node.1 ≠ n with
  | [] => none
  | _ :: rest => some (rest.head?.map (·.1))

/-- The client and the observers are the ones who call: between two updates nobody
does. -/
def callable (s : State ο) : Bool := s.notify.all (·.inside)

/-- The observer whose `update` is running. -/
def current (s : State ο) : Option ο :=
  s.notify.bind fun f => if f.inside then f.cursor.bind s.deref else none

end State

inductive Op (ο : Type*)
  | attach (o : ο)
  | detach (o : ο)
  | notify (e : Event)
  | update
  | updateReturns
  | notifyReturns

/-- A subject, from its construction on. -/
def system (ο : Type*) [DecidableEq ο] : System (State ο) (Op ο) where
  init := ⟨[], 0, none, []⟩
  step s
    | .attach o => if s.callable then some (s.attach o) else none
    | .detach o => if s.callable then some (s.detach o) else none
    | .notify e =>
        if s.notify.isNone then
          some { s with notify := some ⟨e, s.begin_, false, s.observers, []⟩ }
        else none
    | .update =>
        s.notify.bind fun f =>
          if f.inside then none
          else (f.cursor.bind s.deref).map fun o =>
            { s with notify := some { f with inside := true } }.record (.updated o f.event)
    | .updateReturns =>
        s.notify.bind fun f =>
          if f.inside then
            (f.cursor.bind s.increment).map fun cursor =>
              { s with notify := some { f with inside := false, cursor := cursor } }
          else none
    | .notifyReturns =>
        s.notify.bind fun f =>
          if f.inside = false ∧ f.cursor = none then some { s with notify := none } else none

/-! ## What notification should do -/

/-- How often `attach` has been called. -/
def attaches (calls : List (Call ο)) : Nat :=
  calls.countP fun
    | .attached _ => true
    | _ => false

/-- How often `update` has been called. -/
def updates (calls : List (Call ο)) : Nat :=
  calls.countP fun
    | .updated _ _ => true
    | _ => false

/-- No `update` of an observer after its `detach`, but for one that has been
attached again. -/
def NotAfterDetach (log : List (Call ο)) : Prop :=
  ∀ pre o mid e post, log = pre ++ .detached o :: (mid ++ .updated o e :: post) →
    .attached o ∈ mid

/-- A `notify` that is about to return has called `update` once on each observer
that was there from the start. -/
def OnceEach [DecidableEq ο] (s : State ο) : Prop :=
  ∀ f, s.notify = some f → f.inside = false → f.cursor = none →
    ∀ o ∈ f.start, .detached o ∉ f.calls → f.calls.count (.updated o f.event) = 1

/-- A `notify` goes on: the next step of the loop is there, whatever `update` does. -/
def GoesOn [DecidableEq ο] (s : State ο) : Prop :=
  s.notify ≠ none → ∃ op ∈ [Op.update, .updateReturns, .notifyReturns],
    (system ο).step s op ≠ none

/-- A `notify` has called `update` no more often than there were listeners at its
start and `bound` more. -/
def Bounded (bound : Nat) (s : State ο) : Prop :=
  ∀ f, s.notify = some f → updates f.calls ≤ f.start.length + bound

/-- A program that treats the subject with care: it has each observer attached once
when it notifies; an `update` attaches observers that are not attached, `bound`
times at most in one `notify`; and it does not detach its own observer. -/
def Orderly (bound : Nat) (s : State ο) : Op ο → Prop
  | .attach o => ∀ f ∈ s.notify, o ∉ s.observers ∧ attaches f.calls < bound
  | .detach o => s.current ≠ some o
  | .notify _ => s.observers.Nodup
  | _ => True

instance [DecidableEq ο] (bound : Nat) (s : State ο) (op : Op ο) :
    Decidable (Orderly bound s op) := by
  cases op <;> unfold Orderly <;> infer_instance

/-! ## The list and its iterators -/

/-- The last call of `attach` or `detach` for an observer was `attach`. -/
def Attached (log : List (Call ο)) (o : ο) : Prop :=
  ∃ pre post, log = pre ++ .attached o :: post ∧ .detached o ∉ post

/-- Nodes are in the order in which they were made. -/
structure Nodes (s : State ο) : Prop where
  sorted : (s.listeners.map (·.1)).Pairwise (· < ·)
  fresh : ∀ n ∈ s.listeners.map (·.1), n < s.next
  attached : ∀ o ∈ s.observers, Attached s.log o

/-- A node cuts the list in two, the older nodes and the newer ones. -/
theorem Nodes.cut {s : State ο} (nodes : Nodes s) {n : Nat} (there : n ∈ s.listeners.map (·.1)) :
    ∃ older o newer, s.listeners = older ++ (n, o) :: newer ∧ (∀ node ∈ older, node.1 < n) ∧
      (∀ node ∈ newer, n < node.1) ∧ s.deref n = some o ∧
      s.increment n = some (newer.head?.map (·.1)) := by
  obtain ⟨⟨m, o⟩, member, rfl⟩ := List.mem_map.mp there
  obtain ⟨older, newer, split⟩ := List.append_of_mem member
  have sorted := nodes.sorted
  rw [split, List.map_append, List.map_cons, List.pairwise_append, List.pairwise_cons] at sorted
  obtain ⟨-, ⟨after, -⟩, before⟩ := sorted
  have less : ∀ node ∈ older, node.1 < m := fun node member =>
    before node.1 (List.mem_map_of_mem member) m List.mem_cons_self
  have skip : ∀ node ∈ older, decide (node.1 ≠ m) = true := fun node member =>
    decide_eq_true (Nat.ne_of_lt (less node member))
  refine ⟨older, o, newer, split, less, ?_, ?_, ?_⟩
  · intro node member
    exact after node.1 (List.mem_map_of_mem member)
  · have absent : older.find? (fun node => node.1 = m) = none := by
      rw [List.find?_eq_none]
      intro node member
      simpa using Nat.ne_of_lt (less node member)
    rw [State.deref, split, List.find?_append, absent, Option.none_or,
      List.find?_cons_of_pos (by simp)]
    rfl
  · rw [State.increment, split, List.dropWhile_append_of_pos skip,
      List.dropWhile_cons_of_neg (by simp)]

/-- Two nodes with one identity are one node. -/
theorem Nodes.same {s : State ο} (nodes : Nodes s) {n : Nat} {o o' : ο}
    (member : (n, o) ∈ s.listeners) (member' : (n, o') ∈ s.listeners) : o = o' := by
  obtain ⟨older, a, newer, split, less, more, -⟩ := nodes.cut (List.mem_map_of_mem member)
  have only : ∀ b, (n, b) ∈ s.listeners → b = a := by
    intro b there
    rw [split, List.mem_append, List.mem_cons] at there
    rcases there with there | there | there
    · exact absurd (less _ there) (Nat.lt_irrefl n)
    · exact (Prod.mk.inj there).2
    · exact absurd (more _ there) (Nat.lt_irrefl n)
  rw [only o member, only o' member']

/-- An observer that is attached once has one node. -/
theorem node_unique {s : State ο} (unique : s.observers.Nodup) {n n' : Nat} {o : ο}
    (member : (n, o) ∈ s.listeners) (member' : (n', o) ∈ s.listeners) : n = n' := by
  have pair := List.inj_on_of_nodup_map unique member member' rfl
  exact (Prod.mk.inj pair).1

theorem attached_concat {log : List (Call ο)} {o : ο} {c : Call ο} (attached : Attached log o)
    (other : c ≠ .detached o) : Attached (log ++ [c]) o := by
  obtain ⟨pre, post, rfl, kept⟩ := attached
  refine ⟨pre, post ++ [c], by simp, ?_⟩
  rw [List.mem_append, List.mem_singleton, not_or]
  exact ⟨kept, other.symm⟩

/-- Steps that leave the list alone. -/
theorem Nodes.frame {s s' : State ο} (nodes : Nodes s) (listeners : s'.listeners = s.listeners)
    (next : s'.next = s.next) (log : ∀ o, Attached s.log o → Attached s'.log o) : Nodes s' where
  sorted := listeners ▸ nodes.sorted
  fresh := by
    rw [listeners, next]
    exact nodes.fresh
  attached := by
    intro o member
    rw [State.observers, listeners] at member
    exact log o (nodes.attached o member)

theorem Nodes.attach {s : State ο} (nodes : Nodes s) (o : ο) : Nodes (s.attach o) := by
  constructor
  · show ((s.listeners ++ [(s.next, o)]).map (·.1)).Pairwise (· < ·)
    rw [List.map_append, List.pairwise_append]
    refine ⟨nodes.sorted, List.pairwise_singleton _ _, ?_⟩
    intro n member m last
    cases List.mem_singleton.mp last
    exact nodes.fresh n member
  · intro n member
    change n ∈ (s.listeners ++ [(s.next, o)]).map (·.1) at member
    show n < s.next + 1
    rw [List.map_append, List.mem_append] at member
    rcases member with member | member
    · exact Nat.lt_succ_of_lt (nodes.fresh n member)
    · cases List.mem_singleton.mp member
      exact Nat.lt_succ_self s.next
  · intro a member
    change a ∈ (s.listeners ++ [(s.next, o)]).map (·.2) at member
    show Attached (s.log ++ [.attached o]) a
    rw [List.map_append, List.mem_append] at member
    rcases member with member | member
    · exact attached_concat (nodes.attached a member) (by simp)
    · cases List.mem_singleton.mp member
      exact ⟨s.log, [], rfl, List.not_mem_nil⟩

theorem Nodes.detach [DecidableEq ο] {s : State ο} (nodes : Nodes s) (o : ο) :
    Nodes (s.detach o) := by
  have kept : (s.detach o).listeners.Sublist s.listeners := List.filter_sublist
  constructor
  · exact nodes.sorted.sublist (kept.map _)
  · intro n member
    exact nodes.fresh n ((kept.map _).subset member)
  · intro a member
    obtain ⟨⟨n, b⟩, there, rfl⟩ := List.mem_map.mp member
    obtain ⟨there, other⟩ := List.mem_filter.mp there
    refine attached_concat (nodes.attached b (List.mem_map_of_mem there)) ?_
    rintro same
    injection same with same
    simp [same] at other

/-! ## No update after a detach -/

theorem NotAfterDetach.concat {log : List (Call ο)} (before : NotAfterDetach log) {c : Call ο}
    (last : ∀ o e, c = .updated o e → Attached log o) : NotAfterDetach (log ++ [c]) := by
  intro pre o mid e post split
  rw [← List.cons_append, ← List.append_assoc] at split
  rcases System.concat_eq_append_cons.mp split with ⟨-, whole, updated⟩ | ⟨post, -, earlier⟩
  · -- the update is the last call: its observer has been attached after the detach
    obtain ⟨p, q, log', kept⟩ := last o e updated.symm
    rw [← whole] at log'
    rcases List.append_eq_append_iff.mp log' with ⟨r, rfl, tail⟩ | ⟨r, rfl, tail⟩
    · cases r with
      | nil => cases tail
      | cons x r =>
          injection tail with _ tail
          rw [tail]
          exact List.mem_append_right r List.mem_cons_self
    · cases r with
      | nil => cases tail
      | cons x r =>
          injection tail with _ tail
          rw [tail] at kept
          exact absurd (List.mem_append_right r List.mem_cons_self) kept
  · rw [List.append_assoc, List.cons_append] at earlier
    exact before pre o mid e post earlier

/-! ## The walk -/

/-- The walk has come past a node, or is on it and has called `update`. -/
def Notify.visited (f : Notify ο) (n : Nat) : Bool :=
  match f.cursor with
  | none => true
  | some k => n < k ∨ (n = k ∧ f.inside)

theorem visited_end {f : Notify ο} (atEnd : f.cursor = none) (n : Nat) : f.visited n = true := by
  rw [Notify.visited, atEnd]

theorem visited_node {f : Notify ο} {k : Nat} (on : f.cursor = some k) (n : Nat) :
    f.visited n = true ↔ n < k ∨ (n = k ∧ f.inside = true) := by
  rw [Notify.visited, on]
  exact decide_eq_true_iff

theorem updates_concat (calls : List (Call ο)) (c : Call ο) :
    updates (calls ++ [c]) = updates calls + updates [c] := List.countP_append ..

theorem attaches_concat (calls : List (Call ο)) (c : Call ο) :
    attaches (calls ++ [c]) = attaches calls + attaches [c] := List.countP_append ..

/-- The loop has called `update` on the observer it is on. -/
def Notify.called (f : Notify ο) (o : ο) : Notify ο :=
  { f with inside := true, calls := f.calls ++ [.updated o f.event] }

theorem visited_before {f : Notify ο} {n : Nat} (outside : f.inside = false)
    (on : f.cursor = some n) (m : Nat) : f.visited m = true ↔ m < n := by
  rw [visited_node on, outside]
  simp

theorem visited_called {f : Notify ο} {n : Nat} {o : ο} (on : f.cursor = some n) (m : Nat) :
    (f.called o).visited m = true ↔ m < n ∨ m = n := by
  rw [visited_node (f := f.called o) on]
  simp [Notify.called]

/-- The node of the call is not to come any more. -/
theorem toCome_called {s : State ο} {f : Notify ο} {older newer : List (Nat × ο)} {n : Nat} {o : ο}
    (split : s.listeners = older ++ (n, o) :: newer) (outside : f.inside = false)
    (on : f.cursor = some n) :
    s.listeners.countP (fun node => !(f.called o).visited node.1) + 1 ≤
      s.listeners.countP (fun node => !f.visited node.1) := by
  have before := visited_before outside on
  have after := visited_called (o := o) on
  have fewer : ∀ nodes : List (Nat × ο),
      nodes.countP (fun node => !(f.called o).visited node.1) ≤
        nodes.countP (fun node => !f.visited node.1) := by
    intro nodes
    apply List.countP_mono_left
    intro node _ later
    rw [Bool.not_eq_true', Bool.eq_false_iff, ne_eq, after, not_or] at later
    rw [Bool.not_eq_true', Bool.eq_false_iff, ne_eq, before]
    exact later.1
  have here : f.visited n = false := by
    rw [Bool.eq_false_iff, ne_eq, before]
    exact Nat.lt_irrefl n
  have gone : (f.called o).visited n = true := (after n).mpr (.inr rfl)
  have first := fewer older
  have last := fewer newer
  rw [split, List.countP_append, List.countP_cons, List.countP_append, List.countP_cons, here, gone]
  simp only [Bool.not_true, Bool.not_false, Bool.false_eq_true, if_false, if_true]
  omega

/-- A recorded call is also a call of the `notify` that is running. -/
theorem notify_record {s : State ο} {c : Call ο} {f : Notify ο}
    (running : (s.record c).notify = some f) :
    ∃ f₀, s.notify = some f₀ ∧ f = { f₀ with calls := f₀.calls ++ [c] } := by
  obtain ⟨f₀, before, rfl⟩ := Option.map_eq_some_iff.mp running
  exact ⟨f₀, before, rfl⟩

/-- The increment comes past the node it was on and no other. -/
theorem visited_increment {s : State ο} {f : Notify ο} {n : Nat} {a : ο}
    {older newer : List (Nat × ο)} {node : Nat × ο} (nodes : Nodes s)
    (split : s.listeners = older ++ (n, a) :: newer) (inside : f.inside = true)
    (on : f.cursor = some n) (member : node ∈ s.listeners) :
    Notify.visited { f with inside := false, cursor := newer.head?.map (·.1) } node.1 =
      f.visited node.1 := by
  have sorted := nodes.sorted
  rw [split, List.map_append, List.map_cons, List.pairwise_append, List.pairwise_cons] at sorted
  obtain ⟨-, ⟨more, newerSorted⟩, less⟩ := sorted
  have old : ∀ node ∈ older, node.1 < n := fun node member =>
    less node.1 (List.mem_map_of_mem member) n List.mem_cons_self
  -- the cursor goes to the next newer node, or to the end if there is none
  rw [Bool.eq_iff_iff, visited_node on, inside]
  rw [split, List.mem_append, List.mem_cons] at member
  cases newer with
  | nil =>
      rw [List.head?_nil, Option.map_none, visited_end rfl]
      rcases member with member | rfl | member
      · simp [old node member]
      · simp
      · cases member
  | cons first rest =>
      rw [List.head?_cons, Option.map_some, visited_node rfl]
      have next := more first.1 (by simp)
      simp only [Bool.false_eq_true, and_false, or_false, and_true]
      rcases member with member | rfl | member
      · have := old node member
        omega
      · simp [next]
      · have later : first.1 ≤ node.1 := by
          rw [List.map_cons, List.pairwise_cons] at newerSorted
          rcases List.mem_cons.mp member with rfl | member
          · exact Nat.le_refl _
          · exact Nat.le_of_lt (newerSorted.1 node.1 (List.mem_map_of_mem member))
        omega

variable [DecidableEq ο]

/-- **Invariant of the loop.** The iterator is on a node of the list or at its end;
an observer that was there from the start is still there, and has been updated once
if its node has been visited and not at all otherwise; and the calls of `update`,
with the nodes still to come, are paid for by the listeners at the start and those
attached since. -/
structure Walk (bound : Nat) (s : State ο) (f : Notify ο) : Prop where
  unique : s.observers.Nodup
  here : ∀ n, f.cursor = some n → n ∈ s.listeners.map (·.1)
  inside : f.inside = true → f.cursor ≠ none
  once : ∀ o ∈ f.start, .detached o ∉ f.calls → ∃ n, (n, o) ∈ s.listeners ∧
    f.calls.count (.updated o f.event) = if f.visited n then 1 else 0
  paid : updates f.calls + s.listeners.countP (fun node => !f.visited node.1) ≤
    f.start.length + attaches f.calls
  bounded : attaches f.calls ≤ bound

/-- The loop starts at the first node. -/
theorem walk_notify {s : State ο} (nodes : Nodes s) (unique : s.observers.Nodup) (bound : Nat)
    (e : Event) :
    Walk bound { s with notify := some ⟨e, s.begin_, false, s.observers, []⟩ }
      ⟨e, s.begin_, false, s.observers, []⟩ := by
  refine ⟨unique, ?_, by simp, ?_, ?_, Nat.zero_le bound⟩
  · intro n first
    obtain ⟨node, head, rfl⟩ := Option.map_eq_some_iff.mp first
    exact List.mem_map_of_mem (List.mem_of_mem_head? head)
  · intro o member _
    obtain ⟨⟨n, a⟩, there, rfl⟩ := List.mem_map.mp member
    refine ⟨n, there, ?_⟩
    rw [if_neg]
    · rfl
    · -- the first node is the oldest
      cases list : s.listeners with
      | nil => simp [list] at there
      | cons first rest =>
          have on : s.begin_ = some first.1 := by rw [State.begin_, list]; rfl
          have sorted := nodes.sorted
          rw [list, List.map_cons, List.pairwise_cons] at sorted
          rw [visited_node (f := ⟨e, s.begin_, false, s.observers, []⟩) on]
          rw [list, List.mem_cons] at there
          rcases there with rfl | there
          · simp
          · have later := sorted.1 n (List.mem_map_of_mem (f := Prod.fst) there)
            simp only [Bool.false_eq_true, and_false, or_false]
            omega
  · show 0 + _ ≤ s.observers.length + 0
    rw [Nat.zero_add, Nat.add_zero, State.observers, List.length_map]
    exact List.countP_le_length

/-- `attach` in an `update`. -/
theorem Walk.attach {bound : Nat} {s : State ο} {f : Notify ο} (walk : Walk bound s f) {o : ο}
    (new : o ∉ s.observers) (more : attaches f.calls < bound) :
    Walk bound (s.attach o) { f with calls := f.calls ++ [.attached o] } := by
  have visited : ∀ n, ({ f with calls := f.calls ++ [.attached o] } : Notify ο).visited n =
      f.visited n := fun n => rfl
  constructor
  · show ((s.listeners ++ [(s.next, o)]).map (·.2)).Nodup
    rw [List.map_append, List.nodup_append]
    refine ⟨walk.unique, List.nodup_singleton o, ?_⟩
    rintro a member b last rfl
    cases List.mem_singleton.mp last
    exact new member
  · intro n on
    show n ∈ (s.listeners ++ [(s.next, o)]).map (·.1)
    rw [List.map_append]
    exact List.mem_append_left _ (walk.here n on)
  · exact walk.inside
  · intro a member kept
    rw [List.mem_append, not_or] at kept
    obtain ⟨n, there, count⟩ := walk.once a member kept.1
    refine ⟨n, List.mem_append_left _ there, ?_⟩
    rw [List.count_append, visited, ← count]
    simp
  · have paid := walk.paid
    rw [updates_concat, attaches_concat]
    show updates f.calls + 0 + (s.listeners ++ [(s.next, o)]).countP
      (fun node => !f.visited node.1) ≤ f.start.length + (attaches f.calls + 1)
    rw [List.countP_append]
    -- the new node is to come, unless the walk is at the end already
    have last : [(s.next, o)].countP (fun node => !f.visited node.1) ≤ 1 := List.countP_le_length
    omega
  · rw [attaches_concat]
    exact more

/-- `detach` in the `update` of another observer. -/
theorem Walk.detach {bound : Nat} {s : State ο} {f : Notify ο} (walk : Walk bound s f)
    (nodes : Nodes s) {o : ο} (other : f.cursor.bind s.deref ≠ some o) :
    Walk bound (s.detach o) { f with calls := f.calls ++ [.detached o] } := by
  have kept : (s.detach o).listeners.Sublist s.listeners := List.filter_sublist
  have stays : ∀ n a, (n, a) ∈ s.listeners → a ≠ o → (n, a) ∈ (s.detach o).listeners := by
    intro n a there ne
    exact List.mem_filter.mpr ⟨there, decide_eq_true ne⟩
  constructor
  · exact walk.unique.sublist (kept.map _)
  · intro n on
    obtain ⟨older, a, newer, split, -, -, deref, -⟩ := nodes.cut (walk.here n on)
    -- the node of the iterator is another observer's and stays
    have ne : a ≠ o := by
      rintro rfl
      rw [show f.cursor = some n from on, Option.bind_some, deref] at other
      exact other rfl
    have there : (n, a) ∈ s.listeners := by
      rw [split]
      simp
    exact List.mem_map_of_mem (stays n a there ne)
  · exact walk.inside
  · intro a member untouched
    rw [List.mem_append, List.mem_singleton, not_or] at untouched
    obtain ⟨n, there, count⟩ := walk.once a member untouched.1
    refine ⟨n, stays n a there fun same => untouched.2 (same ▸ rfl), ?_⟩
    rw [List.count_append]
    show _ = if f.visited n then 1 else 0
    rw [← count]
    simp
  · have paid := walk.paid
    rw [updates_concat, attaches_concat]
    show updates f.calls + 0 + (s.detach o).listeners.countP (fun node => !f.visited node.1) ≤
      f.start.length + (attaches f.calls + 0)
    have fewer := kept.countP_le (p := fun node => !f.visited node.1)
    omega
  · rw [attaches_concat]
    exact walk.bounded

/-- `update` of the observer at the iterator. -/
theorem Walk.update {bound : Nat} {s : State ο} {f : Notify ο} (walk : Walk bound s f)
    (nodes : Nodes s) (outside : f.inside = false) {n : Nat} (on : f.cursor = some n) {o : ο}
    (deref : s.deref n = some o) :
    Walk bound ({ s with notify := some { f with inside := true } }.record (.updated o f.event))
      (f.called o) := by
  obtain ⟨older, a, newer, split, -, -, deref', -⟩ := nodes.cut (walk.here n on)
  rw [deref] at deref'
  cases deref'
  have there : (n, o) ∈ s.listeners := by
    rw [split]
    simp
  have before := visited_before outside on
  have after := visited_called (o := o) on
  constructor
  · exact walk.unique
  · exact walk.here
  · intro _ atEnd
    rw [show f.cursor = none from atEnd] at on
    cases on
  · intro a member kept
    rw [Notify.called, List.mem_append, not_or] at kept
    obtain ⟨m, here, count⟩ := walk.once a member kept.1
    refine ⟨m, here, ?_⟩
    simp only [before] at count
    simp only [after]
    rw [Notify.called, List.count_append]
    by_cases same : a = o
    · subst same
      cases node_unique walk.unique here there
      rw [if_neg (Nat.lt_irrefl _)] at count
      rw [count, if_pos (.inr rfl), List.count_singleton_self]
    · have apart : m ≠ n := by
        rintro rfl
        exact same (nodes.same here there)
      have nothing : [Call.updated o f.event].count (.updated a f.event) = 0 := by
        rw [List.count_eq_zero, List.mem_singleton]
        intro clash
        injection clash with clash
        exact same clash
      have seen : m < n ∨ m = n ↔ m < n := or_iff_left apart
      rw [nothing, Nat.add_zero, count]
      simp only [seen]
  · have paid := walk.paid
    have fewer := toCome_called (o := o) split outside on
    rw [Notify.called, updates_concat, attaches_concat]
    show updates f.calls + 1 + s.listeners.countP (fun node => !(f.called o).visited node.1) ≤
      f.start.length + (attaches f.calls + 0)
    omega
  · rw [Notify.called, attaches_concat]
    exact walk.bounded

/-- `++it` after the `update`. -/
theorem Walk.updateReturns {bound : Nat} {s : State ο} {f : Notify ο} (walk : Walk bound s f)
    (nodes : Nodes s) (inside : f.inside = true) {n : Nat} (on : f.cursor = some n)
    {cursor : Option Nat} (increment : s.increment n = some cursor) :
    Walk bound { s with notify := some { f with inside := false, cursor := cursor } }
      { f with inside := false, cursor := cursor } := by
  obtain ⟨older, a, newer, split, less, more, -, increment'⟩ := nodes.cut (walk.here n on)
  rw [increment] at increment'
  cases increment'
  have visited := fun node (member : node ∈ s.listeners) =>
    visited_increment nodes split inside on member
  constructor
  · exact walk.unique
  · intro m first
    obtain ⟨node, head, rfl⟩ := Option.map_eq_some_iff.mp first
    have member : node ∈ s.listeners := by
      rw [split]
      exact List.mem_append_right _ (List.mem_cons_of_mem _ (List.mem_of_mem_head? head))
    exact List.mem_map_of_mem member
  · intro h
    cases h
  · intro o member kept
    obtain ⟨m, here, count⟩ := walk.once o member kept
    refine ⟨m, here, ?_⟩
    rw [visited (m, o) here]
    exact count
  · refine le_trans (Nat.add_le_add_left (Nat.le_of_eq ?_) _) walk.paid
    apply List.countP_congr
    intro node member
    rw [visited node member]
  · exact walk.bounded

/-! ## Steps and runs -/

/-- What every step of an orderly program preserves. -/
structure Kept (bound : Nat) (s : State ο) : Prop where
  nodes : Nodes s
  silent : NotAfterDetach s.log
  walk : ∀ f, s.notify = some f → Walk bound s f

theorem kept_init (bound : Nat) : Kept bound (system ο).init := by
  constructor
  · constructor
    · exact List.Pairwise.nil
    · intro n member
      cases member
    · intro o member
      cases member
  · intro pre o mid e post split
    cases pre <;> cases split
  · intro f running
    cases running

theorem Kept.attach {bound : Nat} {s : State ο} (kept : Kept bound s) {o : ο}
    (orderly : ∀ f ∈ s.notify, o ∉ s.observers ∧ attaches f.calls < bound) :
    Kept bound (s.attach o) := by
  refine ⟨kept.nodes.attach o, kept.silent.concat (by simp), ?_⟩
  intro f running
  obtain ⟨f₀, before, rfl⟩ := notify_record running
  obtain ⟨new, more⟩ := orderly f₀ before
  exact (kept.walk f₀ before).attach new more

theorem Kept.detach {bound : Nat} {s : State ο} (kept : Kept bound s) {o : ο}
    (callable : s.callable = true) (orderly : s.current ≠ some o) : Kept bound (s.detach o) := by
  refine ⟨kept.nodes.detach o, kept.silent.concat (by simp), ?_⟩
  intro f running
  obtain ⟨f₀, before, rfl⟩ := notify_record running
  have before : s.notify = some f₀ := before
  have inside : f₀.inside = true := by
    rw [State.callable, before] at callable
    exact callable
  apply (kept.walk f₀ before).detach kept.nodes
  rw [State.current, before, Option.bind_some, if_pos inside] at orderly
  exact orderly

theorem Kept.notify {bound : Nat} {s : State ο} (kept : Kept bound s) (unique : s.observers.Nodup)
    (e : Event) : Kept bound { s with notify := some ⟨e, s.begin_, false, s.observers, []⟩ } := by
  refine ⟨kept.nodes.frame rfl rfl fun _ attached => attached, kept.silent, ?_⟩
  intro f running
  cases running
  exact walk_notify kept.nodes unique bound e

theorem Kept.update {bound : Nat} {s : State ο} (kept : Kept bound s) {f : Notify ο}
    (running : s.notify = some f) (outside : f.inside = false) {n : Nat} (on : f.cursor = some n)
    {o : ο} (deref : s.deref n = some o) :
    Kept bound
      ({ s with notify := some { f with inside := true } }.record (.updated o f.event)) := by
  have walk := kept.walk f running
  obtain ⟨older, a, newer, split, -, -, deref', -⟩ := kept.nodes.cut (walk.here n on)
  rw [deref] at deref'
  cases deref'
  -- the iterator is on a node of the list, so its observer is attached
  have there : o ∈ s.observers := by
    rw [State.observers, split]
    simp
  constructor
  · exact kept.nodes.frame rfl rfl fun a attached => attached_concat attached (by simp)
  · apply kept.silent.concat
    rintro a e same
    cases same
    exact kept.nodes.attached o there
  · intro f' running'
    cases running'
    exact walk.update kept.nodes outside on deref

theorem Kept.updateReturns {bound : Nat} {s : State ο} (kept : Kept bound s) {f : Notify ο}
    (running : s.notify = some f) (inside : f.inside = true) {n : Nat} (on : f.cursor = some n)
    {cursor : Option Nat} (increment : s.increment n = some cursor) :
    Kept bound { s with notify := some { f with inside := false, cursor := cursor } } := by
  refine ⟨kept.nodes.frame rfl rfl fun _ attached => attached, kept.silent, ?_⟩
  intro f' running'
  cases running'
  exact (kept.walk f running).updateReturns kept.nodes inside on increment

/-- **Step lemma.** -/
theorem kept_step {bound : Nat} {s s' : State ο} {op : Op ο} (kept : Kept bound s)
    (orderly : Orderly bound s op) (hstep : (system ο).step s op = some s') : Kept bound s' := by
  cases op with
  | attach o =>
      obtain ⟨-, same⟩ := Option.ite_none_right_eq_some.mp hstep
      cases same
      exact kept.attach orderly
  | detach o =>
      obtain ⟨callable, same⟩ := Option.ite_none_right_eq_some.mp hstep
      cases same
      exact kept.detach callable orderly
  | notify e =>
      obtain ⟨-, same⟩ := Option.ite_none_right_eq_some.mp hstep
      cases same
      exact kept.notify orderly e
  | update =>
      obtain ⟨f, running, hstep⟩ := Option.bind_eq_some_iff.mp hstep
      obtain ⟨outside, hstep⟩ := Option.ite_none_left_eq_some.mp hstep
      obtain ⟨o, found, rfl⟩ := Option.map_eq_some_iff.mp hstep
      obtain ⟨n, on, deref⟩ := Option.bind_eq_some_iff.mp found
      exact kept.update running (Bool.eq_false_iff.mpr outside) on deref
  | updateReturns =>
      obtain ⟨f, running, hstep⟩ := Option.bind_eq_some_iff.mp hstep
      obtain ⟨inside, hstep⟩ := Option.ite_none_right_eq_some.mp hstep
      obtain ⟨cursor, found, rfl⟩ := Option.map_eq_some_iff.mp hstep
      obtain ⟨n, on, increment⟩ := Option.bind_eq_some_iff.mp found
      exact kept.updateReturns running inside on increment
  | notifyReturns =>
      obtain ⟨f, running, hstep⟩ := Option.bind_eq_some_iff.mp hstep
      obtain ⟨-, same⟩ := Option.ite_none_right_eq_some.mp hstep
      cases same
      refine ⟨kept.nodes.frame rfl rfl fun _ attached => attached, kept.silent, ?_⟩
      intro f' running'
      cases running'

theorem kept_run {bound : Nat} {ops : List (Op ο)} {s : State ο}
    (run : ((system ο).restrict (Orderly bound)).run ops = some s) : Kept bound s := by
  have hstep : ∀ s op s', Kept bound s →
      ((system ο).restrict (Orderly bound)).step s op = some s' → Kept bound s' := by
    intro s op s' kept hstep
    obtain ⟨orderly, hstep⟩ := System.restrict_step_eq_some.mp hstep
    exact kept_step kept orderly hstep
  exact System.state_invariant (T := (system ο).restrict (Orderly bound)) (kept_init bound)
    hstep run

/-! ## What the invariant says about `notify` -/

theorem Kept.onceEach {bound : Nat} {s : State ο} (kept : Kept bound s) : OnceEach s := by
  intro f running _ atEnd o member untouched
  obtain ⟨n, -, count⟩ := (kept.walk f running).once o member untouched
  rw [count, visited_end atEnd, if_pos rfl]

theorem Kept.goesOn {bound : Nat} {s : State ο} (kept : Kept bound s) : GoesOn s := by
  intro busy
  obtain ⟨f, running⟩ := Option.ne_none_iff_exists'.mp busy
  have walk := kept.walk f running
  cases on : f.cursor with
  | none =>
      have outside : f.inside = false := by
        rw [Bool.eq_false_iff]
        intro inside
        exact walk.inside inside on
      refine ⟨.notifyReturns, by simp, ?_⟩
      simp [system, running, outside, on]
  | some n =>
      obtain ⟨older, o, newer, -, -, -, deref, increment⟩ := kept.nodes.cut (walk.here n on)
      cases inside : f.inside with
      | false =>
          refine ⟨.update, by simp, ?_⟩
          simp [system, running, inside, on, deref]
      | true =>
          refine ⟨.updateReturns, by simp, ?_⟩
          simp [system, running, inside, on, increment]

theorem Kept.updates_le {bound : Nat} {s : State ο} (kept : Kept bound s) : Bounded bound s := by
  intro f running
  have walk := kept.walk f running
  have paid := walk.paid
  have bounded := walk.bounded
  omega

/-! ## The main result -/

/-- **Notification.** In every run of an orderly program, a `notify` always goes on
and calls `update` a bounded number of times, so that it ends; it ends having called
it once on each observer that was there throughout; and no observer is updated after
its `detach`. -/
theorem notified_run {bound : Nat} {ops : List (Op ο)} {s : State ο}
    (run : ((system ο).restrict (Orderly bound)).run ops = some s) :
    GoesOn s ∧ Bounded bound s ∧ OnceEach s ∧ NotAfterDetach s.log := by
  have kept := kept_run run
  exact ⟨kept.goesOn, kept.updates_le, kept.onceEach, kept.silent⟩

/-- The first of two listeners lets the second go and a third one in. -/
theorem notified_run_replace :
    ∃ s, ((system Nat).restrict (Orderly 1)).run [.attach 1, .attach 2, .notify .kCreate, .update,
        .detach 2, .attach 3, .updateReturns, .update, .updateReturns] = some s ∧
      GoesOn s ∧ Bounded 1 s ∧ OnceEach s ∧ NotAfterDetach s.log := by
  have run : ((system Nat).restrict (Orderly 1)).run [.attach 1, .attach 2, .notify .kCreate,
      .update, .detach 2, .attach 3, .updateReturns, .update, .updateReturns] = some _ := rfl
  exact ⟨_, run, notified_run run⟩

/-- A listener that detaches itself leaves `notify` on an erased node, and one that
is attached twice is updated twice. -/
theorem not_notified_detach_self :
    (∃ s, (system Nat).run [.attach 1, .notify .kCreate, .update, .detach 1] = some s ∧
      ¬ GoesOn s) ∧
    ∃ s, (system Nat).run [.attach 1, .attach 1, .notify .kCreate, .update, .updateReturns,
      .update, .updateReturns] = some s ∧ ¬ OnceEach s := by
  constructor
  · refine ⟨_, rfl, ?_⟩
    intro goesOn
    obtain ⟨op, member, there⟩ := goesOn (fun ended => by cases ended)
    simp only [List.mem_cons, List.not_mem_nil, or_false] at member
    rcases member with rfl | rfl | rfl
    · exact there rfl
    · exact there rfl
    · exact there rfl
  · refine ⟨_, rfl, ?_⟩
    intro once
    have twice := once _ rfl rfl rfl 1 (by decide) (by decide)
    revert twice
    decide

end CppLab.Patterns.Observer
