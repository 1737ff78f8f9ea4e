import CppLab.Lib.Ledger
import CppLab.Env.StdString

/-!
# `Originator` and `CareTaker`

The caretaker's history is a stack of pointers to mementos. `undo()` hands the
last one to `Originator::restore`, which deletes it, so ownership leaves the
vector before the memento is freed; the destructor deletes what is left.

Labels carry what the environment decides: the address that `new` returns,
which is that of no living memento, the date, what `std::rand()` returns, and
the text that `operation()` draws. A read through a dangling pointer and a
second `delete` are steps that do not exist; `progress` says that none is
missing for that reason. `dummy_`, which nothing reads, is left out.
-/

namespace CppLab.Patterns.Memento

/-- The concrete memento. -/
structure ConcreteMemento where
  state : Bytes
  date : Bytes
  name : Bytes
  deriving DecidableEq, Repr

/-- The constructor: `date` is the time formatted, `rand` the result of
`std::rand()`. -/
def ConcreteMemento.new (state date : Bytes) (rand : Nat) : ConcreteMemento where
  state := state
  date := date
  name := ascii "me" ++ date ++ ascii "_" ++ ascii (toString (rand % 10000))

/-- What happens to a memento. -/
inductive Access
  | created (m : Nat)
  | used (m : Nat)
  | freed (m : Nat)
  deriving DecidableEq, Repr

/-- `state_` of the originator, `mementos_` of the caretaker, whether the
caretaker exists, the mementos in memory, and all that has happened to them. -/
structure State where
  state : Bytes
  mementos : List Nat
  alive : Bool
  heap : Nat → Option ConcreteMemento
  log : List Access

/-- Calls on the two objects, and the destruction of the caretaker. -/
inductive Op
  | backup (m : Nat) (date : Bytes) (rand : Nat)
  | operation (new : Bytes)
  | undo
  | history
  | destroy

namespace State

/-- `mementos_.push_back(originator_->save())`. -/
def backup (s : State) (m : Nat) (date : Bytes) (rand : Nat) : State :=
  { s with
    mementos := s.mementos ++ [m]
    heap := Function.update s.heap m (some (.new s.state date rand))
    log := s.log ++ [.created m] }

/-- `undo()` on the last memento: `getName()`, then `restore`, which takes the
state and deletes. -/
def restore (s : State) (m : Nat) (memento : ConcreteMemento) : State :=
  { s with
    state := memento.state
    mementos := s.mementos.dropLast
    heap := Function.update s.heap m none
    log := s.log ++ [.used m, .used m, .freed m] }

/-- `delete` of each memento in turn, `none` if one is not there. -/
def deleteAll (heap : Nat → Option ConcreteMemento) :
    List Nat → Option (Nat → Option ConcreteMemento)
  | [] => some heap
  | m :: ms =>
      match heap m with
      | none => none
      | some _ => deleteAll (Function.update heap m none) ms

end State

/-- The originator and its caretaker. -/
def system (initial : Bytes) : System State Op where
  init := ⟨initial, [], true, fun _ => none, []⟩
  step s
    | .backup m date rand =>
        if s.alive ∧ s.heap m = none then some (s.backup m date rand) else none
    | .operation new => some { s with state := new }
    | .undo =>
        if s.alive then
          match s.mementos.getLast? with
          | none => some s
          | some m => (s.heap m).map (s.restore m)
        else none
    | .history =>
        if s.alive ∧ ∀ m ∈ s.mementos, s.heap m ≠ none then
          some { s with log := s.log ++ s.mementos.map .used }
        else none
    | .destroy =>
        if s.alive then
          (State.deleteAll s.heap s.mementos).map fun heap =>
            { s with
              mementos := []
              alive := false
              heap := heap
              log := s.log ++ s.mementos.map .freed }
        else none

/-- Well-bracketed sequences of `backup()` and `undo()`, with other calls
anywhere in between. -/
inductive Balanced : List Op → Prop
  | nil : Balanced []
  | operation (new : Bytes) : Balanced [.operation new]
  | history : Balanced [.history]
  | bracket (m : Nat) (date : Bytes) (rand : Nat) {w : List Op} (inner : Balanced w) :
      Balanced (.backup m date rand :: w ++ [.undo])
  | append {u v : List Op} (first : Balanced u) (second : Balanced v) : Balanced (u ++ v)

/-! ## Ownership -/

/-- The mementos in memory are those of the history, each listed once. -/
structure Owns (s : State) : Prop where
  nodup : s.mementos.Nodup
  heap : ∀ m, s.heap m ≠ none ↔ m ∈ s.mementos
  dead : s.alive = false → s.mementos = []

theorem owns_init (initial : Bytes) : Owns (system initial).init where
  nodup := List.nodup_nil
  heap m := by simp [system]
  dead _ := rfl

theorem Owns.backup {s : State} (owns : Owns s) {m : Nat} {date : Bytes} {rand : Nat}
    (alive : s.alive = true) (fresh : s.heap m = none) : Owns (s.backup m date rand) where
  nodup := by
    have absent : m ∉ s.mementos := fun member => (owns.heap m).mpr member fresh
    refine List.nodup_append.mpr ⟨owns.nodup, List.nodup_singleton m, ?_⟩
    rintro a ha b hb rfl
    exact absent (List.mem_singleton.mp hb ▸ ha)
  heap a := by
    simp only [State.backup, List.mem_append, List.mem_singleton]
    by_cases here : a = m
    · subst here
      simp
    · rw [Function.update_of_ne here, owns.heap]
      simp [here]
  dead dead := by
    change s.alive = false at dead
    rw [alive] at dead
    cases dead

theorem Owns.restore {s : State} (owns : Owns s) {m : Nat} {older : List Nat}
    {memento : ConcreteMemento} (alive : s.alive = true) (last : s.mementos = older ++ [m]) :
    Owns (s.restore m memento) where
  nodup := owns.nodup.sublist (List.dropLast_sublist _)
  heap a := by
    have apart : m ∉ older := by
      have nodup := owns.nodup
      rw [last] at nodup
      exact fun member => (List.nodup_append.mp nodup).2.2 m member m (by simp) rfl
    simp only [State.restore, last, List.dropLast_concat]
    by_cases here : a = m
    · subst here
      simp [apart]
    · rw [Function.update_of_ne here, owns.heap, last]
      simp [here]
  dead dead := by
    change s.alive = false at dead
    rw [alive] at dead
    cases dead

theorem deleteAll_eq {heap : Nat → Option ConcreteMemento} {ms : List Nat} (nodup : ms.Nodup)
    (live : ∀ m ∈ ms, heap m ≠ none) :
    State.deleteAll heap ms = some fun m => if m ∈ ms then none else heap m := by
  induction ms generalizing heap with
  | nil => simp [State.deleteAll]
  | cons m ms ih =>
      obtain ⟨fresh, nodup⟩ := List.nodup_cons.mp nodup
      obtain ⟨memento, there⟩ := Option.ne_none_iff_exists'.mp (live m List.mem_cons_self)
      have rest : ∀ a ∈ ms, Function.update heap m none a ≠ none := by
        intro a member
        have other : a ≠ m := by
          rintro rfl
          exact fresh member
        rw [Function.update_of_ne other]
        exact live a (List.mem_cons_of_mem m member)
      simp only [State.deleteAll, there]
      rw [ih nodup rest]
      congr 1
      funext a
      by_cases here : a = m
      · subst here
        simp
      · simp [here]

/-- The destructor finds every memento of the history. -/
theorem Owns.deleteAll {s : State} (owns : Owns s) :
    State.deleteAll s.heap s.mementos = some fun _ => none := by
  rw [deleteAll_eq owns.nodup fun m => (owns.heap m).mpr]
  congr 1
  funext m
  split
  · rfl
  · rename_i absent
    exact not_ne_iff.mp fun there => absent ((owns.heap m).mp there)

/-! ## Steps -/

variable {initial : Bytes}

/-- Inversion: what each call does to a state that owns its mementos. -/
theorem step_cases {s s' : State} {op : Op} (owns : Owns s)
    (hstep : (system initial).step s op = some s') :
    (∃ m date rand, op = .backup m date rand ∧ s.alive = true ∧ s.heap m = none ∧
      s' = s.backup m date rand) ∨
    (∃ new, op = .operation new ∧ s' = { s with state := new }) ∨
    (op = .undo ∧ s.mementos = [] ∧ s' = s) ∨
    (∃ m older memento, op = .undo ∧ s.alive = true ∧ s.mementos = older ++ [m] ∧
      s.heap m = some memento ∧ s' = s.restore m memento) ∨
    (op = .history ∧ s.alive = true ∧ s' = { s with log := s.log ++ s.mementos.map .used }) ∨
    (op = .destroy ∧ s.alive = true ∧ s' = { s with
      mementos := []
      alive := false
      heap := fun _ => none
      log := s.log ++ s.mementos.map .freed }) := by
  cases op with
  | backup m date rand =>
      simp only [system, Option.ite_none_right_eq_some, Option.some.injEq] at hstep
      obtain ⟨⟨alive, fresh⟩, rfl⟩ := hstep
      exact .inl ⟨m, date, rand, rfl, alive, fresh, rfl⟩
  | operation new =>
      cases hstep
      exact .inr (.inl ⟨new, rfl, rfl⟩)
  | undo =>
      simp only [system, Option.ite_none_right_eq_some] at hstep
      obtain ⟨alive, hstep⟩ := hstep
      split at hstep
      · rename_i none
        cases hstep
        exact .inr (.inr (.inl ⟨rfl, List.getLast?_eq_none_iff.mp none, rfl⟩))
      · rename_i m last
        obtain ⟨older, list⟩ := List.getLast?_eq_some_iff.mp last
        obtain ⟨memento, there, rfl⟩ := Option.map_eq_some_iff.mp hstep
        exact .inr (.inr (.inr (.inl ⟨m, older, memento, rfl, alive, list, there, rfl⟩)))
  | history =>
      simp only [system, Option.ite_none_right_eq_some, Option.some.injEq] at hstep
      obtain ⟨⟨alive, -⟩, rfl⟩ := hstep
      exact .inr (.inr (.inr (.inr (.inl ⟨rfl, alive, rfl⟩))))
  | destroy =>
      simp only [system, Option.ite_none_right_eq_some, owns.deleteAll, Option.map_some,
        Option.some.injEq] at hstep
      obtain ⟨alive, rfl⟩ := hstep
      exact .inr (.inr (.inr (.inr (.inr ⟨rfl, alive, rfl⟩))))

/-- Step lemma. -/
theorem owns_step {s s' : State} {op : Op} (owns : Owns s)
    (hstep : (system initial).step s op = some s') : Owns s' := by
  rcases step_cases owns hstep with ⟨m, date, rand, -, alive, fresh, rfl⟩ | ⟨new, -, rfl⟩ |
    ⟨-, -, rfl⟩ | ⟨m, older, memento, -, alive, last, -, rfl⟩ | ⟨-, -, rfl⟩ | ⟨-, -, rfl⟩
  · exact owns.backup alive fresh
  · exact ⟨owns.nodup, owns.heap, owns.dead⟩
  · exact owns
  · exact owns.restore alive last
  · exact ⟨owns.nodup, owns.heap, owns.dead⟩
  · exact ⟨List.nodup_nil, fun m => by simp, fun _ => rfl⟩

theorem owns_run {tr : List Op} {s : State} (run : (system initial).run tr = some s) : Owns s :=
  System.state_invariant (owns_init initial) (fun _ _ _ owns step => owns_step owns step) run

/-- While the caretaker exists no call is missing, but `new` at the address of a
living memento. -/
theorem progress {s : State} (owns : Owns s) (alive : s.alive = true) {op : Op}
    (missing : (system initial).step s op = none) :
    ∃ m date rand, op = .backup m date rand ∧ s.heap m ≠ none := by
  cases op with
  | backup m date rand =>
      refine ⟨m, date, rand, rfl, fun fresh => ?_⟩
      simp [system, alive, fresh] at missing
  | operation new => cases missing
  | undo =>
      simp only [system, if_pos alive] at missing
      split at missing
      · cases missing
      · rename_i m last
        have member : m ∈ s.mementos := List.mem_of_getLast? last
        have gone := Option.map_eq_none_iff.mp missing
        exact absurd gone ((owns.heap m).mpr member)
  | history =>
      have live : s.alive = true ∧ ∀ m ∈ s.mementos, s.heap m ≠ none :=
        ⟨alive, fun m => (owns.heap m).mpr⟩
      simp only [system, if_pos live, reduceCtorEq] at missing
  | destroy => simp [system, alive, owns.deleteAll] at missing

/-! ## Undo is a stack -/

/-- What a sequence does to the history and to memory: nothing. -/
def Keeps (initial : Bytes) (w : List Op) : Prop :=
  ∀ s s', Owns s → s.alive = true → (system initial).runFrom s w = some s' →
    s'.mementos = s.mementos ∧ s'.heap = s.heap ∧ s'.alive = true ∧ Owns s'

/-- `backup()`, anything that keeps the history, `undo()`: the memento that
`backup()` has pushed is the one that `undo()` pops. -/
theorem undo_backup {w : List Op} (inner : Keeps initial w) {m : Nat} {date : Bytes} {rand : Nat}
    {s s' : State} (owns : Owns s) (alive : s.alive = true)
    (run : (system initial).runFrom s (Op.backup m date rand :: w ++ [Op.undo]) = some s') :
    s'.state = s.state ∧ s'.mementos = s.mementos ∧ s'.heap = s.heap ∧ s'.alive = true ∧
      Owns s' := by
  rw [List.cons_append, System.runFrom_cons, Option.bind_eq_some_iff] at run
  obtain ⟨pushed, push, run⟩ := run
  rw [System.runFrom_append, Option.bind_eq_some_iff] at run
  obtain ⟨before, inside, last⟩ := run
  rw [System.runFrom_cons, Option.bind_eq_some_iff] at last
  obtain ⟨popped, pop, done⟩ := last
  cases done
  have ownsPushed := owns_step owns push
  simp only [system, Option.ite_none_right_eq_some, Option.some.injEq] at push
  obtain ⟨⟨-, fresh⟩, rfl⟩ := push
  obtain ⟨mementos, heap, aliveBefore, ownsBefore⟩ := inner _ before ownsPushed alive inside
  have stack : before.mementos = s.mementos ++ [m] := mementos
  have top : before.heap m = some (.new s.state date rand) := by
    rw [heap]
    exact Function.update_self ..
  have ownsAfter := owns_step ownsBefore pop
  rcases step_cases ownsBefore pop with ⟨_, _, _, call, -⟩ | ⟨_, call, -⟩ | ⟨-, none, -⟩ |
    ⟨m', older, memento, -, -, list, there, rfl⟩ | ⟨call, -⟩ | ⟨call, -⟩
  · cases call
  · cases call
  · rw [none] at stack
    simp at stack
  · rw [stack] at list
    obtain ⟨rfl, same⟩ := List.append_inj' list rfl
    cases same
    rw [top] at there
    cases there
    refine ⟨rfl, ?_, ?_, aliveBefore, ownsAfter⟩
    · show before.mementos.dropLast = s.mementos
      rw [stack, List.dropLast_concat]
    · show Function.update before.heap m none = s.heap
      rw [heap]
      show Function.update (Function.update s.heap m _) m none = s.heap
      rw [Function.update_idem, ← fresh, Function.update_eq_self]
  · cases call
  · cases call

/-- A well-bracketed sequence leaves the history and its mementos as they were. -/
theorem Balanced.keeps {w : List Op} (balanced : Balanced w) : Keeps initial w := by
  induction balanced with
  | nil =>
      intro s s' owns alive run
      cases run
      exact ⟨rfl, rfl, alive, owns⟩
  | operation new =>
      intro s s' owns alive run
      cases run
      exact ⟨rfl, rfl, alive, owns.nodup, owns.heap, owns.dead⟩
  | history =>
      intro s s' owns alive run
      rw [System.runFrom_cons, Option.bind_eq_some_iff] at run
      obtain ⟨t, step, run⟩ := run
      cases run
      have owns' := owns_step owns step
      simp only [system, Option.ite_none_right_eq_some, Option.some.injEq] at step
      obtain ⟨-, rfl⟩ := step
      exact ⟨rfl, rfl, alive, owns'⟩
  | bracket m date rand inner ih =>
      intro s s' owns alive run
      exact (undo_backup ih owns alive run).2
  | append first second ihFirst ihSecond =>
      intro s s' owns alive run
      rw [System.runFrom_append, Option.bind_eq_some_iff] at run
      obtain ⟨t, run, run'⟩ := run
      obtain ⟨mementos, heap, alive, owns⟩ := ihFirst s t owns alive run
      obtain ⟨mementos', heap', alive', owns'⟩ := ihSecond t s' owns alive run'
      exact ⟨mementos'.trans mementos, heap'.trans heap, alive', owns'⟩

/-! ## The ledger of mementos -/

/-- Creation and destruction, as the ledger sees them. -/
def entry : Access → Option (Entry Nat)
  | .created m => some (.opened m)
  | .freed m => some (.closed m)
  | .used _ => none

/-- The ledger of the mementos. -/
def ledger (log : List Access) : List (Entry Nat) := log.filterMap entry

/-- A use of a memento stands where it is open in the ledger. -/
def UsesLive (log : List Access) : Prop :=
  ∀ pre m post, log = pre ++ .used m :: post → ∃ o, Ledger.replay (ledger pre) = some o ∧ m ∈ o

/-- The ledger has the mementos of the history open, and no use of another. -/
structure Booked (s : State) : Prop where
  book : ∃ o, Ledger.replay (ledger s.log) = some o ∧ o.Perm s.mementos
  uses : UsesLive s.log

theorem UsesLive.concat {log : List Access} (uses : UsesLive log) {a : Access}
    (last : ∀ m, a = .used m → ∃ o, Ledger.replay (ledger log) = some o ∧ m ∈ o) :
    UsesLive (log ++ [a]) := by
  intro pre m post split
  rcases System.concat_eq_append_cons.mp split with ⟨-, rfl, same⟩ | ⟨post, -, earlier⟩
  · exact last m same.symm
  · exact uses pre m post earlier

theorem ledger_concat (log : List Access) (a : Access) :
    ledger (log ++ [a]) = ledger log ++ (entry a).toList := by
  rw [ledger, List.filterMap_append, List.filterMap_cons]
  cases entry a with
  | none => rfl
  | some e => rfl

/-- Uses of mementos that are open change nothing in the ledger. -/
theorem UsesLive.used {log : List Access} (uses : UsesLive log) {o : List Nat}
    (book : Ledger.replay (ledger log) = some o) {ms : List Nat} (there : ∀ m ∈ ms, m ∈ o) :
    UsesLive (log ++ ms.map .used) ∧
      Ledger.replay (ledger (log ++ ms.map .used)) = some o := by
  induction ms using List.reverseRecOn with
  | nil =>
      rw [List.map_nil, List.append_nil]
      exact ⟨uses, book⟩
  | append_singleton ms m ih =>
      obtain ⟨uses, book⟩ := ih fun a member => there a (List.mem_append_left [m] member)
      rw [List.map_append, ← List.append_assoc]
      refine ⟨uses.concat ?_, ?_⟩
      · intro a same
        injection same with same
        exact ⟨o, book, there a (by simp [same])⟩
      · rw [List.map_singleton, ledger_concat]
        show Ledger.replay (_ ++ []) = some o
        rw [List.append_nil, book]

/-- The mementos that are open, freed one after the other. -/
theorem UsesLive.freed {ms : List Nat} {log : List Access} (uses : UsesLive log) {o : List Nat}
    (book : Ledger.replay (ledger log) = some o) (perm : o.Perm ms) :
    UsesLive (log ++ ms.map Access.freed) ∧
      Ledger.replay (ledger (log ++ ms.map Access.freed)) = some [] := by
  induction ms generalizing log o with
  | nil =>
      rw [List.perm_nil.mp perm] at book
      rw [List.map_nil, List.append_nil]
      exact ⟨uses, book⟩
  | cons m ms ih =>
      have member : m ∈ o := perm.mem_iff.mpr List.mem_cons_self
      have book' : Ledger.replay (ledger (log ++ [Access.freed m])) = some (o.erase m) := by
        rw [ledger_concat]
        exact Ledger.replay_concat book (Ledger.record_closed member)
      have uses' : UsesLive (log ++ [Access.freed m]) := by
        apply uses.concat
        intro a same
        cases same
      have perm' : (o.erase m).Perm ms := by
        have erased := perm.erase m
        rwa [List.erase_cons_head] at erased
      have rest := ih uses' book' perm'
      rwa [List.append_assoc] at rest

theorem booked_init (initial : Bytes) : Booked (system initial).init where
  book := ⟨[], rfl, List.Perm.nil⟩
  uses := by
    intro pre m post split
    cases pre <;> cases split

theorem Booked.backup {s : State} (booked : Booked s) (owns : Owns s) {m : Nat} {date : Bytes}
    {rand : Nat} (fresh : s.heap m = none) : Booked (s.backup m date rand) := by
  obtain ⟨o, book, perm⟩ := booked.book
  have absent : m ∉ o := fun member => (owns.heap m).mpr (perm.mem_iff.mp member) fresh
  constructor
  · refine ⟨m :: o, ?_, ?_⟩
    · show Ledger.replay (ledger (s.log ++ [Access.created m])) = some (m :: o)
      rw [ledger_concat]
      exact Ledger.replay_concat book (Ledger.record_opened absent)
    · exact (perm.cons m).trans (List.perm_append_singleton m s.mementos).symm
  · apply booked.uses.concat
    intro a same
    cases same

theorem Booked.restore {s : State} (booked : Booked s) {m : Nat} {older : List Nat}
    {memento : ConcreteMemento} (last : s.mementos = older ++ [m]) :
    Booked (s.restore m memento) := by
  obtain ⟨o, book, perm⟩ := booked.book
  have member : m ∈ o := perm.mem_iff.mpr (by simp [last])
  have both : ∀ a ∈ [m, m], a ∈ o := by simp [member]
  obtain ⟨uses, book⟩ := booked.uses.used book both
  have log : (s.restore m memento).log = s.log ++ [m, m].map Access.used ++ [Access.freed m] := by
    simp [State.restore]
  constructor
  · refine ⟨o.erase m, ?_, ?_⟩
    · rw [log, ledger_concat]
      exact Ledger.replay_concat book (Ledger.record_closed member)
    · show (o.erase m).Perm s.mementos.dropLast
      rw [last, List.dropLast_concat]
      have erased := (perm.trans (last ▸ List.perm_append_singleton m older)).erase m
      rwa [List.erase_cons_head] at erased
  · rw [log]
    apply uses.concat
    intro a same
    cases same

/-- Step lemma. -/
theorem booked_step {s s' : State} {op : Op} (owns : Owns s) (booked : Booked s)
    (hstep : (system initial).step s op = some s') : Booked s' := by
  obtain ⟨o, book, perm⟩ := booked.book
  rcases step_cases owns hstep with ⟨m, date, rand, -, -, fresh, rfl⟩ | ⟨new, -, rfl⟩ |
    ⟨-, -, rfl⟩ | ⟨m, older, memento, -, -, last, -, rfl⟩ | ⟨-, -, rfl⟩ | ⟨-, -, rfl⟩
  · exact booked.backup owns fresh
  · exact ⟨booked.book, booked.uses⟩
  · exact booked
  · exact booked.restore last
  · obtain ⟨uses, book⟩ := booked.uses.used book fun m => perm.mem_iff.mpr
    exact ⟨⟨o, book, perm⟩, uses⟩
  · obtain ⟨uses, book⟩ := booked.uses.freed book perm
    exact ⟨⟨[], book, List.Perm.nil⟩, uses⟩

theorem booked_run {tr : List Op} {s : State} (run : (system initial).run tr = some s) :
    Booked s := by
  refine (System.state_invariant (I := fun s => Owns s ∧ Booked s)
    ⟨owns_init initial, booked_init initial⟩ ?_ run).2
  intro s op s' inv step
  exact ⟨owns_step inv.1 step, booked_step inv.1 inv.2 step⟩

/-! ## The main result -/

/-- **Undo is a stack.** From any reachable state with a caretaker, `backup()`, a
well-bracketed sequence and `undo()` restore the state and the history;
`undo()` on an empty history does nothing; over any run each memento is freed at
most once and used only before, exactly once unless it is still in the history,
and all of them exactly once when the caretaker is gone. No call is missing from
these runs because of a dangling pointer. -/
theorem undo_stack {tr : List Op} {s : State} (run : (system initial).run tr = some s) :
    (s.alive = true → ∀ w, Balanced w → ∀ m date rand s',
      (system initial).runFrom s (.backup m date rand :: w ++ [.undo]) = some s' →
        s'.state = s.state ∧ s'.mementos = s.mementos ∧ s'.heap = s.heap) ∧
    (s.alive = true → s.mementos = [] → (system initial).step s .undo = some s) ∧
    (Ledger.AtMostOnce (ledger s.log) ∧ UsesLive s.log ∧
      (∀ pre m post, ledger s.log = pre ++ .opened m :: post → m ∉ s.mementos →
        Ledger.closesOf m post = 1) ∧
      (s.alive = false → Ledger.ExactlyOnce (ledger s.log))) ∧
    (s.alive = true → ∀ op, (system initial).step s op = none →
      ∃ m date rand, op = .backup m date rand ∧ s.heap m ≠ none) := by
  have owns := owns_run run
  have booked := booked_run run
  obtain ⟨o, book, perm⟩ := booked.book
  refine ⟨?_, ?_, ⟨?_, booked.uses, ?_, ?_⟩, ?_⟩
  · intro alive w balanced m date rand s' bracketed
    obtain ⟨state, mementos, heap, -⟩ := undo_backup balanced.keeps owns alive bracketed
    exact ⟨state, mementos, heap⟩
  · intro alive none
    simp [system, alive, none]
  · exact Ledger.atMostOnce_of_replay book
  · intro pre m post split gone
    rw [split] at book
    exact Ledger.closesOf_eq_one book fun member => gone (perm.mem_iff.mp member)
  · intro dead
    rw [owns.dead dead] at perm
    rw [List.perm_nil.mp perm] at book
    exact Ledger.exactlyOnce_of_replay book
  · intro alive op missing
    exact progress owns alive missing

/-- One memento in the history, another pushed, a new state, and undone. -/
theorem undo_stack_pushed :
    ∃ s s', (system (ascii "Hello World")).run
        [.backup 1 (ascii "20250101_120000") 7, .operation (ascii "Xy3")] = some s ∧
      (system (ascii "Hello World")).runFrom s
        (.backup 2 (ascii "20250101_120001") 8 :: [.operation (ascii "Zw4")] ++ [.undo]) = some s' ∧
      s'.state = ascii "Xy3" ∧ s'.mementos = [1] := by
  refine ⟨_, _, rfl, rfl, ?_⟩
  have run : (system (ascii "Hello World")).run
      [.backup 1 (ascii "20250101_120000") 7, .operation (ascii "Xy3")] = some _ := rfl
  have inner : Balanced [.operation (ascii "Zw4")] := Balanced.operation _
  obtain ⟨state, mementos, -⟩ :=
    (undo_stack run).1 rfl _ inner 2 (ascii "20250101_120001") 8 _ rfl
  exact ⟨state, mementos⟩

end CppLab.Patterns.Memento
