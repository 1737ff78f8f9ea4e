import CppLab.Lib.System

/-!
# The vector and the list behind `IAggregate`

`VectorConcreteIterator` keeps an index and compares it with the size of the
moment. `ListConcreteIterator` keeps a position; `end()` is one position for
good, so an iterator that has come to it stays there when an element is added.

* `IIterator` is the interface, with the collection an iterator looks at as an
  argument; `vector` and `list` are the two implementations;
* `system` is a collection with its open iterators, from the empty collection on,
  and keeps the answers to all calls;
* `Overtaken` iterators stood at the end when an element was added.

`Paired` relates the positions of the two iterators, and `agree_iff` says which
interleavings cannot tell the collections apart.
-/

namespace CppLab.Patterns.Iterator

variable {α : Type*}

/-- The class of an iterator over a collection. -/
structure IIterator (ι α : Type*) where
  create : List α → ι
  hasNext : List α → ι → Bool
  next : List α → ι → Option α × ι

namespace VectorConcreteIterator

/-- `currentIndex_` at first. -/
def create (_ : List α) : Nat := 0

def hasNext (data : List α) (currentIndex : Nat) : Bool := currentIndex < data.length

/-- The value that the returned pointer points to. -/
def next (data : List α) (currentIndex : Nat) : Option α × Nat :=
  if hasNext data currentIndex then (data[currentIndex]?, currentIndex + 1)
  else (none, currentIndex)

end VectorConcreteIterator

/-! A node of a `std::list` that only grows at its end is known by its place;
`none` is the position `end()`. -/

namespace ListConcreteIterator

/-- `data_.begin()`. -/
def create (data : List α) : Option Nat := if data.isEmpty then none else some 0

/-- `it_ != data_.end()`. -/
def hasNext (_ : List α) (it : Option Nat) : Bool := it ≠ none

/-- `++it_`. -/
def succ (data : List α) (place : Nat) : Option Nat :=
  if place + 1 < data.length then some (place + 1) else none

def next (data : List α) : Option Nat → Option α × Option Nat
  | none => (none, none)
  | some place => (data[place]?, succ data place)

end ListConcreteIterator

def vector (α : Type*) : IIterator Nat α where
  create := VectorConcreteIterator.create
  hasNext := VectorConcreteIterator.hasNext
  next := VectorConcreteIterator.next

def list (α : Type*) : IIterator (Option Nat) α where
  create := ListConcreteIterator.create
  hasNext := ListConcreteIterator.hasNext
  next := ListConcreteIterator.next

/-- What a call answers; `createIterator()` answers with a new iterator. -/
inductive Answer (α : Type*)
  | added
  | created (i : Nat)
  | hasNext (b : Bool)
  | next (x : Option α)
  deriving DecidableEq, Repr

/-- `data_`, the open iterators and the answers so far. -/
structure State (ι α : Type*) where
  data : List α
  iterators : List ι
  answers : List (Answer α)

inductive Op (α : Type*)
  | add (x : α)
  | createIterator
  | hasNext (i : Nat)
  | next (i : Nat)

/-- A collection whose iterators are of the class `I`. -/
def system {ι : Type*} (I : IIterator ι α) : System (State ι α) (Op α) where
  init := ⟨[], [], []⟩
  step s
    | .add x => some { s with data := s.data ++ [x], answers := s.answers ++ [.added] }
    | .createIterator =>
        some { s with
          iterators := s.iterators ++ [I.create s.data]
          answers := s.answers ++ [.created s.iterators.length] }
    | .hasNext i =>
        s.iterators[i]?.map fun it =>
          { s with answers := s.answers ++ [.hasNext (I.hasNext s.data it)] }
    | .next i =>
        s.iterators[i]?.map fun it =>
          { s with
            iterators := s.iterators.set i (I.next s.data it).2
            answers := s.answers ++ [.next (I.next s.data it).1] }

/-- The iterator a call is made on. -/
def Op.asks : Op α → Option Nat
  | .add _ => none
  | .createIterator => none
  | .hasNext i => some i
  | .next i => some i

/-- An element has been added while the iterator stood at the end. -/
def Overtaken (tr : List (Op α)) (i : Nat) : Prop :=
  ∃ pre x mid s k, tr = pre ++ .add x :: mid ∧ (system (vector α)).run pre = some s ∧
    s.iterators[i]? = some k ∧ VectorConcreteIterator.hasNext s.data k = false

/-- No overtaken iterator is asked again. -/
def NoneOvertaken (tr : List (Op α)) : Prop :=
  ∀ pre op post i, tr = pre ++ op :: post → op.asks = some i → ¬ Overtaken pre i

/-! ## What a call does -/

section Step
variable {ι : Type*} {I : IIterator ι α} {s s' : State ι α} {i : Nat}

theorem step_hasNext : (system I).step s (.hasNext i) = some s' ↔
    ∃ it, s.iterators[i]? = some it ∧
      s' = { s with answers := s.answers ++ [.hasNext (I.hasNext s.data it)] } := by
  simp only [system, Option.map_eq_some_iff, eq_comm (a := s')]

theorem step_next : (system I).step s (.next i) = some s' ↔
    ∃ it, s.iterators[i]? = some it ∧
      s' = { s with
        iterators := s.iterators.set i (I.next s.data it).2
        answers := s.answers ++ [.next (I.next s.data it).1] } := by
  simp only [system, Option.map_eq_some_iff, eq_comm (a := s')]

end Step

/-! ## The two positions -/

/-- The place of a list iterator beside the index of a vector iterator. -/
def Paired (data : List α) (overtaken : Prop) (k : Nat) (it : Option Nat) : Prop :=
  (overtaken ∧ k < data.length ∧ it = none) ∨
  (¬ overtaken ∧ k < data.length ∧ it = some k) ∨
  (¬ overtaken ∧ k = data.length ∧ it = none)

/-- **Invariant.** The same elements, as many iterators, and each pair in step
but for the overtaken ones, whose list iterator has stayed at the end. -/
structure Parallel (tr : List (Op α)) (s : State Nat α) (t : State (Option Nat) α) : Prop where
  data : t.data = s.data
  length : t.iterators.length = s.iterators.length
  paired : ∀ i k it, s.iterators[i]? = some k → t.iterators[i]? = some it →
    Paired s.data (Overtaken tr i) k it
  answers : t.answers = s.answers

/-- One call more. -/
theorem overtaken_concat {tr : List (Op α)} {op : Op α} {i : Nat} {s : State Nat α}
    (run : (system (vector α)).run tr = some s) :
    Overtaken (tr ++ [op]) i ↔ Overtaken tr i ∨
      ∃ x k, op = .add x ∧ s.iterators[i]? = some k ∧
        VectorConcreteIterator.hasNext s.data k = false := by
  constructor
  · rintro ⟨pre, x, mid, s₁, k, split, run₁, there, last⟩
    rcases System.concat_eq_append_cons.mp split with ⟨rfl, rfl, rfl⟩ | ⟨mid, rfl, rfl⟩
    · rw [run] at run₁
      cases run₁
      exact .inr ⟨x, k, rfl, there, last⟩
    · exact .inl ⟨pre, x, mid, s₁, k, rfl, run₁, there, last⟩
  · rintro (⟨pre, x, mid, s₁, k, rfl, run₁, there, last⟩ | ⟨x, k, rfl, there, last⟩)
    · exact ⟨pre, x, mid ++ [op], s₁, k, by simp, run₁, there, last⟩
    · exact ⟨tr, x, [], s, k, rfl, run, there, last⟩

theorem noneOvertaken_concat {tr : List (Op α)} {op : Op α} :
    NoneOvertaken (tr ++ [op]) ↔
      NoneOvertaken tr ∧ ∀ i, op.asks = some i → ¬ Overtaken tr i := by
  constructor
  · intro none
    refine ⟨fun pre e post i split => none pre e (post ++ [op]) i (by simp [split]), ?_⟩
    intro i asks
    exact none tr op [] i rfl asks
  · rintro ⟨before, last⟩ pre e post i split asks
    rcases System.concat_eq_append_cons.mp split with ⟨-, rfl, rfl⟩ | ⟨post, -, earlier⟩
    · exact last i asks
    · exact before pre e post i earlier asks

/-- Iterators are never closed. -/
theorem iterators_mono {tr : List (Op α)} {s s' : State Nat α}
    (run : (system (vector α)).runFrom s tr = some s') :
    s.iterators.length ≤ s'.iterators.length := by
  refine System.runFrom_invariant (I := fun t : State Nat α =>
    s.iterators.length ≤ t.iterators.length) ?_ run (Nat.le_refl _)
  intro t op t' before hstep
  cases op with
  | add x =>
      cases hstep
      exact before
  | createIterator =>
      cases hstep
      rw [List.length_append]
      omega
  | hasNext i =>
      obtain ⟨k, -, rfl⟩ := step_hasNext.mp hstep
      exact before
  | next i =>
      obtain ⟨k, -, rfl⟩ := step_next.mp hstep
      rw [List.length_set]
      exact before

/-- An iterator that is yet to be made has not been overtaken. -/
theorem not_overtaken_new {tr : List (Op α)} {s : State Nat α} {i : Nat}
    (run : (system (vector α)).run tr = some s) (new : s.iterators.length ≤ i) :
    ¬ Overtaken tr i := by
  rintro ⟨pre, x, mid, s₁, k, rfl, run₁, there, -⟩
  rw [System.run_append, run₁, Option.bind_some] at run
  have mono := iterators_mono run
  have small : i < s₁.iterators.length := (List.getElem?_eq_some_iff.mp there).1
  omega

/-- The list has an iterator wherever the vector has one. -/
theorem Parallel.iterator {tr : List (Op α)} {s : State Nat α} {t : State (Option Nat) α}
    (parallel : Parallel tr s t) {i k : Nat} (there : s.iterators[i]? = some k) :
    ∃ it, t.iterators[i]? = some it ∧ Paired s.data (Overtaken tr i) k it := by
  have small := (List.getElem?_eq_some_iff.mp there).1
  rw [← parallel.length] at small
  have there' := List.getElem?_eq_getElem small
  exact ⟨t.iterators[i], there', parallel.paired i k _ there there'⟩

/-- A pair in step answers alike and stays in step. -/
theorem Paired.agree {data : List α} {overtaken : Prop} {k : Nat} {it : Option Nat}
    (paired : Paired data overtaken k it) (fresh : ¬ overtaken) :
    (list α).hasNext data it = (vector α).hasNext data k ∧
      ((list α).next data it).1 = ((vector α).next data k).1 ∧
      Paired data overtaken ((vector α).next data k).2 ((list α).next data it).2 := by
  simp only [list, vector]
  rcases paired with ⟨gone, -⟩ | ⟨-, small, rfl⟩ | ⟨-, rfl, rfl⟩
  · exact absurd gone fresh
  · have more : VectorConcreteIterator.hasNext data k = true := decide_eq_true small
    rw [VectorConcreteIterator.next, if_pos more, more]
    refine ⟨rfl, rfl, ?_⟩
    rw [ListConcreteIterator.next, ListConcreteIterator.succ]
    by_cases last : k + 1 < data.length
    · rw [if_pos last]
      exact .inr (.inl ⟨fresh, last, rfl⟩)
    · rw [if_neg last]
      exact .inr (.inr ⟨fresh, by omega, rfl⟩)
  · have stop : VectorConcreteIterator.hasNext data data.length = false :=
      decide_eq_false (Nat.lt_irrefl _)
    rw [VectorConcreteIterator.next, if_neg (by simp [stop]), stop]
    exact ⟨rfl, rfl, .inr (.inr ⟨fresh, rfl, rfl⟩)⟩

/-- An overtaken pair answers differently. -/
theorem Paired.disagree {data : List α} {overtaken : Prop} {k : Nat} {it : Option Nat}
    (paired : Paired data overtaken k it) (gone : overtaken) :
    (list α).hasNext data it ≠ (vector α).hasNext data k ∧
      ((list α).next data it).1 ≠ ((vector α).next data k).1 := by
  simp only [list, vector]
  rcases paired with ⟨-, small, rfl⟩ | ⟨fresh, -⟩ | ⟨fresh, -⟩
  · have more : VectorConcreteIterator.hasNext data k = true := decide_eq_true small
    rw [VectorConcreteIterator.next, if_pos more, more, List.getElem?_eq_getElem small]
    exact ⟨Bool.false_ne_true, Option.some_ne_none _ ∘ Eq.symm⟩
  · exact absurd gone fresh
  · exact absurd gone fresh

/-- An element more: a pair at the end is overtaken. -/
theorem Paired.add {data : List α} {overtaken overtaken' : Prop} {k : Nat} {it : Option Nat}
    (paired : Paired data overtaken k it) (x : α)
    (now : overtaken' ↔ overtaken ∨ VectorConcreteIterator.hasNext data k = false) :
    Paired (data ++ [x]) overtaken' k it := by
  have atEnd : VectorConcreteIterator.hasNext data k = false ↔ ¬ k < data.length :=
    decide_eq_false_iff_not
  rw [atEnd] at now
  simp only [Paired, List.length_append, List.length_singleton, now]
  rcases paired with ⟨gone, small, rfl⟩ | ⟨fresh, small, rfl⟩ | ⟨fresh, rfl, rfl⟩
  · exact .inl ⟨.inl gone, by omega, rfl⟩
  · exact .inr (.inl ⟨by simp [fresh, small], by omega, rfl⟩)
  · exact .inl ⟨.inr (by omega), by omega, rfl⟩

/-- A new pair starts at the first element, or at the end of an empty collection. -/
theorem paired_create (data : List α) {overtaken : Prop} (fresh : ¬ overtaken) :
    Paired data overtaken (VectorConcreteIterator.create data)
      (ListConcreteIterator.create data) := by
  cases data with
  | nil => exact .inr (.inr ⟨fresh, rfl, rfl⟩)
  | cons x data => exact .inr (.inl ⟨fresh, Nat.succ_pos _, rfl⟩)

/-! ## The two runs -/

theorem parallel_init : Parallel [] (system (vector α)).init (system (list α)).init where
  data := rfl
  length := rfl
  paired := by
    intro i k it there
    cases there
  answers := rfl

/-- A call other than `add` overtakes nothing. -/
theorem overtaken_concat_of_ne_add {tr : List (Op α)} {op : Op α} {i : Nat} {s : State Nat α}
    (run : (system (vector α)).run tr = some s) (other : ∀ x, op ≠ .add x) :
    Overtaken (tr ++ [op]) i ↔ Overtaken tr i := by
  rw [overtaken_concat run]
  simp [other]

section Step
variable {tr : List (Op α)} {s : State Nat α} {t : State (Option Nat) α}

theorem Parallel.add (parallel : Parallel tr s t) (run : (system (vector α)).run tr = some s)
    (x : α) :
    Parallel (tr ++ [.add x]) { s with data := s.data ++ [x], answers := s.answers ++ [.added] }
      { t with data := t.data ++ [x], answers := t.answers ++ [.added] } where
  data := by simp only [parallel.data]
  length := parallel.length
  paired := by
    intro i k it there there'
    refine (parallel.paired i k it there there').add x ?_
    rw [overtaken_concat run, show s.iterators[i]? = some k from there]
    simp
  answers := by simp only [parallel.answers]

theorem Parallel.create (parallel : Parallel tr s t)
    (run : (system (vector α)).run tr = some s) :
    Parallel (tr ++ [.createIterator])
      { s with
        iterators := s.iterators ++ [(vector α).create s.data]
        answers := s.answers ++ [.created s.iterators.length] }
      { t with
        iterators := t.iterators ++ [(list α).create t.data]
        answers := t.answers ++ [.created t.iterators.length] } where
  data := parallel.data
  length := by simp only [List.length_append, List.length_singleton, parallel.length]
  paired := by
    intro i k it there there'
    rw [overtaken_concat_of_ne_add run (by simp)]
    by_cases old : i < s.iterators.length
    · rw [List.getElem?_append_left old] at there
      rw [List.getElem?_append_left (parallel.length.symm ▸ old)] at there'
      exact parallel.paired i k it there there'
    · have new : i = s.iterators.length := by
        have small := (List.getElem?_eq_some_iff.mp there).1
        rw [List.length_append, List.length_singleton] at small
        omega
      rw [new, List.getElem?_concat_length] at there
      rw [new, ← parallel.length, List.getElem?_concat_length, parallel.data] at there'
      cases there
      cases there'
      exact paired_create s.data (not_overtaken_new run (Nat.le_of_not_lt old))
  answers := by simp only [parallel.answers, parallel.length]

theorem Parallel.hasNext (parallel : Parallel tr s t)
    (run : (system (vector α)).run tr = some s) (i : Nat) {k : Nat} {it : Option Nat}
    (same : (list α).hasNext s.data it = (vector α).hasNext s.data k) :
    Parallel (tr ++ [.hasNext i])
      { s with answers := s.answers ++ [.hasNext ((vector α).hasNext s.data k)] }
      { t with answers := t.answers ++ [.hasNext ((list α).hasNext t.data it)] } where
  data := parallel.data
  length := parallel.length
  paired := by
    intro j l jt there there'
    rw [overtaken_concat_of_ne_add run (by simp)]
    exact parallel.paired j l jt there there'
  answers := by simp only [parallel.data, same, parallel.answers]

theorem Parallel.next (parallel : Parallel tr s t) (run : (system (vector α)).run tr = some s)
    {i k : Nat} {it : Option Nat} (there : s.iterators[i]? = some k)
    (there' : t.iterators[i]? = some it)
    (same : ((list α).next s.data it).1 = ((vector α).next s.data k).1)
    (paired : Paired s.data (Overtaken tr i) ((vector α).next s.data k).2
      ((list α).next s.data it).2) :
    Parallel (tr ++ [.next i])
      { s with
        iterators := s.iterators.set i ((vector α).next s.data k).2
        answers := s.answers ++ [.next ((vector α).next s.data k).1] }
      { t with
        iterators := t.iterators.set i ((list α).next t.data it).2
        answers := t.answers ++ [.next ((list α).next t.data it).1] } where
  data := parallel.data
  length := by simp only [List.length_set, parallel.length]
  paired := by
    intro j l jt now now'
    rw [overtaken_concat_of_ne_add run (by simp)]
    by_cases this : i = j
    · subst this
      rw [List.getElem?_set_self (List.getElem?_eq_some_iff.mp there).1] at now
      rw [List.getElem?_set_self (List.getElem?_eq_some_iff.mp there').1, parallel.data] at now'
      cases now
      cases now'
      exact paired
    · rw [List.getElem?_set_ne this] at now now'
      exact parallel.paired j l jt now now'
  answers := by simp only [parallel.data, same, parallel.answers]

end Step

/-- Step lemma: a call on no overtaken iterator. -/
theorem parallel_step {tr : List (Op α)} {op : Op α} {s s' : State Nat α}
    {t : State (Option Nat) α} (run : (system (vector α)).run tr = some s)
    (parallel : Parallel tr s t) (fresh : ∀ i, op.asks = some i → ¬ Overtaken tr i)
    (hstep : (system (vector α)).step s op = some s') :
    ∃ t', (system (list α)).step t op = some t' ∧ Parallel (tr ++ [op]) s' t' := by
  cases op with
  | add x =>
      cases hstep
      exact ⟨_, rfl, parallel.add run x⟩
  | createIterator =>
      cases hstep
      exact ⟨_, rfl, parallel.create run⟩
  | hasNext i =>
      obtain ⟨k, there, rfl⟩ := step_hasNext.mp hstep
      obtain ⟨it, there', paired⟩ := parallel.iterator there
      obtain ⟨same, -⟩ := paired.agree (fresh i rfl)
      exact ⟨_, step_hasNext.mpr ⟨it, there', rfl⟩, parallel.hasNext run i same⟩
  | next i =>
      obtain ⟨k, there, rfl⟩ := step_next.mp hstep
      obtain ⟨it, there', paired⟩ := parallel.iterator there
      obtain ⟨-, same, paired⟩ := paired.agree (fresh i rfl)
      exact ⟨_, step_next.mpr ⟨it, there', rfl⟩, parallel.next run there there' same paired⟩

/-- **Run lemma.** While no overtaken iterator is asked, the list goes with the
vector. -/
theorem parallel_run {tr : List (Op α)} {s : State Nat α}
    (run : (system (vector α)).run tr = some s) (none : NoneOvertaken tr) :
    ∃ t, (system (list α)).run tr = some t ∧ Parallel tr s t := by
  induction tr using List.reverseRecOn generalizing s with
  | nil =>
      cases run
      exact ⟨_, rfl, parallel_init⟩
  | append_singleton tr op ih =>
      obtain ⟨before, last⟩ := noneOvertaken_concat.mp none
      obtain ⟨s₁, run₁, hstep⟩ := System.run_concat_eq_some.mp run
      obtain ⟨t₁, runList, parallel⟩ := ih run₁ before
      obtain ⟨t, step, parallel⟩ := parallel_step run₁ parallel last hstep
      exact ⟨t, System.run_concat_eq_some.mpr ⟨t₁, runList, step⟩, parallel⟩

/-- Every call is answered once. -/
theorem answers_concat {ι : Type*} {I : IIterator ι α} {op : Op α} {s s' : State ι α}
    (hstep : (system I).step s op = some s') : ∃ a, s'.answers = s.answers ++ [a] := by
  cases op with
  | add x =>
      cases hstep
      exact ⟨_, rfl⟩
  | createIterator =>
      cases hstep
      exact ⟨_, rfl⟩
  | hasNext i =>
      obtain ⟨it, -, rfl⟩ := step_hasNext.mp hstep
      exact ⟨_, rfl⟩
  | next i =>
      obtain ⟨it, -, rfl⟩ := step_next.mp hstep
      exact ⟨_, rfl⟩

/-- Answers differ where the last ones do. -/
theorem concat_ne {as bs : List (Answer α)} {a b : Answer α} (different : a ≠ b) :
    as ++ [a] ≠ bs ++ [b] := by
  intro same
  obtain ⟨-, last⟩ := List.append_inj' same rfl
  exact different (List.head_eq_of_cons_eq last)

/-- An overtaken iterator tells the collections apart as soon as it is asked. -/
theorem disagree_step {tr : List (Op α)} {op : Op α} {i : Nat} {s s' : State Nat α}
    {t t' : State (Option Nat) α} (parallel : Parallel tr s t) (asks : op.asks = some i)
    (gone : Overtaken tr i) (hstep : (system (vector α)).step s op = some s')
    (hstep' : (system (list α)).step t op = some t') : t'.answers ≠ s'.answers := by
  cases op with
  | add x => cases asks
  | createIterator => cases asks
  | hasNext j =>
      cases asks
      obtain ⟨k, there, rfl⟩ := step_hasNext.mp hstep
      obtain ⟨it, there', rfl⟩ := step_hasNext.mp hstep'
      obtain ⟨different, -⟩ := (parallel.paired i k it there there').disagree gone
      simp only [parallel.data]
      apply concat_ne
      intro same
      injection same with same
      exact different same
  | next j =>
      cases asks
      obtain ⟨k, there, rfl⟩ := step_next.mp hstep
      obtain ⟨it, there', rfl⟩ := step_next.mp hstep'
      obtain ⟨-, different⟩ := (parallel.paired i k it there there').disagree gone
      simp only [parallel.data]
      apply concat_ne
      intro same
      injection same with same
      exact different same

/-- Collections that answer alike have had no overtaken iterator asked. -/
theorem noneOvertaken_of_agree {tr : List (Op α)} {s : State Nat α} {t : State (Option Nat) α}
    (run : (system (vector α)).run tr = some s) (run' : (system (list α)).run tr = some t)
    (same : t.answers = s.answers) : NoneOvertaken tr := by
  induction tr using List.reverseRecOn generalizing s t with
  | nil =>
      intro pre op post i split
      simp at split
  | append_singleton tr op ih =>
      obtain ⟨s₁, run₁, hstep⟩ := System.run_concat_eq_some.mp run
      obtain ⟨t₁, run₁', hstep'⟩ := System.run_concat_eq_some.mp run'
      obtain ⟨a, answered⟩ := answers_concat hstep
      obtain ⟨a', answered'⟩ := answers_concat hstep'
      have before : t₁.answers = s₁.answers := by
        rw [answered, answered'] at same
        exact (List.append_inj' same rfl).1
      have none := ih run₁ run₁' before
      refine noneOvertaken_concat.mpr ⟨none, ?_⟩
      intro i asks gone
      obtain ⟨t₂, run₂, parallel⟩ := parallel_run run₁ none
      rw [run₁'] at run₂
      cases run₂
      exact disagree_step parallel asks gone hstep hstep' same

/-! ## The main result -/

/-- **Vector or list.** Over every interleaving of calls, from the empty collection
on and with any number of open iterators, the two collections give the same
answers if and only if no iterator is asked again that stood at the end when an
element was added. -/
theorem agree_iff {tr : List (Op α)} {s : State Nat α}
    (run : (system (vector α)).run tr = some s) :
    (∃ t, (system (list α)).run tr = some t ∧ t.answers = s.answers) ↔ NoneOvertaken tr := by
  constructor
  · rintro ⟨t, run', same⟩
    exact noneOvertaken_of_agree run run' same
  · intro none
    obtain ⟨t, run', parallel⟩ := parallel_run run none
    exact ⟨t, run', parallel.answers⟩

/-- An element added behind an iterator that is not at the end. -/
theorem agree_iff_behind :
    ∃ s, (system (vector Nat)).run [.add 5, .createIterator, .add 6, .next 0, .next 0] = some s ∧
      s.answers = [.added, .created 0, .added, .next (some 5), .next (some 6)] ∧
      NoneOvertaken [.add 5, .createIterator, .add 6, .next 0, .next 0] := by
  have run : (system (vector Nat)).run
      [.add 5, .createIterator, .add 6, .next 0, .next 0] = some _ := rfl
  exact ⟨_, run, rfl, (agree_iff run).mp ⟨_, rfl, rfl⟩⟩

/-- An iterator of an empty collection, and then an element. -/
theorem not_agree_empty :
    ¬ ∃ s t, (system (vector Nat)).run [.createIterator, .add 5, .hasNext 0] = some s ∧
      (system (list Nat)).run [.createIterator, .add 5, .hasNext 0] = some t ∧
      t.answers = s.answers := by
  rintro ⟨s, t, run, run', same⟩
  cases run
  cases run'
  exact absurd same (by decide)

end CppLab.Patterns.Iterator
