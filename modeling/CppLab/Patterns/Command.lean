import CppLab.Lib.System

/-!
# The commands of an `Invoker`

`Invoker` owns what its two pointers hold: the destructor deletes both. The
constructor stores its argument in both of them, and the setters overwrite
without `delete`.

Commands are identities, and one that is handed over is fresh. The log has every
execution and every `delete` in order, a second `delete` of a command included.
`deleted_eq` counts what the destructor deletes from the arguments alone, and
`owned_iff` says for which histories, finished or not, each command that the invoker
holds no longer has been deleted exactly once.
-/

namespace CppLab.Patterns.Command

variable {κ : Type*}

/-- What happens to a command. -/
inductive Access (κ : Type*)
  | executed (c : κ)
  | deleted (c : κ)
  deriving DecidableEq, Repr

/-- `Invoker`. -/
structure Invoker (κ : Type*) where
  on_start_ : Option κ
  on_finish_ : Option κ

/-- The constructor. -/
def Invoker.new (s : Option κ) : Invoker κ := ⟨s, s⟩

def Invoker.setOnStart (i : Invoker κ) (command : Option κ) : Invoker κ :=
  { i with on_start_ := command }

def Invoker.setOnFinish (i : Invoker κ) (command : Option κ) : Invoker κ :=
  { i with on_finish_ := command }

/-- `invoke()`: what is executed. -/
def Invoker.invoke (i : Invoker κ) : List (Access κ) :=
  i.on_start_.toList.map .executed ++ i.on_finish_.toList.map .executed

/-- `~Invoker()`: what is deleted; `delete nullptr` has no effect. -/
def Invoker.destructor (i : Invoker κ) : List (Access κ) :=
  i.on_start_.toList.map .deleted ++ i.on_finish_.toList.map .deleted

/-- The invoker, whether it still exists, the commands handed to it and what has
happened to them. -/
structure State (κ : Type*) where
  invoker : Invoker κ
  alive : Bool
  handed : List κ
  log : List (Access κ)

inductive Op (κ : Type*)
  | setOnStart (command : Option κ)
  | setOnFinish (command : Option κ)
  | invoke
  | destroy

section

variable [DecidableEq κ]

/-- The command that a call hands over is new. -/
def Fresh (s : State κ) (command : Option κ) : Prop := ∀ c ∈ command, c ∉ s.handed

instance (s : State κ) (command : Option κ) : Decidable (Fresh s command) := by
  unfold Fresh
  infer_instance

/-- An invoker with an initial command or none. -/
def system (s₀ : Option κ) : System (State κ) (Op κ) where
  init := ⟨.new s₀, true, s₀.toList, []⟩
  step s
    | .setOnStart command =>
        if s.alive ∧ Fresh s command then
          some { s with
            invoker := s.invoker.setOnStart command
            handed := s.handed ++ command.toList }
        else none
    | .setOnFinish command =>
        if s.alive ∧ Fresh s command then
          some { s with
            invoker := s.invoker.setOnFinish command
            handed := s.handed ++ command.toList }
        else none
    | .invoke =>
        if s.alive then some { s with log := s.log ++ s.invoker.invoke } else none
    | .destroy =>
        if s.alive then
          some { s with alive := false, log := s.log ++ s.invoker.destructor }
        else none

/-- The invoker is there and has the command in one of its pointers. -/
def State.Holds (s : State κ) (c : κ) : Prop :=
  s.alive = true ∧ (s.invoker.on_start_ = some c ∨ s.invoker.on_finish_ = some c)

/-- Every command handed over is deleted once and no more when it is no longer held; none
is deleted while it is held, and none is executed after it was deleted. -/
structure Owned (s : State κ) : Prop where
  once : ∀ c ∈ s.handed, ¬ s.Holds c → s.log.count (.deleted c) = 1
  held : ∀ c, s.Holds c → .deleted c ∉ s.log
  dead : ∀ pre c post, s.log = pre ++ .executed c :: post → .deleted c ∉ pre

end

/-! ## The arguments of a history -/

/-- Arguments of `setOnStart`, in order. -/
def starts (tr : List (Op κ)) : List (Option κ) :=
  tr.filterMap fun
    | .setOnStart command => some command
    | _ => none

/-- Arguments of `setOnFinish`, in order. -/
def finishes (tr : List (Op κ)) : List (Option κ) :=
  tr.filterMap fun
    | .setOnFinish command => some command
    | _ => none

/-- Neither setter is called again after a call with a command. An initial command stays
in one of the two pointers, and is replaced in the other before the invoker is destroyed. -/
structure Orderly (s₀ : Option κ) (tr : List (Op κ)) : Prop where
  start : ∀ command ∈ (starts tr).dropLast, command = none
  finish : ∀ command ∈ (finishes tr).dropLast, command = none
  kept : s₀ ≠ none → starts tr = [] ∨ finishes tr = []
  replaced : s₀ ≠ none → .destroy ∈ tr → starts tr ≠ [] ∨ finishes tr ≠ []

/-- What a pointer holds after its setter has been called with `args`. -/
def slot (s₀ : Option κ) (args : List (Option κ)) : Option κ := args.getLast?.getD s₀

theorem slot_concat (s₀ command : Option κ) (args : List (Option κ)) :
    slot s₀ (args ++ [command]) = command := by
  simp [slot]

theorem slot_cases (s₀ : Option κ) (args : List (Option κ)) :
    (args = [] ∧ slot s₀ args = s₀) ∨
    ∃ before last, args = before ++ [last] ∧ slot s₀ args = last := by
  rcases List.eq_nil_or_concat args with rfl | ⟨before, last, rfl⟩
  · exact .inl ⟨rfl, rfl⟩
  · rw [List.concat_eq_append]
    exact .inr ⟨before, last, rfl, slot_concat s₀ last before⟩

/-- A command that stands once among the arguments is what the pointer holds if
it stands there last. -/
theorem slot_eq_some [DecidableEq κ] {s₀ : Option κ} {args : List (Option κ)} {c : κ}
    (once : args.count (some c) ≤ 1) (member : some c ∈ args) :
    slot s₀ args = some c ↔ some c ∉ args.dropLast := by
  rcases List.eq_nil_or_concat args with rfl | ⟨before, last, rfl⟩
  · cases member
  · rw [List.concat_eq_append] at once member ⊢
    rw [slot_concat, List.dropLast_concat]
    rw [List.count_append] at once
    constructor
    · rintro rfl there
      have := List.count_pos_iff.mpr there
      rw [List.count_singleton_self] at once
      omega
    · intro absent
      rcases List.mem_append.mp member with there | there
      · exact absurd there absent
      · exact (List.mem_singleton.mp there).symm

/-- A command that is not among the arguments is held if it was there at first and
the setter has not been called. -/
theorem slot_eq_some_of_not_mem {s₀ : Option κ} {args : List (Option κ)} {c : κ}
    (absent : some c ∉ args) : slot s₀ args = some c ↔ s₀ = some c ∧ args = [] := by
  rcases slot_cases s₀ args with ⟨rfl, held⟩ | ⟨before, last, rfl, held⟩
  · simp [held]
  · rw [held]
    constructor
    · rintro rfl
      exact absurd (List.mem_concat_self ..) absent
    · rintro ⟨-, none⟩
      simp at none

/-! ## The history and the state -/

variable [DecidableEq κ] {s₀ : Option κ}

/-- **Invariant.** The pointers hold the last arguments of their setters, the
commands handed over are those among the arguments, each once, and nothing is
deleted but by the destructor. -/
structure Tracks (s₀ : Option κ) (tr : List (Op κ)) (s : State κ) : Prop where
  on_start_ : s.invoker.on_start_ = slot s₀ (starts tr)
  on_finish_ : s.invoker.on_finish_ = slot s₀ (finishes tr)
  handed : ∀ c, s.handed.count c = (s₀ :: starts tr ++ finishes tr).count (some c)
  nodup : s.handed.Nodup
  alive : s.alive = true ↔ .destroy ∉ tr
  log : ∃ es, (∀ c, Access.deleted c ∉ es) ∧
    s.log = es ++ if s.alive then [] else s.invoker.destructor

omit [DecidableEq κ] in
theorem nodup_append_toList {handed : List κ} {command : Option κ} (nodup : handed.Nodup)
    (fresh : ∀ c ∈ command, c ∉ handed) : (handed ++ command.toList).Nodup := by
  cases command with
  | none => simpa using nodup
  | some c => exact List.nodup_append.mpr ⟨nodup, List.nodup_singleton c, by
      rintro a there b same rfl
      rw [List.mem_singleton.mp same] at there
      exact fresh c rfl there⟩

theorem count_append_toList (handed : List κ) (command : Option κ) (c : κ) :
    (handed ++ command.toList).count c = handed.count c + [command].count (some c) := by
  cases command with
  | none => simp
  | some d => simp [List.count_singleton]

theorem tracks_init (s₀ : Option κ) : Tracks s₀ [] (system s₀).init where
  on_start_ := rfl
  on_finish_ := rfl
  handed c := by
    have counted := count_append_toList [] s₀ c
    rw [List.nil_append, List.count_nil, Nat.zero_add] at counted
    exact counted
  nodup := nodup_append_toList List.nodup_nil (by simp)
  alive := iff_of_true rfl List.not_mem_nil
  log := ⟨[], by simp, rfl⟩

/-- A call that hands nothing over and sets no pointer. -/
theorem Tracks.frame {tr : List (Op κ)} {s s' : State κ} {op : Op κ} (tracks : Tracks s₀ tr s)
    (start : starts [op] = []) (finish : finishes [op] = []) (invoker : s'.invoker = s.invoker)
    (handed : s'.handed = s.handed) (alive : s'.alive = true ↔ .destroy ∉ tr ++ [op])
    (log : ∃ es, (∀ c, Access.deleted c ∉ es) ∧
      s'.log = es ++ if s'.alive then [] else s'.invoker.destructor) :
    Tracks s₀ (tr ++ [op]) s' := by
  have args : starts (tr ++ [op]) = starts tr := by
    rw [starts, List.filterMap_append]
    rw [starts] at start
    rw [start, List.append_nil]
    rfl
  have args' : finishes (tr ++ [op]) = finishes tr := by
    rw [finishes, List.filterMap_append]
    rw [finishes] at finish
    rw [finish, List.append_nil]
    rfl
  constructor
  · rw [args, invoker, tracks.on_start_]
  · rw [args', invoker, tracks.on_finish_]
  · rw [args, args', handed]
    exact tracks.handed
  · rw [handed]
    exact tracks.nodup
  · exact alive
  · exact log

/-- Step lemma. -/
theorem tracks_step {tr : List (Op κ)} {s s' : State κ} {op : Op κ} (tracks : Tracks s₀ tr s)
    (hstep : (system s₀).step s op = some s') : Tracks s₀ (tr ++ [op]) s' := by
  obtain ⟨es, kept, log⟩ := tracks.log
  -- a call of anything but the destructor
  have still : s.alive = true → Op.destroy ≠ op →
      (s.alive = true ↔ .destroy ∉ tr ++ [op]) := by
    intro alive other
    rw [List.mem_append, List.mem_singleton, not_or, ← tracks.alive]
    exact iff_of_true alive ⟨alive, other⟩
  cases op with
  | setOnStart command =>
      simp only [system, Option.ite_none_right_eq_some, Option.some.injEq] at hstep
      obtain ⟨⟨alive, fresh⟩, rfl⟩ := hstep
      have args : starts (tr ++ [Op.setOnStart command]) = starts tr ++ [command] :=
        System.filterMap_concat_some rfl
      have same : finishes (tr ++ [Op.setOnStart command]) = finishes tr :=
        System.filterMap_concat_none rfl
      constructor
      · rw [args, slot_concat]
        rfl
      · rw [same]
        exact tracks.on_finish_
      · intro c
        rw [args, same, count_append_toList, tracks.handed]
        simp only [List.count_append, List.count_cons, List.count_nil, List.cons_append]
        omega
      · exact nodup_append_toList tracks.nodup fresh
      · exact still alive (by simp)
      · exact ⟨es, kept, by simpa [alive] using log⟩
  | setOnFinish command =>
      simp only [system, Option.ite_none_right_eq_some, Option.some.injEq] at hstep
      obtain ⟨⟨alive, fresh⟩, rfl⟩ := hstep
      have args : finishes (tr ++ [Op.setOnFinish command]) = finishes tr ++ [command] :=
        System.filterMap_concat_some rfl
      have same : starts (tr ++ [Op.setOnFinish command]) = starts tr :=
        System.filterMap_concat_none rfl
      constructor
      · rw [same]
        exact tracks.on_start_
      · rw [args, slot_concat]
        rfl
      · intro c
        rw [args, same, count_append_toList, tracks.handed]
        simp only [List.count_append, List.count_cons, List.count_nil, List.cons_append]
        omega
      · exact nodup_append_toList tracks.nodup fresh
      · exact still alive (by simp)
      · exact ⟨es, kept, by simpa [alive] using log⟩
  | invoke =>
      simp only [system, Option.ite_none_right_eq_some, Option.some.injEq] at hstep
      obtain ⟨alive, rfl⟩ := hstep
      refine tracks.frame rfl rfl rfl rfl (still alive (by simp))
        ⟨es ++ s.invoker.invoke, ?_, by simp [log, alive]⟩
      intro c
      simp [Invoker.invoke, kept c]
  | destroy =>
      simp only [system, Option.ite_none_right_eq_some, Option.some.injEq] at hstep
      obtain ⟨alive, rfl⟩ := hstep
      refine tracks.frame rfl rfl rfl rfl ?_ ⟨es, kept, by simp [log, alive]⟩
      exact iff_of_false Bool.false_ne_true (not_not.mpr List.mem_concat_self)

theorem tracks_run {tr : List (Op κ)} {s : State κ} (run : (system s₀).run tr = some s) :
    Tracks s₀ tr s :=
  System.run_invariant (tracks_init s₀) (fun _ _ _ _ _ tracks step => tracks_step tracks step) run

/-! ## What the destructor deletes -/

/-- How often a command is deleted, from the arguments. -/
def deletions (s₀ : Option κ) (as bs : List (Option κ)) (c : κ) : Nat :=
  (if slot s₀ as = some c then 1 else 0) + if slot s₀ bs = some c then 1 else 0

theorem deletions_comm (s₀ : Option κ) (as bs : List (Option κ)) (c : κ) :
    deletions s₀ as bs c = deletions s₀ bs as c := Nat.add_comm ..

/-- The initial command is deleted once for each setter that was not called. -/
theorem deletions_initial {as bs : List (Option κ)} {c : κ} (absent : some c ∉ as)
    (absent' : some c ∉ bs) :
    deletions (some c) as bs c = (if as = [] then 1 else 0) + if bs = [] then 1 else 0 := by
  rw [deletions]
  simp only [slot_eq_some_of_not_mem absent, slot_eq_some_of_not_mem absent', true_and]

/-- A command set later is deleted once unless its setter was called again. -/
theorem deletions_set {as bs : List (Option κ)} {c : κ} (once : as.count (some c) ≤ 1)
    (member : some c ∈ as) (notInitial : s₀ ≠ some c) (absent : some c ∉ bs) :
    deletions s₀ as bs c = if some c ∈ as.dropLast then 0 else 1 := by
  rw [deletions]
  simp only [slot_eq_some once member, slot_eq_some_of_not_mem absent, notInitial, false_and,
    if_false, Nat.add_zero, ite_not]

theorem Tracks.deleted_eq {tr : List (Op κ)} {s : State κ} (tracks : Tracks s₀ tr s)
    (gone : s.alive = false) (c : κ) :
    s.log.count (.deleted c) = deletions s₀ (starts tr) (finishes tr) c := by
  obtain ⟨es, kept, log⟩ := tracks.log
  have toList : ∀ held : Option κ, (held.toList.map Access.deleted).count (.deleted c) =
      if held = some c then 1 else 0 := by
    intro held
    cases held with
    | none => rfl
    | some d => by_cases same : d = c <;> simp [same]
  rw [log, if_neg (by simp [gone]), List.count_append, List.count_eq_zero.mpr (kept c),
    Invoker.destructor, List.count_append, toList, toList, tracks.on_start_, tracks.on_finish_,
    Nat.zero_add]
  rfl

/-- A command is handed over in one place. -/
theorem Tracks.place {tr : List (Op κ)} {s : State κ} (tracks : Tracks s₀ tr s) (c : κ) :
    [s₀].count (some c) + (starts tr).count (some c) + (finishes tr).count (some c) ≤ 1 := by
  have once := List.nodup_iff_count_le_one.mp tracks.nodup c
  rw [tracks.handed, List.count_append, ← List.singleton_append, List.count_append] at once
  exact once

theorem Tracks.mem_handed {tr : List (Op κ)} {s : State κ} (tracks : Tracks s₀ tr s) {c : κ} :
    c ∈ s.handed ↔ s₀ = some c ∨ some c ∈ starts tr ∨ some c ∈ finishes tr := by
  rw [← List.count_pos_iff, tracks.handed, List.count_pos_iff]
  simp [eq_comm]

/-- The initial command is no argument. -/
theorem Tracks.initial_absent {tr : List (Op κ)} {s : State κ} (tracks : Tracks s₀ tr s) {c : κ}
    (held : s₀ = some c) : some c ∉ starts tr ∧ some c ∉ finishes tr := by
  have place := tracks.place c
  rw [held, List.count_singleton_self] at place
  rw [← List.count_eq_zero, ← List.count_eq_zero]
  omega

/-- An argument of one setter is an argument once, and nowhere else. -/
theorem Tracks.start_once {tr : List (Op κ)} {s : State κ} (tracks : Tracks s₀ tr s) {c : κ}
    (member : some c ∈ starts tr) :
    (starts tr).count (some c) ≤ 1 ∧ s₀ ≠ some c ∧ some c ∉ finishes tr := by
  have place := tracks.place c
  have some_place := List.count_pos_iff.mpr member
  refine ⟨by omega, fun held => (tracks.initial_absent held).1 member, ?_⟩
  rw [← List.count_eq_zero]
  omega

theorem Tracks.finish_once {tr : List (Op κ)} {s : State κ} (tracks : Tracks s₀ tr s) {c : κ}
    (member : some c ∈ finishes tr) :
    (finishes tr).count (some c) ≤ 1 ∧ s₀ ≠ some c ∧ some c ∉ starts tr := by
  have place := tracks.place c
  have some_place := List.count_pos_iff.mpr member
  refine ⟨by omega, fun held => (tracks.initial_absent held).2 member, ?_⟩
  rw [← List.count_eq_zero]
  omega

/-- **The count.** Every command is in as many pointers as `bound` says, which may be one and
not none, if and only if no setter was called again after a command and the initial command
is in so many of those whose setter was not called. -/
theorem Tracks.deletions_iff {tr : List (Op κ)} {s : State κ} (tracks : Tracks s₀ tr s)
    (bound : Nat → Prop) (one : bound 1) (zero : ¬ bound 0) :
    (∀ c ∈ s.handed, bound (deletions s₀ (starts tr) (finishes tr) c)) ↔
      (∀ command ∈ (starts tr).dropLast, command = none) ∧
      (∀ command ∈ (finishes tr).dropLast, command = none) ∧
      (s₀ ≠ none → bound ((if starts tr = [] then 1 else 0) +
        if finishes tr = [] then 1 else 0)) := by
  constructor
  · intro each
    refine ⟨?_, ?_, ?_⟩
    · intro command again
      cases command with
      | none => rfl
      | some c =>
          have member := List.dropLast_subset _ again
          obtain ⟨count, notInitial, absent⟩ := tracks.start_once member
          have holds := each c (tracks.mem_handed.mpr (.inr (.inl member)))
          rw [deletions_set count member notInitial absent, if_pos again] at holds
          exact absurd holds zero
    · intro command again
      cases command with
      | none => rfl
      | some c =>
          have member := List.dropLast_subset _ again
          obtain ⟨count, notInitial, absent⟩ := tracks.finish_once member
          have holds := each c (tracks.mem_handed.mpr (.inr (.inr member)))
          rw [deletions_comm, deletions_set count member notInitial absent, if_pos again] at holds
          exact absurd holds zero
    · intro there
      obtain ⟨c, rfl⟩ := Option.ne_none_iff_exists'.mp there
      obtain ⟨absent, absent'⟩ := tracks.initial_absent rfl
      rw [← deletions_initial absent absent']
      exact each c (tracks.mem_handed.mpr (.inl rfl))
  · intro ⟨start, finish, initial⟩ c handed
    rcases tracks.mem_handed.mp handed with rfl | member | member
    · obtain ⟨absent, absent'⟩ := tracks.initial_absent rfl
      rw [deletions_initial absent absent']
      exact initial (by simp)
    · obtain ⟨count, notInitial, absent⟩ := tracks.start_once member
      rw [deletions_set count member notInitial absent, if_neg]
      · exact one
      · intro again
        cases start _ again
    · obtain ⟨count, notInitial, absent⟩ := tracks.finish_once member
      rw [deletions_comm, deletions_set count member notInitial absent, if_neg]
      · exact one
      · intro again
        cases finish _ again

/-! ## The main result -/

/-- While the invoker exists it has deleted nothing. -/
theorem Tracks.not_deleted {tr : List (Op κ)} {s : State κ} (tracks : Tracks s₀ tr s)
    (alive : s.alive = true) (c : κ) : Access.deleted c ∉ s.log := by
  obtain ⟨es, kept, log⟩ := tracks.log
  rw [log, if_pos alive, List.append_nil]
  exact kept c

/-- What is executed is executed before anything is deleted. -/
theorem Tracks.dead {tr : List (Op κ)} {s : State κ} (tracks : Tracks s₀ tr s)
    (pre : List (Access κ)) (c : κ) (post : List (Access κ))
    (split : s.log = pre ++ .executed c :: post) : .deleted c ∉ pre := by
  obtain ⟨es, kept, log⟩ := tracks.log
  intro before
  rw [split] at log
  rcases List.append_eq_append_iff.mp log.symm with ⟨rest, rfl, tail⟩ | ⟨rest, rfl, -⟩
  · have executed : Access.executed c ∈ (if s.alive then [] else s.invoker.destructor) := by
      rw [tail]
      simp
    split at executed
    · cases executed
    · simp [Invoker.destructor] at executed
  · exact kept c (List.mem_append_left _ before)

/-- A command is in a pointer if and only if the destructor would delete it. -/
theorem Tracks.holds_iff {tr : List (Op κ)} {s : State κ} (tracks : Tracks s₀ tr s)
    (alive : s.alive = true) (c : κ) :
    s.Holds c ↔ 0 < deletions s₀ (starts tr) (finishes tr) c := by
  unfold State.Holds deletions
  rw [tracks.on_start_, tracks.on_finish_]
  by_cases start : slot s₀ (starts tr) = some c
  · simp [alive, start]
  · by_cases finish : slot s₀ (finishes tr) = some c
    · simp [alive, finish]
    · simp [start, finish]

/-- While the invoker exists, it has each command if and only if none was overwritten. -/
theorem Tracks.once_alive {tr : List (Op κ)} {s : State κ} (tracks : Tracks s₀ tr s)
    (alive : s.alive = true) :
    (∀ c ∈ s.handed, ¬ s.Holds c → s.log.count (.deleted c) = 1) ↔ Orderly s₀ tr := by
  have lost : ∀ c, s.log.count (.deleted c) ≠ 1 := by
    intro c one
    have there := List.count_pos_iff.mp (one ▸ Nat.one_pos)
    exact tracks.not_deleted alive c there
  have held : (∀ c ∈ s.handed, ¬ s.Holds c → s.log.count (.deleted c) = 1) ↔
      ∀ c ∈ s.handed, 0 < deletions s₀ (starts tr) (finishes tr) c := by
    refine forall₂_congr fun c _ => ?_
    rw [← tracks.holds_iff alive]
    constructor
    · intro once
      by_contra gone
      exact lost c (once gone)
    · intro holds gone
      exact absurd holds gone
  rw [held, tracks.deletions_iff (0 < ·) Nat.one_pos (Nat.lt_irrefl 0)]
  have some_ : 0 < (if starts tr = [] then 1 else 0) + (if finishes tr = [] then 1 else 0) ↔
      starts tr = [] ∨ finishes tr = [] := by
    by_cases none : starts tr = [] <;> by_cases none' : finishes tr = [] <;> simp [none, none']
  rw [some_]
  constructor
  · intro ⟨start, finish, kept⟩
    exact ⟨start, finish, kept, fun _ gone => absurd gone (tracks.alive.mp alive)⟩
  · intro orderly
    exact ⟨orderly.start, orderly.finish, orderly.kept⟩

/-- Once the invoker is gone, each command has been deleted once if and only if none was
overwritten and the initial one was in one pointer. -/
theorem Tracks.once_gone {tr : List (Op κ)} {s : State κ} (tracks : Tracks s₀ tr s)
    (gone : s.alive = false) :
    (∀ c ∈ s.handed, ¬ s.Holds c → s.log.count (.deleted c) = 1) ↔ Orderly s₀ tr := by
  have destroyed : .destroy ∈ tr := by
    by_contra never
    rw [tracks.alive.mpr never] at gone
    cases gone
  have nobody : ∀ c, ¬ s.Holds c := by
    intro c ⟨alive, _⟩
    rw [gone] at alive
    cases alive
  have counted : (∀ c ∈ s.handed, ¬ s.Holds c → s.log.count (.deleted c) = 1) ↔
      ∀ c ∈ s.handed, deletions s₀ (starts tr) (finishes tr) c = 1 := by
    refine forall₂_congr fun c _ => ?_
    rw [tracks.deleted_eq gone]
    exact ⟨fun once => once (nobody c), fun once _ => once⟩
  rw [counted, tracks.deletions_iff (· = 1) rfl Nat.zero_ne_one]
  have one : (if starts tr = [] then 1 else 0) + (if finishes tr = [] then 1 else 0) = 1 ↔
      (starts tr = [] ∨ finishes tr = []) ∧ (starts tr ≠ [] ∨ finishes tr ≠ []) := by
    by_cases none : starts tr = [] <;> by_cases none' : finishes tr = [] <;> simp [none, none']
  rw [one]
  constructor
  · intro ⟨start, finish, initial⟩
    exact ⟨start, finish, fun there => (initial there).1, fun there _ => (initial there).2⟩
  · intro orderly
    exact ⟨orderly.start, orderly.finish, fun there =>
      ⟨orderly.kept there, orderly.replaced there destroyed⟩⟩

/-- **Command ownership.** In every history of an invoker, from any initial command:
nothing is executed after it was deleted or deleted while it is held, and each command that
is no longer held has been deleted exactly once, if and only if no setter was called again
after a call with a command, and, where the initial command is not null, at most one of the
setters was called, and exactly one if the invoker has been destroyed. -/
theorem owned_iff {s₀ : Option κ} {tr : List (Op κ)} {s : State κ}
    (run : (system s₀).run tr = some s) : Owned s ↔ Orderly s₀ tr := by
  have tracks := tracks_run run
  have once : (∀ c ∈ s.handed, ¬ s.Holds c → s.log.count (.deleted c) = 1) ↔ Orderly s₀ tr := by
    cases alive : s.alive with
    | true => exact tracks.once_alive alive
    | false => exact tracks.once_gone alive
  constructor
  · intro owned
    exact once.mp owned.once
  · intro orderly
    constructor
    · exact once.mpr orderly
    · intro c holds
      exact tracks.not_deleted holds.1 c
    · exact tracks.dead

/-- The demo's history, with the destructor it leaves out. -/
theorem owned_iff_demo :
    ∃ s, (system (none : Option Nat)).run
        [.setOnStart (some 1), .setOnFinish (some 2), .invoke, .destroy] = some s ∧ Owned s := by
  have run : (system (none : Option Nat)).run
      [.setOnStart (some 1), .setOnFinish (some 2), .invoke, .destroy] = some _ := rfl
  refine ⟨_, rfl, (owned_iff run).mpr ?_⟩
  exact ⟨by simp [starts], by simp [finishes], by simp, by simp⟩

/-- An initial command and no setter: both pointers have it. -/
theorem not_owned_initial : ∃ s, (system (some 1)).run [.destroy] = some s ∧ ¬ Owned s := by
  refine ⟨_, rfl, fun owned => ?_⟩
  have gone : ¬ State.Holds ⟨.new (some 1), false, [1], [.deleted 1, .deleted 1]⟩ 1 :=
    fun holds => Bool.false_ne_true holds.1
  exact absurd (owned.once 1 (by simp [system]) gone) (by decide)

end CppLab.Patterns.Command
