import CppLab.Lib.Owner

/-!
# `shallow::Model` and `deep_copying::Model`

Both classes have two numbers and a pointer to an `int` of their own. `deep_copying::Model`
copies the `int` and deletes it at the end; `shallow::Model` has what the compiler
makes, which copies the pointer, and a destructor that deletes nothing.

`deep` and `shallow` run any sequence of calls over any number of objects; what `new`
returns is part of a label. `values` is what the calls should compute: the objects as
plain values. A use of memory that is not there is a step that does not exist.
-/

namespace CppLab.Class.ShallowDeep

/-- The members. -/
structure Model where
  x_ : Int32
  y_ : Int32
  ptr_ : Option Nat
  deriving DecidableEq, Repr

/-- The live objects, the `int`s in memory, and what was given by `new` and to `delete`. -/
structure State where
  objects : Nat → Option Model
  heap : Nat → Option Int32
  ledger : List (Entry Nat)

/-- The calls; `getPtr` comes with what it returns. -/
inductive Op
  | construct (o : Nat) (x y z : Int32)
  | copyConstruct (o source : Nat)
  | copyAssign (o source : Nat)
  | changePtr (o : Nat) (value : Int32)
  | getPtr (o : Nat) (result : Int32)
  | destruct (o : Nat)
  deriving DecidableEq, Repr

namespace State

def put (s : State) (o : Nat) (m : Option Model) : State :=
  { s with objects := Function.update s.objects o m }

/-- `new int` and what is assigned to it. -/
def alloc (s : State) (p : Nat) (z : Int32) : State :=
  { s with heap := Function.update s.heap p (some z), ledger := s.ledger ++ [.opened p] }

def free (s : State) (p : Nat) : State :=
  { s with heap := Function.update s.heap p none, ledger := s.ledger ++ [.closed p] }

/-- `delete ptr_`. -/
def delete (s : State) : Option Nat → Option State
  | none => some s
  | some q => (s.heap q).map fun _ => s.free q

/-- `Model(int x, int y, int z)`. -/
def construct (s : State) (o : Nat) (x y z : Int32) (p : Nat) : Option State :=
  if s.objects o = none ∧ s.heap p = none then
    some ((s.alloc p z).put o (some ⟨x, y, some p⟩))
  else none

/-- `changePtr(value)`. -/
def changePtr (s : State) (o : Nat) (value : Int32) : Option State :=
  (s.objects o).bind fun m =>
    match m.ptr_ with
    | none => some s
    | some q => (s.heap q).map fun _ => { s with heap := Function.update s.heap q (some value) }

/-- What `getPtr()` returns. -/
def getPtr (s : State) (o : Nat) : Option Int32 :=
  (s.objects o).bind fun m =>
    match m.ptr_ with
    | none => some 0
    | some q => s.heap q

/-- `deepCopy(source)` of the object `o`, which has the members `this`. -/
def deepCopy (s : State) (o : Nat) (this source : Model) (p : Nat) : Option State :=
  (s.delete this.ptr_).bind fun s =>
    match source.ptr_ with
    | none => some (s.put o (some ⟨source.x_, source.y_, none⟩))
    | some q =>
        (s.heap q).bind fun z =>
          if s.heap p = none then
            some ((s.alloc p z).put o (some ⟨source.x_, source.y_, some p⟩))
          else none

end State

/-- `deep_copying::Model`. The copy constructor starts from the initializers of the
members. -/
def deep : System State (Op × Nat) where
  init := ⟨fun _ => none, fun _ => none, []⟩
  step s l :=
    match l.1 with
    | .construct o x y z => s.construct o x y z l.2
    | .copyConstruct o source =>
        if s.objects o = none then
          (s.objects source).bind fun m => s.deepCopy o ⟨0, 1, none⟩ m l.2
        else none
    | .copyAssign o source =>
        (s.objects o).bind fun this =>
          (s.objects source).bind fun m =>
            if o ≠ source then s.deepCopy o this m l.2 else some s
    | .changePtr o value => s.changePtr o value
    | .getPtr o result => if s.getPtr o = some result then some s else none
    | .destruct o =>
        (s.objects o).bind fun m => (s.delete m.ptr_).map fun s => s.put o none

/-- `shallow::Model`. -/
def shallow : System State (Op × Nat) where
  init := ⟨fun _ => none, fun _ => none, []⟩
  step s l :=
    match l.1 with
    | .construct o x y z => s.construct o x y z l.2
    | .copyConstruct o source =>
        if s.objects o = none then (s.objects source).map fun m => s.put o (some m) else none
    | .copyAssign o source =>
        (s.objects o).bind fun _ => (s.objects source).map fun m => s.put o (some m)
    | .changePtr o value => s.changePtr o value
    | .getPtr o result => if s.getPtr o = some result then some s else none
    | .destruct o => (s.objects o).map fun _ => s.put o none

/-- An object as a value. -/
structure Value where
  x_ : Int32
  y_ : Int32
  z : Int32
  deriving DecidableEq, Repr

/-- Plain values: each object has a number of its own. -/
def values : System (Nat → Option Value) Op where
  init _ := none
  step v
    | .construct o x y z =>
        if v o = none then some (Function.update v o (some ⟨x, y, z⟩)) else none
    | .copyConstruct o source =>
        if v o = none then (v source).map fun m => Function.update v o (some m) else none
    | .copyAssign o source =>
        (v o).bind fun _ => (v source).map fun m => Function.update v o (some m)
    | .changePtr o value => (v o).map fun m => Function.update v o (some { m with z := value })
    | .getPtr o result => (v o).bind fun m => if m.z = result then some v else none
    | .destruct o => (v o).map fun _ => Function.update v o none

namespace State

/-- The object as a value, when its pointer leads to one. -/
def value (s : State) (o : Nat) : Option Value :=
  (s.objects o).bind fun m => m.ptr_.bind fun q => (s.heap q).map fun z => ⟨m.x_, m.y_, z⟩

/-- The pointer of an object. -/
def held (s : State) (o : Nat) : Option Nat := (s.objects o).bind (·.ptr_)

/-- Every object has a pointer, and that leads to an `int`. -/
def Intact (s : State) : Prop :=
  ∀ o m, s.objects o = some m → ∃ q z, m.ptr_ = some q ∧ s.heap q = some z

end State

@[simp] theorem State.put_objects (s : State) (o : Nat) (m : Option Model) :
    (s.put o m).objects = Function.update s.objects o m := rfl

@[simp] theorem State.put_heap (s : State) (o : Nat) (m : Option Model) :
    (s.put o m).heap = s.heap := rfl

@[simp] theorem State.alloc_objects (s : State) (p : Nat) (z : Int32) :
    (s.alloc p z).objects = s.objects := rfl

@[simp] theorem State.alloc_heap (s : State) (p : Nat) (z : Int32) :
    (s.alloc p z).heap = Function.update s.heap p (some z) := rfl

/-! ## Objects as values -/

variable {s s' : State} {o : Nat} {m : Model} {p q : Nat} {z : Int32}

theorem held_of_object (object : s.objects o = some m) : s.held o = m.ptr_ := by
  rw [State.held, object, Option.bind_some]

theorem value_of_object (object : s.objects o = some m) (points : m.ptr_ = some q)
    (there : s.heap q = some z) : s.value o = some ⟨m.x_, m.y_, z⟩ := by
  rw [State.value, object, Option.bind_some, points, Option.bind_some, there, Option.map_some]

theorem value_eq_none_iff (intact : s.Intact) : s.value o = none ↔ s.objects o = none := by
  cases object : s.objects o with
  | none => simp [State.value, object]
  | some m =>
      obtain ⟨q, z, points, there⟩ := intact o m object
      simp [value_of_object object points there]

/-- The objects whose `int` is not touched keep their values. -/
theorem value_update {object : Option Model}
    (objects : s'.objects = Function.update s.objects o object)
    (frame : ∀ a, a ≠ o → ∀ q, s.held a = some q → s'.heap q = s.heap q) :
    s'.value = Function.update s.value o (s'.value o) := by
  funext a
  by_cases own : a = o
  · rw [own, Function.update_self]
  · rw [Function.update_of_ne own, State.value, State.value, objects,
      Function.update_of_ne own]
    cases there : s.objects a with
    | none => rfl
    | some m =>
        cases points : m.ptr_ with
        | none => simp [points]
        | some q =>
            have holds : s.held a = some q := by rw [held_of_object there, points]
            simp only [Option.bind_some, points, frame a own q holds]

/-! ## Deep copies -/

/-- Every object has an `int` that is its own, and there is no other one. -/
structure Owns (s : State) : Prop where
  unique : Owner.Unique s.held s.heap s.ledger
  full : ∀ o m, s.objects o = some m → m.ptr_ ≠ none

theorem Owns.intact (owns : Owns s) : s.Intact := by
  intro o m object
  obtain ⟨q, points⟩ := Option.ne_none_iff_exists'.mp (owns.full o m object)
  have holds : s.held o = some q := by rw [held_of_object object, points]
  obtain ⟨z, there⟩ := Option.ne_none_iff_exists'.mp (owns.unique.there holds)
  exact ⟨q, z, points, there⟩

theorem held_put (s : State) (o : Nat) (object : Option Model) :
    (s.put o object).held = Function.update s.held o (object.bind (·.ptr_)) := by
  funext a
  by_cases own : a = o
  · rw [own, Function.update_self, State.held, State.put_objects, Function.update_self]
  · rw [Function.update_of_ne own, State.held, State.held, State.put_objects,
      Function.update_of_ne own]

/-- The state with no `int` for the object `o`. -/
structure Vacated (s : State) (o : Nat) (t : State) : Prop where
  objects : t.objects = s.objects
  unique : Owner.Unique (Function.update s.held o none) t.heap t.ledger
  frame : ∀ a, a ≠ o → ∀ q, s.held a = some q → t.heap q = s.heap q

variable {t : State}

/-- There is no object yet. -/
theorem Owns.vacated (owns : Owns s) (absent : s.objects o = none) : Vacated s o s := by
  have without : s.held o = none := by rw [State.held, absent, Option.bind_none]
  refine ⟨rfl, ?_, fun _ _ _ _ => rfl⟩
  rw [← without, Function.update_eq_self]
  exact owns.unique

/-- The `int` of an object can be deleted. -/
theorem Owns.delete (owns : Owns s) (object : s.objects o = some m) :
    ∃ t, s.delete m.ptr_ = some t ∧ Vacated s o t ∧ ∀ p, s.heap p = none → t.heap p = none := by
  obtain ⟨q, z, points, there⟩ := owns.intact o m object
  have holds : s.held o = some q := by rw [held_of_object object, points]
  refine ⟨s.free q, ?_, ⟨rfl, owns.unique.free holds, ?_⟩, ?_⟩
  · rw [points, State.delete, there, Option.map_some]
  · intro a other r held
    refine Function.update_of_ne ?_ ..
    rintro rfl
    exact other (owns.unique.inj a o r held holds)
  · intro p free
    show Function.update s.heap q none p = none
    by_cases same : p = q
    · rw [same, Function.update_self]
    · rw [Function.update_of_ne same, free]

/-- An object whose `int` is gone goes. -/
theorem Vacated.gone (owns : Owns s) (vacated : Vacated s o t) :
    Owns (t.put o none) ∧ (t.put o none).value = Function.update s.value o none := by
  have sameHeld : t.held = s.held := by
    funext a
    rw [State.held, State.held, vacated.objects]
  refine ⟨⟨?_, ?_⟩, ?_⟩
  · rw [held_put, sameHeld]
    exact vacated.unique
  · intro a m object
    have object : Function.update t.objects o none a = some m := object
    by_cases own : a = o
    · rw [own, Function.update_self] at object
      cases object
    · rw [Function.update_of_ne own, vacated.objects] at object
      exact owns.full a m object
  · have objects : (t.put o none).objects = Function.update s.objects o none := by
      rw [State.put_objects, vacated.objects]
    rw [value_update objects vacated.frame, State.value, State.put_objects,
      Function.update_self, Option.bind_none]

/-- A fresh `int` for an object. -/
theorem Vacated.make (owns : Owns s) (vacated : Vacated s o t) (fresh : t.heap p = none)
    (x y z : Int32) :
    Owns ((t.alloc p z).put o (some ⟨x, y, some p⟩)) ∧
      ((t.alloc p z).put o (some ⟨x, y, some p⟩)).value =
        Function.update s.value o (some ⟨x, y, z⟩) := by
  have sameHeld : (t.alloc p z).held = s.held := by
    funext a
    rw [State.held, State.held, State.alloc, vacated.objects]
  have allocated := vacated.unique.alloc (o := o) (Function.update_self ..) fresh z
  rw [Function.update_idem] at allocated
  refine ⟨⟨?_, ?_⟩, ?_⟩
  · rw [held_put, sameHeld]
    exact allocated
  · intro a m object
    have object : Function.update t.objects o (some ⟨x, y, some p⟩) a = some m := object
    by_cases own : a = o
    · rw [own, Function.update_self] at object
      cases object
      exact Option.some_ne_none p
    · rw [Function.update_of_ne own, vacated.objects] at object
      exact owns.full a m object
  · have objects : ((t.alloc p z).put o (some ⟨x, y, some p⟩)).objects =
        Function.update s.objects o (some ⟨x, y, some p⟩) := by
      rw [State.put_objects, State.alloc_objects, vacated.objects]
    have own : ((t.alloc p z).put o (some ⟨x, y, some p⟩)).value o = some ⟨x, y, z⟩ := by
      simp [State.value]
    rw [value_update objects, own]
    intro a other q holds
    have kept := vacated.frame a other q holds
    rw [State.put_heap, State.alloc_heap, Function.update_of_ne, kept]
    rintro rfl
    rw [fresh] at kept
    exact owns.unique.there holds kept.symm

/-- `deepCopy` of another object. -/
theorem Vacated.deepCopy_eq (owns : Owns s) (vacated : Vacated s o t) {this source : Model}
    {a : Nat} (deleted : s.delete this.ptr_ = some t) (object : s.objects a = some source)
    (other : a ≠ o) :
    ∃ z, s.value a = some ⟨source.x_, source.y_, z⟩ ∧ s.deepCopy o this source p =
      if t.heap p = none then
        some ((t.alloc p z).put o (some ⟨source.x_, source.y_, some p⟩))
      else none := by
  obtain ⟨q, z, points, there⟩ := owns.intact a source object
  have holds : s.held a = some q := by rw [held_of_object object, points]
  refine ⟨z, value_of_object object points there, ?_⟩
  rw [State.deepCopy, deleted, Option.bind_some, points]
  show ((t.heap q).bind fun z => _) = _
  rw [vacated.frame a other q holds, there, Option.bind_some]

/-- What `new` would return does not matter, as long as it is free: a call and the
same call on values. -/
structure Simulates (s : State) (op : Op) (p : Nat) : Prop where
  forward : ∀ s', deep.step s (op, p) = some s' →
    Owns s' ∧ values.step s.value op = some s'.value
  backward : ∀ v, values.step s.value op = some v → s.heap p = none →
    ∃ s', deep.step s (op, p) = some s'

theorem simulates_construct (owns : Owns s) (x y z : Int32) :
    Simulates s (.construct o x y z) p := by
  constructor
  · intro s' hstep
    have hstep : s.construct o x y z p = some s' := hstep
    simp only [State.construct, Option.ite_none_right_eq_some, Option.some.injEq] at hstep
    obtain ⟨⟨absent, fresh⟩, rfl⟩ := hstep
    obtain ⟨after, value⟩ := (owns.vacated absent).make owns fresh x y z
    refine ⟨after, ?_⟩
    rw [value]
    exact if_pos ((value_eq_none_iff owns.intact).mpr absent)
  · intro v hstep fresh
    simp only [values, Option.ite_none_right_eq_some] at hstep
    exact ⟨_, if_pos ⟨(value_eq_none_iff owns.intact).mp hstep.1, fresh⟩⟩

/-- A copy into an object that has no `int` any more, or not yet. -/
theorem simulates_deepCopy (owns : Owns s) (vacated : Vacated s o t) {this source : Model} {a : Nat}
    (deleted : s.delete this.ptr_ = some t) (object : s.objects a = some source) (other : a ≠ o) :
    (∀ s', s.deepCopy o this source p = some s' →
      Owns s' ∧ some s'.value = (s.value a).map fun v => Function.update s.value o (some v)) ∧
    (t.heap p = none → ∃ s', s.deepCopy o this source p = some s') := by
  obtain ⟨z, value, copies⟩ := vacated.deepCopy_eq owns (p := p) deleted object other
  rw [copies]
  constructor
  · intro s' hstep
    rw [Option.ite_none_right_eq_some, Option.some.injEq] at hstep
    obtain ⟨fresh, rfl⟩ := hstep
    obtain ⟨after, values⟩ := vacated.make owns fresh source.x_ source.y_ z
    exact ⟨after, by rw [values, value, Option.map_some]⟩
  · intro fresh
    exact ⟨_, if_pos fresh⟩

theorem simulates_copyConstruct (owns : Owns s) {source : Nat} :
    Simulates s (.copyConstruct o source) p := by
  have nothing : s.delete (⟨0, 1, none⟩ : Model).ptr_ = some s := rfl
  have atSource : ∀ absent : s.objects o = none, ∀ m, s.objects source = some m → source ≠ o := by
    rintro absent m object rfl
    rw [absent] at object
    cases object
  constructor
  · intro s' hstep
    simp only [deep, Option.ite_none_right_eq_some, Option.bind_eq_some_iff] at hstep
    obtain ⟨absent, m, object, hstep⟩ := hstep
    obtain ⟨forward, -⟩ := simulates_deepCopy owns (owns.vacated absent) nothing object
      (atSource absent m object)
    obtain ⟨after, value⟩ := forward s' hstep
    refine ⟨after, ?_⟩
    rw [value]
    exact if_pos ((value_eq_none_iff owns.intact).mpr absent)
  · intro v hstep fresh
    simp only [values, Option.ite_none_right_eq_some] at hstep
    have absent := (value_eq_none_iff owns.intact).mp hstep.1
    cases object : s.objects source with
    | none =>
        rw [(value_eq_none_iff owns.intact).mpr object, Option.map_none] at hstep
        cases hstep.2
    | some m =>
        obtain ⟨-, backward⟩ := simulates_deepCopy owns (owns.vacated absent) nothing
          object (atSource absent m object)
        obtain ⟨s', hstep⟩ := backward fresh
        refine ⟨s', ?_⟩
        simp only [deep, if_pos absent, object, Option.bind_some]
        exact hstep

theorem simulates_copyAssign (owns : Owns s) {source : Nat} :
    Simulates s (.copyAssign o source) p := by
  constructor
  · intro s' hstep
    simp only [deep, Option.bind_eq_some_iff] at hstep
    obtain ⟨this, target, m, object, hstep⟩ := hstep
    obtain ⟨q, z, points, there⟩ := owns.intact o this target
    have value := value_of_object target points there
    by_cases self : o = source
    · rw [if_neg (not_not_intro self), Option.some.injEq] at hstep
      subst hstep self
      refine ⟨owns, ?_⟩
      simp only [values, value, Option.bind_some, Option.map_some]
      rw [← value, Function.update_eq_self]
    · rw [if_pos self] at hstep
      obtain ⟨t, deleted, vacated, -⟩ := owns.delete target
      obtain ⟨forward, -⟩ := simulates_deepCopy owns vacated deleted object (Ne.symm self)
      obtain ⟨after, copied⟩ := forward s' hstep
      refine ⟨after, ?_⟩
      rw [copied]
      simp only [values, value, Option.bind_some]
  · intro v hstep fresh
    simp only [values, Option.bind_eq_some_iff, Option.map_eq_some_iff] at hstep
    obtain ⟨w, target, w', object, -⟩ := hstep
    cases there : s.objects o with
    | none =>
        rw [(value_eq_none_iff owns.intact).mpr there] at target
        cases target
    | some this =>
        cases from_ : s.objects source with
        | none =>
            rw [(value_eq_none_iff owns.intact).mpr from_] at object
            cases object
        | some m =>
            simp only [deep, there, from_, Option.bind_some]
            by_cases self : o = source
            · rw [if_neg (not_not_intro self)]
              exact ⟨s, rfl⟩
            · rw [if_pos self]
              obtain ⟨t, deleted, vacated, free⟩ := owns.delete there
              obtain ⟨-, backward⟩ := simulates_deepCopy owns vacated deleted from_ (Ne.symm self)
              exact backward (free p fresh)

theorem simulates_changePtr (owns : Owns s) (number : Int32) :
    Simulates s (.changePtr o number) p := by
  cases object : s.objects o with
  | none =>
      have value := (value_eq_none_iff owns.intact).mpr object
      constructor
      · intro s' hstep
        simp only [deep, State.changePtr, object, Option.bind_none, reduceCtorEq] at hstep
      · intro v hstep
        simp only [values, value, Option.map_none, reduceCtorEq] at hstep
  | some m =>
      obtain ⟨q, z, points, there⟩ := owns.intact o m object
      have holds : s.held o = some q := by rw [held_of_object object, points]
      have step : deep.step s (.changePtr o number, p) =
          some { s with heap := Function.update s.heap q (some number) } := by
        simp only [deep, State.changePtr, object, Option.bind_some, points, there, Option.map_some]
      constructor
      · intro s' hstep
        rw [step, Option.some.injEq] at hstep
        subst hstep
        have live : s.heap q ≠ none := owns.unique.there holds
        refine ⟨⟨owns.unique.write live number, owns.full⟩, ?_⟩
        have objects : s.objects = Function.update s.objects o (some m) := by
          rw [← object, Function.update_eq_self]
        have frame : ∀ a, a ≠ o → ∀ r, s.held a = some r →
            Function.update s.heap q (some number) r = s.heap r := by
          intro a other r held
          refine Function.update_of_ne ?_ ..
          rintro rfl
          exact other (owns.unique.inj a o r held holds)
        have now : State.value { s with heap := Function.update s.heap q (some number) } =
            Function.update s.value o _ := value_update objects frame
        rw [now]
        simp [values, State.value, object, points, there]
      · intro v _ _
        exact ⟨_, step⟩

theorem simulates_getPtr (owns : Owns s) (result : Int32) :
    Simulates s (.getPtr o result) p := by
  cases object : s.objects o with
  | none =>
      have value := (value_eq_none_iff owns.intact).mpr object
      constructor
      · intro s' hstep
        simp only [deep, State.getPtr, object, Option.bind_none, reduceCtorEq, if_false] at hstep
      · intro v hstep
        simp only [values, value, Option.bind_none, reduceCtorEq] at hstep
  | some m =>
      obtain ⟨q, z, points, there⟩ := owns.intact o m object
      have value := value_of_object object points there
      have got : s.getPtr o = some z := by
        simp only [State.getPtr, object, Option.bind_some, points, there]
      constructor
      · intro s' hstep
        simp only [deep, got, Option.some.injEq, Option.ite_none_right_eq_some] at hstep
        obtain ⟨rfl, rfl⟩ := hstep
        refine ⟨owns, ?_⟩
        simp only [values, value, Option.bind_some, if_true]
      · intro v hstep _
        simp only [values, value, Option.bind_some, Option.ite_none_right_eq_some] at hstep
        obtain ⟨rfl, -⟩ := hstep
        exact ⟨s, if_pos got⟩

theorem simulates_destruct (owns : Owns s) : Simulates s (.destruct o) p := by
  cases object : s.objects o with
  | none =>
      have value := (value_eq_none_iff owns.intact).mpr object
      constructor
      · intro s' hstep
        simp only [deep, object, Option.bind_none, reduceCtorEq] at hstep
      · intro v hstep
        simp only [values, value, Option.map_none, reduceCtorEq] at hstep
  | some m =>
      obtain ⟨q, z, points, there⟩ := owns.intact o m object
      obtain ⟨t, deleted, vacated, -⟩ := owns.delete object
      have step : deep.step s (.destruct o, p) = some (t.put o none) := by
        simp only [deep, object, Option.bind_some, deleted, Option.map_some]
      obtain ⟨after, value⟩ := vacated.gone owns
      constructor
      · intro s' hstep
        rw [step, Option.some.injEq] at hstep
        subst hstep
        refine ⟨after, ?_⟩
        rw [value]
        simp only [values, value_of_object object points there, Option.map_some]
      · intro v _ _
        exact ⟨_, step⟩

/-- **Step lemma.** -/
theorem simulates (owns : Owns s) (op : Op) (p : Nat) : Simulates s op p := by
  cases op with
  | construct o x y z => exact simulates_construct owns x y z
  | copyConstruct o source => exact simulates_copyConstruct owns
  | copyAssign o source => exact simulates_copyAssign owns
  | changePtr o number => exact simulates_changePtr owns number
  | getPtr o result => exact simulates_getPtr owns result
  | destruct o => exact simulates_destruct owns

theorem owns_run {tr : List (Op × Nat)} (run : deep.run tr = some s) :
    Owns s ∧ values.run (tr.map Prod.fst) = some s.value := by
  refine System.run_invariant (T := deep)
    (I := fun tr s => Owns s ∧ values.run (tr.map Prod.fst) = some s.value) ?_ ?_ run
  · exact ⟨⟨Owner.Unique.empty, nofun⟩, rfl⟩
  · rintro tr s l s' - ⟨owns, before⟩ hstep
    obtain ⟨after, now⟩ := (simulates owns l.1 l.2).forward s' hstep
    refine ⟨after, ?_⟩
    rw [List.map_append]
    exact System.run_concat_eq_some.mpr ⟨s.value, before, now⟩

/-- **Deep copies are values.** Whatever is called, the objects have the values that plain
values would have, and `getPtr` returns those; any call that makes sense for values can be made,
wherever `new` finds memory. No `int` is deleted twice, and when no object is left each has
been deleted once. -/
theorem deep_refines_values {tr : List (Op × Nat)} (run : deep.run tr = some s) :
    values.run (tr.map Prod.fst) = some s.value ∧
    (∀ op v p, values.step s.value op = some v → s.heap p = none →
      ∃ s', deep.step s (op, p) = some s') ∧
    Ledger.AtMostOnce s.ledger ∧
    ((∀ o, s.objects o = none) → Ledger.ExactlyOnce s.ledger ∧ ∀ p, s.heap p = none) := by
  obtain ⟨owns, same⟩ := owns_run run
  refine ⟨same, ?_, owns.unique.atMostOnce, ?_⟩
  · intro op v p hstep fresh
    exact (simulates owns op p).backward v hstep fresh
  · intro nobody
    have nothing : ∀ o, s.held o = none := by
      intro o
      rw [State.held, nobody o, Option.bind_none]
    refine ⟨owns.unique.exactlyOnce nothing, ?_⟩
    intro p
    by_contra there
    obtain ⟨o, holds⟩ := (owns.unique.live p).mp there
    rw [nothing o] at holds
    cases holds

/-- `run()` of `deep_copying`. -/
def deepRun : List (Op × Nat) :=
  [(.construct 1 1 2 3, 100), (.copyConstruct 2 1, 104), (.changePtr 2 30, 0), (.getPtr 1 3, 0),
    (.getPtr 2 30, 0), (.destruct 2, 0), (.destruct 1, 0)]

theorem deep_refines_values_deepRun : ∃ s, deep.run deepRun = some s ∧
    values.run (deepRun.map Prod.fst) = some s.value ∧ Ledger.AtMostOnce s.ledger ∧
    s.ledger = [.opened 100, .opened 104, .closed 104, .closed 100] := by
  have answered : (deep.run deepRun).map (·.ledger) =
      some [.opened 100, .opened 104, .closed 104, .closed 100] := rfl
  obtain ⟨s, run, ledger⟩ := Option.map_eq_some_iff.mp answered
  obtain ⟨same, -, once, -⟩ := deep_refines_values run
  exact ⟨s, run, same, once, ledger⟩

end CppLab.Class.ShallowDeep
