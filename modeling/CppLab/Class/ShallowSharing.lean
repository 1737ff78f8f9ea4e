import CppLab.Class.ShallowDeep

/-!
# What copies of a `shallow::Model` share

A copy has the pointer of its source, so a number that one object is given shows in the
other ones. Until then nobody can tell that the objects are not values. No `int` is ever
deleted, so no pointer dangles either.
-/

namespace CppLab.Class.ShallowDeep

variable {s s' : State} {o : Nat} {m : Model} {p q : Nat} {z : Int32}

/-- A `changePtr` that only its own object can tell: no other one has the pointer, or the
number is there already. -/
def Alone (s : State) : Op → Prop
  | .changePtr o number => ∀ a, a ≠ o → ∀ q, s.held o = some q → s.held a = some q →
      s.heap q = some number
  | _ => True

/-- Nothing is deleted: every `int` that there has been is still there. -/
structure Leaks (s : State) : Prop where
  intact : s.Intact
  kept : ∀ e ∈ s.ledger, ∃ p, e = .opened p ∧ s.heap p ≠ none

/-- A call on `shallow::Model`. -/
structure Shares (s : State) (op : Op) (s' : State) : Prop where
  leaks : Leaks s'
  same : Alone s op → values.step s.value op = some s'.value
  different : ¬ Alone s op → values.step s.value op ≠ some s'.value

theorem heap_of_held (intact : s.Intact) (holds : s.held o = some q) : s.heap q ≠ none := by
  cases object : s.objects o with
  | none =>
      rw [State.held, object, Option.bind_none] at holds
      cases holds
  | some m =>
      obtain ⟨r, z, points, there⟩ := intact o m object
      rw [held_of_object object, points, Option.some.injEq] at holds
      subst holds
      rw [there]
      exact Option.some_ne_none z

theorem shares_construct (leaks : Leaks s) {x y z : Int32}
    (hstep : s.construct o x y z p = some s') : Shares s (.construct o x y z) s' := by
  simp only [State.construct, Option.ite_none_right_eq_some, Option.some.injEq] at hstep
  obtain ⟨⟨absent, fresh⟩, rfl⟩ := hstep
  have kept : ∀ a q, s.held a = some q → Function.update s.heap p (some z) q = s.heap q := by
    intro a q holds
    refine Function.update_of_ne ?_ ..
    rintro rfl
    exact heap_of_held leaks.intact holds fresh
  refine ⟨⟨?_, ?_⟩, fun _ => ?_, fun other => absurd trivial other⟩
  · intro a m object
    have object : Function.update s.objects o (some ⟨x, y, some p⟩) a = some m := object
    by_cases own : a = o
    · rw [own, Function.update_self] at object
      cases object
      exact ⟨p, z, rfl, Function.update_self ..⟩
    · rw [Function.update_of_ne own] at object
      obtain ⟨q, z', points, there⟩ := leaks.intact a m object
      refine ⟨q, z', points, ?_⟩
      rw [← there]
      exact kept a q (by rw [held_of_object object, points])
  · intro e member
    have member : e ∈ s.ledger ++ [.opened p] := member
    rcases List.mem_append.mp member with before | last
    · obtain ⟨q, rfl, there⟩ := leaks.kept e before
      refine ⟨q, rfl, ?_⟩
      show Function.update s.heap p (some z) q ≠ none
      rw [Function.update_of_ne]
      · exact there
      · rintro rfl
        exact there fresh
    · refine ⟨p, List.mem_singleton.mp last, ?_⟩
      show Function.update s.heap p (some z) p ≠ none
      rw [Function.update_self]
      exact Option.some_ne_none z
  · have value : ((s.alloc p z).put o (some ⟨x, y, some p⟩)).value =
        Function.update s.value o _ := value_update rfl fun a _ q holds => kept a q holds
    rw [value]
    simp [values, State.value, absent]

/-- An object gets the members of another one, or goes. -/
theorem Leaks.put (leaks : Leaks s) (o : Nat) (object : Option Model)
    (known : ∀ m, object = some m → ∃ a, s.objects a = some m) :
    Leaks (s.put o object) ∧ (s.put o object).value = Function.update s.value o
      (object.bind fun m => m.ptr_.bind fun q => (s.heap q).map fun z => ⟨m.x_, m.y_, z⟩) := by
  refine ⟨⟨?_, leaks.kept⟩, ?_⟩
  · intro a m there
    have there : Function.update s.objects o object a = some m := there
    by_cases own : a = o
    · rw [own, Function.update_self] at there
      obtain ⟨b, source⟩ := known m there
      exact leaks.intact b m source
    · rw [Function.update_of_ne own] at there
      exact leaks.intact a m there
  · have value : (s.put o object).value = Function.update s.value o _ :=
      value_update rfl fun _ _ _ _ => rfl
    rw [value, State.value, State.put_objects, State.put_heap, Function.update_self]

/-- A pointer that is copied. -/
theorem Leaks.copy (leaks : Leaks s) {a : Nat} (object : s.objects a = some m) :
    Leaks (s.put o (some m)) ∧
      some (s.put o (some m)).value =
        (s.value a).map fun v => Function.update s.value o (some v) := by
  obtain ⟨after, value⟩ := leaks.put o (some m) (by rintro _ ⟨rfl⟩; exact ⟨a, object⟩)
  obtain ⟨q, z, points, there⟩ := leaks.intact a m object
  refine ⟨after, ?_⟩
  rw [value, value_of_object object points there]
  simp [points, there]

/-- The state in which another number is where a pointer leads. -/
def State.write (s : State) (q : Nat) (number : Int32) : State :=
  { s with heap := Function.update s.heap q (some number) }

theorem value_write {number : Int32} (object : s.objects o = some m) (points : m.ptr_ = some p)
    (there : s.heap p = some z) :
    (s.write q number).value o = some ⟨m.x_, m.y_, if p = q then number else z⟩ := by
  by_cases shared : p = q
  · subst shared
    simp [State.value, State.write, object, points]
  · simp [State.value, State.write, object, points, there, shared]

theorem Leaks.write (leaks : Leaks s) (there : s.heap q = some z) (number : Int32) :
    Leaks (s.write q number) := by
  constructor
  · intro a m object
    obtain ⟨r, z', points, there'⟩ := leaks.intact a m object
    refine ⟨r, if r = q then number else z', points, ?_⟩
    show Function.update s.heap q (some number) r = _
    by_cases shared : r = q
    · rw [shared, Function.update_self, if_pos rfl]
    · rw [Function.update_of_ne shared, there', if_neg shared]
  · intro e member
    obtain ⟨r, rfl, live⟩ := leaks.kept e member
    refine ⟨r, rfl, ?_⟩
    show Function.update s.heap q (some number) r ≠ none
    by_cases own : r = q
    · subst own
      rw [Function.update_self]
      exact Option.some_ne_none number
    · rw [Function.update_of_ne own]
      exact live

/-- Other objects with the pointer show the number as well. -/
theorem value_write_eq_iff (leaks : Leaks s) {number : Int32} (object : s.objects o = some m)
    (points : m.ptr_ = some q) (there : s.heap q = some z) :
    (s.write q number).value = Function.update s.value o (some ⟨m.x_, m.y_, number⟩) ↔
      Alone s (.changePtr o number) := by
  have holds : s.held o = some q := by rw [held_of_object object, points]
  constructor
  · intro same a other r holds' shares
    rw [holds, Option.some.injEq] at holds'
    subst holds'
    cases object' : s.objects a with
    | none =>
        rw [State.held, object', Option.bind_none] at shares
        cases shares
    | some m' =>
        rw [held_of_object object'] at shares
        have here := congrFun same a
        rw [Function.update_of_ne other, value_write object' shares there,
          value_of_object object' shares there, if_pos rfl, Option.some.injEq,
          Value.mk.injEq] at here
        rw [there, here.2.2]
  · intro alone
    funext a
    by_cases own : a = o
    · subst own
      rw [Function.update_self, value_write object points there, if_pos rfl]
    · rw [Function.update_of_ne own]
      cases object' : s.objects a with
      | none =>
          have absent : (s.write q number).objects a = none := object'
          rw [State.value, State.value, absent, object']
          rfl
      | some m' =>
          obtain ⟨r, z', points', there'⟩ := leaks.intact a m' object'
          rw [value_write object' points' there', value_of_object object' points' there']
          by_cases shared : r = q
          · subst shared
            have number' := alone a own r holds (by rw [held_of_object object', points'])
            rw [there', Option.some.injEq] at number'
            rw [if_pos rfl, number']
          · rw [if_neg shared]

theorem shares_changePtr (leaks : Leaks s) {number : Int32}
    (hstep : s.changePtr o number = some s') : Shares s (.changePtr o number) s' := by
  cases object : s.objects o with
  | none => simp only [State.changePtr, object, Option.bind_none, reduceCtorEq] at hstep
  | some m =>
      obtain ⟨q, z, points, there⟩ := leaks.intact o m object
      simp only [State.changePtr, object, Option.bind_some, points, there, Option.map_some,
        Option.some.injEq] at hstep
      have written : s.write q number = s' := hstep
      subst written
      have value : values.step s.value (.changePtr o number) =
          some (Function.update s.value o (some ⟨m.x_, m.y_, number⟩)) := by
        simp only [values, value_of_object object points there, Option.map_some]
      refine ⟨leaks.write there number, ?_, ?_⟩
      · intro alone
        rw [value, (value_write_eq_iff leaks object points there).mpr alone]
      · intro shared same
        rw [value, Option.some.injEq] at same
        exact shared ((value_write_eq_iff leaks object points there).mp same.symm)

/-- **Step lemma.** -/
theorem shares {op : Op} (leaks : Leaks s) (hstep : shallow.step s (op, p) = some s') :
    Shares s op s' := by
  cases op with
  | construct o x y z => exact shares_construct leaks hstep
  | changePtr o number => exact shares_changePtr leaks hstep
  | copyConstruct o source =>
      simp only [shallow, Option.ite_none_right_eq_some, Option.map_eq_some_iff] at hstep
      obtain ⟨absent, m, object, rfl⟩ := hstep
      obtain ⟨after, value⟩ := leaks.copy (o := o) object
      refine ⟨after, fun _ => ?_, fun other => absurd trivial other⟩
      rw [value]
      exact if_pos ((value_eq_none_iff leaks.intact).mpr absent)
  | copyAssign o source =>
      simp only [shallow, Option.bind_eq_some_iff, Option.map_eq_some_iff] at hstep
      obtain ⟨this, target, m, object, rfl⟩ := hstep
      obtain ⟨q, z, points, there⟩ := leaks.intact o this target
      obtain ⟨after, value⟩ := leaks.copy (o := o) object
      refine ⟨after, fun _ => ?_, fun other => absurd trivial other⟩
      rw [value]
      simp only [values, value_of_object target points there, Option.bind_some]
  | getPtr o result =>
      simp only [shallow, Option.ite_none_right_eq_some, Option.some.injEq] at hstep
      obtain ⟨got, rfl⟩ := hstep
      refine ⟨leaks, fun _ => ?_, fun other => absurd trivial other⟩
      cases object : s.objects o with
      | none => simp only [State.getPtr, object, Option.bind_none, reduceCtorEq] at got
      | some m =>
          obtain ⟨q, z, points, there⟩ := leaks.intact o m object
          simp only [State.getPtr, object, Option.bind_some, points, there,
            Option.some.injEq] at got
          simp only [values, value_of_object object points there, Option.bind_some, got, if_true]
  | destruct o =>
      simp only [shallow, Option.map_eq_some_iff] at hstep
      obtain ⟨m, object, rfl⟩ := hstep
      obtain ⟨q, z, points, there⟩ := leaks.intact o m object
      obtain ⟨after, value⟩ := leaks.put o none (by intro _ absent; cases absent)
      refine ⟨after, fun _ => ?_, fun other => absurd trivial other⟩
      rw [value]
      simp only [values, value_of_object object points there, Option.map_some, Option.bind_none]

theorem leaks_run {tr : List (Op × Nat)} (run : shallow.run tr = some s) : Leaks s := by
  refine System.state_invariant (T := shallow) (I := Leaks) ?_ ?_ run
  · exact ⟨nofun, nofun⟩
  · intro s l s' leaks hstep
    exact (shares leaks hstep).leaks

/-- **Shallow copies are values as long as nobody can tell.** After every call of a sequence the
objects have the values that plain values would have if and only if each `changePtr`
changes nothing for another object with the same pointer. Whatever is called, no pointer
dangles, for no `int` is ever deleted. -/
theorem shallow_values_iff {tr : List (Op × Nat)} (run : shallow.run tr = some s) :
    ((∀ pre t, pre <+: tr → shallow.run pre = some t →
        values.run (pre.map Prod.fst) = some t.value) ↔
      ∀ pre op p post t, tr = pre ++ (op, p) :: post → shallow.run pre = some t → Alone t op) ∧
    s.Intact ∧
    ∀ e ∈ s.ledger, ∃ p, e = .opened p ∧ s.heap p ≠ none := by
  classical
  refine ⟨?_, (leaks_run run).intact, (leaks_run run).kept⟩
  · have guarded := System.restrict_run_iff (T := shallow) (C := fun s l => Alone s l.1) run
    have good : ∀ pre t, (shallow.restrict fun s l => Alone s l.1).run pre = some t →
        values.run (pre.map Prod.fst) = some t.value := by
      intro pre t before
      refine System.run_invariant (T := shallow.restrict fun s l => Alone s l.1)
        (I := fun pre t => values.run (pre.map Prod.fst) = some t.value) rfl ?_ before
      intro pre t l t' before same hstep
      obtain ⟨alone, hstep⟩ := System.restrict_step_eq_some.mp hstep
      rw [List.map_append]
      exact System.run_concat_eq_some.mpr ⟨t.value, same,
        (shares (leaks_run (System.run_of_restrict before)) hstep).same alone⟩
    rw [System.forall_prefix_iff (C := fun s l => Alone s l.1) good ?_ run, guarded]
    · constructor
      · intro all pre op p post t split here
        exact all pre (op, p) post t split here
      · intro all pre l post t split here
        exact all pre l.1 l.2 post t split here
    · intro pre l s₁ s₂ before shared hstep same
      rw [List.map_append] at same
      obtain ⟨v, earlier, valueStep⟩ := System.run_concat_eq_some.mp same
      rw [good pre s₁ before, Option.some.injEq] at earlier
      subst earlier
      exact (shares (leaks_run (System.run_of_restrict before)) hstep).different shared valueStep

/-- `run()` of `shallow`: the first object shows the number that the second one was given. -/
def shallowRun : List (Op × Nat) :=
  [(.construct 1 1 2 3, 100), (.copyConstruct 2 1, 0), (.changePtr 2 30, 0), (.getPtr 1 30, 0),
    (.getPtr 2 30, 0), (.destruct 2, 0), (.destruct 1, 0)]

theorem shallow_values_iff_shallowRun : ∃ s, shallow.run shallowRun = some s ∧ s.Intact ∧
    ¬ ∀ pre t, pre <+: shallowRun → shallow.run pre = some t →
      values.run (pre.map Prod.fst) = some t.value := by
  have answered : (shallow.run shallowRun).isSome = true := rfl
  obtain ⟨s, run⟩ := Option.isSome_iff_exists.mp answered
  obtain ⟨values_iff, intact, -⟩ := shallow_values_iff run
  refine ⟨s, run, intact, ?_⟩
  rw [values_iff]
  intro alone
  have before : (shallow.run (shallowRun.take 2)).isSome = true := rfl
  obtain ⟨t, here⟩ := Option.isSome_iff_exists.mp before
  have told := alone (shallowRun.take 2) (.changePtr 2 30) 0 (shallowRun.drop 3) t rfl here 1
    (by decide) 100
  cases here
  have stays : some (3 : Int32) = some 30 := told rfl rfl
  exact absurd stays (by decide)

end CppLab.Class.ShallowDeep
