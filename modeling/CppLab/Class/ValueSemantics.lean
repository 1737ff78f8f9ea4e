import CppLab.Lib.System

/-!
# Copies and moves of `copy::EConstructor` and `move::Model`

Both classes have two numbers and special member functions written by hand.
`system` runs any sequence of them over any number of objects, and `values` is what
it should compute: the objects as plain values.

The two agree as long as no `EConstructor` with different numbers is copy
constructed: its copy constructor takes `x_` for both.
-/

namespace CppLab.Class.ValueSemantics

/-- The classes. -/
inductive Kind
  | EConstructor
  | Model
  deriving DecidableEq, Repr

/-- The members, which `print()` prints. -/
structure Pair where
  x_ : Int
  y_ : Int
  deriving DecidableEq, Repr

/-- The objects, in the order of their construction. -/
abbrev Objects := List (Kind × Pair)

/-- The operations; an object is its place. -/
inductive Op
  | construct (c : Kind) (x y : Int)
  | copyConstruct (ref : Nat)
  | copyAssign (this other : Nat)
  | moveConstruct (source : Nat)
  | moveAssign (this source : Nat)
  deriving DecidableEq, Repr

namespace EConstructor

def construct (x y : Int) : Pair := ⟨x, y⟩

/-- `EConstructor(const EConstructor& ref) : x_{ref.x_}, y_{ref.x_}`. -/
def copyConstruct (ref : Pair) : Pair := ⟨ref.x_, ref.x_⟩

/-- `operator=` between two objects: what `this` has afterwards. -/
def copyAssign (_this other : Pair) : Pair := ⟨other.x_, other.y_⟩

end EConstructor

namespace Model

def construct (x y : Int) : Pair := ⟨x, y⟩

/-- The copy constructor delegates. -/
def copyConstruct (other : Pair) : Pair := construct other.x_ other.y_

def copyAssign (_this other : Pair) : Pair := ⟨other.x_, other.y_⟩

/-- The new object, and the source afterwards. -/
def moveConstruct (source : Pair) : Pair × Pair := (⟨source.x_, source.y_⟩, ⟨0, 0⟩)

/-- `this` and the source afterwards. -/
def moveAssign (_this source : Pair) : Pair × Pair := (⟨source.x_, source.y_⟩, ⟨0, 0⟩)

end Model

def Kind.construct : Kind → Int → Int → Pair
  | .EConstructor => EConstructor.construct
  | .Model => Model.construct

def Kind.copyConstruct : Kind → Pair → Pair
  | .EConstructor => EConstructor.copyConstruct
  | .Model => Model.copyConstruct

def Kind.copyAssign : Kind → Pair → Pair → Pair
  | .EConstructor => EConstructor.copyAssign
  | .Model => Model.copyAssign

/-- An object gets other members. -/
def put (s : Objects) (i : Nat) (c : Kind) (p : Pair) : Objects := s.set i (c, p)

/-- The code. `this != &other` compares places; `Model` alone has moves, and an
assignment is between objects of one class. -/
def system : System Objects Op where
  init := []
  step s
    | .construct c x y => some (s ++ [(c, c.construct x y)])
    | .copyConstruct ref => s[ref]?.map fun (c, p) => s ++ [(c, c.copyConstruct p)]
    | .copyAssign this other =>
        s[this]?.bind fun (c, p) => s[other]?.bind fun (c', q) =>
          if c = c' then
            some (if this ≠ other then put s this c (c.copyAssign p q) else s)
          else none
    | .moveConstruct source =>
        s[source]?.bind fun (c, p) =>
          if c = .Model then
            let (made, left) := Model.moveConstruct p
            some (put s source c left ++ [(c, made)])
          else none
    | .moveAssign this source =>
        s[this]?.bind fun (c, p) => s[source]?.bind fun (c', q) =>
          if c = .Model ∧ c' = .Model then
            if this ≠ source then
              let (moved, left) := Model.moveAssign p q
              some (put (put s this c moved) source c' left)
            else some s
          else none

/-- Plain values: a copy is the value, an assignment replaces the value, and a move
leaves zeros behind. -/
def values : System Objects Op where
  init := []
  step s
    | .construct c x y => some (s ++ [(c, ⟨x, y⟩)])
    | .copyConstruct ref => s[ref]?.map fun v => s ++ [v]
    | .copyAssign this other =>
        s[this]?.bind fun old => s[other]?.bind fun v =>
          if old.1 = v.1 then some (s.set this v) else none
    | .moveConstruct source =>
        s[source]?.bind fun v =>
          if v.1 = .Model then some (s.set source (.Model, ⟨0, 0⟩) ++ [v]) else none
    | .moveAssign this source =>
        s[this]?.bind fun old => s[source]?.bind fun v =>
          if old.1 = .Model ∧ v.1 = .Model then
            some (if this = source then s else (s.set this v).set source (.Model, ⟨0, 0⟩))
          else none

/-- The condition on a step: an `EConstructor` that is copy constructed has equal
numbers. -/
def Faithful (s : Objects) : Op → Prop
  | .copyConstruct ref => ∀ p, s[ref]? = some (.EConstructor, p) → p.x_ = p.y_
  | _ => True

/-- The same, to be evaluated. -/
theorem faithful_copyConstruct {s : Objects} {ref : Nat} :
    Faithful s (.copyConstruct ref) ↔
      (s[ref]?.all fun o => decide (o.1 = .EConstructor → o.2.x_ = o.2.y_)) = true := by
  show (∀ p, _) ↔ _
  cases s[ref]? with
  | none => simp
  | some o =>
      obtain ⟨c, p⟩ := o
      simp only [Option.all_some, decide_eq_true_eq, Option.some.injEq, Prod.mk.injEq]
      constructor
      · rintro equal rfl
        exact equal p ⟨rfl, rfl⟩
      · rintro equal q ⟨rfl, rfl⟩
        exact equal rfl

instance (s : Objects) : (op : Op) → Decidable (Faithful s op)
  | .copyConstruct _ => decidable_of_iff _ faithful_copyConstruct.symm
  | .construct _ _ _ | .copyAssign _ _ | .moveConstruct _ | .moveAssign _ _ => .isTrue trivial

/-! ## Steps -/

theorem set_self {s : Objects} {i : Nat} {v : Kind × Pair} (there : s[i]? = some v) :
    s.set i v = s := by
  obtain ⟨inside, same⟩ := List.getElem?_eq_some_iff.mp there
  rw [← same]
  exact List.set_getElem_self inside

theorem copyAssign_eq (c : Kind) (p q : Pair) : c.copyAssign p q = q := by
  cases c with
  | EConstructor => rfl
  | Model => rfl

/-- The copy constructor makes a copy, or it is that of an `EConstructor` with
different numbers. -/
theorem copyConstruct_eq_iff (c : Kind) (p : Pair) :
    c.copyConstruct p = p ↔ (c = .EConstructor → p.x_ = p.y_) := by
  cases c with
  | EConstructor =>
      constructor
      · intro same _
        exact congrArg Pair.y_ same
      · intro equal
        exact congrArg (Pair.mk p.x_) (equal rfl)
  | Model => exact iff_of_true rfl nofun

theorem copyConstruct_eq {s : Objects} {ref : Nat} (faithful : Faithful s (.copyConstruct ref)) :
    system.step s (.copyConstruct ref) = values.step s (.copyConstruct ref) := by
  show (s[ref]?.map fun o => s ++ [(o.1, o.1.copyConstruct o.2)]) =
    s[ref]?.map fun v => s ++ [v]
  cases there : s[ref]? with
  | none => rfl
  | some o =>
      obtain ⟨c, p⟩ := o
      have same : c.copyConstruct p = p := by
        rw [copyConstruct_eq_iff]
        rintro rfl
        exact faithful p there
      simp only [Option.map_some, same]

/-- A self-assignment, which the code skips, would change nothing. -/
theorem copyAssign_step_eq (s : Objects) (this other : Nat) :
    system.step s (.copyAssign this other) = values.step s (.copyAssign this other) := by
  simp only [system, values]
  cases left : s[this]? with
  | none => rfl
  | some old =>
      cases right : s[other]? with
      | none => rfl
      | some v =>
          simp only [Option.bind_some, copyAssign_eq]
          by_cases kind : old.1 = v.1
          · rw [if_pos kind, if_pos kind]
            by_cases self : this = other
            · subst self
              rw [left] at right
              cases right
              rw [if_neg (not_not_intro rfl), set_self left]
            · rw [if_pos self, put, kind]
          · rw [if_neg kind, if_neg kind]

theorem moveConstruct_eq (s : Objects) (source : Nat) :
    system.step s (.moveConstruct source) = values.step s (.moveConstruct source) := by
  simp only [system, values]
  cases there : s[source]? with
  | none => rfl
  | some v =>
      obtain ⟨c, p⟩ := v
      simp only [Option.bind_some]
      by_cases model : c = .Model
      · subst model
        rfl
      · rw [if_neg model, if_neg model]

theorem moveAssign_eq (s : Objects) (this source : Nat) :
    system.step s (.moveAssign this source) = values.step s (.moveAssign this source) := by
  simp only [system, values]
  cases left : s[this]? with
  | none => rfl
  | some old =>
      cases right : s[source]? with
      | none => rfl
      | some v =>
          obtain ⟨c, p⟩ := old
          obtain ⟨c', q⟩ := v
          simp only [Option.bind_some]
          by_cases models : c = .Model ∧ c' = .Model
          · rw [if_pos models, if_pos models]
            obtain ⟨rfl, rfl⟩ := models
            by_cases self : this = source
            · rw [if_neg (not_not_intro self), if_pos self]
            · rw [if_pos self, if_neg self]
              rfl
          · rw [if_neg models, if_neg models]

/-- **Step lemma.** -/
theorem step_eq {s : Objects} {op : Op} (faithful : Faithful s op) :
    system.step s op = values.step s op := by
  cases op with
  | construct c x y =>
      cases c with
      | EConstructor => rfl
      | Model => rfl
  | copyConstruct ref => exact copyConstruct_eq faithful
  | copyAssign this other => exact copyAssign_step_eq s this other
  | moveConstruct source => exact moveConstruct_eq s source
  | moveAssign this source => exact moveAssign_eq s this source

/-- A copy that is none. -/
theorem step_ne {s s' : Objects} {op : Op} (different : ¬ Faithful s op)
    (hstep : system.step s op = some s') : values.step s op ≠ some s' := by
  cases op with
  | copyConstruct ref =>
      have hstep : (s[ref]?.map fun o => s ++ [(o.1, o.1.copyConstruct o.2)]) = some s' := hstep
      show (s[ref]?.map fun v => s ++ [v]) ≠ some s'
      cases there : s[ref]? with
      | none =>
          rw [there] at hstep
          cases hstep
      | some o =>
          obtain ⟨c, p⟩ := o
          rw [there] at hstep
          cases hstep
          intro same
          apply different
          intro q found
          rw [there] at found
          cases found
          -- the objects differ in the last one, the copy
          have last := List.append_cancel_left (Option.some.inj same)
          injection last with last
          exact (copyConstruct_eq_iff _ _).mp (congrArg Prod.snd last).symm rfl
  | construct c x y => exact absurd trivial different
  | copyAssign this other => exact absurd trivial different
  | moveConstruct source => exact absurd trivial different
  | moveAssign this source => exact absurd trivial different

/-! ## Runs -/

/-- **Run lemma.** -/
theorem values_run {tr : List Op} {s : Objects} (run : (system.restrict Faithful).run tr = some s) :
    values.run tr = some s := by
  refine System.run_invariant (T := system.restrict Faithful)
    (I := fun tr s => values.run tr = some s) rfl ?_ run
  intro tr s op s' _ same hstep
  obtain ⟨faithful, hstep⟩ := System.restrict_step_eq_some.mp hstep
  rw [step_eq faithful] at hstep
  exact System.run_concat_eq_some.mpr ⟨s, same, hstep⟩

/-- **Value semantics.** The objects have the values that they should have after
every operation of a sequence if and only if no `EConstructor` with different
numbers is copy constructed in it. -/
theorem values_iff_faithful {tr : List Op} {s : Objects} (run : system.run tr = some s) :
    (∀ pre t, pre <+: tr → system.run pre = some t → values.run pre = some t) ↔
      (system.restrict Faithful).run tr = some s := by
  refine System.forall_prefix_iff (P := fun pre t => values.run pre = some t) ?_ ?_ run
  · intro pre t guarded
    exact values_run guarded
  · intro pre op s₁ s₂ guarded different hstep same
    obtain ⟨t, before, valueStep⟩ := System.run_concat_eq_some.mp same
    rw [values_run guarded] at before
    cases before
    exact step_ne different hstep valueStep

/-- The objects of the examples in the source, and a self-assignment. -/
def sampleOps : List Op :=
  [.construct .EConstructor 3 3, .copyConstruct 0, .construct .Model 10 20, .moveConstruct 2,
    .construct .Model 5 6, .moveAssign 4 3, .moveAssign 4 4, .copyAssign 1 1, .copyConstruct 4]

theorem values_sampleOps : values.run sampleOps = some
    [(.EConstructor, ⟨3, 3⟩), (.EConstructor, ⟨3, 3⟩), (.Model, ⟨0, 0⟩), (.Model, ⟨0, 0⟩),
      (.Model, ⟨10, 20⟩), (.Model, ⟨10, 20⟩)] :=
  (@values_iff_faithful sampleOps _ rfl).mpr (by decide) _ _ (List.prefix_refl _) rfl

/-- `EConstructor obj4{obj3}` in `constructors()`: the copy of 3 and 4 is 3 and 3. -/
theorem not_values_obj4 :
    system.run [.construct .EConstructor 3 4, .copyConstruct 0] =
      some [(.EConstructor, ⟨3, 4⟩), (.EConstructor, ⟨3, 3⟩)] ∧
    values.run [.construct .EConstructor 3 4, .copyConstruct 0] =
      some [(.EConstructor, ⟨3, 4⟩), (.EConstructor, ⟨3, 4⟩)] := by
  decide

end CppLab.Class.ValueSemantics
