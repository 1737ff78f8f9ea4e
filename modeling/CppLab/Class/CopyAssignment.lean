import CppLab.Class.Model
import CppLab.Patterns.ImageFlyweight

/-!
# Copy assignments whose allocation fails

Five classes with a buffer of their own have a copy assignment. In three of them it
calls a `deepCopy` that copies the members, deletes the old buffer and then asks for a
new one; in the other two it makes a copy first and swaps.

`Kind.copyAssign` has, beside the state after it, whether it has thrown. `Untouched` is
what a target should be then, and `untouched_of_throws_iff` says for which targets it is.
-/

namespace CppLab.Class.CopyAssignment

open Patterns.ImageFlyweight (mul copyLoop Allocator)

/-- An object: the members that are copied as they are, and the pointer to its buffer. -/
structure Object (φ : Type) where
  fields : φ
  data : Option Nat

/-- The live objects, and the buffers in memory. -/
structure State (φ β : Type) where
  objects : Nat → Option (Object φ)
  heap : Nat → Option β

namespace State

variable {φ β : Type}

def put (s : State φ β) (o : Nat) (v : Object φ) : State φ β :=
  { s with objects := Function.update s.objects o (some v) }

/-- `new[]` and the contents of the buffer. -/
def alloc (s : State φ β) (p : Nat) (buf : β) : State φ β :=
  { s with heap := Function.update s.heap p (some buf) }

/-- `delete[] data`, `none` for a pointer to memory that is not there. -/
def delete (s : State φ β) : Option Nat → Option (State φ β)
  | none => some s
  | some q => (s.heap q).map fun _ => { s with heap := Function.update s.heap q none }

end State

/-! ## `deepCopy` -/

/-- In what the three `deepCopy`s differ: whether a `std::string` is assigned first, the
size of the buffer, `none` when it overflows, and what the loop makes of the buffer of
the source. -/
structure Scheme (φ β : Type) where
  string : Bool
  size : φ → Option Int
  fill : Int → β → Option β

variable {φ β : Type}

/-- `deepCopy(other)` of the object `o`, and whether it throws. The assignment of a
string that throws has changed nothing; a negative size is an exception as well. -/
def Scheme.deepCopy (S : Scheme φ β) (s : State φ β) (a : Allocator) (o : Nat)
    (this other : Object φ) : Option (Bool × State φ β) :=
  if S.string = true ∧ a.string = false then some (true, s)
  else
    ((s.put o ⟨other.fields, this.data⟩).delete this.data).bind fun s =>
      match other.data with
      | none => some (false, s.put o ⟨other.fields, none⟩)
      | some q =>
          (S.size other.fields).bind fun size =>
            match if size < 0 then none else a.buffer with
            | none => some (true, s)
            | some p =>
                if s.heap p = none then
                  ((s.heap q).bind (S.fill size)).map fun buf =>
                    (false, (s.alloc p buf).put o ⟨other.fields, some p⟩)
                else none

/-- `operator=(const T& other)` with the check for the object itself. -/
def Scheme.copyAssign (S : Scheme φ β) (s : State φ β) (a : Allocator) (o other : Nat) :
    Option (Bool × State φ β) :=
  (s.objects o).bind fun this =>
    (s.objects other).bind fun source =>
      if o = other then some (false, s) else S.deepCopy s a o this source

/-- The members of `flyweight_pattern::ImageFlyweight`, but for `data_`. -/
structure ImageFields where
  fileName_ : Bytes
  width_ : Int32
  height_ : Int32
  dpi_ : Int32
  deriving DecidableEq

/-- `flyweight_pattern::ImageFlyweight`. -/
def imageFlyweight : Scheme ImageFields (List Int32) where
  string := true
  size fields := mul fields.width_ fields.height_
  fill size other := copyLoop other size.toNat

/-- The members of `problem::ImageContext`, but for `data_`. A `float` is its bits. -/
structure ContextFields where
  fileName_ : Bytes
  width_ : Int32
  height_ : Int32
  dpi_ : Int32
  scale_ : BitVec 32
  opacity_ : BitVec 32
  deriving DecidableEq

/-- `problem::ImageContext`. -/
def imageContext : Scheme ContextFields (List Int32) where
  string := true
  size fields := mul fields.width_ fields.height_
  fill size other := copyLoop other size.toNat

/-- The members of `deep_copying::Model`, but for `ptr_`. -/
structure ModelFields where
  x_ : Int32
  y_ : Int32
  deriving DecidableEq

/-- `deep_copying::Model`, whose buffer is one `int`. -/
def deepCopyingModel : Scheme ModelFields Int32 where
  string := false
  size _ := some 1
  fill _ other := some other

/-! ## Copy and swap -/

/-- `operator=(const Model&)` of `role_of_three` and `role_of_five`: the copy is a local
variable, so an exception in its constructor is before the swap. -/
def copyAndSwap (s : State Unit Bytes) (a : Allocator) (o other : Nat) :
    Option (Bool × State Unit Bytes) :=
  (s.objects o).bind fun this =>
    (s.objects other).bind fun source =>
      match source.data with
      | none => ((s.put o ⟨(), none⟩).delete this.data).map fun s => (false, s)
      | some q =>
          (s.heap q).bind fun cstring =>
            (strlen cstring).bind fun n =>
              match a.buffer with
              | none => some (true, s)
              | some p =>
                  if s.heap p = none then
                    (((s.alloc p (cstring.take n ++ [0])).put o ⟨(), some p⟩).delete
                      this.data).map fun s => (false, s)
                  else none

/-! ## The five classes -/

/-- The classes. -/
inductive Kind
  | imageFlyweight
  | imageContext
  | deepCopyingModel
  | roleOfThree
  | roleOfFive
  deriving DecidableEq, Repr

namespace Kind

/-- The members that are copied as they are. -/
def Fields : Kind → Type
  | imageFlyweight => ImageFields
  | imageContext => ContextFields
  | deepCopyingModel => ModelFields
  | roleOfThree => Unit
  | roleOfFive => Unit

/-- The contents of a buffer. -/
def Buffer : Kind → Type
  | imageFlyweight => List Int32
  | imageContext => List Int32
  | deepCopyingModel => Int32
  | roleOfThree => Bytes
  | roleOfFive => Bytes

/-- The copy assignment. -/
def copyAssign : (c : Kind) → State c.Fields c.Buffer → Allocator → Nat → Nat →
    Option (Bool × State c.Fields c.Buffer)
  | imageFlyweight => CopyAssignment.imageFlyweight.copyAssign
  | imageContext => CopyAssignment.imageContext.copyAssign
  | deepCopyingModel => CopyAssignment.deepCopyingModel.copyAssign
  | roleOfThree => copyAndSwap
  | roleOfFive => copyAndSwap

/-- Copy and swap. -/
def swaps : Kind → Bool
  | roleOfThree => true
  | roleOfFive => true
  | _ => false

/-- The first member is a `std::string`. -/
def string : Kind → Bool
  | imageFlyweight => true
  | imageContext => true
  | _ => false

end Kind

/-- The object is what it was, and so is its buffer. -/
def Untouched (s s' : State φ β) (o : Nat) : Prop :=
  s'.objects o = s.objects o ∧
    ∀ this q, s.objects o = some this → this.data = some q → s'.heap q = s.heap q

/-! ## Assignments that throw -/

theorem delete_eq_some {s s' : State φ β} {data : Option Nat} : s.delete data = some s' ↔
    (data = none ∧ s' = s) ∨
    ∃ q, data = some q ∧ s.heap q ≠ none ∧
      s' = { s with heap := Function.update s.heap q none } := by
  cases data with
  | none => simp [State.delete, eq_comm]
  | some q =>
      cases there : s.heap q with
      | none => simp [State.delete, there]
      | some buf => simp [State.delete, there, eq_comm]

/-- What has happened when `deepCopy` throws: nothing, if it was the string; else the
members are copied and the buffer is deleted. -/
theorem Scheme.deepCopy_throws {S : Scheme φ β} {s s' : State φ β} {a : Allocator} {o : Nat}
    {this other : Object φ} (fails : S.deepCopy s a o this other = some (true, s')) :
    (S.string = true ∧ a.string = false ∧ s' = s) ∨
    (¬ (S.string = true ∧ a.string = false) ∧
      (s.put o ⟨other.fields, this.data⟩).delete this.data = some s') := by
  unfold Scheme.deepCopy at fails
  split at fails
  · rename_i first
    cases fails
    exact .inl ⟨first.1, first.2, rfl⟩
  · rename_i second
    obtain ⟨t, deleted, fails⟩ := Option.bind_eq_some_iff.mp fails
    refine .inr ⟨second, ?_⟩
    cases data : other.data with
    | none => simp [data] at fails
    | some q =>
        rw [data] at fails
        obtain ⟨size, -, fails⟩ := Option.bind_eq_some_iff.mp fails
        cases given : (if size < 0 then none else a.buffer) with
        | none =>
            simp only [given, Option.some.injEq, Prod.mk.injEq, true_and] at fails
            rw [deleted, fails]
        | some p =>
            rw [given] at fails
            obtain ⟨-, fails⟩ := Option.ite_none_right_eq_some.mp fails
            obtain ⟨buf, -, same⟩ := Option.map_eq_some_iff.mp fails
            cases same

/-- A target of `deepCopy` when it throws. -/
theorem Scheme.untouched_iff {S : Scheme φ β} {s s' : State φ β} {a : Allocator} {o other : Nat}
    {this source : Object φ} (live : s.objects o = some this)
    (there : s.objects other = some source)
    (fails : S.copyAssign s a o other = some (true, s')) : Untouched s s' o ↔
      (S.string = true ∧ a.string = false) ∨
      (this.data = none ∧ this.fields = source.fields) := by
  unfold Scheme.copyAssign at fails
  rw [live, there, Option.bind_some, Option.bind_some] at fails
  split at fails
  · cases fails
  · rcases S.deepCopy_throws fails with ⟨string, room, rfl⟩ | ⟨second, deleted⟩
    · exact iff_of_true ⟨rfl, fun _ _ _ _ => rfl⟩ (.inl ⟨string, room⟩)
    · have after : s'.objects o = some ⟨source.fields, this.data⟩ := by
        have put : (s.put o ⟨source.fields, this.data⟩).objects o = _ := Function.update_self ..
        rcases delete_eq_some.mp deleted with ⟨-, rfl⟩ | ⟨q, -, -, rfl⟩
        · exact put
        · exact put
      constructor
      · rintro ⟨same, buffer⟩
        rw [after, live, Option.some.injEq] at same
        refine .inr ⟨?_, (congrArg Object.fields same).symm⟩
        -- a buffer that was there is deleted
        rcases delete_eq_some.mp deleted with ⟨null, -⟩ | ⟨q, data, alive, rfl⟩
        · exact null
        · have kept := buffer this q live data
          have gone : Function.update s.heap q none q = none := Function.update_self ..
          exact absurd (kept.symm.trans gone) alive
      · rintro (first | ⟨null, same⟩)
        · exact absurd first second
        · refine ⟨?_, fun this' q live' data => ?_⟩
          · rw [after, live, ← same]
          · rw [live] at live'
            cases live'
            rw [null] at data
            cases data

/-- What is left of a target that had a buffer: it cannot be destroyed. -/
theorem Scheme.destructor_of_throws {S : Scheme φ β} {s s' : State φ β} {a : Allocator} {o : Nat}
    {this other : Object φ} {q : Nat} (fails : S.deepCopy s a o this other = some (true, s'))
    (second : ¬ (S.string = true ∧ a.string = false)) (data : this.data = some q) :
    s'.objects o = some ⟨other.fields, some q⟩ ∧ s'.delete (some q) = none := by
  rcases S.deepCopy_throws fails with ⟨string, room, -⟩ | ⟨-, deleted⟩
  · exact absurd ⟨string, room⟩ second
  · rcases delete_eq_some.mp deleted with ⟨null, -⟩ | ⟨q', data', -, rfl⟩
    · rw [null] at data
      cases data
    · rw [data] at data'
      cases data'
      have gone : Function.update s.heap q none q = none := Function.update_self ..
      refine ⟨?_, ?_⟩
      · rw [← data]
        exact Function.update_self ..
      · show (Function.update s.heap q none q).map _ = none
        rw [gone]
        rfl

/-- Copy and swap throws before it changes anything. -/
theorem untouched_of_copyAndSwap {s s' : State Unit Bytes} {a : Allocator} {o other : Nat}
    (fails : copyAndSwap s a o other = some (true, s')) : Untouched s s' o := by
  obtain ⟨this, live, fails⟩ := Option.bind_eq_some_iff.mp fails
  obtain ⟨source, there, fails⟩ := Option.bind_eq_some_iff.mp fails
  cases data : source.data with
  | none =>
      rw [data] at fails
      obtain ⟨t, -, same⟩ := Option.map_eq_some_iff.mp fails
      cases same
  | some q =>
      rw [data] at fails
      obtain ⟨cstring, -, fails⟩ := Option.bind_eq_some_iff.mp fails
      obtain ⟨n, -, fails⟩ := Option.bind_eq_some_iff.mp fails
      cases given : a.buffer with
      | none =>
          rw [given] at fails
          cases fails
          exact ⟨rfl, fun _ _ _ _ => rfl⟩
      | some p =>
          rw [given] at fails
          obtain ⟨-, fails⟩ := Option.ite_none_right_eq_some.mp fails
          obtain ⟨t, -, same⟩ := Option.map_eq_some_iff.mp fails
          cases same

/-- **A copy assignment that throws.** It leaves its target as it was precisely in the
classes that swap, or when it is the string that there was no room for, or when the
target has no buffer to lose and the members of the source already. -/
theorem untouched_of_throws_iff (c : Kind) {s s' : State c.Fields c.Buffer} {a : Allocator}
    {o other : Nat} {this source : Object c.Fields} (live : s.objects o = some this)
    (there : s.objects other = some source) (fails : c.copyAssign s a o other = some (true, s')) :
    Untouched s s' o ↔
      c.swaps = true ∨ (c.string = true ∧ a.string = false) ∨
      (this.data = none ∧ this.fields = source.fields) := by
  cases c with
  | imageFlyweight =>
      exact (Scheme.untouched_iff live there fails).trans (or_iff_right Bool.false_ne_true).symm
  | imageContext =>
      exact (Scheme.untouched_iff live there fails).trans (or_iff_right Bool.false_ne_true).symm
  | deepCopyingModel =>
      exact (Scheme.untouched_iff live there fails).trans (or_iff_right Bool.false_ne_true).symm
  | roleOfThree => exact iff_of_true (untouched_of_copyAndSwap fails) (.inl rfl)
  | roleOfFive => exact iff_of_true (untouched_of_copyAndSwap fails) (.inl rfl)

/-- An object with an `int` of its own, and another one. -/
def target : Object ModelFields := ⟨⟨1, 2⟩, some 10⟩

def source : Object ModelFields := ⟨⟨3, 4⟩, some 11⟩

def twoModels : State ModelFields Int32 where
  objects o := if o = 0 then some target else if o = 1 then some source else none
  heap p := if p = 10 then some 5 else if p = 11 then some 6 else none

/-- The first is assigned the second, and there is no memory left. -/
def twoModelsThrown : State ModelFields Int32 where
  objects := Function.update twoModels.objects 0 (some ⟨⟨3, 4⟩, some 10⟩)
  heap := Function.update twoModels.heap 10 none

theorem untouched_of_throws_twoModels : Untouched twoModels twoModelsThrown 0 ↔
    Kind.deepCopyingModel.swaps = true ∨ (Kind.deepCopyingModel.string = true ∧ true = false) ∨
      (target.data = none ∧ target.fields = source.fields) := by
  have live : twoModels.objects 0 = some target := rfl
  have there : twoModels.objects 1 = some source := rfl
  have fails : Kind.deepCopyingModel.copyAssign twoModels ⟨true, none⟩ 0 1 =
      some (true, twoModelsThrown) := rfl
  exact untouched_of_throws_iff .deepCopyingModel live there fails

theorem not_untouched_twoModels :
    ¬ ∀ s', Kind.deepCopyingModel.copyAssign twoModels ⟨true, none⟩ 0 1 = some (true, s') →
      Untouched twoModels s' 0 := by
  intro untouched
  have same := (untouched twoModelsThrown rfl).2 target 10 rfl rfl
  exact absurd same (by decide)

end CppLab.Class.CopyAssignment
