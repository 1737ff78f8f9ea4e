import CppLab.Lib.Owner
import CppLab.Env.StdString

/-!
# The lifecycle of an `ImageFlyweight`

`deepCopy` deletes the `data_` of the object it copies into. In the copy
assignment that is a buffer of this object; in the copy constructor the member
has not been initialised, and `delete[]` is given what happens to be there.

`system` is a program with any number of images. A label carries what the
environment decides: the address that `new` returns, or that it throws, the contents of a
new array, the values of uninitialised members, and what is left in a string that was
moved from. Overflow, and reads and `delete[]` of memory that is not there, are undefined:
the program ends in `none`.

* `deepCopy_cases` is `deepCopy` on an object that owns its `data_`;
* `Sound` is the invariant: one owner a buffer, of the size of the image;
* `lawful_iff` says which programs release and copy as they should.
-/

namespace CppLab.Patterns.ImageFlyweight

structure Image where
  fileName_ : Bytes
  width_ : Int32
  height_ : Int32
  dpi_ : Int32
  data_ : Option Nat
  deriving DecidableEq

/-- `a * b` on `int`, `none` on overflow. -/
def mul (a b : Int32) : Option Int :=
  let product := a.toInt * b.toInt
  if -2 ^ 31 ≤ product ∧ product < 2 ^ 31 then some product else none

/-- The live objects, the arrays in memory, and what was given by `new[]` and to
`delete[]`. -/
structure State where
  objects : Nat → Option Image
  heap : Nat → Option (List Int32)
  ledger : List (Entry Nat)

/-- What a copy is answered: whether there is room for the characters of the
`std::string`, and the address of a new array, `none` for an exception. -/
structure Allocator where
  string : Bool
  buffer : Option Nat
  deriving DecidableEq, Repr

/-- The members of an object that `deepCopy` is the first to assign to. -/
structure Uninitialised where
  width_ : Int32
  height_ : Int32
  dpi_ : Int32
  data_ : Option Nat
  deriving DecidableEq

/-- The object that the copy constructor calls `deepCopy` on. -/
def Uninitialised.image (u : Uninitialised) : Image := ⟨[], u.width_, u.height_, u.dpi_, u.data_⟩

/-- `for (int i = 0; i < size; ++i) data_[i] = other.data_[i]`, the pixels written. -/
def copyLoop (other : List Int32) : Nat → Option (List Int32)
  | 0 => some []
  | i + 1 =>
      (copyLoop other i).bind fun pixels => other[i]?.map fun pixel => pixels ++ [pixel]

namespace State

def held (s : State) (o : Nat) : Option Nat := (s.objects o).bind (·.data_)

/-- The pixels of an image. -/
def pixels (s : State) (img : Image) : Option (List Int32) := img.data_.bind s.heap

def put (s : State) (o : Nat) (v : Option Image) : State :=
  { s with objects := Function.update s.objects o v }

/-- `new int[size]` and its contents. -/
def alloc (s : State) (p : Nat) (pixels : List Int32) : State :=
  { s with heap := Function.update s.heap p (some pixels), ledger := s.ledger ++ [.opened p] }

def free (s : State) (p : Nat) : State :=
  { s with heap := Function.update s.heap p none, ledger := s.ledger ++ [.closed p] }

/-- `delete[] data`. -/
def delete (s : State) : Option Nat → Option State
  | none => some s
  | some q => (s.heap q).map fun _ => s.free q

/-- `deepCopy(other)`: whether it throws, `*this` and memory afterwards, `none` where it is
undefined. The assignment of a string that throws has changed nothing; a negative size is
an exception as well. -/
def deepCopy (s : State) (a : Allocator) (this other : Image) : Option (Bool × Image × State) :=
  if a.string = false then some (true, this, s)
  else
    (s.delete this.data_).bind fun s =>
      match other.data_ with
      | none => some (false, { other with data_ := none }, s)
      | some q =>
          (mul other.width_ other.height_).bind fun size =>
            match if size < 0 then none else a.buffer with
            -- `data_` still has the address of what was deleted
            | none => some (true, { other with data_ := this.data_ }, s)
            | some p =>
                ((s.heap q).bind fun src => copyLoop src size.toNat).map fun pixels =>
                  (false, { other with data_ := some p }, s.alloc p pixels)

end State

/-- The image that a move leaves behind. -/
def movedFrom (left : Bytes) : Image := ⟨left, 0, 0, 0, none⟩

inductive Op
  | construct (o : Nat) (fileName : Bytes) (w h dpi : Int32) (buffer : Option Nat)
      (pixels : List Int32)
  | copyConstruct (o other : Nat) (garbage : Uninitialised) (a : Allocator)
  | moveConstruct (o source : Nat) (left : Bytes)
  | copyAssign (o other : Nat) (a : Allocator)
  | moveAssign (o source : Nat) (left : Bytes)
  | destroy (o : Nat)

/-- `*this`. -/
def Op.this : Op → Nat
  | construct o .. => o
  | copyConstruct o .. => o
  | moveConstruct o .. => o
  | copyAssign o .. => o
  | moveAssign o .. => o
  | destroy o => o

/-- Target and source of a copy. -/
def Op.copies : Op → Option (Nat × Nat)
  | copyConstruct o other _ _ => some (o, other)
  | copyAssign o other _ => some (o, other)
  | _ => none

/-- What `new` answers is the address of nothing else; `data` has been deleted before. -/
def Free (s : State) (data buffer : Option Nat) : Prop :=
  ∀ p ∈ buffer, s.heap p = none ∨ data = some p

instance (s : State) (data buffer : Option Nat) : Decidable (Free s data buffer) := by
  unfold Free
  infer_instance

/-- What can be called: an object is constructed where there is none, and anything else is
called on objects that are there. -/
def Callable (s : State) : Op → Prop
  | .construct o _ w h _ buffer pixels => s.objects o = none ∧ Free s none buffer ∧
      ∀ size ∈ mul w h, 0 ≤ size → (pixels.length : Int) = size
  | .copyConstruct o other garbage a =>
      s.objects o = none ∧ s.objects other ≠ none ∧ Free s garbage.data_ a.buffer
  | .moveConstruct o source _ => s.objects o = none ∧ s.objects source ≠ none
  | .copyAssign o other a =>
      s.objects o ≠ none ∧ s.objects other ≠ none ∧ Free s (s.held o) a.buffer
  | .moveAssign o source _ => s.objects o ≠ none ∧ s.objects source ≠ none
  | .destroy o => s.objects o ≠ none

instance (s : State) (op : Op) : Decidable (Callable s op) := by
  cases op <;> unfold Callable <;> infer_instance

/-- A call: whether it throws, and the state afterwards; `none` where it is undefined. No
object comes of a constructor that throws. -/
def State.call (s : State) : Op → Option (Bool × State)
  | .construct o fileName w h dpi buffer pixels =>
      (mul w h).map fun (size : Int) =>
        match if size < 0 then none else buffer with
        | none => (true, s)
        | some p => (false, (s.alloc p pixels).put o (some ⟨fileName, w, h, dpi, some p⟩))
  | .copyConstruct o other garbage a =>
      (s.objects other).bind fun source =>
        (s.deepCopy a garbage.image source).map fun (threw, new, s) =>
          (threw, if threw then s else s.put o (some new))
  | .moveConstruct o source left =>
      (s.objects source).map fun img =>
        (false, (s.put source (some (movedFrom left))).put o (some img))
  | .copyAssign o other a =>
      (s.objects o).bind fun this =>
        (s.objects other).bind fun source =>
          if o = other then some (false, s)
          else (s.deepCopy a this source).map fun (threw, this, s) => (threw, s.put o (some this))
  | .moveAssign o source left =>
      (s.objects o).bind fun this =>
        (s.objects source).bind fun img =>
          if o = source then some (false, s)
          else (s.delete this.data_).map fun s =>
            (false, (s.put o (some img)).put source (some (movedFrom left)))
  | .destroy o =>
      (s.objects o).bind fun this => (s.delete this.data_).map fun s => (false, s.put o none)

/-- No object, and nothing in memory. -/
def State.init : State := ⟨fun _ => none, fun _ => none, []⟩

/-- A program with images; `none` is where it has gone once a call was undefined. -/
def system : System (Option State) Op where
  init := some .init
  step
    | none, _ => none
    | some s, op => if Callable s op then some ((s.call op).map Prod.snd) else none

/-- The calls that return. -/
def returning : System State Op where
  init := .init
  step s op :=
    if Callable s op then
      (s.call op).bind fun (threw, s) => if threw then none else some s
    else none

/-! ## The rule of five -/

/-- No buffer has two owners, the buffer of an image has its size, and no buffer has
been released twice. -/
structure Good (s : State) : Prop where
  owner : ∀ a b p, s.held a = some p → s.held b = some p → a = b
  sized : ∀ o img, s.objects o = some img → img.data_ = none ∨
    ∃ p pixels, img.data_ = some p ∧ s.heap p = some pixels ∧
      (pixels.length : Int) = img.width_.toInt * img.height_.toInt
  once : Ledger.AtMostOnce s.ledger

/-- What the object releases in a step is what it owned before. -/
def ReleasesOwn (s : State) (op : Op) (s' : State) : Prop :=
  ∃ es, s'.ledger = s.ledger ++ es ∧ ∀ q, Entry.closed q ∈ es → s.held op.this = some q

/-- A copy has the fields and the pixels of its source, which stay as they were. -/
def CopiesAll (s : State) (op : Op) (s' : State) : Prop :=
  ∀ o other, op.copies = some (o, other) →
    ∃ source new, s.objects other = some source ∧ s'.objects other = some source ∧
      s'.objects o = some new ∧ new.fileName_ = source.fileName_ ∧
      new.width_ = source.width_ ∧ new.height_ = source.height_ ∧ new.dpi_ = source.dpi_ ∧
      s'.pixels new = s.pixels source ∧ s'.pixels source = s.pixels source

/-- What a call should do; one that throws has made no copy. -/
structure Steps (s : State) (op : Op) (threw : Bool) (s' : State) : Prop where
  good : Good s'
  releases : ReleasesOwn s op s'
  copies : threw = false → CopiesAll s op s'

/-- No call of the program is undefined, and every one does as it should. -/
def Lawful (tr : List Op) : Prop :=
  ∀ pre op post s, tr = pre ++ op :: post → system.run pre = some (some s) →
    ∃ threw s', s.call op = some (threw, s') ∧ Steps s op threw s'

/-- What a call must not meet: a size that overflows, in the copy constructor an
uninitialised `data_` that is not null when the string has been copied, and in the copy
assignment no room for the new array when the old one has been deleted. -/
def Spares (s : State) : Op → Prop
  | .construct _ _ w h _ _ _ => mul w h ≠ none
  | .copyConstruct _ _ garbage a => a.string = true → garbage.data_ = none
  | .copyAssign o other a => o ≠ other → a.string = true → s.held o ≠ none →
      s.held other ≠ none → a.buffer ≠ none
  | .moveConstruct .. | .moveAssign .. | .destroy _ => True

instance (s : State) (op : Op) : Decidable (Spares s op) := by
  cases op <;> unfold Spares <;> infer_instance

/-- The condition on a program. -/
def AllSpared : Option State → Op → Prop
  | none, _ => True
  | some s, op => Spares s op

instance : (s : Option State) → (op : Op) → Decidable (AllSpared s op)
  | none, _ => .isTrue trivial
  | some s, op => inferInstanceAs (Decidable (Spares s op))

/-! ## `deepCopy` -/

theorem mul_eq_some {a b : Int32} {size : Int} :
    mul a b = some size ↔ a.toInt * b.toInt = size ∧ -2 ^ 31 ≤ size ∧ size < 2 ^ 31 := by
  simp only [mul, Option.ite_none_right_eq_some, Option.some.injEq]
  constructor
  · rintro ⟨fits, rfl⟩
    exact ⟨rfl, fits⟩
  · rintro ⟨rfl, fits⟩
    exact ⟨fits, rfl⟩

/-- The loop copies the first `size` pixels if they are there. -/
theorem copyLoop_eq_some {other pixels : List Int32} {size : Nat} :
    copyLoop other size = some pixels ↔ size ≤ other.length ∧ pixels = other.take size := by
  induction size generalizing pixels with
  | zero => simp [copyLoop, eq_comm]
  | succ i ih =>
      simp only [copyLoop, Option.bind_eq_some_iff, Option.map_eq_some_iff, ih]
      constructor
      · rintro ⟨-, ⟨-, rfl⟩, pixel, there, rfl⟩
        obtain ⟨small, rfl⟩ := List.getElem?_eq_some_iff.mp there
        exact ⟨small, List.take_concat_get' ..⟩
      · rintro ⟨small, rfl⟩
        refine ⟨_, ⟨by omega, rfl⟩, other[i], List.getElem?_eq_getElem small, ?_⟩
        exact List.take_concat_get' ..

theorem delete_eq_some {s s' : State} {data : Option Nat} : s.delete data = some s' ↔
    (data = none ∧ s' = s) ∨ ∃ q, data = some q ∧ s.heap q ≠ none ∧ s' = s.free q := by
  cases data with
  | none => simp [State.delete, eq_comm]
  | some q =>
      cases there : s.heap q with
      | none => simp [State.delete, there]
      | some pixels => simp [State.delete, there, eq_comm]

theorem held_put (s : State) (o : Nat) (v : Option Image) :
    (s.put o v).held = Function.update s.held o (v.bind (·.data_)) := by
  funext a
  show (Function.update s.objects o v a).bind (·.data_) = _
  by_cases this : a = o
  · subst this
    rw [Function.update_self, Function.update_self]
  · rw [Function.update_of_ne this, Function.update_of_ne this, State.held]

/-- An object is not where there is none. -/
theorem ne_of_live {s : State} {a o : Nat} {img : Image} (live : s.objects a = some img)
    (dead : s.objects o = none) : a ≠ o := by
  rintro rfl
  rw [dead] at live
  cases live

theorem held_of_objects {s : State} {o : Nat} {img : Image} (live : s.objects o = some img) :
    s.held o = img.data_ := by
  rw [State.held, live, Option.bind_some]

theorem held_of_dead {s : State} {o : Nat} (dead : s.objects o = none) : s.held o = none := by
  rw [State.held, dead, Option.bind_none]

/-- **Invariant.** -/
structure Sound (s : State) : Prop where
  owns : Owner.Unique s.held s.heap s.ledger
  sized : ∀ o img p, s.objects o = some img → img.data_ = some p →
    ∃ pixels, s.heap p = some pixels ∧ mul img.width_ img.height_ = some (pixels.length : Int)

/-- What a call that works on `o` does outside of it: the memory of the others is as
it was, and nothing is released but what `o` held. -/
structure Local (s t : State) (o : Nat) : Prop where
  frame : ∀ q, s.heap q ≠ none → s.held o ≠ some q → t.heap q = s.heap q
  releases : ∃ es, t.ledger = s.ledger ++ es ∧ ∀ q, Entry.closed q ∈ es → s.held o = some q

/-- `delete[] data_` of an object. -/
theorem delete_spec {s t : State} {o : Nat} (owns : Owner.Unique s.held s.heap s.ledger)
    (deleted : s.delete (s.held o) = some t) :
    Owner.Unique (Function.update s.held o none) t.heap t.ledger ∧ t.objects = s.objects ∧
      Local s t o := by
  rcases delete_eq_some.mp deleted with ⟨null, rfl⟩ | ⟨q, holds, -, rfl⟩
  · rw [← null, Function.update_eq_self]
    exact ⟨owns, rfl, fun _ _ _ => rfl, [], by simp, by simp⟩
  · refine ⟨owns.free holds, rfl, ?_, [.closed q], rfl, ?_⟩
    · intro p _ other
      have ne : p ≠ q := fun same => other (same ▸ holds)
      exact Function.update_of_ne ne ..
    · intro p member
      cases List.mem_singleton.mp member
      exact holds

theorem delete_isSome {s : State} {o : Nat} (owns : Owner.Unique s.held s.heap s.ledger) :
    ∃ t, s.delete (s.held o) = some t := by
  cases holds : s.held o with
  | none => exact ⟨s, rfl⟩
  | some q => exact ⟨_, delete_eq_some.mpr (.inr ⟨q, rfl, owns.there holds, rfl⟩)⟩

/-- What `new` answers is free when it is asked. -/
theorem delete_free {s t : State} {data buffer : Option Nat} (deleted : s.delete data = some t)
    (free : Free s data buffer) {p : Nat} (given : buffer = some p) : t.heap p = none := by
  rcases delete_eq_some.mp deleted with ⟨rfl, rfl⟩ | ⟨q, rfl, -, rfl⟩
  · rcases free p given with free | same
    · exact free
    · cases same
  · show Function.update s.heap q none p = none
    by_cases this : p = q
    · rw [this, Function.update_self]
    · rw [Function.update_of_ne this]
      rcases free p given with free | same
      · exact free
      · exact absurd (Option.some.inj same).symm this

/-- `o` has become a copy of `source`: a buffer of its own, with the pixels and the fields
of the source. -/
structure Copied (s : State) (o : Nat) (source img : Image) (t : State) : Prop where
  owns : Owner.Unique (Function.update s.held o img.data_) t.heap t.ledger
  objects : t.objects = s.objects
  inside : Local s t o
  fields : img = { source with data_ := img.data_ }
  pixels : t.pixels img = s.pixels source

/-- `deepCopy` from another image: the string is not copied and nothing has changed, or the
old buffer is deleted and there is no new one, or it is a copy. -/
theorem deepCopy_cases {s : State} {o other : Nat} {this source : Image} {a : Allocator}
    (sound : Sound s) (holds : s.held o = this.data_) (live : s.objects other = some source)
    (ne : other ≠ o) (free : Free s this.data_ a.buffer) :
    (a.string = false ∧ s.deepCopy a this source = some (true, this, s)) ∨
    (a.string = true ∧ s.held other ≠ none ∧ a.buffer = none ∧
      ∃ t, s.delete this.data_ = some t ∧
        s.deepCopy a this source = some (true, { source with data_ := this.data_ }, t)) ∨
    ∃ img t, s.deepCopy a this source = some (false, img, t) ∧ Copied s o source img t := by
  cases string : a.string with
  | false => exact .inl ⟨rfl, if_pos string⟩
  | true =>
      right
      obtain ⟨t, deleted⟩ := delete_isSome (o := o) sound.owns
      obtain ⟨owns, same, inside⟩ := delete_spec sound.owns deleted
      rw [holds] at deleted
      have copies : ¬ a.string = false := by simp [string]
      unfold State.deepCopy
      rw [if_neg copies, deleted, Option.bind_some]
      cases data : source.data_ with
      | none =>
          right
          refine ⟨_, t, rfl, owns, same, inside, rfl, ?_⟩
          rw [State.pixels, State.pixels, data]
          rfl
      | some q =>
          have holds' : s.held other = some q := (held_of_objects live).trans data
          obtain ⟨whole, found, size⟩ := sound.sized other source q live data
          have apart : s.held o ≠ some q := fun clash => ne (sound.owns.inj other o q holds' clash)
          have kept : t.heap q = some whole := (inside.frame q (by simp [found]) apart).trans found
          -- the size of the source is that of its buffer, so the loop copies all of it
          have loop : copyLoop whole (whole.length : Int).toNat = some whole := by
            rw [Int.toNat_natCast, copyLoop_eq_some, List.take_length]
            exact ⟨Nat.le_refl _, rfl⟩
          have natural : ¬ (whole.length : Int) < 0 := by omega
          simp only [size, Option.bind_some, if_neg natural]
          cases given : a.buffer with
          | none =>
              left
              exact ⟨trivial, by rw [holds']; exact Option.some_ne_none q, rfl, t, rfl, rfl⟩
          | some p =>
              right
              have fresh := delete_free deleted free given
              simp only [kept, Option.bind_some, loop, Option.map_some]
              refine ⟨_, _, rfl, ?_⟩
              have allocated := owns.alloc (o := o) (Function.update_self ..) fresh whole
              rw [Function.update_idem] at allocated
              obtain ⟨es, ledger, own⟩ := inside.releases
              refine ⟨allocated, same, ⟨?_, es ++ [.opened p], ?_, ?_⟩, rfl, ?_⟩
              · intro b before others
                have kept := inside.frame b before others
                have apart : b ≠ p := by
                  rintro rfl
                  rw [fresh] at kept
                  exact before kept.symm
                rw [← kept]
                exact Function.update_of_ne apart ..
              · show t.ledger ++ [Entry.opened p] = _
                rw [ledger, List.append_assoc]
              · intro b member
                rcases List.mem_append.mp member with member | member
                · exact own b member
                · cases List.mem_singleton.mp member
              · rw [State.pixels, State.pixels, data]
                show Function.update t.heap p (some whole) p = s.heap q
                rw [Function.update_self, found]

/-- What `deepCopy` deletes once the string has been copied, whatever comes after. -/
theorem deepCopy_deletes {s t : State} {a : Allocator} {this source img : Image} {threw : Bool}
    {q : Nat} (string : a.string = true) (points : this.data_ = some q)
    (copy : s.deepCopy a this source = some (threw, img, t)) :
    ∃ rest, t.ledger = s.ledger ++ .closed q :: rest := by
  have copies : ¬ a.string = false := by simp [string]
  simp only [State.deepCopy, if_neg copies, points, Option.bind_eq_some_iff] at copy
  obtain ⟨u, deleted, copy⟩ := copy
  rcases delete_eq_some.mp deleted with ⟨null, -⟩ | ⟨_, same, -, rfl⟩
  · cases null
  · cases same
    cases data : source.data_ with
    | none =>
        simp only [data, Option.some.injEq, Prod.mk.injEq] at copy
        obtain ⟨-, -, rfl⟩ := copy
        exact ⟨[], rfl⟩
    | some b =>
        simp only [data, Option.bind_eq_some_iff] at copy
        obtain ⟨size, -, copy⟩ := copy
        cases given : (if size < 0 then none else a.buffer) with
        | none =>
            simp only [given, Option.some.injEq, Prod.mk.injEq] at copy
            obtain ⟨-, -, rfl⟩ := copy
            exact ⟨[], rfl⟩
        | some p =>
            simp only [given, Option.map_eq_some_iff, Prod.mk.injEq] at copy
            obtain ⟨pixels, -, -, -, rfl⟩ := copy
            exact ⟨[.opened p], by simp [State.alloc, State.free]⟩

/-! ## One step -/

theorem sound_init : Sound .init where
  owns := Owner.Unique.empty
  sized := by
    intro o img p live
    cases live

/-- A step that gives `o` an image of the right size and leaves the others as they
were is sound. -/
theorem Sound.store {s t : State} {o : Nat} {v : Option Image} (sound : Sound s)
    (owns : Owner.Unique (Function.update s.held o (v.bind (·.data_))) t.heap t.ledger)
    (same : t.objects = s.objects) (inside : Local s t o)
    (sized : ∀ img p, v = some img → img.data_ = some p → ∃ pixels, t.heap p = some pixels ∧
      mul img.width_ img.height_ = some (pixels.length : Int)) : Sound (t.put o v) := by
  have held : t.held = s.held := by
    funext a
    rw [State.held, State.held, same]
  constructor
  · rw [held_put, held]
    exact owns
  · intro a img p live data
    change Function.update t.objects o v a = some img at live
    by_cases this : a = o
    · subst this
      rw [Function.update_self] at live
      exact sized img p live data
    · rw [Function.update_of_ne this, same] at live
      obtain ⟨pixels, there, size⟩ := sound.sized a img p live data
      have holds : s.held a = some p := (held_of_objects live).trans data
      have apart : s.held o ≠ some p := fun holds' => this (sound.owns.inj a o p holds holds')
      exact ⟨pixels, (inside.frame p (by simp [there]) apart).trans there, size⟩

/-- What such a call does, with the invariant. -/
structure Does (s : State) (op : Op) (threw : Bool) (s' : State) : Prop where
  sound : Sound s'
  releases : ReleasesOwn s op s'
  copies : threw = false → CopiesAll s op s'

/-- Nothing has changed. -/
theorem Does.unchanged {s : State} {op : Op} (sound : Sound s) : Does s op true s :=
  ⟨sound, ⟨[], by simp, by simp⟩, fun returned => by cases returned⟩

/-- Construction. -/
theorem does_construct {s : State} {o : Nat} {fileName : Bytes} {w h dpi : Int32}
    {buffer : Option Nat} {pixels : List Int32} (sound : Sound s)
    (callable : Callable s (.construct o fileName w h dpi buffer pixels))
    (fits : mul w h ≠ none) :
    ∃ threw s', s.call (.construct o fileName w h dpi buffer pixels) = some (threw, s') ∧
      Does s (.construct o fileName w h dpi buffer pixels) threw s' := by
  obtain ⟨dead, free, length⟩ := callable
  obtain ⟨size, product⟩ := Option.ne_none_iff_exists'.mp fits
  simp only [State.call, product, Option.map_some]
  cases given : (if size < 0 then none else buffer) with
  | none => exact ⟨true, s, rfl, .unchanged sound⟩
  | some p =>
      obtain ⟨natural, given⟩ := Option.ite_none_left_eq_some.mp given
      have fresh := delete_free (t := s) rfl free given
      have allocated := sound.owns.alloc (held_of_dead dead) fresh pixels
      refine ⟨false, _, rfl, ?_, ⟨[.opened p], rfl, by simp⟩, ?_⟩
      · refine sound.store allocated rfl ⟨?_, [.opened p], rfl, by simp⟩ ?_
        · intro q there _
          have apart : q ≠ p := fun same => there (same ▸ fresh)
          exact Function.update_of_ne apart ..
        · intro img q new data
          cases new
          cases data
          refine ⟨pixels, Function.update_self .., ?_⟩
          rw [length size product (by omega)]
          exact product
      · intro _ a b call
        cases call

/-- A copy into an object that owned its `data_`, or had none. -/
theorem Copied.does {s t : State} {op : Op} {o other : Nat} {source img : Image}
    (copied : Copied s o source img t) (sound : Sound s) (this : op.this = o)
    (call : op.copies = some (o, other)) (live : s.objects other = some source)
    (ne : other ≠ o) : Does s op false (t.put o (some img)) := by
  obtain ⟨owns, same, inside, fields, pixels⟩ := copied
  have objects : (t.put o (some img)).objects other = some source := by
    show Function.update t.objects o (some img) other = some source
    rw [Function.update_of_ne ne, same, live]
  refine ⟨?_, ?_, ?_⟩
  · refine sound.store owns same inside ?_
    intro _ q new data
    cases new
    -- the pixels of the copy are those of the source, and the fields are
    obtain ⟨buf, held⟩ := Option.ne_none_iff_exists'.mp
      (owns.there (o := o) (by rw [Function.update_self, data]))
    have read : s.pixels source = some buf := by
      rw [← pixels, State.pixels, data]
      exact held
    obtain ⟨a, from_, there⟩ := Option.bind_eq_some_iff.mp read
    obtain ⟨buf', there', size⟩ := sound.sized other source a live from_
    rw [there] at there'
    cases there'
    rw [fields]
    exact ⟨buf, held, size⟩
  · obtain ⟨es, ledger, own⟩ := inside.releases
    exact ⟨es, ledger, fun q member => this.symm ▸ own q member⟩
  · intro _ a b call'
    rw [call] at call'
    cases call'
    refine ⟨source, img, live, objects, Function.update_self .., ?_, ?_, ?_, ?_, pixels, ?_⟩
    · rw [fields]
    · rw [fields]
    · rw [fields]
    · rw [fields]
    · show source.data_.bind t.heap = source.data_.bind s.heap
      cases data : source.data_ with
      | none => rfl
      | some q =>
          have holds : s.held other = some q := (held_of_objects live).trans data
          exact inside.frame q (sound.owns.there holds) fun clash =>
            ne (sound.owns.inj other o q holds clash)

/-- A step that copies nothing. -/
theorem copiesAll_of_none {s s' : State} {op : Op} (call : op.copies = none) :
    CopiesAll s op s' := by
  intro a b copies
  rw [call] at copies
  cases copies

/-- An image changes hands after its new owner has released what it had. -/
theorem Sound.move {s t : State} {o source : Nat} {img : Image} (sound : Sound s)
    (live : s.objects source = some img) (ne : o ≠ source)
    (owns : Owner.Unique (Function.update s.held o none) t.heap t.ledger)
    (same : t.objects = s.objects) (inside : Local s t o) (left : Bytes) :
    Sound ((t.put o (some img)).put source (some (movedFrom left))) := by
  have held : t.held = s.held := by
    funext a
    rw [State.held, State.held, same]
  constructor
  · have swapped := owns.swap o source
    rw [Function.update_self, Function.update_of_ne ne.symm, Function.update_idem,
      held_of_objects live] at swapped
    rw [held_put, held_put, held]
    exact swapped
  · intro a b p now data
    change Function.update (Function.update t.objects o (some img)) source _ a = some b at now
    have kept : ∀ c p, s.held c = some p → c ≠ o → t.heap p = s.heap p := by
      intro c p holds other
      exact inside.frame p (sound.owns.there holds) fun clash =>
        other (sound.owns.inj c o p holds clash)
    by_cases emptied : a = source
    · rw [emptied, Function.update_self] at now
      cases now
      cases data
    · rw [Function.update_of_ne emptied] at now
      by_cases this : a = o
      · rw [this, Function.update_self] at now
        cases now
        obtain ⟨pixels, there, size⟩ := sound.sized source img p live data
        have holds : s.held source = some p := (held_of_objects live).trans data
        exact ⟨pixels, (kept source p holds ne.symm).trans there, size⟩
      · rw [Function.update_of_ne this, same] at now
        obtain ⟨pixels, there, size⟩ := sound.sized a b p now data
        have holds : s.held a = some p := (held_of_objects now).trans data
        exact ⟨pixels, (kept a p holds this).trans there, size⟩

theorem does_moveConstruct {s : State} {o source : Nat} {left : Bytes} (sound : Sound s)
    (callable : Callable s (.moveConstruct o source left)) :
    ∃ s', s.call (.moveConstruct o source left) = some (false, s') ∧
      Does s (.moveConstruct o source left) false s' := by
  obtain ⟨dead, there⟩ := callable
  obtain ⟨img, live⟩ := Option.ne_none_iff_exists'.mp there
  simp only [State.call, live, Option.map_some]
  have ne := (ne_of_live live dead).symm
  have order : (s.put source (some (movedFrom left))).put o (some img) =
      (s.put o (some img)).put source (some (movedFrom left)) := by
    rw [State.put, State.put, State.put, State.put, Function.update_comm ne.symm]
  have owns : Owner.Unique (Function.update s.held o none) s.heap s.ledger := by
    rw [← held_of_dead dead, Function.update_eq_self]
    exact sound.owns
  refine ⟨_, rfl, ?_, ⟨[], by simp [State.put], by simp⟩, fun _ => copiesAll_of_none rfl⟩
  rw [order]
  exact sound.move live ne owns rfl ⟨fun _ _ _ => rfl, [], by simp, by simp⟩ left

theorem does_moveAssign {s : State} {o source : Nat} {left : Bytes} (sound : Sound s)
    (callable : Callable s (.moveAssign o source left)) :
    ∃ s', s.call (.moveAssign o source left) = some (false, s') ∧
      Does s (.moveAssign o source left) false s' := by
  obtain ⟨alive, there⟩ := callable
  obtain ⟨this, here⟩ := Option.ne_none_iff_exists'.mp alive
  obtain ⟨img, live⟩ := Option.ne_none_iff_exists'.mp there
  simp only [State.call, here, live, Option.bind_some]
  by_cases self : o = source
  · rw [if_pos self]
    exact ⟨s, rfl, sound, ⟨[], by simp, by simp⟩, fun _ => copiesAll_of_none rfl⟩
  · obtain ⟨t, deleted⟩ := delete_isSome (o := o) sound.owns
    obtain ⟨owns, same, inside⟩ := delete_spec sound.owns deleted
    rw [held_of_objects here] at deleted
    rw [if_neg self, deleted, Option.map_some]
    exact ⟨_, rfl, sound.move live self owns same inside left, inside.releases,
      fun _ => copiesAll_of_none rfl⟩

theorem does_destroy {s : State} {o : Nat} (sound : Sound s)
    (callable : Callable s (.destroy o)) :
    ∃ s', s.call (.destroy o) = some (false, s') ∧ Does s (.destroy o) false s' := by
  obtain ⟨this, here⟩ := Option.ne_none_iff_exists'.mp callable
  obtain ⟨t, deleted⟩ := delete_isSome (o := o) sound.owns
  obtain ⟨owns, same, inside⟩ := delete_spec sound.owns deleted
  rw [held_of_objects here] at deleted
  simp only [State.call, here, Option.bind_some, deleted, Option.map_some]
  refine ⟨_, rfl, sound.store owns same inside ?_, inside.releases,
    fun _ => copiesAll_of_none rfl⟩
  intro img p gone
  cases gone

/-- The copy constructor, where it does not delete what its object never had. -/
theorem does_copyConstruct {s : State} {o other : Nat} {garbage : Uninitialised} {a : Allocator}
    (sound : Sound s) (callable : Callable s (.copyConstruct o other garbage a))
    (null : a.string = true → garbage.data_ = none) :
    ∃ threw s', s.call (.copyConstruct o other garbage a) = some (threw, s') ∧
      Does s (.copyConstruct o other garbage a) threw s' := by
  obtain ⟨dead, there, free⟩ := callable
  obtain ⟨source, live⟩ := Option.ne_none_iff_exists'.mp there
  have ne := ne_of_live live dead
  simp only [State.call, live, Option.bind_some]
  cases string : a.string with
  | false =>
      simp only [State.deepCopy, if_pos string, Option.map_some, if_true]
      exact ⟨true, s, rfl, .unchanged sound⟩
  | true =>
      have null : garbage.data_ = none := null string
      have holds : s.held o = garbage.image.data_ := (held_of_dead dead).trans null.symm
      rcases deepCopy_cases sound holds live ne free with
        ⟨short, -⟩ | ⟨-, -, -, t, deleted, copy⟩ | ⟨img, t, copy, copied⟩
      · rw [string] at short
        cases short
      · rw [← holds, held_of_dead dead] at deleted
        cases deleted
        simp only [copy, Option.map_some, if_true]
        exact ⟨true, s, rfl, .unchanged sound⟩
      · simp only [copy, Option.map_some, Bool.false_eq_true, if_false]
        exact ⟨false, _, rfl, copied.does sound rfl rfl live ne⟩

/-- The copy assignment, where there is room for the new buffer. -/
theorem does_copyAssign {s : State} {o other : Nat} {a : Allocator} (sound : Sound s)
    (callable : Callable s (.copyAssign o other a)) (spares : Spares s (.copyAssign o other a)) :
    ∃ threw s', s.call (.copyAssign o other a) = some (threw, s') ∧
      Does s (.copyAssign o other a) threw s' := by
  obtain ⟨alive, there, free⟩ := callable
  obtain ⟨this, here⟩ := Option.ne_none_iff_exists'.mp alive
  obtain ⟨source, live⟩ := Option.ne_none_iff_exists'.mp there
  have holds := held_of_objects here
  rw [holds] at free
  simp only [State.call, here, live, Option.bind_some]
  by_cases self : o = other
  · rw [if_pos self]
    refine ⟨false, s, rfl, sound, ⟨[], by simp, by simp⟩, ?_⟩
    intro _ b c call
    cases call
    subst self
    exact ⟨source, source, live, live, live, rfl, rfl, rfl, rfl, rfl, rfl⟩
  · rw [if_neg self]
    rcases deepCopy_cases sound holds live (Ne.symm self) free with
      ⟨-, copy⟩ | ⟨string, from_, full, t, deleted, copy⟩ | ⟨img, t, copy, copied⟩
    · simp only [copy, Option.map_some]
      have same : s.put o (some this) = s := by
        rw [State.put, ← here, Function.update_eq_self]
      rw [same]
      exact ⟨true, s, rfl, .unchanged sound⟩
    · -- no room, so `this` had nothing to delete
      have null : s.held o = none := by
        by_contra some_
        exact spares self string some_ from_ full
      rw [← holds, null] at deleted
      cases deleted
      simp only [copy, Option.map_some]
      refine ⟨true, _, rfl, ?_, ⟨[], by simp [State.put], by simp⟩, ?_⟩
      · have owns : Owner.Unique (Function.update s.held o this.data_) s.heap s.ledger := by
          rw [← holds, Function.update_eq_self]
          exact sound.owns
        refine sound.store owns rfl ⟨fun _ _ _ => rfl, [], by simp, by simp⟩ ?_
        intro img p new data
        cases new
        rw [← holds, null] at data
        cases data
      · intro returned
        cases returned
    · simp only [copy, Option.map_some]
      exact ⟨false, _, rfl, copied.does sound rfl rfl live (Ne.symm self)⟩

/-- Step lemma: no such call is undefined. -/
theorem does_of_spares {s : State} {op : Op} (sound : Sound s) (callable : Callable s op)
    (spares : Spares s op) :
    ∃ threw s', s.call op = some (threw, s') ∧ Does s op threw s' := by
  cases op with
  | construct o fileName w h dpi buffer pixels => exact does_construct sound callable spares
  | copyConstruct o other garbage a => exact does_copyConstruct sound callable spares
  | moveConstruct o source left => exact ⟨false, does_moveConstruct sound callable⟩
  | copyAssign o other a => exact does_copyAssign sound callable spares
  | moveAssign o source left => exact ⟨false, does_moveAssign sound callable⟩
  | destroy o => exact ⟨false, does_destroy sound callable⟩

theorem system_step_eq_some {s t : Option State} {op : Op} : system.step s op = some t ↔
    ∃ s₀, s = some s₀ ∧ Callable s₀ op ∧ t = (s₀.call op).map Prod.snd := by
  cases s with
  | none => simp [system]
  | some s₀ => simp [system, eq_comm]

/-- **Run lemma.** -/
theorem sound_run {tr : List Op} {t : Option State}
    (run : (system.restrict AllSpared).run tr = some t) : ∃ s, t = some s ∧ Sound s := by
  refine System.state_invariant (T := system.restrict AllSpared)
    (I := fun t => ∃ s, t = some s ∧ Sound s) ⟨_, rfl, sound_init⟩ ?_ run
  intro s op t before hstep
  obtain ⟨s, rfl, sound⟩ := before
  obtain ⟨spares, hstep⟩ := System.restrict_step_eq_some.mp hstep
  obtain ⟨_, same, callable, rfl⟩ := system_step_eq_some.mp hstep
  cases same
  obtain ⟨threw, s', call, does⟩ := does_of_spares sound callable spares
  rw [call]
  exact ⟨s', rfl, does.sound⟩

theorem Sound.good {s : State} (sound : Sound s) : Good s where
  owner := sound.owns.inj
  sized := by
    intro o img live
    cases data : img.data_ with
    | none => exact .inl rfl
    | some p =>
        obtain ⟨pixels, there, size⟩ := sound.sized o img p live data
        exact .inr ⟨p, pixels, rfl, there, (mul_eq_some.mp size).1.symm⟩
  once := sound.owns.atMostOnce

/-! ## What goes wrong -/

/-- The copy constructor releases what an uninitialised pointer points to. -/
theorem not_releasesOwn {s s' : State} {o other : Nat} {garbage : Uninitialised} {a : Allocator}
    {threw : Bool} (dead : s.objects o = none) (string : a.string = true)
    (some_ : garbage.data_ ≠ none)
    (call : s.call (.copyConstruct o other garbage a) = some (threw, s')) :
    ¬ ReleasesOwn s (.copyConstruct o other garbage a) s' := by
  intro ⟨es, ledger, own⟩
  obtain ⟨q, points⟩ := Option.ne_none_iff_exists'.mp some_
  simp only [State.call, Option.bind_eq_some_iff, Option.map_eq_some_iff] at call
  obtain ⟨source, -, ⟨threw', img, t⟩, copy, same⟩ := call
  cases same
  obtain ⟨rest, released⟩ := deepCopy_deletes string points copy
  have after : (if threw' = true then t else t.put o (some img)).ledger = t.ledger := by
    cases threw' <;> rfl
  rw [after, released] at ledger
  have owned := own q (List.append_cancel_left ledger ▸ List.mem_cons_self)
  have nothing : s.held o = none := held_of_dead dead
  rw [show (Op.copyConstruct o other garbage a).this = o from rfl, nothing] at owned
  cases owned

/-- The copy assignment leaves the address of what it has deleted. -/
theorem not_good {s s' : State} {o other : Nat} {a : Allocator} {threw : Bool} (sound : Sound s)
    (callable : Callable s (.copyAssign o other a)) (garbage : ¬ Spares s (.copyAssign o other a))
    (call : s.call (.copyAssign o other a) = some (threw, s')) : ¬ Good s' := by
  intro good
  unfold Spares at garbage
  simp only [Classical.not_imp, not_not] at garbage
  obtain ⟨ne, string, some_, from_, full⟩ := garbage
  obtain ⟨alive, there, free⟩ := callable
  obtain ⟨this, here⟩ := Option.ne_none_iff_exists'.mp alive
  obtain ⟨source, live⟩ := Option.ne_none_iff_exists'.mp there
  have holds := held_of_objects here
  rw [holds] at free
  obtain ⟨q, points⟩ := Option.ne_none_iff_exists'.mp some_
  rw [points] at holds
  rw [held_of_objects live] at from_
  obtain ⟨b, from_⟩ := Option.ne_none_iff_exists'.mp from_
  obtain ⟨whole, -, size⟩ := sound.sized other source b live from_
  have natural : ¬ (whole.length : Int) < 0 := by omega
  have copies : ¬ a.string = false := by simp [string]
  have deleted : s.delete this.data_ = some (s.free q) := by
    rw [← holds]
    exact delete_eq_some.mpr (.inr ⟨q, rfl, sound.owns.there points, rfl⟩)
  simp only [State.call, here, live, Option.bind_some, if_neg ne, State.deepCopy, if_neg copies,
    deleted, from_, size, if_neg natural, full, Option.map_some, Option.some.injEq,
    Prod.mk.injEq] at call
  obtain ⟨-, rfl⟩ := call
  rcases good.sized o _ (Function.update_self ..) with null | ⟨p, pixels, dangling, stored, -⟩
  · rw [← holds] at null
    cases null
  · rw [← holds] at dangling
    cases dangling
    have gone : Function.update s.heap q none q = some pixels := stored
    rw [Function.update_self] at gone
    cases gone

/-- A call that meets one of these is undefined or does not do as it should. -/
theorem not_steps {s s' : State} {op : Op} {threw : Bool} (sound : Sound s)
    (callable : Callable s op) (garbage : ¬ Spares s op) (call : s.call op = some (threw, s')) :
    ¬ Steps s op threw s' := by
  cases op with
  | construct o fileName w h dpi buffer pixels =>
      have overflow : mul w h = none := not_not.mp garbage
      simp only [State.call, overflow, Option.map_none, reduceCtorEq] at call
  | copyConstruct o other value a =>
      obtain ⟨string, some_⟩ := Classical.not_imp.mp garbage
      exact fun steps => not_releasesOwn callable.1 string some_ call steps.releases
  | copyAssign o other a => exact fun steps => not_good sound callable garbage call steps.good
  | moveConstruct => exact absurd trivial garbage
  | moveAssign => exact absurd trivial garbage
  | destroy => exact absurd trivial garbage

/-! ## The main result -/

/-- **Lifecycle.** In every program with images, no call is undefined, and each releases only
what its object owns, leaves one owner a buffer and buffers of the size of their images, and
copies fields and pixels, if and only if no size of a new image overflows, no copy is
constructed where the uninitialised `data_` is other than null, unless its string cannot be
copied, and no copy assignment between two images with buffers deletes the old one and has
no room for the new one. -/
theorem lawful_iff {tr : List Op} {t : Option State} (run : system.run tr = some t) :
    Lawful tr ↔ (system.restrict AllSpared).run tr = some t := by
  constructor
  · intro lawful
    rcases System.restrict_or_breaks (C := AllSpared) run with
      guarded | ⟨pre, op, post, s₁, s₂, rfl, before, garbage, step, -⟩
    · exact guarded
    · obtain ⟨s, rfl, sound⟩ := sound_run before
      obtain ⟨_, same, callable, -⟩ := system_step_eq_some.mp step
      cases same
      obtain ⟨threw, s', call, steps⟩ :=
        lawful pre op post s rfl (System.run_of_restrict before)
      exact absurd steps (not_steps sound callable garbage call)
  · intro guarded pre op post s split run₁
    subst split
    obtain ⟨s₁, before, rest⟩ := System.run_prefix guarded
    rw [System.run_of_restrict before] at run₁
    cases run₁
    rw [System.runFrom_cons, Option.bind_eq_some_iff] at rest
    obtain ⟨s₂, guardedStep, -⟩ := rest
    obtain ⟨spares, step⟩ := System.restrict_step_eq_some.mp guardedStep
    obtain ⟨_, same, callable, -⟩ := system_step_eq_some.mp step
    cases same
    obtain ⟨_, same, sound⟩ := sound_run before
    cases same
    obtain ⟨threw, s', call, does⟩ := does_of_spares sound callable spares
    exact ⟨threw, s', call, does.sound.good, does.releases, does.copies⟩

/-- An image whose buffer is not to be had, a copy assignment and one without room for the
string, and the images destroyed. -/
def assigned : List Op :=
  [.construct 0 (ascii "img1.svg") 2 1 96 (some 7) [5, 6],
    .construct 1 (ascii "b") 1 1 96 none [9], .construct 1 (ascii "b") 1 1 96 (some 8) [9],
    .copyAssign 1 0 ⟨true, some 9⟩, .copyAssign 0 1 ⟨false, none⟩, .destroy 0, .destroy 1]

theorem lawful_iff_assigned : ∃ s, system.run assigned = some (some s) ∧ Lawful assigned := by
  have run : system.run assigned = some (some _) := rfl
  exact ⟨_, run, (lawful_iff run).mpr rfl⟩

/-- A copy constructed where the uninitialised `data_` is the buffer of another image. -/
def misplaced : List Op :=
  [.construct 0 (ascii "img1.svg") 2 1 96 (some 7) [5, 6],
    .construct 1 (ascii "b") 1 1 96 (some 8) [9],
    .copyConstruct 2 1 ⟨0, 0, 0, some 7⟩ ⟨true, some 9⟩]

theorem not_lawful_garbage :
    ∃ s, system.run misplaced = some (some s) ∧ ¬ Lawful misplaced := by
  refine ⟨_, rfl, fun lawful => ?_⟩
  obtain ⟨threw, s', call, -, ⟨es, ledger, own⟩, -⟩ := lawful [_, _] _ [] _ rfl rfl
  cases call
  have entries : [Entry.opened 7, .opened 8] ++ [Entry.closed 7, .opened 9] =
      [Entry.opened 7, .opened 8] ++ es := ledger
  rw [← List.append_cancel_left entries] at own
  cases own 7 List.mem_cons_self

end CppLab.Patterns.ImageFlyweight
