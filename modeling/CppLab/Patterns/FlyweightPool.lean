import CppLab.Lib.System
import CppLab.Patterns.Flyweight
import CppLab.Patterns.ImageFlyweight

/-!
# What clients of the flyweight pool rely on

`getImangeFlyweight` returns a reference into the pool, and the clients keep it while
later calls insert more. The pool leads from a key to the address of its element: an
`std::unordered_map` does not move elements when it grows. An element gets there in
three steps, a temporary, a pair and the element itself, each moved from the one before;
they are calls on images that return.

* `step_cases` says what a call can do;
* `Extends` is what a later pool keeps of an earlier one;
* `shared_run` is what follows for every sequence of calls.
-/

namespace CppLab.Patterns.FlyweightPool

open ImageFlyweight (Image mul movedFrom)
open Flyweight.ImageFlyweightFactory (getKey)

/-- The arguments of a call. -/
structure Request where
  fileName : Bytes
  w : Int32
  h : Int32
  dpi : Int32
  deriving DecidableEq

namespace Request

/-- `w * h` and `w * h * dpi` are within `int` and not negative. -/
def Fits (r : Request) : Prop :=
  (0 ≤ r.w.toInt * r.h.toInt ∧ r.w.toInt * r.h.toInt < 2 ^ 31) ∧
    0 ≤ r.w.toInt * r.h.toInt * r.dpi.toInt ∧ r.w.toInt * r.h.toInt * r.dpi.toInt < 2 ^ 31

instance (r : Request) : Decidable r.Fits := inferInstanceAs (Decidable (_ ∧ _))

def key (r : Request) : Bytes := getKey r.fileName r.w.toInt r.h.toInt r.dpi.toInt

end Request

/-- A call, with what the environment decides when the key is new: the addresses of the
temporary, of the pair, of the element and of the array, the contents of the array, and
what is left in the two strings that are moved from. -/
structure Call extends Request where
  temporary : Nat
  pair : Nat
  element : Nat
  array : Nat
  pixels : List Int32
  left : Bytes
  left' : Bytes

/-- `ImageFlyweight(fileName, w, h, dpi)`, `std::make_pair(key, ·)` and `insert(·)`; the
temporaries are destroyed in the reverse order. -/
def Call.insertion (c : Call) : List ImageFlyweight.Op :=
  [.construct c.temporary c.fileName c.w c.h c.dpi (some c.array) c.pixels,
    .moveConstruct c.pair c.temporary c.left, .moveConstruct c.element c.pair c.left',
    .destroy c.pair, .destroy c.temporary]

/-- `imageFlyweights_`, by the addresses of the elements, and the images in memory. -/
structure State where
  imageFlyweights_ : UnorderedMap Nat
  images : ImageFlyweight.State

/-- The calls on one factory. -/
def system : System State Call where
  init := ⟨.empty, .init⟩
  step s c :=
    if c.Fits then
      match s.imageFlyweights_.find? c.key with
      | none =>
          (ImageFlyweight.returning.runFrom s.images c.insertion).map fun images =>
            ⟨s.imageFlyweights_.set c.key c.element, images⟩
      | some _ => some s
    else none

/-- The address that a call returns after some earlier ones: `at(key)`. -/
def getImangeFlyweight (earlier : List Call) (c : Call) : Option Nat :=
  (system.run (earlier ++ [c])).bind fun s => s.imageFlyweights_.find? c.key

/-- What is in an earlier pool is in a later one under the same key and at the same
address, with the same fields and the same pixels. -/
def Extends (s s' : State) : Prop :=
  ∀ key a, s.imageFlyweights_.find? key = some a → s'.imageFlyweights_.find? key = some a ∧
    ∃ img, s.images.objects a = some img ∧ s'.images.objects a = some img ∧
      s'.images.pixels img = s.images.pixels img

/-- The flyweights that a sequence of calls has returned. -/
structure Shared (tr : List Call) (s : State) : Prop where
  same : ∀ pre c mid c' post, tr = pre ++ c :: (mid ++ c' :: post) →
    c.toRequest = c'.toRequest →
      getImangeFlyweight (pre ++ c :: mid) c' = getImangeFlyweight pre c
  stable : ∀ pre c post, tr = pre ++ c :: post →
    ∃ t a, system.run (pre ++ [c]) = some t ∧ getImangeFlyweight pre c = some a ∧
      t.imageFlyweights_.find? c.key = some a ∧ Extends t s
  counted : s.imageFlyweights_.keys.length = (tr.map (·.key)).toFinset.card

/-! ## One call -/

theorem returning_step_eq_some {s s' : ImageFlyweight.State} {op : ImageFlyweight.Op} :
    ImageFlyweight.returning.step s op = some s' ↔
      ImageFlyweight.Callable s op ∧ s.call op = some (false, s') := by
  simp only [ImageFlyweight.returning, Option.ite_none_right_eq_some, Option.bind_eq_some_iff,
    Prod.exists]
  refine and_congr_right fun _ => ?_
  constructor
  · intro ⟨threw, t, call, returned⟩
    cases threw with
    | false =>
        cases returned
        exact call
    | true => cases returned
  · intro call
    exact ⟨false, s', call, rfl⟩

theorem step_moveConstruct {s s' : ImageFlyweight.State} {o source : Nat} {left : Bytes}
    (hstep : ImageFlyweight.returning.step s (.moveConstruct o source left) = some s') :
    s.objects o = none ∧ ∃ img, s.objects source = some img ∧
      s' = (s.put source (some (movedFrom left))).put o (some img) := by
  obtain ⟨⟨free, -⟩, call⟩ := returning_step_eq_some.mp hstep
  obtain ⟨img, live, same⟩ := Option.map_eq_some_iff.mp call
  cases same
  exact ⟨free, img, live, rfl⟩

/-- What was moved from has nothing to delete. -/
theorem step_destroy {s s' : ImageFlyweight.State} {o : Nat} {left : Bytes}
    (moved : s.objects o = some (movedFrom left))
    (hstep : ImageFlyweight.returning.step s (.destroy o) = some s') : s' = s.put o none := by
  obtain ⟨-, call⟩ := returning_step_eq_some.mp hstep
  simp only [ImageFlyweight.State.call, moved, Option.bind_some, Option.map_eq_some_iff] at call
  obtain ⟨t, deleted, same⟩ := call
  cases same
  cases deleted
  rfl

/-- The temporary, with its array. -/
theorem step_construct {s s' : ImageFlyweight.State} {c : Call} (fits : c.Fits)
    (hstep : ImageFlyweight.returning.step s
      (.construct c.temporary c.fileName c.w c.h c.dpi (some c.array) c.pixels) = some s') :
    s.objects c.temporary = none ∧ s.heap c.array = none ∧
      s' = (s.alloc c.array c.pixels).put c.temporary
        (some ⟨c.fileName, c.w, c.h, c.dpi, some c.array⟩) := by
  obtain ⟨⟨free, fresh, -⟩, call⟩ := returning_step_eq_some.mp hstep
  obtain ⟨size, product, made⟩ := Option.map_eq_some_iff.mp call
  have area : 0 ≤ size := (ImageFlyweight.mul_eq_some.mp product).1 ▸ fits.1.1
  rw [if_neg (Int.not_lt.mpr area)] at made
  cases made
  exact ⟨free, (fresh c.array rfl).resolve_right nofun, rfl⟩

/-- Two temporaries come and go, and the element stays. -/
theorem update_temporaries {objects : Nat → Option Image} {t p e : Nat} {img left left' : Image}
    (ne₂ : e ≠ p) (ne₃ : e ≠ t) (freeT : objects t = none) (freeP : objects p = none) :
    Function.update (Function.update (Function.update (Function.update (Function.update
      (Function.update (Function.update objects t (some img)) t (some left)) p (some img)) p
      (some left')) e (some img)) p none) t none = Function.update objects e (some img) := by
  funext o
  by_cases isT : o = t
  · rw [isT, Function.update_self, Function.update_of_ne ne₃.symm, freeT]
  · rw [Function.update_of_ne isT]
    by_cases isP : o = p
    · rw [isP, Function.update_self, Function.update_of_ne ne₂.symm, freeP]
    · rw [Function.update_of_ne isP]
      by_cases isE : o = e
      · rw [isE, Function.update_self, Function.update_self]
      · rw [Function.update_of_ne isE, Function.update_of_ne isE, Function.update_of_ne isP,
          Function.update_of_ne isP, Function.update_of_ne isT, Function.update_of_ne isT]

/-- What is new in memory after an insertion: the element and its array. -/
theorem insertion_spec {s s' : ImageFlyweight.State} {c : Call} (fits : c.Fits)
    (inserted : ImageFlyweight.returning.runFrom s c.insertion = some s') :
    s.objects c.element = none ∧ s.heap c.array = none ∧
      s'.objects = Function.update s.objects c.element
        (some ⟨c.fileName, c.w, c.h, c.dpi, some c.array⟩) ∧
      s'.heap = Function.update s.heap c.array (some c.pixels) := by
  unfold Call.insertion at inserted
  simp only [System.runFrom_cons, System.runFrom_nil, Option.bind_eq_some_iff] at inserted
  obtain ⟨s₁, first, s₂, second, s₃, third, s₄, fourth, s₅, fifth, same⟩ := inserted
  cases same
  obtain ⟨freeT, fresh, rfl⟩ := step_construct fits first
  obtain ⟨freeP, img, fromT, rfl⟩ := step_moveConstruct second
  obtain ⟨freeE, img', fromP, rfl⟩ := step_moveConstruct third
  simp only [ImageFlyweight.State.put, ImageFlyweight.State.alloc] at freeP fromT freeE fromP
  -- the three addresses differ, since each is free when the one before is in use
  have ne₁ : c.pair ≠ c.temporary := by
    intro same
    rw [same, Function.update_self] at freeP
    cases freeP
  have ne₂ : c.element ≠ c.pair := by
    intro same
    rw [same, Function.update_self] at freeE
    cases freeE
  have ne₃ : c.element ≠ c.temporary := by
    intro same
    rw [same, Function.update_of_ne ne₁.symm, Function.update_self] at freeE
    cases freeE
  rw [Function.update_self] at fromT fromP
  cases fromT
  cases fromP
  have pairLeft := step_destroy  (by
    simp only [ImageFlyweight.State.put]
    rw [Function.update_of_ne ne₂.symm, Function.update_self]) fourth
  subst pairLeft
  have temporaryLeft := step_destroy  (by
    simp only [ImageFlyweight.State.put]
    rw [Function.update_of_ne ne₁.symm, Function.update_of_ne ne₃.symm,
      Function.update_of_ne ne₁.symm, Function.update_of_ne ne₁.symm, Function.update_self]) fifth
  subst temporaryLeft
  refine ⟨?_, fresh, ?_, rfl⟩
  · rw [Function.update_of_ne ne₂, Function.update_of_ne ne₃, Function.update_of_ne ne₃] at freeE
    exact freeE
  · rw [Function.update_of_ne ne₁] at freeP
    exact update_temporaries ne₂ ne₃ freeT freeP

/-- A call that returns leaves the images sound unless its size overflows. -/
theorem sound_returning {s s' : ImageFlyweight.State} {op : ImageFlyweight.Op}
    (sound : ImageFlyweight.Sound s) (hstep : ImageFlyweight.returning.step s op = some s')
    (spares : ImageFlyweight.Spares s op) : ImageFlyweight.Sound s' := by
  obtain ⟨callable, call⟩ := returning_step_eq_some.mp hstep
  obtain ⟨threw, t, call', does⟩ := ImageFlyweight.does_of_spares sound callable spares
  rw [call] at call'
  cases call'
  exact does.sound

theorem spares_construct {s s' : ImageFlyweight.State} {c : Call}
    (hstep : ImageFlyweight.returning.step s
      (.construct c.temporary c.fileName c.w c.h c.dpi (some c.array) c.pixels) = some s') :
    mul c.w c.h ≠ none := by
  obtain ⟨-, call⟩ := returning_step_eq_some.mp hstep
  obtain ⟨size, product, -⟩ := Option.map_eq_some_iff.mp call
  rw [product]
  exact Option.some_ne_none size

/-- The images stay sound. -/
theorem sound_insertion {s s' : ImageFlyweight.State} {c : Call} (sound : ImageFlyweight.Sound s)
    (inserted : ImageFlyweight.returning.runFrom s c.insertion = some s') :
    ImageFlyweight.Sound s' := by
  unfold Call.insertion at inserted
  simp only [System.runFrom_cons, System.runFrom_nil, Option.bind_eq_some_iff] at inserted
  obtain ⟨s₁, first, s₂, second, s₃, third, s₄, fourth, s₅, fifth, same⟩ := inserted
  cases same
  have sound₁ := sound_returning sound first (spares_construct first)
  have sound₂ := sound_returning sound₁ second trivial
  have sound₃ := sound_returning sound₂ third trivial
  have sound₄ := sound_returning sound₃ fourth trivial
  exact sound_returning sound₄ fifth trivial

/-- What a call can do. -/
inductive Effect (s : State) (c : Call) : State → Prop
  | reused {a : Nat} (found : s.imageFlyweights_.find? c.key = some a) : Effect s c s
  | created {images : ImageFlyweight.State} (missing : s.imageFlyweights_.find? c.key = none)
      (free : s.images.objects c.element = none) (fresh : s.images.heap c.array = none)
      (objects : images.objects = Function.update s.images.objects c.element
        (some ⟨c.fileName, c.w, c.h, c.dpi, some c.array⟩))
      (heap : images.heap = Function.update s.images.heap c.array (some c.pixels))
      (sound : ImageFlyweight.Sound s.images → ImageFlyweight.Sound images) :
      Effect s c ⟨s.imageFlyweights_.set c.key c.element, images⟩

/-- **Inversion.** -/
theorem step_cases {s s' : State} {c : Call} (hstep : system.step s c = some s') :
    Effect s c s' := by
  obtain ⟨fits, found⟩ := Option.ite_none_right_eq_some.mp hstep
  cases look : s.imageFlyweights_.find? c.key with
  | none =>
      simp only [look, Option.map_eq_some_iff] at found
      obtain ⟨images, inserted, rfl⟩ := found
      obtain ⟨free, fresh, objects, heap⟩ := insertion_spec fits inserted
      exact .created look free fresh objects heap fun sound => sound_insertion sound inserted
  | some a =>
      simp only [look, Option.some.injEq] at found
      exact found ▸ .reused look

/-- **Invariant.** Every element of the pool is an image, the images are sound, and the
keys are those that have been requested. -/
structure Pooled (tr : List Call) (s : State) : Prop where
  sound : ImageFlyweight.Sound s.images
  there : ∀ key a, s.imageFlyweights_.find? key = some a → ∃ img, s.images.objects a = some img
  keys : ∀ key, key ∈ s.imageFlyweights_.keys ↔ key ∈ tr.map (·.key)

/-- Step lemma. -/
theorem Pooled.step {tr : List Call} {s s' : State} {c : Call} (pooled : Pooled tr s)
    (hstep : system.step s c = some s') : Pooled (tr ++ [c]) s' := by
  cases step_cases hstep with
  | reused found =>
      refine ⟨pooled.sound, pooled.there, fun key => ?_⟩
      have old : c.key ∈ tr.map (·.key) :=
        (pooled.keys c.key).mp ((s.imageFlyweights_.mem_keys_iff c.key).mpr ⟨_, found⟩)
      rw [pooled.keys, List.map_append, List.mem_append, List.map_singleton, List.mem_singleton]
      exact ⟨.inl, fun h => h.elim id fun same => same ▸ old⟩
  | created missing free fresh objects heap sound =>
      refine ⟨sound pooled.sound, fun key a found => ?_, fun key => ?_⟩
      · rw [UnorderedMap.find?_set] at found
        show ∃ img, _ = some img
        rw [objects]
        split at found
        · cases found
          exact ⟨_, Function.update_self ..⟩
        · obtain ⟨img, live⟩ := pooled.there key a found
          have ne := ImageFlyweight.ne_of_live live free
          exact ⟨img, (Function.update_of_ne ne ..).trans live⟩
      · have new : c.key ∉ s.imageFlyweights_.keys := fun member => by
          obtain ⟨a, found⟩ := (s.imageFlyweights_.mem_keys_iff c.key).mp member
          rw [missing] at found
          cases found
        rw [UnorderedMap.keys_set, if_neg new, List.mem_append, pooled.keys, List.map_append,
          List.mem_append]
        rfl

/-- What is in the pool stays there, and stays as it is. -/
theorem extends_step {tr : List Call} {s s' : State} {c : Call} (pooled : Pooled tr s)
    (hstep : system.step s c = some s') : Extends s s' := by
  intro key a found
  obtain ⟨img, live⟩ := pooled.there key a found
  cases step_cases hstep with
  | reused _ => exact ⟨found, img, live, live, rfl⟩
  | created missing free fresh objects heap _ =>
      have other : key ≠ c.key := by
        rintro rfl
        rw [missing] at found
        cases found
      have ne := ImageFlyweight.ne_of_live live free
      refine ⟨?_, img, live, ?_, ?_⟩
      · rw [UnorderedMap.find?_set, if_neg other]
        exact found
      · rw [objects, Function.update_of_ne ne]
        exact live
      · show img.data_.bind _ = img.data_.bind _
        rw [heap]
        cases data : img.data_ with
        | none => rfl
        | some q =>
            obtain ⟨pixels, here, -⟩ := pooled.sound.sized a img q live data
            have apart : q ≠ c.array := by
              rintro rfl
              rw [fresh] at here
              cases here
            exact Function.update_of_ne apart ..

/-! ## No call is missing -/

theorem exists_moveConstruct {s : ImageFlyweight.State} (sound : ImageFlyweight.Sound s)
    {o source : Nat} {img : Image} (left : Bytes) (free : s.objects o = none)
    (live : s.objects source = some img) :
    ∃ s', ImageFlyweight.returning.step s (.moveConstruct o source left) = some s' ∧
      ImageFlyweight.Sound s' ∧ s'.objects = Function.update
        (Function.update s.objects source (some (movedFrom left))) o (some img) := by
  have callable : ImageFlyweight.Callable s (.moveConstruct o source left) :=
    ⟨free, by rw [live]; exact Option.some_ne_none img⟩
  obtain ⟨s', call, does⟩ := ImageFlyweight.does_moveConstruct sound callable
  have hstep := returning_step_eq_some.mpr ⟨callable, call⟩
  refine ⟨s', hstep, does.sound, ?_⟩
  obtain ⟨-, img', here, rfl⟩ := step_moveConstruct hstep
  cases live.symm.trans here
  rfl

theorem exists_destroy {s : ImageFlyweight.State} (sound : ImageFlyweight.Sound s) {o : Nat}
    {left : Bytes} (moved : s.objects o = some (movedFrom left)) :
    ∃ s', ImageFlyweight.returning.step s (.destroy o) = some s' ∧ ImageFlyweight.Sound s' ∧
      s'.objects = Function.update s.objects o none := by
  have callable : ImageFlyweight.Callable s (.destroy o) := by
    show s.objects o ≠ none
    rw [moved]
    exact Option.some_ne_none _
  obtain ⟨s', call, does⟩ := ImageFlyweight.does_destroy sound callable
  have hstep := returning_step_eq_some.mpr ⟨callable, call⟩
  refine ⟨s', hstep, does.sound, ?_⟩
  rw [step_destroy moved hstep]
  rfl

/-- With free addresses there is nothing in the way of a call. -/
theorem exists_step {tr : List Call} {s : State} {c : Call} (pooled : Pooled tr s)
    (fits : c.Fits) (freeT : s.images.objects c.temporary = none)
    (freeP : s.images.objects c.pair = none) (freeE : s.images.objects c.element = none)
    (ne₁ : c.pair ≠ c.temporary) (ne₂ : c.element ≠ c.pair) (ne₃ : c.element ≠ c.temporary)
    (fresh : s.images.heap c.array = none)
    (sized : (c.pixels.length : Int) = c.w.toInt * c.h.toInt) :
    ∃ s', system.step s c = some s' := by
  show ∃ s', (if c.Fits then _ else none) = some s'
  rw [if_pos fits]
  cases look : s.imageFlyweights_.find? c.key with
  | some a => exact ⟨s, rfl⟩
  | none =>
      have product : mul c.w c.h = some (c.pixels.length : Int) :=
        ImageFlyweight.mul_eq_some.mpr ⟨sized.symm, by omega, sized ▸ fits.1.2⟩
      have callable : ImageFlyweight.Callable s.images
          (.construct c.temporary c.fileName c.w c.h c.dpi (some c.array) c.pixels) := by
        refine ⟨freeT, ?_, ?_⟩
        · intro p given
          cases given
          exact .inl fresh
        · intro size same _
          rw [product] at same
          exact Option.some.inj same
      have natural : ¬ (c.pixels.length : Int) < 0 := by omega
      have call : s.images.call
          (.construct c.temporary c.fileName c.w c.h c.dpi (some c.array) c.pixels) =
            some (false, (s.images.alloc c.array c.pixels).put c.temporary
              (some ⟨c.fileName, c.w, c.h, c.dpi, some c.array⟩)) := by
        simp only [ImageFlyweight.State.call, product, Option.map_some, if_neg natural]
      have first := returning_step_eq_some.mpr ⟨callable, call⟩
      have sound₁ := sound_returning pooled.sound first (spares_construct first)
      have objects₁ : _ = Function.update s.images.objects c.temporary _ :=
        congrArg ImageFlyweight.State.objects (step_construct fits first).2.2
      obtain ⟨s₂, second, sound₂, objects₂⟩ := exists_moveConstruct sound₁ (o := c.pair) c.left
        (by rw [objects₁, Function.update_of_ne ne₁, freeP])
        (by rw [objects₁, Function.update_self])
      obtain ⟨s₃, third, sound₃, objects₃⟩ := exists_moveConstruct sound₂ (o := c.element) c.left'
        (by rw [objects₂, Function.update_of_ne ne₂, Function.update_of_ne ne₃, objects₁,
          Function.update_of_ne ne₃, freeE])
        (by rw [objects₂, Function.update_self])
      obtain ⟨s₄, fourth, sound₄, objects₄⟩ := exists_destroy sound₃ (o := c.pair)
        (by rw [objects₃, Function.update_of_ne ne₂.symm, Function.update_self])
      obtain ⟨s₅, fifth, -, -⟩ := exists_destroy sound₄ (o := c.temporary)
        (by rw [objects₄, Function.update_of_ne ne₁.symm, objects₃,
          Function.update_of_ne ne₃.symm, Function.update_of_ne ne₁.symm, objects₂,
          Function.update_of_ne ne₁.symm, Function.update_self])
      have inserted : ImageFlyweight.returning.runFrom s.images c.insertion = some s₅ := by
        unfold Call.insertion
        simp only [System.runFrom_cons, first, second, third, fourth, fifth, Option.bind_some,
          System.runFrom_nil]
      simp only [inserted, Option.map_some]
      exact ⟨_, rfl⟩

/-! ## Sequences of calls -/

theorem Extends.trans {s s₁ s₂ : State} (first : Extends s s₁) (second : Extends s₁ s₂) :
    Extends s s₂ := by
  intro key a found
  obtain ⟨found₁, img, live, live₁, pixels⟩ := first key a found
  obtain ⟨found₂, img', live', live₂, pixels'⟩ := second key a found₁
  cases live₁.symm.trans live'
  exact ⟨found₂, img, live, live₂, pixels'.trans pixels⟩

theorem extends_refl {tr : List Call} {s : State} (pooled : Pooled tr s) : Extends s s := by
  intro key a found
  obtain ⟨img, live⟩ := pooled.there key a found
  exact ⟨found, img, live, live, rfl⟩

/-- Run lemma. -/
theorem pooled_run {tr : List Call} {s : State} (run : system.run tr = some s) : Pooled tr s := by
  refine System.run_invariant (I := Pooled) ?_ (fun _ _ _ _ _ pooled => pooled.step) run
  refine ⟨ImageFlyweight.sound_init, fun key a found => ?_, fun key => ?_⟩
  · cases found
  · exact iff_of_false List.not_mem_nil List.not_mem_nil

/-- Later calls only add to the pool. -/
theorem extends_runFrom {tr later : List Call} {s s' : State} (run : system.run tr = some s)
    (more : system.runFrom s later = some s') : Extends s s' := by
  induction later generalizing tr s with
  | nil =>
      cases more
      exact extends_refl (pooled_run run)
  | cons c later ih =>
      rw [System.runFrom_cons] at more
      obtain ⟨s₁, hstep, rest⟩ := Option.bind_eq_some_iff.mp more
      have run₁ : system.run (tr ++ [c]) = some s₁ :=
        System.run_concat_eq_some.mpr ⟨s, run, hstep⟩
      exact (extends_step (pooled_run run) hstep).trans (ih run₁ rest)

/-- A call returns the address of its element. -/
theorem exists_returned {tr : List Call} {c : Call} {s : State}
    (run : system.run (tr ++ [c]) = some s) :
    ∃ a, getImangeFlyweight tr c = some a ∧ s.imageFlyweights_.find? c.key = some a := by
  obtain ⟨t, before, hstep⟩ := System.run_concat_eq_some.mp run
  have returned : getImangeFlyweight tr c = s.imageFlyweights_.find? c.key := by
    rw [getImangeFlyweight, run]
    rfl
  rw [returned]
  cases step_cases hstep with
  | @reused a found => exact ⟨a, found, found⟩
  | created missing free fresh objects heap sound =>
      have found := UnorderedMap.find?_set t.imageFlyweights_ c.key c.element c.key
      rw [if_pos rfl] at found
      exact ⟨c.element, found, found⟩

/-- The state after the first calls of a run. -/
theorem exists_after {tr pre post : List Call} {c : Call} {s : State}
    (run : system.run tr = some s) (split : tr = pre ++ c :: post) :
    ∃ t, system.run (pre ++ [c]) = some t ∧ system.runFrom t post = some s := by
  rw [split, ← List.singleton_append, ← List.append_assoc] at run
  exact System.run_prefix run

/-- **The pool.** After every sequence of calls on a factory: equal arguments have got the
same flyweight, every flyweight that was returned is still in the pool at its address,
with the same fields and pixels, and the pool has one flyweight for each key. -/
theorem shared_run (tr : List Call) (s : State) (run : system.run tr = some s) : Shared tr s where
  same := by
    intro pre c mid c' post split arguments
    obtain ⟨t, first, later⟩ := exists_after run split
    have split' : tr = (pre ++ c :: mid) ++ c' :: post := by
      rw [split, ← List.cons_append, ← List.append_assoc]
    obtain ⟨t', second, -⟩ := exists_after run split'
    obtain ⟨a, returned, found⟩ := exists_returned first
    obtain ⟨a', returned', found'⟩ := exists_returned second
    -- the second call ends in a state that extends the one after the first
    have between : system.runFrom t (mid ++ [c']) = some t' := by
      have whole : (pre ++ c :: mid) ++ [c'] = (pre ++ [c]) ++ (mid ++ [c']) := by simp
      rw [whole, System.run_append, first, Option.bind_some] at second
      exact second
    have still := (extends_runFrom first between c.key a found).1
    have key : c.key = c'.key := congrArg Request.key arguments
    rw [key, found'] at still
    rw [returned, returned', still]
  stable := by
    intro pre c post split
    obtain ⟨t, first, later⟩ := exists_after run split
    obtain ⟨a, returned, found⟩ := exists_returned first
    exact ⟨t, a, first, returned, found, extends_runFrom first later⟩
  counted := by
    have pooled := pooled_run run
    have distinct : s.imageFlyweights_.keys.Nodup := s.imageFlyweights_.nodup
    rw [← List.toFinset_card_of_nodup distinct]
    congr 1
    ext key
    rw [List.mem_toFinset, List.mem_toFinset]
    exact pooled.keys key

/-- A landscape image, twice, and between them one whose key is new. -/
def gallery : List Call :=
  [⟨⟨ascii "img1.svg", 2, 1, 96⟩, 0, 1, 2, 7, [5, 6], [], []⟩,
    ⟨⟨ascii "img2.svg", 1, 1, 96⟩, 0, 1, 3, 8, [9], [], []⟩,
    ⟨⟨ascii "img1.svg", 2, 1, 96⟩, 0, 1, 4, 9, [], [], []⟩]

theorem shared_gallery : ∃ s, system.run gallery = some s ∧ Shared gallery s ∧
    s.imageFlyweights_.keys.length = 2 := by
  have keys : (system.run gallery).map (·.imageFlyweights_.keys.length) = some 2 := by decide
  obtain ⟨s, run, two⟩ := Option.map_eq_some_iff.mp keys
  exact ⟨s, run, shared_run gallery s run, two⟩

end CppLab.Patterns.FlyweightPool
