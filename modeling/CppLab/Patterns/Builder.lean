import CppLab.Lib.System
import CppLab.Env.StdString

/-!
# `AbstractBuilder` and the two concrete builders

`build()` moves the product out of `product_` and leaves the pointer null;
`reset()` alone makes a new product. A `produce_part_N()` on a null `product_`
is a step that does not exist. `product_tracks` says what is in `product_` after
any sequence of calls, and `reusable_iff` which sequences are in order.
-/

namespace CppLab.Patterns.Builder

/-- The product: `parts_`. -/
structure Product where
  parts_ : List Bytes := []
  deriving DecidableEq, Repr

def Product.add_part (p : Product) (part : Bytes) : Product := ⟨p.parts_ ++ [part]⟩

/-- `AbstractBuilder`; the `unique_ptr` is null or has its product. -/
structure AbstractBuilder where
  product_ : Option Product
  deriving DecidableEq, Repr

namespace AbstractBuilder

/-- The constructor. -/
def new : AbstractBuilder := ⟨some {}⟩

def reset (_ : AbstractBuilder) : AbstractBuilder := ⟨some {}⟩

/-- `product_->add_part(part)`, `none` through a null pointer. -/
def produce (part : Bytes) (b : AbstractBuilder) : Option AbstractBuilder :=
  b.product_.map fun p => ⟨some (p.add_part part)⟩

/-- `return std::move(product_)`. -/
def build (b : AbstractBuilder) : Option Product × AbstractBuilder := (b.product_, ⟨none⟩)

end AbstractBuilder

namespace SimpleBuilder

def part_1 : Bytes := ascii "PART1"
def part_2 : Bytes := ascii "PART2"
def part_3 : Bytes := ascii "PART3"

def produce_part_1 := AbstractBuilder.produce part_1
def produce_part_2 := AbstractBuilder.produce part_2
def produce_part_3 := AbstractBuilder.produce part_3

end SimpleBuilder

namespace ComplexBuilder

def part_1 : Bytes := ascii "PART_1-X9a7Fq!2@Lm#48Z"
def part_2 : Bytes := ascii "PART_2-X9a7Fq!2@Lm#48Z"
def part_3 : Bytes := ascii "PART_3-X9a7Fq!2@Lm#48Z"

def produce_part_1 := AbstractBuilder.produce part_1
def produce_part_2 := AbstractBuilder.produce part_2
def produce_part_3 := AbstractBuilder.produce part_3

end ComplexBuilder

/-- The concrete class. -/
inductive Kind
  | simple
  | complex
  deriving DecidableEq, Repr

/-- The methods of `IBuilder`. -/
inductive Op
  | reset
  | produce_part_1
  | produce_part_2
  | produce_part_3
  | build
  deriving DecidableEq, Repr

/-- A virtual call. -/
def call : Kind → Op → AbstractBuilder → Option AbstractBuilder
  | _, .reset, b => some b.reset
  | .simple, .produce_part_1, b => SimpleBuilder.produce_part_1 b
  | .simple, .produce_part_2, b => SimpleBuilder.produce_part_2 b
  | .simple, .produce_part_3, b => SimpleBuilder.produce_part_3 b
  | .complex, .produce_part_1, b => ComplexBuilder.produce_part_1 b
  | .complex, .produce_part_2, b => ComplexBuilder.produce_part_2 b
  | .complex, .produce_part_3, b => ComplexBuilder.produce_part_3 b
  | _, .build, b => some b.build.2

/-- A builder from its construction on. -/
def system (k : Kind) : System AbstractBuilder Op where
  init := .new
  step b op := call k op b

/-- The text of the part that a call produces. -/
def part : Kind → Op → Option Bytes
  | .simple, .produce_part_1 => some SimpleBuilder.part_1
  | .simple, .produce_part_2 => some SimpleBuilder.part_2
  | .simple, .produce_part_3 => some SimpleBuilder.part_3
  | .complex, .produce_part_1 => some ComplexBuilder.part_1
  | .complex, .produce_part_2 => some ComplexBuilder.part_2
  | .complex, .produce_part_3 => some ComplexBuilder.part_3
  | _, _ => none

/-- The parts produced since the latest of construction, `reset()` and `build()`. -/
def produced (k : Kind) (tr : List Op) : List Bytes :=
  (tr.rtakeWhile fun op => (part k op).isSome).filterMap (part k)

/-- No call goes through a null pointer, and every `build()` returns a product
with the parts produced for it. -/
def Reusable (k : Kind) (tr : List Op) : Prop :=
  (system k).run tr ≠ none ∧
  ∀ pre post b, tr = pre ++ .build :: post → (system k).run pre = some b →
    b.build.1 = some ⟨produced k pre⟩

/-- What a `build()` is followed by, if anything, is a `reset()`. -/
def ResetAfterBuild (tr : List Op) : Prop := tr.IsChain fun a b => a = .build → b = .reset

/-! ## The product under construction -/

/-- The calls by what they do to the builder. -/
theorem call_cases (k : Kind) (op : Op) (b : AbstractBuilder) :
    (op = .reset ∧ part k op = none ∧ call k op b = some b.reset) ∨
    (op = .build ∧ part k op = none ∧ call k op b = some b.build.2) ∨
    (op ≠ .reset ∧ op ≠ .build ∧ ∃ text, part k op = some text ∧ call k op b = b.produce text) := by
  cases op with
  | reset => exact .inl ⟨rfl, by cases k <;> rfl, by cases k <;> rfl⟩
  | build => exact .inr (.inl ⟨rfl, by cases k <;> rfl, by cases k <;> rfl⟩)
  | produce_part_1 => cases k <;> exact .inr (.inr ⟨by simp, by simp, _, rfl, rfl⟩)
  | produce_part_2 => cases k <;> exact .inr (.inr ⟨by simp, by simp, _, rfl, rfl⟩)
  | produce_part_3 => cases k <;> exact .inr (.inr ⟨by simp, by simp, _, rfl, rfl⟩)

theorem produced_concat_none {k : Kind} {op : Op} (nothing : part k op = none) (tr : List Op) :
    produced k (tr ++ [op]) = [] := by
  rw [produced, List.rtakeWhile_concat_neg _ _ _ (by simp [nothing]), List.filterMap_nil]

theorem produced_concat_some {k : Kind} {op : Op} {text : Bytes} (produces : part k op = some text)
    (tr : List Op) : produced k (tr ++ [op]) = produced k tr ++ [text] := by
  rw [produced, List.rtakeWhile_concat_pos _ _ _ (by simp [produces]), List.filterMap_append,
    List.filterMap_cons_some produces, List.filterMap_nil]
  rfl

/-- **Invariant.** `product_` is null right after a `build()`, and otherwise has
the parts produced so far. -/
theorem product_tracks {k : Kind} {tr : List Op} {b : AbstractBuilder}
    (run : (system k).run tr = some b) :
    b.product_ = if tr.getLast? = some .build then none else some ⟨produced k tr⟩ := by
  refine System.run_invariant (I := fun tr (b : AbstractBuilder) =>
    b.product_ = if tr.getLast? = some .build then none else some ⟨produced k tr⟩) rfl ?_ run
  intro tr b op b' _ tracks hstep
  rw [List.getLast?_concat]
  change call k op b = some b' at hstep
  rcases call_cases k op b with ⟨rfl, nothing, called⟩ | ⟨rfl, nothing, called⟩ |
    ⟨-, other, text, produces, called⟩
  · rw [called] at hstep
    injection hstep with made
    rw [← made, produced_concat_none nothing]
    rfl
  · rw [called] at hstep
    injection hstep with made
    rw [← made]
    rfl
  · rw [called, AbstractBuilder.produce, tracks] at hstep
    rw [if_neg (by simp [other]), produced_concat_some produces]
    split at hstep
    · cases hstep
    · injection hstep with made
      rw [← made]
      rfl

/-- After a `build()` nothing but `reset()` is in order. -/
theorem call_after_build {k : Kind} {tr : List Op} {b : AbstractBuilder}
    (run : (system k).run tr = some b) (built : tr.getLast? = some .build) (op : Op) :
    (call k op b ≠ none ∧ (op = .build → b.build.1 = some ⟨produced k tr⟩)) ↔ op = .reset := by
  have null := product_tracks run
  rw [if_pos built] at null
  rcases call_cases k op b with ⟨rfl, -, called⟩ | ⟨rfl, -, called⟩ |
    ⟨notReset, -, text, -, called⟩
  · simp [called]
  · simp [AbstractBuilder.build, null]
  · simp [called, AbstractBuilder.produce, null, notReset]

/-- Before a `build()`, everything is. -/
theorem call_before_build {k : Kind} {tr : List Op} {b : AbstractBuilder}
    (run : (system k).run tr = some b) (notBuilt : tr.getLast? ≠ some .build) (op : Op) :
    call k op b ≠ none ∧ (op = .build → b.build.1 = some ⟨produced k tr⟩) := by
  have product := product_tracks run
  rw [if_neg notBuilt] at product
  refine ⟨?_, fun _ => product⟩
  rcases call_cases k op b with ⟨-, -, called⟩ | ⟨-, -, called⟩ | ⟨-, -, text, -, called⟩
  · simp [called]
  · simp [called]
  · simp [called, AbstractBuilder.produce, product]

theorem reusable_nil (k : Kind) : Reusable k [] := by
  refine ⟨by simp, ?_⟩
  intro pre post b split
  simp at split

/-- One call more. -/
theorem reusable_concat {k : Kind} {tr : List Op} {op : Op} :
    Reusable k (tr ++ [op]) ↔ Reusable k tr ∧ ∃ b, (system k).run tr = some b ∧
      call k op b ≠ none ∧ (op = .build → b.build.1 = some ⟨produced k tr⟩) := by
  constructor
  · intro reusable
    obtain ⟨b', run'⟩ := Option.ne_none_iff_exists'.mp reusable.1
    obtain ⟨b, run, step⟩ := System.run_concat_eq_some.mp run'
    refine ⟨⟨by simp [run], ?_⟩, b, run, ?_, ?_⟩
    · intro pre post b₁ split
      exact reusable.2 pre (post ++ [op]) b₁ (by simp [split])
    · rw [show call k op b = some b' from step]
      simp
    · rintro rfl
      exact reusable.2 tr [] b rfl run
  · rintro ⟨reusable, b, run, called, returned⟩
    obtain ⟨b', step⟩ := Option.ne_none_iff_exists'.mp called
    have run' : (system k).run (tr ++ [op]) = some b' :=
      System.run_concat_eq_some.mpr ⟨b, run, step⟩
    refine ⟨by simp [run'], ?_⟩
    intro pre post b₁ split run₁
    rcases System.concat_eq_append_cons.mp split with ⟨-, rfl, rfl⟩ | ⟨post, -, earlier⟩
    · rw [run] at run₁
      cases run₁
      exact returned rfl
    · exact reusable.2 pre post b₁ earlier run₁

theorem resetAfterBuild_concat {tr : List Op} {op : Op} :
    ResetAfterBuild (tr ++ [op]) ↔
      ResetAfterBuild tr ∧ (tr.getLast? = some .build → op = .reset) := by
  have pairs : (∀ a ∈ tr.getLast?, ∀ b ∈ [op].head?, a = Op.build → b = .reset) ↔
      (tr.getLast? = some .build → op = .reset) := by
    constructor
    · intro each built
      exact each .build built op rfl rfl
    · intro reset a last b first built
      injection first with same
      subst same built
      exact reset last
  rw [ResetAfterBuild, List.isChain_append, pairs]
  simp [ResetAfterBuild]

/-! ## The main result -/

/-- **Builder reuse.** For either builder and every sequence of calls: no call
goes through a null pointer and every `build()` returns the parts produced for
it if and only if the call after a `build()`, where there is one, is `reset()`. -/
theorem reusable_iff (k : Kind) (tr : List Op) : Reusable k tr ↔ ResetAfterBuild tr := by
  induction tr using List.reverseRecOn with
  | nil => exact ⟨fun _ => List.IsChain.nil, fun _ => reusable_nil k⟩
  | append_singleton tr op ih =>
      rw [reusable_concat, resetAfterBuild_concat, ih]
      apply and_congr_right
      intro reset
      obtain ⟨b, run⟩ := Option.ne_none_iff_exists'.mp (ih.mpr reset).1
      by_cases built : tr.getLast? = some .build
      · simp [run, built, call_after_build run built op]
      · have ordered := call_before_build run built op
        exact ⟨fun _ h => absurd h built, fun _ => ⟨b, run, ordered⟩⟩

/-- `build()` and then a part: `product_` is null. -/
theorem not_reusable_produce : ¬ ∀ k tr, Reusable k tr := by
  intro reusable
  have run := (reusable .simple [.build, .produce_part_1]).1
  exact run rfl

end CppLab.Patterns.Builder
