import CppLab.Lib.System

/-!
# `Painter::DrawSquare` on a `FakeTurtle`

`Turn` computes `(direction_ + degrees) % 360`, which is negative where the sum is,
and the `switch` of `Forward` moves the turtle for 0, 90, 180 and 270 only.

* `Heading` is the abstract view: a heading has a unit vector, and two right turns
  point it back;
* a turtle whose `direction_` is a heading goes along the vector
  (`forward_eq_some`), so four sides lead back;
* any other turtle has turned by 360 degrees after four turns, without coming back
  to its `direction_` (`sides_direction`).

Signed overflow is undefined.
-/

namespace CppLab.Tests

/-! ## Headings -/

inductive Heading
  | north
  | east
  | south
  | west
  deriving DecidableEq, Repr

namespace Heading

/-- `0=north, 90=east, ...` -/
def degrees : Heading → Int32
  | north => 0
  | east => 90
  | south => 180
  | west => 270

/-- A quarter turn. -/
def right : Heading → Heading
  | north => east
  | east => south
  | south => west
  | west => north

def dx : Heading → Int
  | north => 0
  | east => 1
  | south => 0
  | west => -1

def dy : Heading → Int
  | north => 1
  | east => 0
  | south => -1
  | west => 0

theorem dx_right_right (h : Heading) : h.right.right.dx = -h.dx := by cases h <;> rfl

theorem dy_right_right (h : Heading) : h.right.right.dy = -h.dy := by cases h <;> rfl

theorem right_four (h : Heading) : h.right.right.right.right = h := by cases h <;> rfl

theorem dx_sq_add_dy_sq (h : Heading) : h.dx ^ 2 + h.dy ^ 2 = 1 := by cases h <;> rfl

theorem degrees_injective {h k : Heading} (same : h.degrees = k.degrees) : h = k := by
  cases h <;> cases k <;> first | rfl | exact absurd same (by decide)

/-- Of two consecutive sides one changes `x`, the other one `y`. -/
theorem one_axis (h : Heading) : (h.dx = 0 ∧ h.right.dy = 0) ∨ (h.right.dx = 0 ∧ h.dy = 0) := by
  cases h with
  | north | south => exact .inl ⟨rfl, rfl⟩
  | east | west => exact .inr ⟨rfl, rfl⟩

end Heading

/-! ## Points -/

/-- The values of `int`. -/
def IsInt (n : Int) : Prop := -2 ^ 31 ≤ n ∧ n < 2 ^ 31

instance (n : Int) : Decidable (IsInt n) := inferInstanceAs (Decidable (_ ∧ _))

theorem isInt_toInt (a : Int32) : IsInt a.toInt := ⟨a.le_toInt, a.toInt_lt⟩

theorem IsInt.exists_toInt {n : Int} (inside : IsInt n) : ∃ a : Int32, a.toInt = n :=
  ⟨.ofInt n, Int32.toInt_ofInt_of_le inside.1 inside.2⟩

/-- A line of length `|size|`. -/
def Side (size : Int32) (p q : Int32 × Int32) : Prop :=
  (q.1.toInt - p.1.toInt) ^ 2 + (q.2.toInt - p.2.toInt) ^ 2 = size.toInt ^ 2

/-- A heading leads from `p` to `q`. -/
def Leads (h : Heading) (distance : Int32) (p q : Int32 × Int32) : Prop :=
  q.1.toInt = p.1.toInt + h.dx * distance.toInt ∧ q.2.toInt = p.2.toInt + h.dy * distance.toInt

variable {h : Heading} {size : Int32} {p p₁ p₂ p₃ p₄ : Int32 × Int32}

theorem Leads.side (leads : Leads h size p p₁) : Side size p p₁ := by
  unfold Side
  rw [leads.1, leads.2]
  calc (p.1.toInt + h.dx * size.toInt - p.1.toInt) ^ 2 +
        (p.2.toInt + h.dy * size.toInt - p.2.toInt) ^ 2
      = (h.dx ^ 2 + h.dy ^ 2) * size.toInt ^ 2 := by ring
    _ = size.toInt ^ 2 := by rw [h.dx_sq_add_dy_sq, one_mul]

/-- Two right turns point back. -/
theorem Leads.back (leads : Leads h size p p₁) : Leads h.right.right size p₁ p := by
  unfold Leads
  rw [leads.1, leads.2, h.dx_right_right, h.dy_right_right]
  exact ⟨by ring, by ring⟩

/-- Four sides lead back. -/
theorem leads_around (first : Leads h size p p₁) (second : Leads h.right size p₁ p₂)
    (third : Leads h.right.right size p₂ p₃)
    (fourth : Leads h.right.right.right size p₃ p₄) : p = p₄ := by
  unfold Leads at third fourth
  rw [h.dx_right_right, h.dy_right_right] at third
  rw [h.right.dx_right_right, h.right.dy_right_right] at fourth
  refine Prod.ext (Int32.toInt.inj ?_) (Int32.toInt.inj ?_)
  · linarith [first.1, second.1, third.1, fourth.1]
  · linarith [first.2, second.2, third.2, fourth.2]

theorem leads_opposite (first : Leads h size p p₁) (second : Leads h.right size p₁ p₂) :
    p₂.1.toInt = p.1.toInt + (h.dx + h.right.dx) * size.toInt ∧
    p₂.2.toInt = p.2.toInt + (h.dy + h.right.dy) * size.toInt := by
  rw [second.1, second.2, first.1, first.2]
  exact ⟨by ring, by ring⟩

/-- The corners have the coordinates of `p` and of the opposite corner. -/
theorem exists_corners (x : IsInt (p.1.toInt + (h.dx + h.right.dx) * size.toInt))
    (y : IsInt (p.2.toInt + (h.dy + h.right.dy) * size.toInt)) :
    ∃ p₁ p₂ p₃, Leads h size p p₁ ∧ Leads h.right size p₁ p₂ ∧
      Leads h.right.right size p₂ p₃ ∧ Leads h.right.right.right size p₃ p := by
  obtain ⟨px, py⟩ := p
  obtain ⟨qx, x⟩ := x.exists_toInt
  obtain ⟨qy, y⟩ := y.exists_toInt
  rcases h.one_axis with ⟨dx, dy⟩ | ⟨dx, dy⟩
  · rw [dx, zero_add] at x
    rw [dy, add_zero] at y
    have vertical (a : Int32) : Leads h size (a, py) (a, qy) := ⟨by simp [dx], y⟩
    have horizontal (b : Int32) : Leads h.right size (px, b) (qx, b) := ⟨x, by simp [dy]⟩
    exact ⟨(px, qy), (qx, qy), (qx, py), vertical px, horizontal qy, (vertical qx).back,
      (horizontal py).back⟩
  · rw [dx, add_zero] at x
    rw [dy, zero_add] at y
    have horizontal (b : Int32) : Leads h size (px, b) (qx, b) := ⟨x, by simp [dy]⟩
    have vertical (a : Int32) : Leads h.right size (a, py) (a, qy) := ⟨by simp [dx], y⟩
    exact ⟨(qx, py), (qx, qy), (px, qy), horizontal py, vertical qx, (horizontal qy).back,
      (vertical px).back⟩

/-! ## The painter -/

/-- `class Turtle`: what a call makes of a turtle, `none` where it is undefined. -/
class Turtle (τ : Type) where
  penUp : τ → τ
  penDown : τ → τ
  forward : τ → Int32 → Option τ
  turn : τ → Int32 → Option τ
  goTo : τ → Int32 → Int32 → τ
  getX : τ → Int32
  getY : τ → Int32

namespace Painter

variable {τ : Type} [Turtle τ]

/-- The loop of `DrawSquare` with some rounds to go. -/
def sides (size : Int32) : Nat → τ → Option τ
  | 0, t => some t
  | n + 1, t => (Turtle.forward t size).bind fun t => (Turtle.turn t 90).bind (sides size n)

def drawSquare (t : τ) (size : Int32) : Option τ :=
  (sides size 4 (Turtle.penDown t)).map Turtle.penUp

end Painter

/-! ## The turtle -/

/-- The result of an operation on `int`s with the value `n`. -/
def checked (n : Int) : Option Int32 := if IsInt n then some (.ofInt n) else none

theorem checked_eq_some {n : Int} {a : Int32} : checked n = some a ↔ a.toInt = n := by
  unfold checked
  constructor
  · intro result
    obtain ⟨inside, same⟩ := Option.ite_none_right_eq_some.mp result
    cases same
    exact Int32.toInt_ofInt_of_le inside.1 inside.2
  · intro same
    have inside : IsInt n := same ▸ isInt_toInt a
    rw [if_pos inside, ← same, Int32.ofInt_toInt]

theorem map_checked_eq_some {τ : Type} {f : Int32 → τ} {n : Int} {t : τ} :
    (checked n).map f = some t ↔ ∃ a : Int32, a.toInt = n ∧ f a = t := by
  rw [Option.map_eq_some_iff]
  constructor
  · rintro ⟨a, result, same⟩
    exact ⟨a, checked_eq_some.mp result, same⟩
  · rintro ⟨a, value, same⟩
    exact ⟨a, checked_eq_some.mpr value, same⟩

structure FakeTurtle where
  x_ : Int32 := 0
  y_ : Int32 := 0
  direction_ : Int32 := 0
  penDown_ : Bool := false
  path_ : List (Int32 × Int32) := []
  deriving DecidableEq, Repr

namespace FakeTurtle

def penUp (t : FakeTurtle) : FakeTurtle := { t with penDown_ := false }

def penDown (t : FakeTurtle) : FakeTurtle := { t with penDown_ := true }

/-- `if (penDown_) path_.emplace_back(x_, y_);` -/
def mark (t : FakeTurtle) : FakeTurtle :=
  if t.penDown_ then { t with path_ := t.path_ ++ [(t.x_, t.y_)] } else t

/-- The `switch` of `Forward`, which has no `default`. -/
def move (t : FakeTurtle) (distance : Int32) : Option FakeTurtle :=
  if t.direction_ = 0 then
    (checked (t.y_.toInt + distance.toInt)).map fun y => { t with y_ := y }
  else if t.direction_ = 90 then
    (checked (t.x_.toInt + distance.toInt)).map fun x => { t with x_ := x }
  else if t.direction_ = 180 then
    (checked (t.y_.toInt - distance.toInt)).map fun y => { t with y_ := y }
  else if t.direction_ = 270 then
    (checked (t.x_.toInt - distance.toInt)).map fun x => { t with x_ := x }
  else some t

def forward (t : FakeTurtle) (distance : Int32) : Option FakeTurtle :=
  (t.mark.move distance).map mark

def turn (t : FakeTurtle) (degrees : Int32) : Option FakeTurtle :=
  (checked (t.direction_.toInt + degrees.toInt)).map fun sum =>
    { t with direction_ := sum % 360 }

def goTo (t : FakeTurtle) (x y : Int32) : FakeTurtle := { t with x_ := x, y_ := y }

def getX (t : FakeTurtle) : Int32 := t.x_

def getY (t : FakeTurtle) : Int32 := t.y_

instance : Turtle FakeTurtle where
  penUp := penUp
  penDown := penDown
  forward := forward
  turn := turn
  goTo := goTo
  getX := getX
  getY := getY

/-- The calls of the history. -/
inductive Call
  | penUp
  | penDown
  | forward (distance : Int32)
  | turn (degrees : Int32)
  | goTo (x y : Int32)
  deriving DecidableEq, Repr

/-- Calls on a new turtle, which turns by multiples of 90 degrees. -/
def system : System FakeTurtle Call where
  init := {}
  step t
    | .penUp => some t.penUp
    | .penDown => some t.penDown
    | .forward distance => t.forward distance
    | .turn degrees => if 90 ∣ degrees.toInt then t.turn degrees else none
    | .goTo x y => some (t.goTo x y)

/-! ## The square -/

/-- `DrawSquare(size)` has made `t'` of `t`: four sides that are connected and close,
the position and the heading as they were, and the pen up. -/
structure Square (size : Int32) (t t' : FakeTurtle) : Prop where
  path : ∃ p₁ p₂ p₃, t'.path_ = t.path_ ++
      [(t.getX, t.getY), p₁, p₁, p₂, p₂, p₃, p₃, (t.getX, t.getY)] ∧
    Side size (t.getX, t.getY) p₁ ∧ Side size p₁ p₂ ∧ Side size p₂ p₃ ∧
    Side size p₃ (t.getX, t.getY)
  position : t'.getX = t.getX ∧ t'.getY = t.getY
  heading : t'.direction_ = t.direction_
  pen : t'.penDown_ = false

def SquareDrawn (t : FakeTurtle) (size : Int32) : Prop :=
  ∃ t', Painter.drawSquare t size = some t' ∧ Square size t t'

/-- The corner of the square that is opposite to the turtle has `int`s for coordinates. -/
def Room (t : FakeTurtle) (h : Heading) (size : Int32) : Prop :=
  IsInt (t.x_.toInt + (h.dx + h.right.dx) * size.toInt) ∧
  IsInt (t.y_.toInt + (h.dy + h.right.dy) * size.toInt)

/-! ## Headings in every history -/

/-- `direction_` is a multiple of 90 degrees in a full turn to either side. -/
structure Aligned (t : FakeTurtle) : Prop where
  quarter : 90 ∣ t.direction_.toInt
  lower : -360 < t.direction_.toInt
  upper : t.direction_.toInt < 360

theorem turn_eq_some {t t' : FakeTurtle} {degrees : Int32} :
    t.turn degrees = some t' ↔
      ∃ sum, sum.toInt = t.direction_.toInt + degrees.toInt ∧
        { t with direction_ := sum % 360 } = t' :=
  map_checked_eq_some

theorem toInt_rem_360 (sum : Int32) : (sum % 360).toInt = sum.toInt.tmod 360 :=
  Int32.toInt_mod sum 360

theorem Aligned.turn {t t' : FakeTurtle} (aligned : Aligned t) {degrees : Int32}
    (quarter : 90 ∣ degrees.toInt) (turned : t.turn degrees = some t') : Aligned t' := by
  obtain ⟨sum, value, rfl⟩ := turn_eq_some.mp turned
  have quarters : 90 ∣ sum.toInt := value ▸ Int.dvd_add aligned.quarter quarter
  -- the remainder takes whole turns away
  have full : (90 : Int) ∣ 360 * sum.toInt.tdiv 360 := ⟨4 * sum.toInt.tdiv 360, by omega⟩
  refine ⟨?_, ?_, ?_⟩
  · show 90 ∣ (sum % 360).toInt
    rw [toInt_rem_360, Int.tmod_def]
    exact Int.dvd_sub quarters full
  · show -360 < (sum % 360).toInt
    rw [toInt_rem_360]
    exact Int.lt_tmod_of_pos sum.toInt (by decide)
  · show (sum % 360).toInt < 360
    rw [toInt_rem_360]
    exact Int.tmod_lt_of_pos sum.toInt (by decide)

theorem mark_direction (t : FakeTurtle) : t.mark.direction_ = t.direction_ := by
  unfold mark
  cases t.penDown_ <;> rfl

theorem move_direction {t t' : FakeTurtle} {distance : Int32} (moved : t.move distance = some t') :
    t'.direction_ = t.direction_ := by
  unfold move at moved
  split_ifs at moved with north east south west
  · obtain ⟨y, -, rfl⟩ := Option.map_eq_some_iff.mp moved
    rfl
  · obtain ⟨x, -, rfl⟩ := Option.map_eq_some_iff.mp moved
    rfl
  · obtain ⟨y, -, rfl⟩ := Option.map_eq_some_iff.mp moved
    rfl
  · obtain ⟨x, -, rfl⟩ := Option.map_eq_some_iff.mp moved
    rfl
  · cases moved
    rfl

/-- `Forward` keeps `direction_`. -/
theorem forward_direction {t t' : FakeTurtle} {distance : Int32}
    (forwarded : t.forward distance = some t') : t'.direction_ = t.direction_ := by
  obtain ⟨moved, move, rfl⟩ := Option.map_eq_some_iff.mp forwarded
  rw [mark_direction, move_direction move, mark_direction]

/-- **Step lemma.** -/
theorem aligned_step {t t' : FakeTurtle} {c : Call} (aligned : Aligned t)
    (hstep : system.step t c = some t') : Aligned t' := by
  obtain ⟨quarter, lower, upper⟩ := aligned
  cases c with
  | penUp | penDown | goTo x y =>
      cases hstep
      exact ⟨quarter, lower, upper⟩
  | forward distance =>
      have same : t'.direction_ = t.direction_ := forward_direction hstep
      rw [← same] at quarter lower upper
      exact ⟨quarter, lower, upper⟩
  | turn degrees =>
      obtain ⟨quarters, turned⟩ := Option.ite_none_right_eq_some.mp hstep
      exact Aligned.turn ⟨quarter, lower, upper⟩ quarters turned

/-- **Run lemma.** -/
theorem aligned_run {calls : List Call} {t : FakeTurtle} (run : system.run calls = some t) :
    Aligned t :=
  System.state_invariant (T := system) ⟨⟨0, rfl⟩, by decide, by decide⟩
    (fun _ _ _ aligned hstep => aligned_step aligned hstep) run

/-- A turtle that is not turned to the left has a heading. -/
theorem Aligned.exists_heading {t : FakeTurtle} (aligned : Aligned t)
    (right : 0 ≤ t.direction_.toInt) : ∃ h : Heading, t.direction_ = h.degrees := by
  obtain ⟨⟨k, same⟩, -, upper⟩ := aligned
  have quarters : k = 0 ∨ k = 1 ∨ k = 2 ∨ k = 3 := by omega
  rcases quarters with rfl | rfl | rfl | rfl
  · exact ⟨.north, Int32.toInt.inj same⟩
  · exact ⟨.east, Int32.toInt.inj same⟩
  · exact ⟨.south, Int32.toInt.inj same⟩
  · exact ⟨.west, Int32.toInt.inj same⟩

/-! ## A turtle turned to the left -/

theorem tmod_eq_self {a b : Int} (lower : -b < a) (upper : a < b) : a.tmod b = a := by
  rcases Int.le_total 0 a with nonneg | nonpos
  · exact Int.tmod_eq_of_lt nonneg upper
  · have opposite : (-a).tmod b = -a := Int.tmod_eq_of_lt (by omega) (by omega)
    rw [Int.neg_tmod] at opposite
    omega

/-- The rounds add 90 degrees each as long as a full turn is not reached. -/
theorem sides_direction {size : Int32} {n : Nat} {t t' : FakeTurtle}
    (drawn : Painter.sides size n t = some t') (lower : -360 < t.direction_.toInt)
    (upper : t.direction_.toInt + 90 * n < 360) :
    t'.direction_.toInt = t.direction_.toInt + 90 * n := by
  induction n generalizing t with
  | zero =>
      cases drawn
      simp
  | succ n ih =>
      obtain ⟨forwarded, forward, rest⟩ := Option.bind_eq_some_iff.mp drawn
      obtain ⟨turned, turn, rest⟩ := Option.bind_eq_some_iff.mp rest
      obtain ⟨sum, value, rfl⟩ := turn_eq_some.mp turn
      rw [forward_direction forward] at value
      have quarter : (90 : Int32).toInt = 90 := rfl
      have value : sum.toInt = t.direction_.toInt + 90 := value
      -- below a full turn the remainder is the sum itself
      have kept : (sum % 360).toInt = sum.toInt := by
        rw [toInt_rem_360]
        exact tmod_eq_self (by omega) (by omega)
      have last := ih rest (show -360 < (sum % 360).toInt by omega)
        (show (sum % 360).toInt + 90 * n < 360 by omega)
      rw [last]
      show (sum % 360).toInt + 90 * n = _
      omega

/-- Four turns to the right take a turtle that is turned to the left to another
`direction_`. -/
theorem not_squareDrawn {t : FakeTurtle} {size : Int32} (aligned : Aligned t)
    (left : t.direction_.toInt < 0) : ¬ SquareDrawn t size := by
  rintro ⟨t', drawn, square⟩
  obtain ⟨last, sides, rfl⟩ := Option.map_eq_some_iff.mp drawn
  have lower : -360 < (penDown t).direction_.toInt := aligned.lower
  have turned := sides_direction sides lower
    (show t.direction_.toInt + 90 * 4 < 360 by omega)
  have same : last.direction_ = t.direction_ := square.heading
  rw [same] at turned
  have turned : t.direction_.toInt = t.direction_.toInt + 90 * 4 := turned
  omega

/-! ## A turtle with a heading -/

/-- `(x_, y_)` -/
def place (t : FakeTurtle) : Int32 × Int32 := (t.x_, t.y_)

/-- North and south change `y_`. -/
theorem move_vertical {t t' : FakeTurtle} {h : Heading} {distance : Int32} {n : Int}
    (vertical : h.dx = 0) (value : n = t.y_.toInt + h.dy * distance.toInt) :
    ((checked n).map fun y => { t with y_ := y }) = some t' ↔
      ∃ p, Leads h distance t.place p ∧ t.goTo p.1 p.2 = t' := by
  subst value
  rw [map_checked_eq_some]
  unfold Leads
  rw [vertical, Int.zero_mul, Int.add_zero]
  constructor
  · rintro ⟨y, value, same⟩
    exact ⟨(t.x_, y), ⟨rfl, value⟩, same⟩
  · rintro ⟨⟨x, y⟩, ⟨still, value⟩, same⟩
    cases Int32.toInt.inj still
    exact ⟨y, value, same⟩

/-- East and west change `x_`. -/
theorem move_horizontal {t t' : FakeTurtle} {h : Heading} {distance : Int32} {n : Int}
    (horizontal : h.dy = 0) (value : n = t.x_.toInt + h.dx * distance.toInt) :
    ((checked n).map fun x => { t with x_ := x }) = some t' ↔
      ∃ p, Leads h distance t.place p ∧ t.goTo p.1 p.2 = t' := by
  subst value
  rw [map_checked_eq_some]
  unfold Leads
  rw [horizontal, Int.zero_mul, Int.add_zero]
  constructor
  · rintro ⟨x, value, same⟩
    exact ⟨(x, t.y_), ⟨value, rfl⟩, same⟩
  · rintro ⟨⟨x, y⟩, ⟨value, still⟩, same⟩
    cases Int32.toInt.inj still
    exact ⟨x, value, same⟩

theorem move_eq_some {t t' : FakeTurtle} {h : Heading} {distance : Int32}
    (faces : t.direction_ = h.degrees) : t.move distance = some t' ↔
      ∃ p, Leads h distance t.place p ∧ t.goTo p.1 p.2 = t' := by
  have other (k : Heading) (different : h ≠ k) : t.direction_ ≠ k.degrees :=
    fun same => different (Heading.degrees_injective (faces.symm.trans same))
  unfold move
  cases h with
  | north =>
      have here : t.direction_ = 0 := faces
      rw [if_pos here]
      exact move_vertical rfl (by simp only [Heading.dy, Int.one_mul])
  | east =>
      have north : t.direction_ ≠ 0 := other .north nofun
      have here : t.direction_ = 90 := faces
      rw [if_neg north, if_pos here]
      exact move_horizontal rfl (by simp only [Heading.dx, Int.one_mul])
  | south =>
      have north : t.direction_ ≠ 0 := other .north nofun
      have east : t.direction_ ≠ 90 := other .east nofun
      have here : t.direction_ = 180 := faces
      rw [if_neg north, if_neg east, if_pos here]
      exact move_vertical rfl (by simp only [Heading.dy]; omega)
  | west =>
      have north : t.direction_ ≠ 0 := other .north nofun
      have east : t.direction_ ≠ 90 := other .east nofun
      have south : t.direction_ ≠ 180 := other .south nofun
      have here : t.direction_ = 270 := faces
      rw [if_neg north, if_neg east, if_neg south, if_pos here]
      exact move_horizontal rfl (by simp only [Heading.dx]; omega)

/-- After a line to `p`. -/
def lined (t : FakeTurtle) (p : Int32 × Int32) : FakeTurtle :=
  { t with x_ := p.1, y_ := p.2, path_ := t.path_ ++ [t.place, p] }

/-- With the pen down `Forward` draws a line. -/
theorem forward_eq_some {t t' : FakeTurtle} {h : Heading} {distance : Int32}
    (faces : t.direction_ = h.degrees) (down : t.penDown_ = true) :
    t.forward distance = some t' ↔ ∃ p, Leads h distance t.place p ∧ t.lined p = t' := by
  -- the points before and after the move make the line
  have marked : t.mark = { t with path_ := t.path_ ++ [t.place] } := if_pos down
  have line : ∀ p : Int32 × Int32, (t.mark.goTo p.1 p.2).mark = t.lined p := by
    intro p
    rw [marked]
    refine (if_pos down).trans ?_
    simp only [goTo, lined, List.append_assoc, List.singleton_append]
  have faces : t.mark.direction_ = h.degrees := by rw [mark_direction, faces]
  have start : t.mark.place = t.place := by
    rw [marked]
    rfl
  unfold forward
  rw [Option.map_eq_some_iff]
  constructor
  · rintro ⟨moved, move, same⟩
    obtain ⟨p, leads, rfl⟩ := (move_eq_some faces).mp move
    exact ⟨p, start ▸ leads, (line p).symm.trans same⟩
  · rintro ⟨p, leads, same⟩
    have move : t.mark.move distance = some (t.mark.goTo p.1 p.2) :=
      (move_eq_some faces).mpr ⟨p, start.symm ▸ leads, rfl⟩
    exact ⟨_, move, (line p).trans same⟩

/-- After a line to `p` and a turn to the right. -/
def cornered (t : FakeTurtle) (h : Heading) (p : Int32 × Int32) : FakeTurtle :=
  { t.lined p with direction_ := h.right.degrees }

theorem turn_right {t : FakeTurtle} {h : Heading} (faces : t.direction_ = h.degrees) :
    t.turn 90 = some { t with direction_ := h.right.degrees } := by
  unfold turn
  rw [faces]
  cases h with
  | north | east | south | west => rfl

/-- A round of the loop. -/
theorem sides_succ_eq_some {t t' : FakeTurtle} {h : Heading} {size : Int32} {n : Nat}
    (faces : t.direction_ = h.degrees) (down : t.penDown_ = true) :
    Painter.sides size (n + 1) t = some t' ↔
      ∃ p, Leads h size t.place p ∧ Painter.sides size n (t.cornered h p) = some t' := by
  have turned : ∀ p, (t.lined p).turn 90 = some (t.cornered h p) := fun p => turn_right faces
  show ((t.forward size).bind fun t => (t.turn 90).bind (Painter.sides size n)) = some t' ↔ _
  rw [Option.bind_eq_some_iff]
  constructor
  · rintro ⟨forwarded, forward, rest⟩
    obtain ⟨p, leads, rfl⟩ := (forward_eq_some faces down).mp forward
    rw [turned p] at rest
    exact ⟨p, leads, rest⟩
  · rintro ⟨p, leads, rest⟩
    refine ⟨_, (forward_eq_some faces down).mpr ⟨p, leads, rfl⟩, ?_⟩
    rw [turned p]
    exact rest

/-- What `DrawSquare` leaves of a turtle that went over three corners. -/
def drawn (t : FakeTurtle) (p₁ p₂ p₃ : Int32 × Int32) : FakeTurtle :=
  { t with
    penDown_ := false
    path_ := t.path_ ++ [t.place, p₁, p₁, p₂, p₂, p₃, p₃, t.place] }

theorem drawSquare_eq_some {t t' : FakeTurtle} {h : Heading} {size : Int32}
    (faces : t.direction_ = h.degrees) :
    Painter.drawSquare t size = some t' ↔ ∃ p₁ p₂ p₃, Leads h size t.place p₁ ∧
      Leads h.right size p₁ p₂ ∧ Leads h.right.right size p₂ p₃ ∧
      Leads h.right.right.right size p₃ t.place ∧ t.drawn p₁ p₂ p₃ = t' := by
  have back : ∀ p₁ p₂ p₃, ((((t.penDown.cornered h p₁).cornered h.right p₂).cornered
      h.right.right p₃).cornered h.right.right.right t.place).penUp = t.drawn p₁ p₂ p₃ := by
    intro p₁ p₂ p₃
    simp only [cornered, lined, penUp, drawn, penDown, place, Heading.right_four, ← faces,
      List.append_assoc, List.cons_append, List.nil_append]
  show (Painter.sides size 4 t.penDown).map penUp = some t' ↔ _
  rw [Option.map_eq_some_iff]
  constructor
  · rintro ⟨last, sides, rfl⟩
    obtain ⟨p₁, first, sides⟩ := (sides_succ_eq_some (t := t.penDown) faces rfl).mp sides
    obtain ⟨p₂, second, sides⟩ := (sides_succ_eq_some rfl rfl).mp sides
    obtain ⟨p₃, third, sides⟩ := (sides_succ_eq_some rfl rfl).mp sides
    obtain ⟨p₄, fourth, sides⟩ := (sides_succ_eq_some rfl rfl).mp sides
    cases sides
    -- the last corner is where the turtle was
    cases leads_around first second third fourth
    exact ⟨p₁, p₂, p₃, first, second, third, fourth, (back p₁ p₂ p₃).symm⟩
  · rintro ⟨p₁, p₂, p₃, first, second, third, fourth, rfl⟩
    refine ⟨_, ?_, back p₁ p₂ p₃⟩
    refine (sides_succ_eq_some (t := t.penDown) faces rfl).mpr ⟨p₁, first, ?_⟩
    refine (sides_succ_eq_some rfl rfl).mpr ⟨p₂, second, ?_⟩
    refine (sides_succ_eq_some rfl rfl).mpr ⟨p₃, third, ?_⟩
    exact (sides_succ_eq_some rfl rfl).mpr ⟨t.place, fourth, rfl⟩

theorem Square.drawn {t : FakeTurtle} {h : Heading} {size : Int32} {p₁ p₂ p₃ : Int32 × Int32}
    (first : Leads h size t.place p₁) (second : Leads h.right size p₁ p₂)
    (third : Leads h.right.right size p₂ p₃)
    (fourth : Leads h.right.right.right size p₃ t.place) :
    Square size t (t.drawn p₁ p₂ p₃) where
  path := ⟨p₁, p₂, p₃, rfl, first.side, second.side, third.side, fourth.side⟩
  position := ⟨rfl, rfl⟩
  heading := rfl
  pen := rfl

theorem squareDrawn_iff_room {t : FakeTurtle} {h : Heading} {size : Int32}
    (faces : t.direction_ = h.degrees) : SquareDrawn t size ↔ Room t h size := by
  constructor
  · rintro ⟨t', drawn, -⟩
    obtain ⟨p₁, p₂, p₃, first, second, -⟩ := (drawSquare_eq_some faces).mp drawn
    -- the turtle has been at the opposite corner
    obtain ⟨x, y⟩ := leads_opposite first second
    refine ⟨?_, ?_⟩
    · show IsInt (t.place.1.toInt + _)
      rw [← x]
      exact isInt_toInt p₂.1
    · show IsInt (t.place.2.toInt + _)
      rw [← y]
      exact isInt_toInt p₂.2
  · intro room
    have corners := exists_corners (p := t.place) room.1 room.2
    obtain ⟨p₁, p₂, p₃, first, second, third, fourth⟩ := corners
    exact ⟨_, (drawSquare_eq_some faces).mpr ⟨p₁, p₂, p₃, first, second, third, fourth, rfl⟩,
      Square.drawn first second third fourth⟩

/-! ## The main result -/

/-- **The square returns.** In every state that calls lead to, `DrawSquare` draws a
square precisely when `direction_` is one of 0, 90, 180 and 270 and the opposite corner
has `int`s for coordinates. -/
theorem drawSquare_returns_iff {calls : List Call} {t : FakeTurtle}
    (run : system.run calls = some t) (size : Int32) :
    SquareDrawn t size ↔ ∃ h : Heading, t.direction_ = h.degrees ∧ Room t h size := by
  have aligned := aligned_run run
  constructor
  · intro square
    have right : 0 ≤ t.direction_.toInt := by
      by_contra left
      exact not_squareDrawn aligned (by omega) square
    obtain ⟨h, faces⟩ := aligned.exists_heading right
    exact ⟨h, faces, (squareDrawn_iff_room faces).mp square⟩
  · rintro ⟨h, faces, room⟩
    exact (squareDrawn_iff_room faces).mpr room

theorem drawSquare_returns_east :
    ∃ t, system.run [.turn 450, .penDown, .forward 3, .goTo 2 7] = some t ∧ SquareDrawn t (-4) :=
  have run : system.run [.turn 450, .penDown, .forward 3, .goTo 2 7] =
      some ⟨2, 7, 90, true, [(0, 0), (3, 0)]⟩ := by decide
  ⟨_, run, (drawSquare_returns_iff run (-4)).mpr ⟨.east, rfl, by decide, by decide⟩⟩

/-- From -90 degrees the first side is not walked, and the turtle ends at `(10, 0)`. -/
theorem not_squareDrawn_left : ∃ t t', system.run [.turn (-90)] = some t ∧
    Painter.drawSquare t 10 = some t' ∧ t'.getX = 10 ∧ t'.direction_ = 270 ∧
    ¬ SquareDrawn t 10 :=
  ⟨⟨0, 0, -90, false, []⟩, ⟨10, 0, 270, false, [(0, 0), (0, 0), (0, 0), (0, 10), (0, 10), (10, 10),
    (10, 10), (10, 0)]⟩, by decide, by decide, rfl, rfl,
    not_squareDrawn ⟨⟨-1, rfl⟩, by decide, by decide⟩ (by decide)⟩

end FakeTurtle

end CppLab.Tests
