import CppLab.Patterns.Flyweight

/-!
# The two `simple_printf`

The C-style function reads an argument for each `d`, `c` and `f` of its format and
passes over every other character. The variadic template takes an argument for
each character, and throws at one that is no specifier; with no argument left it
does not look at the format any more.

A format is what stands in front of its terminating zero, and a line is the text
that `LOG` is given. What is undefined is `none`: an argument that is not there,
or one of another type than `va_arg` asks for.
-/

namespace CppLab.Utils.Variadic

open Patterns.Flyweight (toDecimal)

/-- The `double` of the platform: `std::to_string`, and the conversions that
`static_cast` makes, where these are defined. -/
structure Double (D : Type*) where
  toString : D → Bytes
  ofInt : Int → D
  toInt : D → Option Int
  toChar : D → Option UInt8

/-- An argument with its type. -/
inductive Arg (D : Type*)
  | int (value : Int)
  | char (value : UInt8)
  | double (value : D)
  deriving DecidableEq, Repr

/-- What has been logged, and what has been thrown. -/
structure Outcome where
  lines : List Bytes
  thrown : Option String
  deriving DecidableEq, Repr

variable {D : Type*}

/-- A `char` that is converted to `int`; it is signed. -/
def promote (c : UInt8) : Int := if c.toNat < 128 then c.toNat else c.toNat - 256

/-- `static_cast<char>` of an `int`. -/
def toChar (value : Int) : UInt8 := (value % 256).toNat.toUInt8

namespace CStyle

/-- `va_arg(args, int)`; a `char` has been promoted. -/
def vaInt : List (Arg D) → Option (Int × List (Arg D))
  | .int value :: args => some (value, args)
  | .char value :: args => some (promote value, args)
  | _ => none

/-- `va_arg(args, double)`. -/
def vaDouble : List (Arg D) → Option (D × List (Arg D))
  | .double value :: args => some (value, args)
  | _ => none

/-- `c_variadic_style::simple_printf`, with the lines logged so far. -/
def simple_printf (double : Double D) : Bytes → List (Arg D) → List Bytes → Option Outcome
  | [], _, lines => some ⟨lines, none⟩
  | b :: fmt, args, lines =>
      if b = 100 then
        (vaInt args).bind fun (value, args) =>
          simple_printf double fmt args (lines ++ [toDecimal value])
      else if b = 99 then
        (vaInt args).bind fun (value, args) =>
          simple_printf double fmt args (lines ++ [[toChar value]])
      else if b = 102 then
        (vaDouble args).bind fun (value, args) =>
          simple_printf double fmt args (lines ++ [double.toString value])
      else simple_printf double fmt args lines

end CStyle

namespace ModernStyle

/-- `static_cast<int>(value)`. -/
def castInt (double : Double D) : Arg D → Option Int
  | .int value => some value
  | .char value => some (promote value)
  | .double value => double.toInt value

/-- `static_cast<char>(value)`. -/
def castChar (double : Double D) : Arg D → Option UInt8
  | .int value => some (toChar value)
  | .char value => some value
  | .double value => double.toChar value

/-- `static_cast<double>(value)`. -/
def castDouble (double : Double D) : Arg D → D
  | .int value => double.ofInt value
  | .char value => double.ofInt (promote value)
  | .double value => value

/-- `print_arg`: the line, or what it throws. -/
def print_arg (double : Double D) (fmt : UInt8) (value : Arg D) : Option (Except String Bytes) :=
  if fmt = 100 then (castInt double value).map fun v => .ok (toDecimal v)
  else if fmt = 99 then (castChar double value).map fun c => .ok [c]
  else if fmt = 102 then some (.ok (double.toString (castDouble double value)))
  else some (.error "Unknown format specifier")

/-- `modern_variadic_style::simple_printf`, with the lines logged so far. -/
def simple_printf (double : Double D) : Bytes → List (Arg D) → List Bytes → Option Outcome
  | _, [], lines => some ⟨lines, none⟩
  | [], _ :: _, lines => some ⟨lines, none⟩
  | b :: fmt, value :: args, lines =>
      (print_arg double b value).bind fun
        | .ok line => simple_printf double fmt args (lines ++ [line])
        | .error what => some ⟨lines, some what⟩

end ModernStyle

/-! ## Formats and their arguments -/

/-- `d`, `c` and `f`. -/
def isSpecifier (b : UInt8) : Bool := b = 100 || b = 99 || b = 102

/-- The specifier of a type. -/
def Arg.specifier : Arg D → UInt8
  | .int _ => 100
  | .char _ => 99
  | .double _ => 102

/-- The arguments have the types that the specifiers of the format ask for. -/
def Matches (fmt : Bytes) (args : List (Arg D)) : Prop :=
  args.map Arg.specifier = fmt.filter isSpecifier

/-- The line for an argument of the right type. -/
def Arg.line (double : Double D) : Arg D → Bytes
  | .int value => toDecimal value
  | .char value => [value]
  | .double value => double.toString value

/-- No specifier stands behind another character. -/
def Leading (fmt : Bytes) : Prop := ∀ b ∈ fmt.dropWhile isSpecifier, isSpecifier b = false

instance (fmt : Bytes) : Decidable (Leading fmt) :=
  inferInstanceAs (Decidable (∀ b ∈ fmt.dropWhile isSpecifier, isSpecifier b = false))

/-- A `char` survives its promotion. -/
theorem toChar_promote (c : UInt8) : toChar (promote c) = c := by
  have bound := c.toNat_lt
  have same : (promote c % 256).toNat = c.toNat := by
    unfold promote
    split
    · omega
    · omega
  rw [toChar, same]
  exact UInt8.ofNat_toNat

/-- The first specifier has the first argument. -/
theorem matches_cons {b : UInt8} {fmt : Bytes} {args : List (Arg D)} (spec : isSpecifier b = true)
    (same : Matches (b :: fmt) args) :
    ∃ value rest, args = value :: rest ∧ value.specifier = b ∧ Matches fmt rest := by
  unfold Matches at same
  rw [List.filter_cons_of_pos spec] at same
  obtain ⟨value, rest, rfl, first, others⟩ := List.map_eq_cons_iff.mp same
  exact ⟨value, rest, rfl, first, others⟩

theorem matches_skip {b : UInt8} {fmt : Bytes} {args : List (Arg D)}
    (spec : isSpecifier b = false) :
    Matches (b :: fmt) args ↔ Matches fmt args := by
  unfold Matches
  rw [List.filter_cons_of_neg (by rw [spec]; exact Bool.false_ne_true)]

/-- The C-style function at a specifier with its argument. -/
theorem cStyle_cons (double : Double D) (value : Arg D) (fmt : Bytes) (args : List (Arg D))
    (lines : List Bytes) :
    CStyle.simple_printf double (value.specifier :: fmt) (value :: args) lines =
      CStyle.simple_printf double fmt args (lines ++ [value.line double]) := by
  cases value with
  | int value => rfl
  | char value =>
      show CStyle.simple_printf double fmt args (lines ++ [[toChar (promote value)]]) = _
      rw [toChar_promote]
      rfl
  | double value => rfl

/-- And at another character. -/
theorem cStyle_skip (double : Double D) {b : UInt8} (other : isSpecifier b = false) (fmt : Bytes)
    (args : List (Arg D)) (lines : List Bytes) :
    CStyle.simple_printf double (b :: fmt) args lines =
      CStyle.simple_printf double fmt args lines := by
  simp only [isSpecifier, Bool.or_eq_false_iff, decide_eq_false_iff_not] at other
  rw [CStyle.simple_printf, if_neg other.1.1, if_neg other.1.2, if_neg other.2]

/-- The template at a specifier with its argument. -/
theorem modernStyle_cons (double : Double D) (value : Arg D) (fmt : Bytes) (args : List (Arg D))
    (lines : List Bytes) :
    ModernStyle.simple_printf double (value.specifier :: fmt) (value :: args) lines =
      ModernStyle.simple_printf double fmt args (lines ++ [value.line double]) := by
  cases value with
  | int value => rfl
  | char value => rfl
  | double value => rfl

/-- And at another character. -/
theorem modernStyle_other (double : Double D) {b : UInt8} (other : isSpecifier b = false)
    (fmt : Bytes) (value : Arg D) (args : List (Arg D)) (lines : List Bytes) :
    ModernStyle.simple_printf double (b :: fmt) (value :: args) lines =
      some ⟨lines, some "Unknown format specifier"⟩ := by
  simp only [isSpecifier, Bool.or_eq_false_iff, decide_eq_false_iff_not] at other
  rw [ModernStyle.simple_printf, ModernStyle.print_arg, if_neg other.1.1, if_neg other.1.2,
    if_neg other.2]
  rfl

/-! ## Whole formats -/

/-- The C-style function logs a line for each argument. -/
theorem cStyle_eq (double : Double D) {fmt : Bytes} {args : List (Arg D)}
    (same : Matches fmt args) (lines : List Bytes) :
    CStyle.simple_printf double fmt args lines =
      some ⟨lines ++ args.map (Arg.line double), none⟩ := by
  induction fmt generalizing args lines with
  | nil =>
      have nothing : args = [] := List.map_eq_nil_iff.mp same
      subst nothing
      rw [List.map_nil, List.append_nil]
      rfl
  | cons b fmt ih =>
      cases spec : isSpecifier b with
      | true =>
          obtain ⟨value, rest, rfl, rfl, others⟩ := matches_cons spec same
          rw [cStyle_cons, ih others, List.append_assoc, List.map_cons]
          rfl
      | false => rw [cStyle_skip double spec, ih ((matches_skip spec).mp same)]

theorem leading_cons {b : UInt8} {fmt : Bytes} (spec : isSpecifier b = true) :
    Leading (b :: fmt) ↔ Leading fmt := by
  unfold Leading
  rw [List.dropWhile_cons_of_pos spec]

/-- Behind another character a format must have no specifiers, and then no
arguments are left. -/
theorem leading_other {b : UInt8} {fmt : Bytes} {args : List (Arg D)}
    (other : isSpecifier b = false) (same : Matches (b :: fmt) args) :
    Leading (b :: fmt) ↔ args = [] := by
  unfold Leading
  unfold Matches at same
  rw [List.dropWhile_cons_of_neg (by rw [other]; exact Bool.false_ne_true)]
  constructor
  · intro leading
    have nothing : (b :: fmt).filter isSpecifier = [] := by
      rw [List.filter_eq_nil_iff]
      intro c member
      rw [leading c member]
      exact Bool.false_ne_true
    rw [nothing] at same
    exact List.map_eq_nil_iff.mp same
  · rintro rfl c member
    have nothing : (b :: fmt).filter isSpecifier = [] := same.symm
    rw [List.filter_eq_nil_iff] at nothing
    exact Bool.eq_false_iff.mpr (nothing c member)

/-- The template logs the lines of the leading specifiers, and throws if there are
more. -/
theorem modernStyle_eq (double : Double D) {fmt : Bytes} {args : List (Arg D)}
    (same : Matches fmt args) (lines : List Bytes) :
    ModernStyle.simple_printf double fmt args lines =
      if Leading fmt then some ⟨lines ++ args.map (Arg.line double), none⟩
      else some ⟨lines ++ (args.map (Arg.line double)).take (fmt.takeWhile isSpecifier).length,
        some "Unknown format specifier"⟩ := by
  induction fmt generalizing args lines with
  | nil =>
      have nothing : args = [] := List.map_eq_nil_iff.mp same
      subst nothing
      rw [if_pos (by simp [Leading]), List.map_nil, List.append_nil]
      rfl
  | cons b fmt ih =>
      cases spec : isSpecifier b with
      | true =>
          obtain ⟨value, rest, rfl, rfl, others⟩ := matches_cons spec same
          rw [modernStyle_cons, ih others]
          simp only [leading_cons spec, List.takeWhile_cons_of_pos spec, List.length_cons,
            List.map_cons, List.take_succ_cons, List.append_assoc, List.singleton_append]
      | false =>
          cases args with
          | nil =>
              rw [if_pos ((leading_other spec same).mpr rfl), List.map_nil, List.append_nil]
              rfl
          | cons value rest =>
              have more : ¬ Leading (b :: fmt) := by
                intro leading
                cases (leading_other spec same).mp leading
              rw [modernStyle_other double spec, if_neg more,
                List.takeWhile_cons_of_neg (by rw [spec]; exact Bool.false_ne_true),
                List.length_nil, List.take_zero, List.append_nil]

/-! ## The main result -/

/-- **The two `simple_printf`.** With arguments of the right types the C-style
function logs a line for each specifier. The template logs the same lines when no
specifier stands behind another character, and otherwise those of the specifiers in
front of the first such character, where it throws. -/
theorem simple_printf_agree (double : Double D) {fmt : Bytes} {args : List (Arg D)}
    (same : Matches fmt args) :
    CStyle.simple_printf double fmt args [] = some ⟨args.map (Arg.line double), none⟩ ∧
    (Leading fmt → ModernStyle.simple_printf double fmt args [] =
      CStyle.simple_printf double fmt args []) ∧
    (¬ Leading fmt → ModernStyle.simple_printf double fmt args [] =
      some ⟨(args.map (Arg.line double)).take (fmt.takeWhile isSpecifier).length,
        some "Unknown format specifier"⟩) := by
  have logged := cStyle_eq double same []
  have template := modernStyle_eq double same []
  rw [List.nil_append] at logged template
  refine ⟨logged, ?_, ?_⟩
  · intro leading
    rw [logged, template, if_pos leading]
  · intro more
    rw [template, if_neg more, List.nil_append]

/-- Numbers in millionths, for the formats below. -/
def millionths : Double Int where
  toString x := (if x < 0 then ascii "-" else []) ++ toDecimal (x.natAbs / 1000000) ++
    ascii "." ++ (toDecimal (1000000 + x.natAbs % 1000000)).drop 1
  ofInt v := v * 1000000
  toInt x := some (x.tdiv 1000000)
  toChar x := some (toChar (x.tdiv 1000000))

/-- The call in both `run()`. -/
theorem simple_printf_agree_demo :
    ModernStyle.simple_printf millionths (ascii "dcff")
      [.int 3, .char 97, .double 1999000, .double 42500000] [] =
      some ⟨[ascii "3", ascii "a", ascii "1.999000", ascii "42.500000"], none⟩ := by
  have same : Matches (ascii "dcff")
      [.int 3, .char 97, .double (1999000 : Int), .double 42500000] := by
    unfold Matches
    decide
  obtain ⟨logged, agree, -⟩ := simple_printf_agree millionths same
  have leading : Leading (ascii "dcff") := by decide +kernel
  rw [agree leading, logged]
  decide +kernel

/-- A blank between two specifiers: two lines, and one line and an exception. -/
theorem simple_printf_blank :
    Matches (ascii "d d") [Arg.int 1, .int (D := Int) 2] ∧
    CStyle.simple_printf millionths (ascii "d d") [.int 1, .int 2] [] =
      some ⟨[ascii "1", ascii "2"], none⟩ ∧
    ModernStyle.simple_printf millionths (ascii "d d") [.int 1, .int 2] [] =
      some ⟨[ascii "1"], some "Unknown format specifier"⟩ := by
  unfold Matches
  decide +kernel

end CppLab.Utils.Variadic
