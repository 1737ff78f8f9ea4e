import CppLab.Lib.System
import CppLab.Menu.ExampleRegistry

/-!
# `runMenu()`

The menu is a process: it prints a numbered list and waits for a number, or it
runs an example, or it waits for a key. What it has printed when it waits is
part of the call it is blocked in, so a run shows the whole session.

Numbers are typed as `int`. The group number is converted to `size_t` and
compared with `size_t`s, the example number is compared with `int e_index`,
whose increment past `INT_MAX` is undefined.
-/

namespace CppLab.Menu

open StdString (sizeAdd)

/-- `INT_MAX`. -/
def intMax : Int := 2 ^ 31 - 1

/-- An `int` converted to `size_t`. -/
def toSize (x : Int) : Nat := (x % 2 ^ 64).toNat

/-- `std::cout << g_index++ << ". " << group` for each group: the lines printed
and `g_index` after them. -/
def printGroups (gIndex : Nat) : List Bytes → List (Nat × Bytes) × Nat
  | [] => ([], gIndex)
  | group :: groups =>
      let (lines, last) := printGroups (sizeAdd gIndex 1) groups
      ((gIndex, group) :: lines, last)

/-- `std::cout << e_index++ << ". " << name` for each name, `none` when `e_index`
overflows. -/
def printExamples (eIndex : Int) : List Bytes → Option (List (Int × Bytes) × Int)
  | [] => some ([], eIndex)
  | name :: names =>
      if eIndex = intMax then none
      else (printExamples (eIndex + 1) names).map fun (lines, last) => ((eIndex, name) :: lines, last)

/-- What the menu waits for: a number, after it has printed a list and the number
of `Exit` or `Back`, the end of an example, or a key. -/
inductive Call (ι : Type*)
  | groupChoice (lines : List (Nat × Bytes)) (exit : Nat)
  | exampleChoice (lines : List (Int × Bytes)) (back : Int)
  | execute (made : ι)
  | anyKey
  deriving DecidableEq

/-- What it gets: the number typed, how the example ended, or the key. -/
inductive Ret
  | choice (x : Int)
  | returned
  | outOfRange
  | key
  deriving DecidableEq, Repr

/-- `readChoice()` returns an `int`; an example returns or throws
`std::out_of_range`. -/
def allowed {ι : Type*} : Call ι → Ret → Bool
  | .groupChoice _ _, .choice x => decide (-2 ^ 31 ≤ x ∧ x ≤ intMax)
  | .exampleChoice _ _, .choice x => decide (-2 ^ 31 ≤ x ∧ x ≤ intMax)
  | .execute _, .returned => true
  | .execute _, .outOfRange => true
  | .anyKey, .key => true
  | _, _ => false

theorem allowed_groupChoice {ι : Type*} {lines : List (Nat × Bytes)} {exit : Nat} {x : Int} :
    allowed (.groupChoice lines exit : Call ι) (.choice x) = true ↔ -2 ^ 31 ≤ x ∧ x ≤ intMax :=
  decide_eq_true_iff

theorem allowed_exampleChoice {ι : Type*} {lines : List (Int × Bytes)} {back x : Int} :
    allowed (.exampleChoice lines back : Call ι) (.choice x) = true ↔
      -2 ^ 31 ≤ x ∧ x ≤ intMax :=
  decide_eq_true_iff

/-- Where `runMenu()` is, with the locals that are alive there. `undefined` is an
index out of the bounds of a vector or an `int` that overflowed, `missing` a key
that `at` did not find, `threw` an exception that nothing catches; the model stops
at all three. -/
inductive Pc (ι : Type*)
  | groups
  | examples (group : Bytes) (names : List Bytes)
  | executing (group : Bytes) (made : ι)
  | anyKey (group : Bytes)
  | ended
  | undefined
  | missing
  | threw
  deriving DecidableEq

variable {ι : Type*} (cat : Catalogue ι)

/-- The head of the inner loop: `data.at(selected_group)` and the list of its
examples. -/
def enterGroup (group : Bytes) : Pc ι :=
  match cat.examples group with
  | none => .missing
  | some names =>
      match printExamples 1 names with
      | none => .undefined
      | some _ => .examples group names

/-- The head of the outer loop. -/
def enterGroups : Pc ι := if cat.groups = [] then .ended else .groups

/-- After a group number. -/
def chooseGroup (x : Int) : Pc ι :=
  let gIndex := (printGroups 1 cat.groups).2
  let gChoice := toSize x
  if gChoice = gIndex then .ended
  else if gChoice < 1 ∨ gChoice > cat.groups.length then enterGroups cat
  else
    match cat.groups[gChoice - 1]? with
    | none => .undefined
    | some group => enterGroup cat group

/-- `registry.create(selected_group, name)`, and on to the example unless the
pointer is null. `std::out_of_range` is caught in the inner loop, which goes on. -/
def startExample (group name : Bytes) : Pc ι :=
  match cat.create group name with
  | none => .missing
  | some (.returns none) => enterGroup cat group
  | some (.returns (some made)) => .executing group made
  | some .outOfRange => enterGroup cat group
  | some .throws => .threw

/-- After an example number. -/
def chooseExample (group : Bytes) (names : List Bytes) (eIndex eChoice : Int) : Pc ι :=
  if eChoice = eIndex then enterGroups cat
  else if eChoice < 1 ∨ eChoice > eIndex then enterGroup cat group
  else
    match names[(eChoice - 1).toNat]? with
    | none => .undefined
    | some name => startExample cat group name

/-- The call that `runMenu()` is blocked in. -/
def pending : Pc ι → Option (Call ι)
  | .groups => some (.groupChoice (printGroups 1 cat.groups).1 (printGroups 1 cat.groups).2)
  | .examples _ names => (printExamples 1 names).map fun (lines, back) => .exampleChoice lines back
  | .executing _ e => some (.execute e)
  | .anyKey _ => some .anyKey
  | .ended | .undefined | .missing | .threw => none

/-- What it does next. An exception out of an example is caught, and the inner
loop goes on without waiting for a key. -/
def resume : Pc ι → Ret → Pc ι
  | .groups, .choice x => chooseGroup cat x
  | .examples group names, .choice x =>
      match printExamples 1 names with
      | none => .undefined
      | some (_, eIndex) => chooseExample cat group names eIndex x
  | .executing group _, .returned => .anyKey group
  | .executing group _, .outOfRange => enterGroup cat group
  | .anyKey group, .key => enterGroup cat group
  | pc, _ => pc

/-- `runMenu()`. -/
def runMenu : Process (Pc ι) (Call ι) Ret where
  init := enterGroups cat
  pending := pending cat
  resume := resume cat

variable [DecidableEq ι]

/-- One number, key or end of an example, with what was on the screen. -/
abbrev Event (ι : Type*) := Call ι × Ret

/-- The sessions of the menu. -/
abbrev session : System (Pc ι) (Event ι) := (runMenu cat).system allowed

end CppLab.Menu
