import CppLab.Env.StdString

/-!
# The arguments of `main`

`handleArg` walks over the argument vector with an index that it moves by two when it
takes a value. `items` is the argument vector read as what it is meant to be, and
`handleArg_eq` says that the loop handles the items one by one.

What is accepted as a mode is another matter: `parseMode` and `toString` spell the
modes in different ways.
-/

namespace CppLab.Menu

inductive ApplicationMode
  | kDev
  | kUAT
  | kProd
  deriving DecidableEq, Repr

/-- `toString`. -/
def ApplicationMode.toString : ApplicationMode → Bytes
  | .kDev => ascii "dev"
  | .kUAT => ascii "uat"
  | .kProd => ascii "prod"

/-- `parseMode`: the mode, or `what()` of the exception. -/
def parseMode (value : Bytes) : Except Bytes ApplicationMode :=
  if value = ascii "Dev" then .ok .kDev
  else if value = ascii "Uat" then .ok .kUAT
  else if value = ascii "Prod" then .ok .kProd
  else .error (ascii "Invalid mode: " ++ value ++ ascii ". Expected: dev, uat, prod")

/-- The global `mode`, and what has been written to `std::cerr`. -/
structure Globals where
  mode : ApplicationMode
  cerr : Bytes
  deriving DecidableEq, Repr

namespace Globals

/-- `mode = parseMode(value)` with its handler. -/
def setMode (g : Globals) (value : Bytes) : Globals :=
  match parseMode value with
  | .ok m => { g with mode := m }
  | .error what => { g with cerr := g.cerr ++ (what ++ ascii "\n") }

/-- `-mode` without a value. -/
def missingValue (g : Globals) : Globals :=
  { g with cerr := g.cerr ++ ascii "Missing value for -mode\n" }

/-- Any other argument. -/
def invalidParam (g : Globals) (arg : Bytes) : Globals :=
  { g with cerr := g.cerr ++ (ascii "Invalid argv param: " ++ arg ++ ascii "\n") }

end Globals

/-- The loop of `handleArg` from `argv[i]` on, as far as the fuel goes. -/
def argLoop (argv : List Bytes) : Nat → Nat → Globals → Globals
  | 0, _, g => g
  | fuel + 1, i, g =>
      match argv[i]? with
      | none => g
      | some arg =>
          if arg = ascii "-mode" then
            match argv[i + 1]? with
            | none => g.missingValue
            | some value => argLoop argv fuel (i + 2) (g.setMode value)
          else argLoop argv fuel (i + 1) (g.invalidParam arg)

/-- `handleArg(argc, argv)`. -/
def handleArg (argv : List Bytes) (g : Globals) : Globals := argLoop argv argv.length 1 g

/-! ## The arguments as items -/

/-- What an argument vector consists of. -/
inductive Item
  | mode (value : Bytes)
  | trailing
  | unknown (arg : Bytes)
  deriving DecidableEq, Repr

/-- `args` read from the front: after `-mode` comes a value, whatever it is. -/
def items : List Bytes → List Item
  | [] => []
  | [arg] => if arg = ascii "-mode" then [.trailing] else [.unknown arg]
  | arg :: value :: args =>
      if arg = ascii "-mode" then .mode value :: items args
      else .unknown arg :: items (value :: args)

/-- What one item does. -/
def Globals.handle (g : Globals) : Item → Globals
  | .mode value => g.setMode value
  | .trailing => g.missingValue
  | .unknown arg => g.invalidParam arg

/-- The value of a pair `-mode v`. -/
def Item.value : Item → Option Bytes
  | .mode value => some value
  | _ => none

/-- The values of the pairs `-mode v`. -/
def pairs (args : List Bytes) : List Bytes := (items args).filterMap Item.value

/-- The mode that a value is the name of. -/
def named (value : Bytes) : Option ApplicationMode :=
  [ApplicationMode.kDev, .kUAT, .kProd].find? fun m => m.toString = value

/-- The mode that a value is the name of with a capital. -/
def capitalized (value : Bytes) : Option ApplicationMode :=
  ([(ascii "Dev", ApplicationMode.kDev), (ascii "Uat", .kUAT), (ascii "Prod", .kProd)].find?
    fun entry => entry.1 = value).map Prod.snd

/-- The mode of the last value that has one. -/
def lastMode (read : Bytes → Option ApplicationMode) (values : List Bytes)
    (mode : ApplicationMode) : ApplicationMode :=
  ((values.filterMap read).getLast?).getD mode

/-- What the arguments are for: each item is handled on its own, and afterwards the
mode is the one named by the last pair that names one. -/
structure Selects (argv : List Bytes) (g : Globals) : Prop where
  handled : handleArg argv g = (items argv.tail).foldl Globals.handle g
  mode : (handleArg argv g).mode = lastMode named (pairs argv.tail) g.mode

/-! ## The loop -/

theorem items_mode (value : Bytes) (args : List Bytes) :
    items (ascii "-mode" :: value :: args) = .mode value :: items args := by
  rw [items, if_pos rfl]

theorem items_unknown {arg : Bytes} (other : arg ≠ ascii "-mode") (args : List Bytes) :
    items (arg :: args) = .unknown arg :: items args := by
  cases args with
  | nil => exact if_neg other
  | cons value args => exact if_neg other

/-- The index stands where the items still to come begin. -/
theorem argLoop_eq (argv : List Bytes) (fuel i : Nat) (g : Globals)
    (enough : argv.length ≤ i + fuel) :
    argLoop argv fuel i g = (items (argv.drop i)).foldl Globals.handle g := by
  induction fuel generalizing i g with
  | zero =>
      rw [List.drop_eq_nil_of_le (by omega)]
      rfl
  | succ fuel ih =>
      rw [argLoop]
      cases here : argv[i]? with
      | none =>
          rw [List.drop_eq_nil_of_le (List.getElem?_eq_none_iff.mp here)]
          rfl
      | some arg =>
          obtain ⟨inside, rfl⟩ := List.getElem?_eq_some_iff.mp here
          rw [List.drop_eq_getElem_cons inside]
          simp only
          by_cases flag : argv[i] = ascii "-mode"
          · rw [if_pos flag, flag]
            cases next : argv[i + 1]? with
            | none =>
                rw [List.drop_eq_nil_of_le (List.getElem?_eq_none_iff.mp next), items, if_pos rfl]
                rfl
            | some value =>
                obtain ⟨inside', rfl⟩ := List.getElem?_eq_some_iff.mp next
                rw [List.drop_eq_getElem_cons inside', items_mode]
                exact ih (i + 2) _ (by omega)
          · rw [if_neg flag, items_unknown flag]
            exact ih (i + 1) _ (by omega)

/-- **Refinement.** The loop handles the items in turn. -/
theorem handleArg_eq (argv : List Bytes) (g : Globals) :
    handleArg argv g = (items argv.tail).foldl Globals.handle g := by
  rw [handleArg, argLoop_eq argv argv.length 1 g (by omega), List.drop_one]

/-! ## The mode -/

theorem lastMode_cons (read : Bytes → Option ApplicationMode) (value : Bytes) (values : List Bytes)
    (mode : ApplicationMode) : lastMode read (value :: values) mode =
      lastMode read values ((read value).getD mode) := by
  unfold lastMode
  cases mine : read value with
  | none => rw [List.filterMap_cons_none mine, Option.getD_none]
  | some m =>
      rw [List.filterMap_cons_some mine, List.getLast?_cons, Option.getD_some]
      rfl

/-- `parseMode` wants the capital. -/
theorem parseMode_eq (value : Bytes) : parseMode value =
    match capitalized value with
    | some m => .ok m
    | none => .error (ascii "Invalid mode: " ++ value ++ ascii ". Expected: dev, uat, prod") := by
  unfold parseMode capitalized
  by_cases dev : value = ascii "Dev"
  · rw [dev]
    rfl
  · by_cases uat : value = ascii "Uat"
    · rw [uat]
      rfl
    · by_cases prod : value = ascii "Prod"
      · rw [prod]
        rfl
      · simp [dev, uat, prod, Ne.symm dev, Ne.symm uat, Ne.symm prod]

theorem mode_setMode (g : Globals) (value : Bytes) :
    (g.setMode value).mode = (capitalized value).getD g.mode := by
  unfold Globals.setMode
  rw [parseMode_eq]
  cases capitalized value with
  | none => rfl
  | some m => rfl

/-- The items that come later decide, and of these the pairs with a capital. -/
theorem mode_foldl (is : List Item) (g : Globals) :
    (is.foldl Globals.handle g).mode = lastMode capitalized (is.filterMap Item.value) g.mode := by
  induction is generalizing g with
  | nil => rfl
  | cons item is ih =>
      rw [List.foldl_cons, ih]
      cases item with
      | mode value =>
          show _ = lastMode capitalized (value :: is.filterMap Item.value) g.mode
          rw [lastMode_cons, ← mode_setMode]
          rfl
      | trailing => rfl
      | unknown arg => rfl

/-- The mode after `handleArg`. -/
theorem mode_handleArg (argv : List Bytes) (g : Globals) :
    (handleArg argv g).mode = lastMode capitalized (pairs argv.tail) g.mode := by
  rw [handleArg_eq, mode_foldl]
  rfl

/-- **Mode selection.** The right mode is selected precisely when the last pair with a
capitalized name and the last pair with a name are for the same mode, the mode before
the call standing for a pair that is not there. -/
theorem selects_iff (argv : List Bytes) (g : Globals) : Selects argv g ↔
    lastMode capitalized (pairs argv.tail) g.mode = lastMode named (pairs argv.tail) g.mode := by
  rw [← mode_handleArg]
  exact ⟨fun selects => selects.mode, fun same => ⟨handleArg_eq argv g, same⟩⟩

/-- The mode as the error message spells it. -/
theorem not_selects_prod :
    ¬ Selects [ascii "cpp_lab", ascii "-mode", ascii "prod"] ⟨.kDev, []⟩ := by
  intro selects
  exact absurd selects.mode (by decide)

end CppLab.Menu
