import CppLab.Env.StdInsert
import CppLab.Env.UnorderedMap
import CppLab.Lib.Owner
import CppLab.Lib.System

/-!
# The registry of prototypes

The registry owns an extension for each name, and `create` gives the client a clone of it.
The client's own extensions are in variables that it moves from and to. A run is any
sequence of these calls; the address of each new object is a choice of the run.

`Presets` is what the registry is for: names for extensions, which are values.
-/

namespace CppLab.Patterns.Prototype

open IStream (insertInt)
open Owner (Unique)

/-- The concrete prototypes. -/
inductive Extension where
  | LoggerExtension (log_level_ : Bytes)
  | AnalyticsExtension (sampling_rate_ : Int32)
  deriving DecidableEq, Repr

/-- `clone()`: each class copies itself. -/
def Extension.clone : Extension → Extension
  | .LoggerExtension log_level_ => .LoggerExtension log_level_
  | .AnalyticsExtension sampling_rate_ => .AnalyticsExtension sampling_rate_

/-- What `execute()` logs. -/
def Extension.execute : Extension → Bytes
  | .LoggerExtension log_level_ => ascii "log level: " ++ log_level_
  | .AnalyticsExtension sampling_rate_ => ascii "sampling rate: " ++ insertInt sampling_rate_.toInt

structure State where
  prototypes_ : UnorderedMap (Option Nat)
  client : Nat → Option Nat
  heap : Nat → Option Extension
  ledger : List (Entry Nat)
  log : List Bytes

/-- What the client does. -/
inductive Action where
  | make_unique (k p : Nat) (e : Extension)
  | register_extension (id : Bytes) (k : Nat)
  | create (id : Bytes) (k p : Nat)
  | execute (k : Nat)
  | reset (k : Nat)
  deriving DecidableEq, Repr

namespace State

/-- The variable `k` is set. -/
def point (s : State) (k : Nat) (q : Option Nat) : State :=
  { s with client := Function.update s.client k q }

/-- `prototypes_[id]` is set. -/
def enter (s : State) (id : Bytes) (q : Option Nat) : State :=
  { s with prototypes_ := s.prototypes_.set id q }

def logs (s : State) (msg : Bytes) : State := { s with log := s.log ++ [msg] }

/-- An object is constructed at `p`, or destroyed. -/
def store (s : State) (p : Nat) (x : Option Extension) (entry : Entry Nat) : State :=
  { s with heap := Function.update s.heap p x, ledger := s.ledger ++ [entry] }

/-- `std::make_unique`, for the variable `k` and with the object at `p`. -/
def make_unique (s : State) (k p : Nat) (e : Extension) : Option State :=
  if s.client k = none ∧ s.heap p = none then
    some ((s.store p (some e) (.opened p)).point k (some p))
  else none

/-- The destructor of a pointer that is in no variable any more. -/
def destroy (s : State) : Option Nat → State
  | none => s
  | some p => s.store p none (.closed p)

/-- `register_extension(id, std::move(k))`: what was there before is destroyed. -/
def register_extension (s : State) (id : Bytes) (k : Nat) : State :=
  let old := (s.prototypes_.find? id).join
  (((s.logs id).point k none).enter id (s.client k)).destroy old

/-- `k = create(id)`: a null pointer when the name is unknown. To clone a null pointer is
undefined. -/
def create (s : State) (id : Bytes) (k p : Nat) : Option State :=
  match s.prototypes_.find? id with
  | none => if s.client k = none then some s else none
  | some proto => (proto.bind s.heap).bind fun e => s.make_unique k p e.clone

end State

/-- One call. -/
def step (s : State) : Action → Option State
  | .make_unique k p e => s.make_unique k p e
  | .register_extension id k => some (s.register_extension id k)
  | .create id k p => s.create id k p
  | .execute k =>
      match s.client k with
      | none => some s
      | some p => (s.heap p).map fun e => s.logs e.execute
  | .reset k => some ((s.point k none).destroy (s.client k))

/-- The registry is empty, and the client has nothing. -/
def registry : System State Action where
  init := ⟨.empty, fun _ => none, fun _ => none, [], []⟩
  step := step

def kLoggerExtId : Bytes := ascii "logger"

def kAnalyzeId : Bytes := ascii "analyze"

/-- `run()`. -/
def run : List Action :=
  [.make_unique 0 0 (.LoggerExtension (ascii "DEBUG")), .register_extension kLoggerExtId 0,
    .make_unique 0 1 (.AnalyticsExtension 1200), .register_extension kAnalyzeId 0,
    .create kLoggerExtId 0 2, .create kAnalyzeId 1 3, .execute 0, .execute 1, .reset 1, .reset 0]

/-! ## What it is for -/

/-- A value for each name that has been registered, and for each variable. -/
structure Presets where
  preset : Bytes → Option (Option Extension)
  client : Nat → Option Extension
  log : List Bytes

namespace Presets

def point (t : Presets) (k : Nat) (x : Option Extension) : Presets :=
  { t with client := Function.update t.client k x }

def enter (t : Presets) (id : Bytes) (x : Option Extension) : Presets :=
  { t with preset := Function.update t.preset id (some x) }

def logs (t : Presets) (msg : Bytes) : Presets := { t with log := t.log ++ [msg] }

/-- A variable that has nothing gets an extension. -/
def give (t : Presets) (k : Nat) (e : Extension) : Option Presets :=
  if t.client k = none then some (t.point k (some e)) else none

def step (t : Presets) : Action → Option Presets
  | .make_unique k _ e => t.give k e
  | .register_extension id k => some (((t.logs id).point k none).enter id (t.client k))
  | .create id k _ =>
      match t.preset id with
      | none => if t.client k = none then some t else none
      | some none => none
      | some (some e) => t.give k e
  | .execute k =>
      match t.client k with
      | none => some t
      | some e => some (t.logs e.execute)
  | .reset k => some (t.point k none)

end Presets

/-- The values behind the pointers. -/
def State.values (s : State) : Presets where
  preset id := (s.prototypes_.find? id).map fun proto => proto.bind s.heap
  client k := (s.client k).bind s.heap
  log := s.log

/-- The entries of the registry and the variables of the client own the extensions. -/
def State.held (s : State) : Bytes ⊕ Nat → Option Nat
  | .inl id => (s.prototypes_.find? id).join
  | .inr k => s.client k

abbrev State.Owned (s : State) : Prop := Unique s.held s.heap s.ledger

section

variable {s s' : State} {k p : Nat} {e : Extension}

example : (registry.run run).map (·.log) = some
    [kLoggerExtId, kAnalyzeId, ascii "log level: DEBUG", ascii "sampling rate: 1200"] := by
  decide

end

end CppLab.Patterns.Prototype
