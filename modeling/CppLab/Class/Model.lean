import CppLab.Lib.Owner
import CppLab.Env.StdString

/-!
# `role_of_three::Model` and `role_of_five::Model`

A `Model` owns the buffer that `cstring_` points to. Its size is fixed by the
constructor, `std::strlen(s) + 1`; its contents change through `set_first_char`.
The two classes are the same but for the moves, which `role_of_three` does not
have: there an rvalue is copied.

`system` is a program with any number of objects. A label names the objects and
carries the address that `new` returns if it is called. Reading past the end of
a buffer and any use of a pointer to memory that is not there are steps that do
not exist.

* `step_cases` says what a step does;
* `heap_cases` says what the buffers after a step are;
* `owns_run` is unique ownership, which no call can break;
* `progress` says that a call is answered as long as the buffers are terminated.
-/

namespace CppLab.Class

/-- Which of the two classes. -/
inductive Role
  | three
  | five
  deriving DecidableEq, Repr

/-- A C string: its characters, none of which is the NUL that follows them. -/
structure CString where
  chars : Bytes
  noNul : 0 ∉ chars

/-- The bytes at the pointer. -/
def CString.buffer (s : CString) : Bytes := s.chars ++ [0]

/-- `std::strlen`, `none` when there is no NUL before the end of the buffer. -/
def strlen (buf : Bytes) : Option Nat := buf.findIdx? (· = 0)

/-- The live objects with their `cstring_`, the allocated buffers, and what was
given by `new[]` and to `delete[]`. -/
structure State where
  objects : Nat → Option (Option Nat)
  heap : Nat → Option Bytes
  ledger : List (Entry Nat)

namespace State

/-- The buffer an object holds. -/
def held (s : State) (o : Nat) : Option Nat := (s.objects o).join

/-- What is in it. -/
def buffer (s : State) (o : Nat) : Option Bytes := (s.held o).bind s.heap

/-- The string it is taken for. -/
def string (s : State) (o : Nat) : Option Bytes := (s.buffer o).map (·.takeWhile (· ≠ 0))

def put (s : State) (o : Nat) (v : Option (Option Nat)) : State :=
  { s with objects := Function.update s.objects o v }

/-- `new char[..]` and what is copied into it. -/
def alloc (s : State) (p : Nat) (buf : Bytes) : State :=
  { s with heap := Function.update s.heap p (some buf), ledger := s.ledger ++ [.opened p] }

def free (s : State) (p : Nat) : State :=
  { s with heap := Function.update s.heap p none, ledger := s.ledger ++ [.closed p] }

/-- `Model(const char* s)`: the new `cstring_`. -/
def construct (s : State) (src : Option Bytes) (p : Nat) : Option (Option Nat × State) :=
  match src with
  | none => some (none, s)
  | some buf =>
      (strlen buf).bind fun n =>
        if s.heap p = none then some (some p, s.alloc p (buf.take n ++ [0])) else none

/-- What a `cstring_` points to, `none` if it is dangling. -/
def pointee (s : State) : Option Nat → Option (Option Bytes)
  | none => some none
  | some q => (s.heap q).map some

/-- `Model(const Model& other) : Model(other.cstring_)`. -/
def copy (s : State) (cstring : Option Nat) (p : Nat) : Option (Option Nat × State) :=
  (s.pointee cstring).bind fun src => s.construct src p

/-- `~Model()`: `delete[] cstring_`. -/
def destructor (s : State) : Option Nat → Option State
  | none => some s
  | some q => (s.heap q).map fun _ => s.free q

/-- `Model o(other)`. -/
def copyConstruct (s : State) (o other p : Nat) : Option State :=
  if s.objects o = none then
    (s.objects other).bind fun cstring =>
      (s.copy cstring p).map fun (new, s) => s.put o (some new)
  else
    none

/-- `operator=(const Model&)`: a copy, a swap, and the destructor of `temp`. -/
def copyAssign (s : State) (o other p : Nat) : Option State :=
  (s.objects o).bind fun this =>
    (s.objects other).bind fun cstring =>
      (s.copy cstring p).bind fun (temp, s) => (s.put o (some temp)).destructor this

/-- `Model o(std::move(other))`, with `std::exchange`. -/
def moveConstruct (s : State) (o other : Nat) : Option State :=
  if s.objects o = none then
    (s.objects other).map fun cstring => (s.put other (some none)).put o (some cstring)
  else
    none

/-- `operator=(Model&&)`: a swap. -/
def moveAssign (s : State) (o other : Nat) : Option State :=
  (s.objects o).bind fun this =>
    (s.objects other).map fun cstring => (s.put o (some cstring)).put other (some this)

/-- `cstring_[0] = ch` unless the pointer is null. -/
def set_first_char (s : State) (ch : UInt8) : Option Nat → Option State
  | none => some s
  | some q =>
      (s.heap q).bind fun buf =>
        if buf = [] then none
        else some { s with heap := Function.update s.heap q (some (buf.set 0 ch)) }

end State

inductive Op
  | construct (o : Nat) (s : Option CString) (p : Nat)
  | copyConstruct (o other p : Nat)
  | moveConstruct (o other p : Nat)
  | copyAssign (o other p : Nat)
  | moveAssign (o other p : Nat)
  | set_first_char (o : Nat) (ch : UInt8)
  | destroy (o : Nat)

/-- A program with objects of one of the two classes. -/
def system (r : Role) : System State Op where
  init := ⟨fun _ => none, fun _ => none, []⟩
  step s
    | .construct o str p =>
        if s.objects o = none then
          (s.construct (str.map CString.buffer) p).map fun (new, s) => s.put o (some new)
        else none
    | .copyConstruct o other p => s.copyConstruct o other p
    | .moveConstruct o other p =>
        match r with
        | .three => s.copyConstruct o other p
        | .five => s.moveConstruct o other
    | .copyAssign o other p => s.copyAssign o other p
    | .moveAssign o other p =>
        match r with
        | .three => s.copyAssign o other p
        | .five => s.moveAssign o other
    | .set_first_char o ch => (s.objects o).bind (s.set_first_char ch)
    | .destroy o =>
        (s.objects o).bind fun cstring => (s.destructor cstring).map fun s => s.put o none

/-- The object that a step copies into and the one it copies. -/
def copies : Role → Op → Option (Nat × Nat)
  | _, .copyConstruct o other _ => some (o, other)
  | _, .copyAssign o other _ => some (o, other)
  | .three, .moveConstruct o other _ => some (o, other)
  | .three, .moveAssign o other _ => some (o, other)
  | _, _ => none

/-- The objects that a step may change. -/
def changes : Role → Op → List Nat
  | _, .construct o _ _ => [o]
  | _, .copyConstruct o _ _ => [o]
  | .three, .moveConstruct o _ _ => [o]
  | .five, .moveConstruct o other _ => [o, other]
  | _, .copyAssign o _ _ => [o]
  | .three, .moveAssign o _ _ => [o]
  | .five, .moveAssign o other _ => [o, other]
  | _, .set_first_char o _ => [o]
  | _, .destroy o => [o]

/-- Calls that a program can make: on objects that exist, constructions of
objects that do not, and `new` answering with an address that is free. -/
def Admissible (s : State) : Op → Prop
  | .construct o _ p => s.objects o = none ∧ s.heap p = none
  | .copyConstruct o other p => s.objects o = none ∧ s.objects other ≠ none ∧ s.heap p = none
  | .moveConstruct o other p => s.objects o = none ∧ s.objects other ≠ none ∧ s.heap p = none
  | .copyAssign o other p => s.objects o ≠ none ∧ s.objects other ≠ none ∧ s.heap p = none
  | .moveAssign o other p => s.objects o ≠ none ∧ s.objects other ≠ none ∧ s.heap p = none
  | .set_first_char o _ => s.objects o ≠ none
  | .destroy o => s.objects o ≠ none

/-! ## Strings in buffers -/

theorem strlen_eq_none {buf : Bytes} : strlen buf = none ↔ 0 ∉ buf := by
  rw [strlen, List.findIdx?_eq_none_iff]
  constructor
  · intro other nul
    simpa using other 0 nul
  · intro none b member
    exact decide_eq_false fun same => none (same ▸ member)

theorem strlen_isSome {buf : Bytes} : (∃ n, strlen buf = some n) ↔ 0 ∈ buf := by
  rw [← Option.ne_none_iff_exists', ne_eq, strlen_eq_none, not_not]

/-- The first `strlen` characters are the string. -/
theorem takeWhile_eq_take {buf : Bytes} {n : Nat} (h : strlen buf = some n) :
    buf.takeWhile (· ≠ 0) = buf.take n := by
  induction buf generalizing n with
  | nil => simp
  | cons b buf ih =>
      rw [strlen, List.findIdx?_cons] at h
      by_cases nul : b = 0
      · rw [if_pos (decide_eq_true nul)] at h
        cases h
        simp [nul]
      · rw [if_neg (by simpa using nul)] at h
        obtain ⟨m, found, rfl⟩ := Option.map_eq_some_iff.mp h
        rw [List.takeWhile_cons_of_pos (by simpa using nul), ih found, List.take_succ_cons]

/-- What the constructor writes reads back. -/
theorem takeWhile_copied {buf : Bytes} {n : Nat} (h : strlen buf = some n) :
    (buf.take n ++ [0]).takeWhile (· ≠ 0) = buf.takeWhile (· ≠ 0) := by
  rw [← takeWhile_eq_take h, List.takeWhile_append_of_pos fun b => List.mem_takeWhile_imp]
  simp

/-! ## What a call does -/

namespace State

variable {s s' : State} {src : Option Bytes} {c : Option Nat} {p : Nat}

theorem construct_eq_some : s.construct src p = some (c, s') ↔
    (src = none ∧ c = none ∧ s' = s) ∨
    ∃ buf n, src = some buf ∧ strlen buf = some n ∧ s.heap p = none ∧ c = some p ∧
      s' = s.alloc p (buf.take n ++ [0]) := by
  cases src with
  | none => simp [construct, eq_comm]
  | some buf =>
      simp only [construct, Option.bind_eq_some_iff, Option.ite_none_right_eq_some,
        Option.some.injEq, Prod.mk.injEq]
      constructor
      · rintro ⟨n, ends, fresh, rfl, rfl⟩
        exact .inr ⟨buf, n, rfl, ends, fresh, rfl, rfl⟩
      · rintro (⟨nothing, -⟩ | ⟨_, n, rfl, ends, fresh, rfl, rfl⟩)
        · cases nothing
        · exact ⟨n, ends, fresh, rfl, rfl⟩

theorem copy_eq_some {cstring : Option Nat} : s.copy cstring p = some (c, s') ↔
    ∃ src, s.pointee cstring = some src ∧ s.construct src p = some (c, s') := by
  rw [copy, Option.bind_eq_some_iff]

theorem destructor_eq_some {cstring : Option Nat} : s.destructor cstring = some s' ↔
    (cstring = none ∧ s' = s) ∨
    ∃ q, cstring = some q ∧ s.heap q ≠ none ∧ s' = s.free q := by
  cases cstring with
  | none => simp [destructor, eq_comm]
  | some q =>
      cases there : s.heap q with
      | none => simp [destructor, there]
      | some buf => simp [destructor, there, eq_comm]

theorem held_eq_some {o : Nat} : s.held o = some p ↔ s.objects o = some (some p) := by
  rw [held, Option.join_eq_some_iff]

theorem held_put (o : Nat) (v : Option (Option Nat)) :
    (s.put o v).held = Function.update s.held o v.join := by
  funext a
  show (Function.update s.objects o v a).join = _
  by_cases this : a = o
  · subst this
    rw [Function.update_self, Function.update_self]
  · rw [Function.update_of_ne this, Function.update_of_ne this, held]

theorem copyConstruct_eq_some {o other : Nat} : s.copyConstruct o other p = some s' ↔
    ∃ cstring src new t, s.objects o = none ∧ s.objects other = some cstring ∧
      s.pointee cstring = some src ∧ s.construct src p = some (new, t) ∧
      s' = t.put o (some new) := by
  simp only [copyConstruct, Option.ite_none_right_eq_some, Option.bind_eq_some_iff,
    Option.map_eq_some_iff, Prod.exists, copy_eq_some]
  constructor
  · rintro ⟨dead, cstring, there, new, t, ⟨src, points, made⟩, rfl⟩
    exact ⟨cstring, src, new, t, dead, there, points, made, rfl⟩
  · rintro ⟨cstring, src, new, t, dead, there, points, made, rfl⟩
    exact ⟨dead, cstring, there, new, t, ⟨src, points, made⟩, rfl⟩

theorem copyAssign_eq_some {o other : Nat} : s.copyAssign o other p = some s' ↔
    ∃ this cstring src temp t, s.objects o = some this ∧ s.objects other = some cstring ∧
      s.pointee cstring = some src ∧ s.construct src p = some (temp, t) ∧
      (t.put o (some temp)).destructor this = some s' := by
  simp only [copyAssign, Option.bind_eq_some_iff, Prod.exists, copy_eq_some]
  constructor
  · rintro ⟨this, live, cstring, there, temp, t, ⟨src, points, made⟩, freed⟩
    exact ⟨this, cstring, src, temp, t, live, there, points, made, freed⟩
  · rintro ⟨this, cstring, src, temp, t, live, there, points, made, freed⟩
    exact ⟨this, live, cstring, there, temp, t, ⟨src, points, made⟩, freed⟩

end State

/-- What a step can do. -/
inductive Effect (r : Role) (s : State) (op : Op) : State → Prop
  | constructed {o p : Nat} {str : Option CString} {new : Option Nat} {t : State}
      (call : copies r op = none) (only : changes r op = [o]) (dead : s.objects o = none)
      (made : s.construct (str.map CString.buffer) p = some (new, t)) :
      Effect r s op (t.put o (some new))
  | copied {o other p : Nat} {cstring new : Option Nat} {src : Option Bytes} {t : State}
      (call : copies r op = some (o, other)) (only : changes r op = [o])
      (dead : s.objects o = none) (there : s.objects other = some cstring)
      (points : s.pointee cstring = some src) (made : s.construct src p = some (new, t)) :
      Effect r s op (t.put o (some new))
  | moved {o other : Nat} {cstring : Option Nat} (call : copies r op = none)
      (only : changes r op = [o, other]) (dead : s.objects o = none)
      (there : s.objects other = some cstring) :
      Effect r s op ((s.put other (some none)).put o (some cstring))
  | assigned {o other p : Nat} {this cstring temp : Option Nat} {src : Option Bytes} {t s' : State}
      (call : copies r op = some (o, other)) (only : changes r op = [o])
      (live : s.objects o = some this) (there : s.objects other = some cstring)
      (points : s.pointee cstring = some src) (made : s.construct src p = some (temp, t))
      (freed : (t.put o (some temp)).destructor this = some s') : Effect r s op s'
  | swapped {o other : Nat} {this cstring : Option Nat} (call : copies r op = none)
      (only : changes r op = [o, other]) (live : s.objects o = some this)
      (there : s.objects other = some cstring) :
      Effect r s op ((s.put o (some cstring)).put other (some this))
  | written {o : Nat} {ch : UInt8} {cstring : Option Nat} {s' : State}
      (call : op = .set_first_char o ch) (only : changes r op = [o])
      (live : s.objects o = some cstring) (set : s.set_first_char ch cstring = some s') :
      Effect r s op s'
  | destroyed {o : Nat} {cstring : Option Nat} {t : State} (call : copies r op = none)
      (only : changes r op = [o]) (live : s.objects o = some cstring)
      (freed : s.destructor cstring = some t) : Effect r s op (t.put o none)

theorem Effect.of_copyConstruct {r : Role} {s s' : State} {op : Op} {o other p : Nat}
    (call : copies r op = some (o, other)) (only : changes r op = [o])
    (h : s.copyConstruct o other p = some s') : Effect r s op s' := by
  obtain ⟨cstring, src, new, t, dead, there, points, made, rfl⟩ :=
    State.copyConstruct_eq_some.mp h
  exact .copied call only dead there points made

theorem Effect.of_copyAssign {r : Role} {s s' : State} {op : Op} {o other p : Nat}
    (call : copies r op = some (o, other)) (only : changes r op = [o])
    (h : s.copyAssign o other p = some s') : Effect r s op s' := by
  obtain ⟨this, cstring, src, temp, t, live, there, points, made, freed⟩ :=
    State.copyAssign_eq_some.mp h
  exact .assigned call only live there points made freed

/-- **Inversion.** -/
theorem step_cases {r : Role} {s s' : State} {op : Op} (hstep : (system r).step s op = some s') :
    Effect r s op s' := by
  cases op with
  | construct o str p =>
      simp only [system, Option.ite_none_right_eq_some, Option.map_eq_some_iff,
        Prod.exists] at hstep
      obtain ⟨dead, new, t, made, rfl⟩ := hstep
      exact .constructed (by cases r <;> rfl) (by cases r <;> rfl) dead made
  | copyConstruct o other p =>
      exact .of_copyConstruct (by cases r <;> rfl) (by cases r <;> rfl) hstep
  | moveConstruct o other p =>
      cases r with
      | three => exact .of_copyConstruct rfl rfl hstep
      | five =>
          simp only [system, State.moveConstruct, Option.ite_none_right_eq_some,
            Option.map_eq_some_iff] at hstep
          obtain ⟨dead, cstring, there, rfl⟩ := hstep
          exact .moved rfl rfl dead there
  | copyAssign o other p =>
      exact .of_copyAssign (by cases r <;> rfl) (by cases r <;> rfl) hstep
  | moveAssign o other p =>
      cases r with
      | three => exact .of_copyAssign rfl rfl hstep
      | five =>
          simp only [system, State.moveAssign, Option.bind_eq_some_iff,
            Option.map_eq_some_iff] at hstep
          obtain ⟨this, live, cstring, there, rfl⟩ := hstep
          exact .swapped rfl rfl live there
  | set_first_char o ch =>
      simp only [system, Option.bind_eq_some_iff] at hstep
      obtain ⟨cstring, live, set⟩ := hstep
      exact .written rfl (by cases r <;> rfl) live set
  | destroy o =>
      simp only [system, Option.bind_eq_some_iff, Option.map_eq_some_iff] at hstep
      obtain ⟨cstring, live, t, freed, rfl⟩ := hstep
      exact .destroyed (by cases r <;> rfl) (by cases r <;> rfl) live freed

/-! ## One owner a buffer -/

/-- **Invariant.** -/
def Owns (s : State) : Prop := Owner.Unique s.held s.heap s.ledger

/-- The same, with a pointer in a local variable. -/
def OwnsBeside (s : State) (c : Option Nat) : Prop :=
  Owner.Unique (Owner.beside s.held c) s.heap s.ledger

theorem ownsBeside_none {s : State} : OwnsBeside s none ↔ Owns s := Owner.Unique.beside_iff

/-- The constructor hands out a buffer that nobody else holds. -/
theorem Owns.construct {s t : State} {src : Option Bytes} {p : Nat} {new : Option Nat}
    (owns : Owns s) (made : s.construct src p = some (new, t)) :
    OwnsBeside t new ∧ t.objects = s.objects := by
  rcases State.construct_eq_some.mp made with ⟨-, rfl, rfl⟩ | ⟨buf, n, -, -, fresh, rfl, rfl⟩
  · exact ⟨ownsBeside_none.mpr owns, rfl⟩
  · exact ⟨owns.allocLocal fresh _, rfl⟩

/-- A pointer stored in an object, the old one in the variable. -/
theorem OwnsBeside.put {s : State} {c : Option Nat} (owns : OwnsBeside s c) (o : Nat)
    (v : Option (Option Nat)) (stored : v.join = c) :
    OwnsBeside (s.put o v) (s.held o) := by
  have exchanged := Owner.Unique.exchange owns o
  rw [← stored, ← State.held_put] at exchanged
  exact exchanged

/-- The destructor frees what the variable points to. -/
theorem OwnsBeside.destructor {s s' : State} {c : Option Nat} (owns : OwnsBeside s c)
    (freed : s.destructor c = some s') : Owns s' ∧ s'.objects = s.objects := by
  rcases State.destructor_eq_some.mp freed with ⟨rfl, rfl⟩ | ⟨q, rfl, -, rfl⟩
  · exact ⟨ownsBeside_none.mp owns, rfl⟩
  · exact ⟨Owner.Unique.freeLocal owns, rfl⟩

/-- And finds it there. -/
theorem OwnsBeside.destructor_isSome {s : State} {c : Option Nat} (owns : OwnsBeside s c) :
    ∃ s', s.destructor c = some s' := by
  cases c with
  | none => exact ⟨s, rfl⟩
  | some q =>
      have there : s.heap q ≠ none := Owner.Unique.there owns (o := none) rfl
      exact ⟨s.free q, State.destructor_eq_some.mpr (.inr ⟨q, rfl, there, rfl⟩)⟩

theorem held_of_objects {s : State} {o : Nat} {c : Option Nat} (there : s.objects o = some c) :
    s.held o = c := by
  rw [State.held, there]
  cases c <;> rfl

theorem held_of_dead {s : State} {o : Nat} (dead : s.objects o = none) : s.held o = none := by
  rw [State.held, dead]
  rfl

theorem owns_init (r : Role) : Owns (system r).init := Owner.Unique.empty

/-- A new object takes over what the constructor made. -/
theorem Owns.constructed {s t : State} {src : Option Bytes} {o p : Nat} {new : Option Nat}
    (owns : Owns s) (dead : s.objects o = none) (made : s.construct src p = some (new, t)) :
    Owns (t.put o (some new)) := by
  obtain ⟨owns, same⟩ := owns.construct made
  have stored := owns.put o (some new) rfl
  rw [held_of_dead (same ▸ dead)] at stored
  exact ownsBeside_none.mp stored

/-- `std::exchange` leaves null behind. -/
theorem Owns.moved {s : State} {o other : Nat} {cstring : Option Nat} (owns : Owns s)
    (dead : s.objects o = none) (there : s.objects other = some cstring) :
    Owns ((s.put other (some none)).put o (some cstring)) := by
  have ne : o ≠ other := by
    rintro rfl
    rw [dead] at there
    cases there
  have emptied := (ownsBeside_none.mpr owns).put other (some none) rfl
  rw [held_of_objects there] at emptied
  have stored := emptied.put o (some cstring) rfl
  rw [State.held_put, Function.update_of_ne ne, held_of_dead dead] at stored
  exact ownsBeside_none.mp stored

/-- The temporary takes the old pointer with it. -/
theorem Owns.assigned {s t s' : State} {src : Option Bytes} {o p : Nat} {this temp : Option Nat}
    (owns : Owns s) (live : s.objects o = some this) (made : s.construct src p = some (temp, t))
    (freed : (t.put o (some temp)).destructor this = some s') : Owns s' := by
  obtain ⟨owns, same⟩ := owns.construct made
  have stored := owns.put o (some temp) rfl
  rw [held_of_objects (same ▸ live)] at stored
  exact (stored.destructor freed).1

theorem Owns.swapped {s : State} {o other : Nat} {this cstring : Option Nat} (owns : Owns s)
    (live : s.objects o = some this) (there : s.objects other = some cstring) :
    Owns ((s.put o (some cstring)).put other (some this)) := by
  have swapped := Owner.Unique.swap owns o other
  rw [held_of_objects live, held_of_objects there] at swapped
  rw [Owns, State.held_put, State.held_put]
  exact swapped

theorem set_first_char_eq_some {s s' : State} {ch : UInt8} {cstring : Option Nat} :
    s.set_first_char ch cstring = some s' ↔ (cstring = none ∧ s' = s) ∨
      ∃ q buf, cstring = some q ∧ s.heap q = some buf ∧ buf ≠ [] ∧
        s' = { s with heap := Function.update s.heap q (some (buf.set 0 ch)) } := by
  cases cstring with
  | none => simp [State.set_first_char, eq_comm]
  | some q =>
      simp only [State.set_first_char, Option.bind_eq_some_iff, Option.ite_none_left_eq_some,
        Option.some.injEq]
      constructor
      · rintro ⟨buf, there, some_byte, rfl⟩
        exact .inr ⟨q, buf, rfl, there, some_byte, rfl⟩
      · rintro (⟨nothing, -⟩ | ⟨_, buf, rfl, there, some_byte, rfl⟩)
        · cases nothing
        · exact ⟨buf, there, some_byte, rfl⟩

theorem Owns.written {s s' : State} {ch : UInt8} {cstring : Option Nat} (owns : Owns s)
    (set : s.set_first_char ch cstring = some s') : Owns s' := by
  rcases set_first_char_eq_some.mp set with ⟨-, rfl⟩ | ⟨q, buf, -, there, -, rfl⟩
  · exact owns
  · exact Owner.Unique.write owns (by simp [there]) _

/-- The destructor does not look at the objects. -/
theorem destructor_put {s t : State} {c : Option Nat} (freed : s.destructor c = some t) (o : Nat)
    (v : Option (Option Nat)) : (s.put o v).destructor c = some (t.put o v) := by
  rcases State.destructor_eq_some.mp freed with ⟨rfl, rfl⟩ | ⟨q, rfl, there, rfl⟩
  · rfl
  · exact State.destructor_eq_some.mpr (.inr ⟨q, rfl, there, rfl⟩)

theorem Owns.destroyed {s t : State} {o : Nat} {cstring : Option Nat} (owns : Owns s)
    (live : s.objects o = some cstring) (freed : s.destructor cstring = some t) :
    Owns (t.put o none) := by
  have taken := (ownsBeside_none.mpr owns).put o none rfl
  rw [held_of_objects live] at taken
  exact (taken.destructor (destructor_put freed o none)).1

/-- Step lemma. -/
theorem owns_step {r : Role} {s s' : State} {op : Op} (owns : Owns s)
    (hstep : (system r).step s op = some s') : Owns s' := by
  cases step_cases hstep with
  | constructed _ _ dead made => exact owns.constructed dead made
  | copied _ _ dead _ _ made => exact owns.constructed dead made
  | moved _ _ dead there => exact owns.moved dead there
  | assigned _ _ live _ _ made freed => exact owns.assigned live made freed
  | swapped _ _ live there => exact owns.swapped live there
  | written _ _ _ set => exact owns.written set
  | destroyed _ _ live freed => exact owns.destroyed live freed

theorem owns_run {r : Role} {tr : List Op} {s : State} (run : (system r).run tr = some s) :
    Owns s :=
  System.state_invariant (owns_init r) (fun _ _ _ owns step => owns_step owns step) run

/-! ## The buffers after a step -/

/-- Where a buffer of an updated heap comes from. -/
theorem update_heap_cases {heap : Nat → Option Bytes} {p q : Nat} {new : Option Bytes}
    {buf : Bytes} (there : Function.update heap p new q = some buf) :
    heap q = some buf ∨ (q = p ∧ new = some buf) := by
  by_cases this : q = p
  · rw [this, Function.update_self] at there
    exact .inr ⟨this, there⟩
  · rw [Function.update_of_ne this] at there
    exact .inl there

theorem heap_construct {s t : State} {src : Option Bytes} {p : Nat} {new : Option Nat}
    (made : s.construct src p = some (new, t)) {q : Nat} {buf : Bytes}
    (there : t.heap q = some buf) :
    s.heap q = some buf ∨ ∃ from_ n, strlen from_ = some n ∧ buf = from_.take n ++ [0] := by
  rcases State.construct_eq_some.mp made with ⟨-, -, rfl⟩ | ⟨from_, n, -, ends, fresh, -, rfl⟩
  · exact .inl there
  · rcases update_heap_cases there with before | ⟨-, copied⟩
    · exact .inl before
    · exact .inr ⟨from_, n, ends, (Option.some.inj copied).symm⟩

theorem heap_destructor {s t : State} {c : Option Nat} (freed : s.destructor c = some t) {q : Nat}
    {buf : Bytes} (there : t.heap q = some buf) : s.heap q = some buf := by
  rcases State.destructor_eq_some.mp freed with ⟨-, rfl⟩ | ⟨p, -, -, rfl⟩
  · exact there
  · rcases update_heap_cases there with before | ⟨-, freed⟩
    · exact before
    · cases freed

/-- A buffer after a step was there before, is a copy, or had a character written. -/
theorem heap_cases {r : Role} {s s' : State} {op : Op} (hstep : (system r).step s op = some s')
    {q : Nat} {buf : Bytes} (there : s'.heap q = some buf) :
    s.heap q = some buf ∨ (∃ from_ n, strlen from_ = some n ∧ buf = from_.take n ++ [0]) ∨
    ∃ o ch old, op = .set_first_char o ch ∧ s.objects o = some (some q) ∧
      s.heap q = some old ∧ old ≠ [] ∧ buf = old.set 0 ch := by
  cases step_cases hstep with
  | constructed _ _ _ made => exact (heap_construct made there).imp_right .inl
  | copied _ _ _ _ _ made => exact (heap_construct made there).imp_right .inl
  | moved => exact .inl there
  | assigned _ _ _ _ _ made freed =>
      exact (heap_construct made (heap_destructor freed there)).imp_right .inl
  | swapped => exact .inl there
  | written call only live set =>
      rename_i o ch cstring
      rcases set_first_char_eq_some.mp set with ⟨-, rfl⟩ | ⟨p, old, rfl, before, some_byte, rfl⟩
      · exact .inl there
      · rcases update_heap_cases there with untouched | ⟨this, written⟩
        · exact .inl untouched
        · cases written
          rw [← this] at before live
          exact .inr (.inr ⟨o, ch, old, call, live, before, some_byte, rfl⟩)
  | destroyed _ _ _ freed => exact .inl (heap_destructor freed there)

/-! ## No call is missing -/

/-- Every buffer has a NUL in it. -/
def HeapTerminated (s : State) : Prop := ∀ q buf, s.heap q = some buf → 0 ∈ buf

theorem construct_isSome {s : State} {src : Option Bytes} {p : Nat}
    (ends : ∀ buf, src = some buf → 0 ∈ buf) (fresh : s.heap p = none) :
    ∃ new t, s.construct src p = some (new, t) := by
  cases src with
  | none => exact ⟨none, s, rfl⟩
  | some buf =>
      obtain ⟨n, end_⟩ := strlen_isSome.mpr (ends buf rfl)
      exact ⟨_, _, State.construct_eq_some.mpr (.inr ⟨buf, n, rfl, end_, fresh, rfl, rfl⟩)⟩

/-- The source of a copy is there, and it is terminated. -/
theorem pointee_isSome {s : State} (owns : Owns s) (terminated : HeapTerminated s) {o : Nat}
    {cstring : Option Nat} (live : s.objects o = some cstring) :
    ∃ src, s.pointee cstring = some src ∧ ∀ buf, src = some buf → 0 ∈ buf := by
  cases cstring with
  | none => exact ⟨none, rfl, by simp⟩
  | some q =>
      have there := owns.there (held_of_objects live)
      obtain ⟨buf, found⟩ := Option.ne_none_iff_exists'.mp there
      refine ⟨some buf, by rw [State.pointee, found]; rfl, ?_⟩
      intro buf' same
      cases same
      exact terminated q buf found

theorem copyConstruct_isSome {s : State} (owns : Owns s) (terminated : HeapTerminated s)
    {o other p : Nat} (dead : s.objects o = none) (live : s.objects other ≠ none)
    (fresh : s.heap p = none) : ∃ s', s.copyConstruct o other p = some s' := by
  obtain ⟨cstring, there⟩ := Option.ne_none_iff_exists'.mp live
  obtain ⟨src, points, ends⟩ := pointee_isSome owns terminated there
  obtain ⟨new, t, made⟩ := construct_isSome ends fresh
  exact ⟨_, State.copyConstruct_eq_some.mpr ⟨cstring, src, new, t, dead, there, points, made, rfl⟩⟩

theorem copyAssign_isSome {s : State} (owns : Owns s) (terminated : HeapTerminated s)
    {o other p : Nat} (alive : s.objects o ≠ none) (live : s.objects other ≠ none)
    (fresh : s.heap p = none) : ∃ s', s.copyAssign o other p = some s' := by
  obtain ⟨this, here⟩ := Option.ne_none_iff_exists'.mp alive
  obtain ⟨cstring, there⟩ := Option.ne_none_iff_exists'.mp live
  obtain ⟨src, points, ends⟩ := pointee_isSome owns terminated there
  obtain ⟨temp, t, made⟩ := construct_isSome ends fresh
  obtain ⟨owns, same⟩ := owns.construct made
  have stored := owns.put o (some temp) rfl
  rw [held_of_objects (same ▸ here)] at stored
  obtain ⟨s', freed⟩ := stored.destructor_isSome
  exact ⟨s', State.copyAssign_eq_some.mpr
    ⟨this, cstring, src, temp, t, here, there, points, made, freed⟩⟩

/-- While the buffers are terminated, what a program can call is answered: nothing
reads past a buffer or through a dangling pointer. -/
theorem progress {r : Role} {s : State} (owns : Owns s) (terminated : HeapTerminated s) {op : Op}
    (admissible : Admissible s op) : ∃ s', (system r).step s op = some s' := by
  cases op with
  | construct o str p =>
      obtain ⟨dead, fresh⟩ := admissible
      have ends : ∀ buf, str.map CString.buffer = some buf → 0 ∈ buf := by
        intro buf same
        obtain ⟨c, -, rfl⟩ := Option.map_eq_some_iff.mp same
        simp [CString.buffer]
      obtain ⟨new, t, made⟩ := construct_isSome ends fresh
      exact ⟨t.put o (some new), by simp [system, dead, made]⟩
  | copyConstruct o other p =>
      obtain ⟨dead, live, fresh⟩ := admissible
      exact copyConstruct_isSome owns terminated dead live fresh
  | moveConstruct o other p =>
      obtain ⟨dead, live, fresh⟩ := admissible
      cases r with
      | three => exact copyConstruct_isSome owns terminated dead live fresh
      | five =>
          obtain ⟨cstring, there⟩ := Option.ne_none_iff_exists'.mp live
          exact ⟨_, by simp [system, State.moveConstruct, dead, there]; rfl⟩
  | copyAssign o other p =>
      obtain ⟨alive, live, fresh⟩ := admissible
      exact copyAssign_isSome owns terminated alive live fresh
  | moveAssign o other p =>
      obtain ⟨alive, live, fresh⟩ := admissible
      cases r with
      | three => exact copyAssign_isSome owns terminated alive live fresh
      | five =>
          obtain ⟨this, here⟩ := Option.ne_none_iff_exists'.mp alive
          obtain ⟨cstring, there⟩ := Option.ne_none_iff_exists'.mp live
          exact ⟨_, by simp [system, State.moveAssign, here, there]; rfl⟩
  | set_first_char o ch =>
      obtain ⟨cstring, live⟩ := Option.ne_none_iff_exists'.mp admissible
      cases cstring with
      | none => exact ⟨s, by simp [system, live, State.set_first_char]⟩
      | some q =>
          obtain ⟨buf, found⟩ :=
            Option.ne_none_iff_exists'.mp (owns.there (held_of_objects live))
          have some_byte : buf ≠ [] := List.ne_nil_of_mem (terminated q buf found)
          exact ⟨_, by simp [system, live, State.set_first_char, found, some_byte]; rfl⟩
  | destroy o =>
      obtain ⟨cstring, live⟩ := Option.ne_none_iff_exists'.mp admissible
      cases cstring with
      | none => exact ⟨s.put o none, by simp [system, live, State.destructor]⟩
      | some q =>
          obtain ⟨buf, found⟩ :=
            Option.ne_none_iff_exists'.mp (owns.there (held_of_objects live))
          exact ⟨(s.free q).put o none, by simp [system, live, State.destructor, found]⟩

end CppLab.Class
