import CppLab.Class.Termination

/-!
# Unique ownership of the string buffers

What a call leaves alone (`frame`), what a copy is (`copied`), and the main
result over programs that write characters to strings that are not empty.
-/

namespace CppLab.Class

/-- `set_first_char` is called on a null `cstring_` or a string that is not empty. -/
def NonEmpty (s : State) : Op → Prop
  | .set_first_char o _ => s.string o ≠ some []
  | _ => True

instance (s : State) : (op : Op) → Decidable (NonEmpty s op)
  | .set_first_char o _ => inferInstanceAs (Decidable (s.string o ≠ some []))
  | .construct .. => inferInstanceAs (Decidable True)
  | .copyConstruct .. => inferInstanceAs (Decidable True)
  | .moveConstruct .. => inferInstanceAs (Decidable True)
  | .copyAssign .. => inferInstanceAs (Decidable True)
  | .moveAssign .. => inferInstanceAs (Decidable True)
  | .destroy .. => inferInstanceAs (Decidable True)

/-- A terminated string that is not empty has more than one byte. -/
theorem NonEmpty.safe {s : State} {op : Op} (nonEmpty : NonEmpty s op)
    (terminated : HeapTerminated s) : Safe s op := by
  cases op with
  | set_first_char o ch =>
      refine .inr fun buf here one => ?_
      obtain ⟨p, -, there⟩ := Option.bind_eq_some_iff.mp here
      obtain ⟨b, rfl⟩ := List.length_eq_one_iff.mp one
      have nul : 0 = b := List.mem_singleton.mp (terminated p _ there)
      apply nonEmpty
      rw [State.string, show s.buffer o = some [b] from here, ← nul]
      rfl
  | construct => trivial
  | copyConstruct => trivial
  | moveConstruct => trivial
  | copyAssign => trivial
  | moveAssign => trivial
  | destroy => trivial

/-- **Run lemma.** -/
theorem heapTerminated_run_of_nonEmpty {r : Role} {tr : List Op} {s : State}
    (run : ((system r).restrict NonEmpty).run tr = some s) : HeapTerminated s := by
  refine System.run_invariant (I := fun _ s => HeapTerminated s) ?_ ?_ run
  · intro q buf there
    cases there
  · intro tr s op s' run terminated hstep
    obtain ⟨nonEmpty, hstep⟩ := System.restrict_step_eq_some.mp hstep
    have shaped := shaped_run (System.run_of_restrict run)
    exact heapTerminated_step shaped terminated (nonEmpty.safe terminated) hstep

/-! ## What a call leaves alone -/

/-- The constructor writes where nothing was. -/
theorem construct_frame {s t : State} {src : Option Bytes} {p : Nat} {new : Option Nat}
    (made : s.construct src p = some (new, t)) {q : Nat} (there : s.heap q ≠ none) :
    t.heap q = s.heap q := by
  rcases State.construct_eq_some.mp made with ⟨-, -, rfl⟩ | ⟨buf, n, -, -, fresh, -, rfl⟩
  · rfl
  · have other : q ≠ p := fun same => there (same ▸ fresh)
    exact Function.update_of_ne other ..

/-- The destructor frees one buffer. -/
theorem destructor_frame {s t : State} {c : Option Nat} (freed : s.destructor c = some t) {q : Nat}
    (other : c ≠ some q) : t.heap q = s.heap q := by
  rcases State.destructor_eq_some.mp freed with ⟨-, rfl⟩ | ⟨p, rfl, -, rfl⟩
  · rfl
  · have ne : q ≠ p := by
      rintro rfl
      exact other rfl
    exact Function.update_of_ne ne ..

theorem destructor_objects {s t : State} {c : Option Nat} (freed : s.destructor c = some t) :
    t.objects = s.objects := by
  rcases State.destructor_eq_some.mp freed with ⟨-, rfl⟩ | ⟨p, -, -, rfl⟩ <;> rfl

theorem put_objects_of_ne {s : State} {o x : Nat} (ne : x ≠ o) (v : Option (Option Nat)) :
    (s.put o v).objects x = s.objects x :=
  Function.update_of_ne ne ..

/-- An object that is not touched, with a buffer that is not touched. -/
theorem untouched {s s' : State} {x : Nat} (objects : s'.objects x = s.objects x)
    (heap : ∀ p, s.held x = some p → s'.heap p = s.heap p) :
    s'.objects x = s.objects x ∧ s'.buffer x = s.buffer x := by
  refine ⟨objects, ?_⟩
  have same : s'.held x = s.held x := by
    rw [State.held, State.held, objects]
  rw [State.buffer, State.buffer, same]
  cases holds : s.held x with
  | none => rfl
  | some p => exact heap p holds

/-- Two objects do not hold the same buffer. -/
theorem Owns.other {s : State} (owns : Owns s) {o x p : Nat} {c : Option Nat}
    (live : s.objects o = some c) (ne : x ≠ o) (holds : s.held x = some p) : c ≠ some p := by
  rintro rfl
  exact ne (owns.inj x o p holds (held_of_objects live))

/-- **Frame.** Objects that a call does not change are as they were. -/
theorem frame {r : Role} {s s' : State} {op : Op} (owns : Owns s)
    (hstep : (system r).step s op = some s') {x : Nat} (other : x ∉ changes r op) :
    s'.objects x = s.objects x ∧ s'.buffer x = s.buffer x := by
  cases step_cases hstep with
  | constructed _ only dead made =>
      rw [only, List.mem_singleton] at other
      refine untouched ?_ fun p holds => construct_frame made (owns.there holds)
      rw [put_objects_of_ne other, (owns.construct made).2]
  | copied _ only dead _ _ made =>
      rw [only, List.mem_singleton] at other
      refine untouched ?_ fun p holds => construct_frame made (owns.there holds)
      rw [put_objects_of_ne other, (owns.construct made).2]
  | moved _ only =>
      simp only [only, List.mem_cons, List.not_mem_nil, or_false, not_or] at other
      refine untouched ?_ fun p holds => rfl
      rw [put_objects_of_ne other.1, put_objects_of_ne other.2]
  | assigned _ only live _ _ made freed =>
      rw [only, List.mem_singleton] at other
      refine untouched ?_ fun p holds => ?_
      · rw [destructor_objects freed, put_objects_of_ne other, (owns.construct made).2]
      · rw [destructor_frame freed (owns.other live other holds)]
        exact construct_frame made (owns.there holds)
  | swapped _ only =>
      simp only [only, List.mem_cons, List.not_mem_nil, or_false, not_or] at other
      refine untouched ?_ fun p holds => rfl
      rw [put_objects_of_ne other.2, put_objects_of_ne other.1]
  | written _ only live set =>
      rw [only, List.mem_singleton] at other
      rcases set_first_char_eq_some.mp set with ⟨-, rfl⟩ | ⟨q, buf, rfl, -, -, rfl⟩
      · exact ⟨rfl, rfl⟩
      · refine untouched rfl fun p holds => ?_
        have apart : p ≠ q := by
          rintro rfl
          exact owns.other live other holds rfl
        exact Function.update_of_ne apart ..
  | destroyed _ only live freed =>
      rw [only, List.mem_singleton] at other
      refine untouched ?_ fun p holds => destructor_frame freed (owns.other live other holds)
      rw [put_objects_of_ne other, destructor_objects freed]

/-! ## What a copy is -/

/-- The new buffer reads as the source. -/
theorem construct_string {s t : State} {src : Option Bytes} {p : Nat} {new : Option Nat}
    (made : s.construct src p = some (new, t)) :
    (new.bind t.heap).map (·.takeWhile (· ≠ 0)) = src.map (·.takeWhile (· ≠ 0)) := by
  rcases State.construct_eq_some.mp made with ⟨rfl, rfl, rfl⟩ | ⟨buf, n, rfl, ends, -, rfl, rfl⟩
  · rfl
  · have here : (s.alloc p (buf.take n ++ [0])).heap p = some (buf.take n ++ [0]) :=
      Function.update_self ..
    rw [Option.bind_some, here, Option.map_some, Option.map_some, takeWhile_copied ends]

/-- What the constructor is given is what the source holds. -/
theorem pointee_eq {s : State} {other : Nat} {cstring : Option Nat} {src : Option Bytes}
    (live : s.objects other = some cstring) (points : s.pointee cstring = some src) :
    s.buffer other = src := by
  rw [State.buffer, held_of_objects live]
  cases cstring with
  | none => exact Option.some.inj points
  | some q =>
      obtain ⟨buf, there, rfl⟩ := Option.map_eq_some_iff.mp points
      exact there

theorem string_put (s : State) (o : Nat) (c : Option Nat) :
    (s.put o (some c)).string o = (c.bind s.heap).map (·.takeWhile (· ≠ 0)) := by
  rw [State.string, State.buffer, State.held_put, Function.update_self]
  cases c <;> rfl

/-- Assignment through `temp`: the target has the string that `temp` was made with. -/
theorem Owns.assigned_string {s t s' : State} {src : Option Bytes} {o p : Nat}
    {this temp : Option Nat} (owns : Owns s) (live : s.objects o = some this)
    (made : s.construct src p = some (temp, t))
    (freed : (t.put o (some temp)).destructor this = some s') :
    s'.string o = src.map fun buf => buf.takeWhile (· ≠ 0) := by
  obtain ⟨beside, same⟩ := owns.construct made
  have stored := beside.put o (some temp) rfl
  rw [held_of_objects (same ▸ live)] at stored
  have holds : (t.put o (some temp)).held o = temp := by
    rw [State.held_put, Function.update_self]
    cases temp <;> rfl
  -- the old buffer of the target is not the one that `temp` has made
  have kept : temp.bind s'.heap = temp.bind t.heap := by
    cases temp with
    | none => rfl
    | some q =>
        refine destructor_frame freed fun clash => ?_
        cases stored.inj (some o) none q holds clash
  have held' : s'.held o = temp := by
    rw [State.held, destructor_objects freed]
    exact holds
  rw [State.string, State.buffer, held', kept, construct_string made]

/-- **Copies.** The target has the string of the source, and so has the source, also
where they are one object. -/
theorem copied {r : Role} {s s' : State} {op : Op} (owns : Owns s)
    (hstep : (system r).step s op = some s') {o other : Nat}
    (copy : copies r op = some (o, other)) :
    s'.string o = s.string other ∧ s'.string other = s.string other := by
  have target : s'.string o = s.string other ∧ changes r op = [o] := by
    cases step_cases hstep with
    | constructed call =>
        rw [copy] at call
        cases call
    | copied call only _ there points made =>
        rw [copy] at call
        cases call
        refine ⟨?_, only⟩
        rw [string_put, construct_string made, State.string, pointee_eq there points]
    | moved call =>
        rw [copy] at call
        cases call
    | assigned call only live there points made freed =>
        rw [copy] at call
        cases call
        refine ⟨?_, only⟩
        rw [owns.assigned_string live made freed, State.string, pointee_eq there points]
    | swapped call =>
        rw [copy] at call
        cases call
    | written call =>
        subst call
        cases r <;> cases copy
    | destroyed call =>
        rw [copy] at call
        cases call
  refine ⟨target.1, ?_⟩
  by_cases same : other = o
  · rw [same] at target ⊢
    exact target.1
  · have apart : other ∉ changes r op := by
      rw [target.2, List.mem_singleton]
      exact same
    rw [State.string, (frame owns hstep apart).2, State.string]

/-! ## The main result -/

/-- **Unique ownership.** In a program with objects of either class that writes
characters to strings that are not empty: no two objects hold one buffer; each
buffer is freed at most once, exactly once when nobody holds it any more, and all
of them exactly once when the objects are gone; a copy has the string of its
source and leaves it alone; a call changes no other object; and no call is missing
because of a dangling pointer or an unterminated string. -/
theorem unique_ownership {r : Role} {tr : List Op} {s : State}
    (run : ((system r).restrict NonEmpty).run tr = some s) :
    (∀ a b p, s.objects a = some (some p) → s.objects b = some (some p) → a = b) ∧
    (Ledger.AtMostOnce s.ledger ∧
      (∀ pre p post, s.ledger = pre ++ .opened p :: post →
        (∀ o, s.objects o ≠ some (some p)) → Ledger.closesOf p post = 1) ∧
      ((∀ o, s.objects o = none) → Ledger.ExactlyOnce s.ledger)) ∧
    (∀ op s', NonEmpty s op → (system r).step s op = some s' →
      (∀ o other, copies r op = some (o, other) →
        s'.string o = s.string other ∧ s'.string other = s.string other) ∧
      ∀ x, x ∉ changes r op → s'.objects x = s.objects x ∧ s'.buffer x = s.buffer x) ∧
    (∀ op, NonEmpty s op → Admissible s op → (system r).step s op ≠ none) := by
  have owns := owns_run (System.run_of_restrict run)
  refine ⟨?_, ⟨owns.atMostOnce, ?_, ?_⟩, ?_, ?_⟩
  · intro a b p ha hb
    exact owns.inj a b p (held_of_objects ha) (held_of_objects hb)
  · intro pre p post split nobody
    refine owns.closesOf_eq_one split ?_
    by_contra there
    obtain ⟨o, holds⟩ := (owns.live p).mp there
    exact nobody o (State.held_eq_some.mp holds)
  · intro gone
    exact owns.exactlyOnce fun o => held_of_dead (gone o)
  · intro op s' _ hstep
    exact ⟨fun o other copy => copied owns hstep copy, fun x other => frame owns hstep other⟩
  · intro op _ admissible
    obtain ⟨s', step⟩ := progress owns (heapTerminated_run_of_nonEmpty run) admissible
    rw [step]
    simp

/-- The calls of `role_of_five::run`, and the destructors. -/
def role_of_five.run : List Op :=
  [.construct 0 (some ⟨ascii "str1", by decide⟩) 5, .copyConstruct 1 0 6,
    .set_first_char 1 88, .construct 2 (some ⟨ascii "there", by decide⟩) 7,
    .moveConstruct 3 2 8, .destroy 3, .destroy 2, .destroy 1, .destroy 0]

/-- After two calls both objects have the string, and at the end all is freed. -/
theorem unique_ownership_demo :
    (∃ s, ((system .five).restrict NonEmpty).run (role_of_five.run.take 2) = some s ∧
      s.string 0 = some (ascii "str1") ∧ s.string 1 = some (ascii "str1")) ∧
    ∃ s, ((system .five).restrict NonEmpty).run role_of_five.run = some s ∧
      Ledger.ExactlyOnce s.ledger := by
  constructor
  · have made : ((system .five).restrict NonEmpty).run (role_of_five.run.take 1) = some _ := rfl
    obtain ⟨target, source⟩ := ((unique_ownership made).2.2.1 (.copyConstruct 1 0 6) _ trivial
      rfl).1 1 0 rfl
    exact ⟨_, rfl, source, target⟩
  · have run : ((system .five).restrict NonEmpty).run role_of_five.run = some _ := rfl
    refine ⟨_, run, (unique_ownership run).2.1.2.2 ?_⟩
    intro o
    rcases o with _ | _ | _ | _ | o <;> rfl

end CppLab.Class
