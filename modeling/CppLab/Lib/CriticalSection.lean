import CppLab.Lib.System

/-!
# Sections under one mutex

Threads that each run a program of calls. A call is a section of effects on a shared
log, one step each, between `lock` and `unlock` of the one mutex; what it writes may
depend on an input that it takes once it has the mutex. Between two steps any other
thread may move.

`serial_run` says that the mutex makes the sections atomic: the log is the sections
one after another, in the order in which the mutex was taken.
-/

namespace CppLab

/-- Threads `τ` with programs of calls `κ`; a call writes effects `α`, given an input `ι`. -/
structure Sections (τ κ ι α : Type*) where
  program : τ → List κ
  body : κ → ι → List α

namespace Sections

variable {τ κ ι α : Type*}

/-- What each thread has still to call, who has the mutex and what that thread has still
to write, and the log. -/
structure State (τ κ α : Type*) where
  todo : τ → List κ
  held : Option (τ × List α)
  out : List α

/-- Whose step it is. -/
inductive Label (τ ι : Type*)
  | lock (t : τ) (input : ι)
  | write (t : τ)
  | unlock (t : τ)

/-- A section that has begun. -/
structure Entry (τ κ ι : Type*) where
  thread : τ
  call : κ
  input : ι

/-- The effects of a section. -/
def text (S : Sections τ κ ι α) (e : Entry τ κ ι) : List α := S.body e.call e.input

/-- Who takes the mutex, with the input there is. -/
def Label.acquires : Label τ ι → Option (τ × ι)
  | .lock t input => some (t, input)
  | _ => none

/-- The order in which the mutex has been taken. -/
def acquired (tr : List (Label τ ι)) : List (τ × ι) := tr.filterMap Label.acquires

theorem acquired_concat_none {tr : List (Label τ ι)} {l : Label τ ι} (h : l.acquires = none) :
    acquired (tr ++ [l]) = acquired tr :=
  System.filterMap_concat_none h

theorem acquired_concat_some {tr : List (Label τ ι)} {l : Label τ ι} {a : τ × ι}
    (h : l.acquires = some a) : acquired (tr ++ [l]) = acquired tr ++ [a] :=
  System.filterMap_concat_some h

variable [DecidableEq τ]

/-- The threads and the mutex. -/
def system (S : Sections τ κ ι α) : System (State τ κ α) (Label τ ι) where
  init := ⟨S.program, none, []⟩
  step s
    | .lock t input =>
        match s.held, s.todo t with
        | none, call :: rest =>
            some ⟨Function.update s.todo t rest, some (t, S.body call input), s.out⟩
        | _, _ => none
    | .write t =>
        match s.held with
        | some (u, effect :: rest) =>
            if u = t then some ⟨s.todo, some (t, rest), s.out ++ [effect]⟩ else none
        | _ => none
    | .unlock t =>
        match s.held with
        | some (u, []) => if u = t then some ⟨s.todo, none, s.out⟩ else none
        | _ => none

/-- The calls of one thread. -/
def calls (t : τ) (es : List (Entry τ κ ι)) : List κ :=
  (es.filter fun e => e.thread = t).map Entry.call

/-- What the log is, after these sections: all of them, or all but what the holder of the
mutex has still to write of the last one. -/
def Whole (S : Sections τ κ ι α) (es : List (Entry τ κ ι)) (out : List α) :
    Option (τ × List α) → Prop
  | none => out = es.flatMap S.text
  | some (t, rest) => ∃ before e written, es = before ++ [e] ∧ e.thread = t ∧
      S.text e = written ++ rest ∧ out = before.flatMap S.text ++ written

/-- The run as these sections one after another. -/
structure Serial (S : Sections τ κ ι α) (tr : List (Label τ ι)) (s : State τ κ α)
    (es : List (Entry τ κ ι)) : Prop where
  order : es.map (fun e => (e.thread, e.input)) = acquired tr
  program : ∀ t, S.program t = calls t es ++ s.todo t
  whole : S.Whole es s.out s.held

variable {S : Sections τ κ ι α} {tr : List (Label τ ι)} {s s' : State τ κ α}
  {es : List (Entry τ κ ι)}

theorem calls_concat_own {e : Entry τ κ ι} {t : τ} (own : e.thread = t) :
    calls t (es ++ [e]) = calls t es ++ [e.call] := by
  simp [calls, own]

theorem calls_concat_other {e : Entry τ κ ι} {t : τ} (other : e.thread ≠ t) :
    calls t (es ++ [e]) = calls t es := by
  simp [calls, other]

/-- What a step can be. -/
theorem step_cases {l : Label τ ι} (hstep : S.system.step s l = some s') :
    (∃ t input call rest, l = .lock t input ∧ s.held = none ∧ s.todo t = call :: rest ∧
      s' = ⟨Function.update s.todo t rest, some (t, S.body call input), s.out⟩) ∨
    (∃ t effect rest, l = .write t ∧ s.held = some (t, effect :: rest) ∧
      s' = ⟨s.todo, some (t, rest), s.out ++ [effect]⟩) ∨
    ∃ t, l = .unlock t ∧ s.held = some (t, []) ∧ s' = ⟨s.todo, none, s.out⟩ := by
  obtain ⟨todo, held, out⟩ := s
  cases l with
  | lock t input =>
      cases held with
      | some holder => cases hstep
      | none =>
          cases here : todo t with
          | nil => simp only [system, here, reduceCtorEq] at hstep
          | cons call rest =>
              simp only [system, here, Option.some.injEq] at hstep
              exact .inl ⟨t, input, call, rest, rfl, rfl, here, hstep.symm⟩
  | write t =>
      match held, hstep with
      | some (u, effect :: rest), hstep =>
          simp only [system, Option.ite_none_right_eq_some, Option.some.injEq] at hstep
          obtain ⟨rfl, same⟩ := hstep
          exact .inr (.inl ⟨u, effect, rest, rfl, rfl, same.symm⟩)
  | unlock t =>
      match held, hstep with
      | some (u, []), hstep =>
          simp only [system, Option.ite_none_right_eq_some, Option.some.injEq] at hstep
          obtain ⟨rfl, same⟩ := hstep
          exact .inr (.inr ⟨u, rfl, rfl, same.symm⟩)

/-- **Step lemma.** -/
theorem Serial.step {l : Label τ ι} (serial : Serial S tr s es)
    (hstep : S.system.step s l = some s') : ∃ es', Serial S (tr ++ [l]) s' es' := by
  obtain ⟨order, program, whole⟩ := serial
  rcases step_cases hstep with ⟨t, input, call, rest, rfl, free, next, rfl⟩ |
    ⟨t, effect, rest, rfl, held, rfl⟩ | ⟨t, rfl, held, rfl⟩
  · -- the next section begins, with all before it complete
    rw [free] at whole
    refine ⟨es ++ [⟨t, call, input⟩], ?_, ?_, es, ⟨t, call, input⟩, [], rfl, rfl, rfl, ?_⟩
    · rw [List.map_append, order, acquired_concat_some rfl]
      rfl
    · intro u
      show S.program u = _ ++ Function.update s.todo t rest u
      by_cases own : t = u
      · subst own
        rw [calls_concat_own (e := ⟨t, call, input⟩) rfl, Function.update_self, program t, next,
          List.append_assoc]
        rfl
      · rw [calls_concat_other (e := ⟨t, call, input⟩) own, Function.update_of_ne (Ne.symm own),
          program u]
    · rw [List.append_nil]
      exact whole
  · rw [held] at whole
    obtain ⟨before, e, written, split, thread, body, out⟩ := whole
    refine ⟨es, ?_, program, before, e, written ++ [effect], split, thread, ?_, ?_⟩
    · rw [acquired_concat_none rfl, order]
    · rw [body, List.append_assoc]
      rfl
    · rw [out, List.append_assoc]
  · rw [held] at whole
    obtain ⟨before, e, written, split, thread, body, out⟩ := whole
    refine ⟨es, ?_, program, ?_⟩
    · rw [acquired_concat_none rfl, order]
    · show s.out = es.flatMap S.text
      rw [out, split, List.flatMap_append, List.flatMap_singleton, body, List.append_nil]

/-- **Run lemma.** In every interleaving the log is whole sections, in the order in which
the mutex was taken, and what the holder has written of its own; each thread has called
the front of its program, in order. -/
theorem serial_run (run : S.system.run tr = some s) : ∃ es, Serial S tr s es := by
  refine System.run_invariant (T := S.system) (I := fun tr s => ∃ es, Serial S tr s es) ?_ ?_ run
  · exact ⟨[], rfl, fun _ => rfl, rfl⟩
  · rintro tr s l s' - ⟨es, serial⟩ hstep
    exact serial.step hstep

end Sections

end CppLab
