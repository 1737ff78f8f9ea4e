import Mathlib

/-!
# Labelled systems and their runs

A `System` is a transition system whose labels fix every choice: the
schedule, the answers of the environment, the outcome of a call. The step is
a partial function of state and label, so a run is a list of labels and can be
evaluated.

* `System.run` replays a list of labels from the initial state;
* `System.run_invariant` is the run lemma: what one step preserves, with the
  labels seen so far in hand, holds after every run;
* `System.restrict` keeps the steps that meet a guard on the state *before*
  the step, so "a run whose steps all meet `C`" is a run of `T.restrict C`.

A `Process` is the special case of a sequential program that only ever waits
for the answer to one outstanding call.
-/

namespace CppLab

/-- A transition system with deterministic labels. -/
structure System (σ ℓ : Type*) where
  init : σ
  step : σ → ℓ → Option σ

namespace System

variable {σ ℓ : Type*} (T : System σ ℓ)

/-- Replay a list of labels from a given state. -/
def runFrom : σ → List ℓ → Option σ
  | s, [] => some s
  | s, l :: ls => (T.step s l).bind fun s' => runFrom s' ls

/-- Replay a list of labels from the initial state. -/
def run (ls : List ℓ) : Option σ := T.runFrom T.init ls

@[simp] theorem runFrom_nil (s : σ) : T.runFrom s [] = some s := rfl

@[simp] theorem run_nil : T.run [] = some T.init := rfl

theorem runFrom_cons (s : σ) (l : ℓ) (ls : List ℓ) :
    T.runFrom s (l :: ls) = (T.step s l).bind fun s' => T.runFrom s' ls := rfl

theorem runFrom_append (s : σ) (as bs : List ℓ) :
    T.runFrom s (as ++ bs) = (T.runFrom s as).bind fun s' => T.runFrom s' bs := by
  induction as generalizing s with
  | nil => rfl
  | cons a as ih =>
      simp only [List.cons_append, runFrom_cons, Option.bind_assoc]
      cases T.step s a with
      | none => rfl
      | some s' => exact ih s'

theorem run_append (as bs : List ℓ) :
    T.run (as ++ bs) = (T.run as).bind fun s => T.runFrom s bs :=
  T.runFrom_append T.init as bs

variable {T}

/-- The last step of a run. -/
theorem run_concat_eq_some {ls : List ℓ} {l : ℓ} {s' : σ} :
    T.run (ls ++ [l]) = some s' ↔ ∃ s, T.run ls = some s ∧ T.step s l = some s' := by
  simp [run_append, runFrom_cons, Option.bind_eq_some_iff]

/-- Every prefix of a run is a run. -/
theorem run_prefix {as bs : List ℓ} {s : σ} (h : T.run (as ++ bs) = some s) :
    ∃ s₁, T.run as = some s₁ ∧ T.runFrom s₁ bs = some s := by
  rw [run_append, Option.bind_eq_some_iff] at h
  exact h

/-- **Run lemma.** What the initial state has and one step preserves holds
after every run. The invariant may mention the labels seen so far. -/
theorem run_invariant {I : List ℓ → σ → Prop} (h0 : I [] T.init)
    (hstep : ∀ ls s l s', T.run ls = some s → I ls s → T.step s l = some s' →
      I (ls ++ [l]) s') :
    ∀ {ls : List ℓ} {s : σ}, T.run ls = some s → I ls s := by
  intro ls
  induction ls using List.reverseRecOn with
  | nil =>
      intro s h
      rw [run_nil] at h
      injection h with h
      exact h ▸ h0
  | append_singleton ls l ih =>
      intro s' h
      obtain ⟨s, hs, hl⟩ := run_concat_eq_some.mp h
      exact hstep ls s l s' hs (ih hs) hl

/-- The run lemma for an invariant of the state alone. -/
theorem state_invariant {I : σ → Prop} (h0 : I T.init)
    (hstep : ∀ s l s', I s → T.step s l = some s' → I s')
    {ls : List ℓ} {s : σ} (h : T.run ls = some s) : I s :=
  T.run_invariant (I := fun _ s => I s) h0 (fun _ s l s' _ hi hs => hstep s l s' hi hs) h

/-- The run lemma from any state on. -/
theorem runFrom_invariant {I : σ → Prop} (hstep : ∀ s l s', I s → T.step s l = some s' → I s')
    {ls : List ℓ} {s s' : σ} (h : T.runFrom s ls = some s') (hs : I s) : I s' := by
  induction ls generalizing s with
  | nil =>
      injection h with h
      exact h ▸ hs
  | cons l ls ih =>
      rw [runFrom_cons, Option.bind_eq_some_iff] at h
      obtain ⟨s₁, h1, h2⟩ := h
      exact ih h2 (hstep s l s₁ hs h1)

/-! ## Runs that end -/

/-- A potential that each step lowers by what its label weighs, but for what it puts in:
all labels together weigh no more than there is at the start and what is put in. -/
theorem sum_add_le {I : σ → Prop} {μ : σ → ℕ} {weight cost : ℓ → ℕ}
    (keeps : ∀ s l s', I s → T.step s l = some s' → I s')
    (lowers : ∀ s l s', I s → T.step s l = some s' → weight l + μ s' ≤ μ s + cost l)
    {ls : List ℓ} {s s' : σ} (h : T.runFrom s ls = some s') (hs : I s) :
    (ls.map weight).sum + μ s' ≤ μ s + (ls.map cost).sum := by
  induction ls generalizing s with
  | nil =>
      injection h with h
      rw [h]
      simp
  | cons l ls ih =>
      rw [runFrom_cons, Option.bind_eq_some_iff] at h
      obtain ⟨s₁, h1, h2⟩ := h
      have first := lowers s l s₁ hs h1
      have later := ih h2 (keeps s l s₁ hs h1)
      simp only [List.map_cons, List.sum_cons]
      omega

/-- A potential that each step lowers by one at least bounds the length of a run. -/
theorem length_add_le {I : σ → Prop} {μ : σ → ℕ} {cost : ℓ → ℕ}
    (keeps : ∀ s l s', I s → T.step s l = some s' → I s')
    (lowers : ∀ s l s', I s → T.step s l = some s' → μ s' + 1 ≤ μ s + cost l)
    {ls : List ℓ} {s s' : σ} (h : T.runFrom s ls = some s') (hs : I s) :
    ls.length + μ s' ≤ μ s + (ls.map cost).sum := by
  have one : ∀ s l s', I s → T.step s l = some s' → 1 + μ s' ≤ μ s + cost l := by
    intro s l s' hs h
    rw [Nat.add_comm]
    exact lowers s l s' hs h
  have bound := T.sum_add_le keeps one h hs
  rwa [List.map_const', List.sum_replicate_nat, Nat.mul_one] at bound

/-! ## Observing a trace -/

/-- A label that an observation skips. -/
theorem filterMap_concat_none {β : Type*} {f : ℓ → Option β} {ls : List ℓ} {l : ℓ}
    (h : f l = none) : (ls ++ [l]).filterMap f = ls.filterMap f := by
  rw [List.filterMap_append, List.filterMap_cons_none h, List.filterMap_nil, List.append_nil]

/-- A label that an observation records. -/
theorem filterMap_concat_some {β : Type*} {f : ℓ → Option β} {ls : List ℓ} {l : ℓ} {b : β}
    (h : f l = some b) : (ls ++ [l]).filterMap f = ls.filterMap f ++ [b] := by
  rw [List.filterMap_append, List.filterMap_cons_some h, List.filterMap_nil]

/-- Where a label stands in a trace with one label more: it is the last one, or it
stands in the trace before. -/
theorem concat_eq_append_cons {ls pre post : List ℓ} {l k : ℓ} :
    ls ++ [l] = pre ++ k :: post ↔
      (post = [] ∧ pre = ls ∧ k = l) ∨ ∃ post', post = post' ++ [l] ∧ ls = pre ++ k :: post' := by
  constructor
  · intro split
    rcases List.eq_nil_or_concat post with rfl | ⟨post', last, rfl⟩
    · obtain ⟨rfl, same⟩ := List.append_inj' split rfl
      injection same with same
      exact .inl ⟨rfl, rfl, same.symm⟩
    · rw [List.concat_eq_append, ← List.cons_append, ← List.append_assoc] at split
      obtain ⟨before, same⟩ := List.append_inj' split rfl
      injection same with same
      exact .inr ⟨post', by rw [List.concat_eq_append, same], before⟩
  · rintro (⟨rfl, rfl, rfl⟩ | ⟨post', rfl, rfl⟩)
    · rfl
    · simp

/-! ## Guarded runs -/

/-- The system whose steps are those of `T` taken from a state that meets the
guard. -/
def restrict (T : System σ ℓ) (C : σ → ℓ → Prop) [∀ s l, Decidable (C s l)] : System σ ℓ where
  init := T.init
  step s l := if C s l then T.step s l else none

variable {C : σ → ℓ → Prop} [∀ s l, Decidable (C s l)]

theorem restrict_step_eq_some {s s' : σ} {l : ℓ} :
    (T.restrict C).step s l = some s' ↔ C s l ∧ T.step s l = some s' := by
  simp only [restrict]
  split <;> simp_all

/-- A guarded run is a run. -/
theorem runFrom_of_restrict {ls : List ℓ} {s s' : σ}
    (h : (T.restrict C).runFrom s ls = some s') : T.runFrom s ls = some s' := by
  induction ls generalizing s with
  | nil => exact h
  | cons l ls ih =>
      rw [runFrom_cons, Option.bind_eq_some_iff] at h ⊢
      obtain ⟨s₁, h1, h2⟩ := h
      exact ⟨s₁, (restrict_step_eq_some.mp h1).2, ih h2⟩

theorem run_of_restrict {ls : List ℓ} {s : σ} (h : (T.restrict C).run ls = some s) :
    T.run ls = some s :=
  runFrom_of_restrict h

/-- A run is guarded, or it has a first step that breaks the guard. -/
theorem restrict_or_breaks {ls : List ℓ} {s : σ} (h : T.run ls = some s) :
    (T.restrict C).run ls = some s ∨
    ∃ pre l post s₁ s₂, ls = pre ++ l :: post ∧ (T.restrict C).run pre = some s₁ ∧
      ¬ C s₁ l ∧ T.step s₁ l = some s₂ ∧ T.runFrom s₂ post = some s := by
  induction ls using List.reverseRecOn generalizing s with
  | nil => exact .inl h
  | append_singleton ls l ih =>
      obtain ⟨s₁, h1, h2⟩ := run_concat_eq_some.mp h
      rcases ih h1 with guarded | ⟨pre, k, post, t₁, t₂, rfl, hpre, hC, hk, hpost⟩
      · by_cases hC : C s₁ l
        · have step : (T.restrict C).step s₁ l = some s := restrict_step_eq_some.mpr ⟨hC, h2⟩
          exact .inl (run_concat_eq_some.mpr ⟨s₁, guarded, step⟩)
        · exact .inr ⟨ls, l, [], s₁, s, rfl, guarded, hC, h2, rfl⟩
      · refine .inr ⟨pre, k, post ++ [l], t₁, t₂, by simp, hpre, hC, hk, ?_⟩
        rw [runFrom_append, hpost, Option.bind_some, runFrom_cons, h2]
        rfl

/-- What holds after guarded runs, and fails after a step that breaks the guard,
holds all the way through a run precisely when the run is guarded. -/
theorem forall_prefix_iff {P : List ℓ → σ → Prop}
    (good : ∀ pre t, (T.restrict C).run pre = some t → P pre t)
    (bad : ∀ pre l s₁ s₂, (T.restrict C).run pre = some s₁ → ¬ C s₁ l → T.step s₁ l = some s₂ →
      ¬ P (pre ++ [l]) s₂)
    {ls : List ℓ} {s : σ} (h : T.run ls = some s) :
    (∀ pre t, pre <+: ls → T.run pre = some t → P pre t) ↔ (T.restrict C).run ls = some s := by
  constructor
  · intro all
    rcases restrict_or_breaks (C := C) h with
      guarded | ⟨pre, l, post, s₁, s₂, rfl, before, breaks, hstep, -⟩
    · exact guarded
    · have here : T.run (pre ++ [l]) = some s₂ :=
        run_concat_eq_some.mpr ⟨s₁, run_of_restrict before, hstep⟩
      exact absurd (all _ s₂ ⟨post, by simp⟩ here) (bad pre l s₁ s₂ before breaks hstep)
  · rintro guarded pre t ⟨post, rfl⟩ here
    obtain ⟨u, before, -⟩ := run_prefix guarded
    have same := run_of_restrict before
    rw [here] at same
    cases same
    exact good pre t before

/-- A run is guarded when each of its steps meets the guard. -/
theorem restrict_run_iff {ls : List ℓ} {s : σ} (h : T.run ls = some s) :
    (T.restrict C).run ls = some s ↔
      ∀ pre l post t, ls = pre ++ l :: post → T.run pre = some t → C t l := by
  constructor
  · rintro guarded pre l post t rfl here
    obtain ⟨u, before, after⟩ := run_prefix guarded
    have same := run_of_restrict before
    rw [here] at same
    cases same
    rw [runFrom_cons, Option.bind_eq_some_iff] at after
    obtain ⟨next, hstep, -⟩ := after
    exact (restrict_step_eq_some.mp hstep).1
  · intro all
    rcases restrict_or_breaks (C := C) h with
      guarded | ⟨pre, l, post, s₁, s₂, rfl, before, breaks, -, -⟩
    · exact guarded
    · exact absurd (all pre l post s₁ rfl (run_of_restrict before)) breaks

end System

/-! ## Processes -/

/-- A sequential program that waits for the answer to one call at a time.
`pending` is the call the program is blocked in, `none` once it has ended. -/
structure Process (σ Call Ret : Type*) where
  init : σ
  pending : σ → Option Call
  resume : σ → Ret → σ

namespace Process

variable {σ Call Ret : Type*} [DecidableEq Call]

/-- The system of a process in an environment that answers a call `c` with any
`r` such that `allowed c r`. A label is a call together with its answer. -/
def system (P : Process σ Call Ret) (allowed : Call → Ret → Bool) : System σ (Call × Ret) where
  init := P.init
  step s e :=
    if P.pending s = some e.1 ∧ allowed e.1 e.2 then some (P.resume s e.2) else none

variable {P : Process σ Call Ret} {allowed : Call → Ret → Bool}

@[simp] theorem system_init : (P.system allowed).init = P.init := rfl

theorem step_eq_some {s s' : σ} {e : Call × Ret} :
    (P.system allowed).step s e = some s' ↔
      P.pending s = some e.1 ∧ allowed e.1 e.2 = true ∧ P.resume s e.2 = s' := by
  simp only [system]
  split <;> simp_all

/-- A process is deterministic: the answers fix the calls. -/
theorem runFrom_eq_of_answers {s a b : σ} {es es' : List (Call × Ret)}
    (h : (P.system allowed).runFrom s es = some a)
    (h' : (P.system allowed).runFrom s es' = some b)
    (answers : es.map Prod.snd = es'.map Prod.snd) : es = es' := by
  induction es generalizing s es' with
  | nil =>
      cases es' with
      | nil => rfl
      | cons e' es' => simp at answers
  | cons e es ih =>
      cases es' with
      | nil => simp at answers
      | cons e' es' =>
          simp only [List.map_cons, List.cons.injEq] at answers
          simp only [System.runFrom_cons, Option.bind_eq_some_iff, step_eq_some] at h h'
          obtain ⟨_, ⟨hc, _, rfl⟩, h⟩ := h
          obtain ⟨_, ⟨hc', _, rfl⟩, h'⟩ := h'
          have call : e.1 = e'.1 := by
            rw [hc] at hc'
            injection hc'
          rw [← answers.1] at h'
          rw [ih h h' answers.2, Prod.ext call answers.1]

end Process

end CppLab
