import CppLab.Class.Model

/-!
# NUL termination of `cstring_`

`set_first_char` writes the first byte of the buffer whatever it is. In the one
byte that the constructor allocates for `""` that byte is the NUL.

`shaped_run` holds of every program: a buffer has one byte, or a NUL after the
first. From it, `terminated_iff` says in which programs every buffer of an object
is terminated in every state.
-/

namespace CppLab.Class

/-- Every `cstring_` that is not null points to a buffer with a NUL in it. -/
def Terminated (s : State) : Prop :=
  ∀ o p, s.objects o = some (some p) → ∃ buf, s.heap p = some buf ∧ 0 ∈ buf

/-- A character other than NUL is not written into a buffer of one byte. -/
def Safe (s : State) : Op → Prop
  | .set_first_char o ch => ch = 0 ∨ ∀ buf ∈ s.buffer o, buf.length ≠ 1
  | _ => True

instance (s : State) (op : Op) : Decidable (Safe s op) := by
  cases op <;> unfold Safe <;> infer_instance

/-- The buffers of objects are the buffers in memory. -/
theorem Owns.terminated_heap {s : State} (owns : Owns s) : Terminated s ↔ HeapTerminated s := by
  constructor
  · intro terminated q buf there
    obtain ⟨o, holds⟩ := (owns.live q).mp (by simp [there])
    obtain ⟨buf', found, nul⟩ := terminated o q (State.held_eq_some.mp holds)
    rw [there] at found
    cases found
    exact nul
  · intro terminated o p holds
    obtain ⟨buf, found⟩ := Option.ne_none_iff_exists'.mp (owns.there (held_of_objects holds))
    exact ⟨buf, found, terminated p buf found⟩

/-- A buffer of one byte, or with a NUL that `set_first_char` does not reach. -/
def Shaped (s : State) : Prop := ∀ q buf, s.heap q = some buf → buf.length = 1 ∨ 0 ∈ buf.tail

theorem shaped_copied (buf : Bytes) (n : Nat) :
    (buf.take n ++ [0]).length = 1 ∨ 0 ∈ (buf.take n ++ [0]).tail := by
  cases taken : buf.take n with
  | nil => exact .inl rfl
  | cons b rest => exact .inr (by simp)

theorem shaped_step {r : Role} {s s' : State} {op : Op} (shaped : Shaped s)
    (hstep : (system r).step s op = some s') : Shaped s' := by
  intro q buf there
  rcases heap_cases hstep there with
    before | ⟨from_, n, -, rfl⟩ | ⟨-, ch, old, -, -, before, -, rfl⟩
  · exact shaped q buf before
  · exact shaped_copied from_ n
  · have kept : (old.set 0 ch).tail = old.tail := by
      cases old <;> rfl
    rw [List.length_set, kept]
    exact shaped q old before

theorem shaped_run {r : Role} {tr : List Op} {s : State} (run : (system r).run tr = some s) :
    Shaped s := by
  refine System.state_invariant (I := Shaped) ?_ (fun _ _ _ => shaped_step) run
  intro q buf there
  cases there

/-- Step lemma: a safe call leaves a NUL in every buffer. -/
theorem heapTerminated_step {r : Role} {s s' : State} {op : Op} (shaped : Shaped s)
    (terminated : HeapTerminated s) (safe : Safe s op)
    (hstep : (system r).step s op = some s') : HeapTerminated s' := by
  intro q buf there
  rcases heap_cases hstep there with before | ⟨from_, n, -, rfl⟩ |
    ⟨o, ch, old, rfl, holds, before, some_byte, rfl⟩
  · exact terminated q buf before
  · exact List.mem_append_right _ (List.mem_singleton_self 0)
  · cases old with
    | nil => exact absurd rfl some_byte
    | cons b rest =>
        show 0 ∈ ch :: rest
        rcases safe with rfl | long
        · exact List.mem_cons_self
        · have here : s.buffer o = some (b :: rest) := by
            rw [State.buffer, State.held_eq_some.mpr holds, Option.bind_some, before]
          rcases shaped q _ before with short | nul
          · exact absurd short (long _ here)
          · exact List.mem_cons_of_mem ch nul

/-- **Run lemma.** -/
theorem heapTerminated_run {r : Role} {tr : List Op} {s : State}
    (run : ((system r).restrict Safe).run tr = some s) : HeapTerminated s := by
  refine System.run_invariant (I := fun _ s => HeapTerminated s) ?_ ?_ run
  · intro q buf there
    cases there
  · intro tr s op s' run terminated hstep
    obtain ⟨safe, hstep⟩ := System.restrict_step_eq_some.mp hstep
    exact heapTerminated_step (shaped_run (System.run_of_restrict run)) terminated safe hstep

/-- An unsafe call leaves a buffer without a NUL. -/
theorem not_terminated_of_breach {r : Role} {s s' : State} {op : Op} (broken : ¬ Safe s op)
    (hstep : (system r).step s op = some s') : ¬ Terminated s' := by
  cases op with
  | set_first_char o ch =>
      rw [Safe, not_or, not_forall] at broken
      obtain ⟨notNul, buf, short⟩ := broken
      rw [Classical.not_imp, not_not] at short
      obtain ⟨here, one⟩ := short
      obtain ⟨p, holds, there⟩ := Option.bind_eq_some_iff.mp here
      have live := State.held_eq_some.mp holds
      simp only [system, live, Option.bind_some] at hstep
      rcases set_first_char_eq_some.mp hstep with ⟨null, -⟩ | ⟨q, old, same, found, -, rfl⟩
      · cases null
      · cases same
        rw [there] at found
        cases found
        intro terminated
        obtain ⟨buf', now, nul⟩ := terminated o p live
        change Function.update s.heap p _ p = some buf' at now
        rw [Function.update_self] at now
        cases now
        obtain ⟨b, rfl⟩ := List.length_eq_one_iff.mp one
        exact notNul (by simpa [eq_comm] using nul)
  | construct => exact absurd trivial broken
  | copyConstruct => exact absurd trivial broken
  | moveConstruct => exact absurd trivial broken
  | copyAssign => exact absurd trivial broken
  | moveAssign => exact absurd trivial broken
  | destroy => exact absurd trivial broken

/-! ## The main result -/

/-- **NUL termination.** In a program with objects of either class every `cstring_`
is null or terminated in every state it reaches if and only if no character other
than NUL is written into a buffer of one byte, the buffer made for the empty
string. In such a program no call reads past a buffer. -/
theorem terminated_iff {r : Role} {tr : List Op} {s : State}
    (run : (system r).run tr = some s) :
    ((∀ pre post s₁, tr = pre ++ post → (system r).run pre = some s₁ → Terminated s₁) ↔
      ((system r).restrict Safe).run tr = some s) ∧
    (((system r).restrict Safe).run tr = some s →
      ∀ op, Admissible s op → (system r).step s op ≠ none) := by
  have prefixes := System.forall_prefix_iff (C := Safe) (P := fun _ t => Terminated t)
    (fun pre t before =>
      (owns_run (System.run_of_restrict before)).terminated_heap.mpr (heapTerminated_run before))
    (fun pre op s₁ s₂ _ broken step => not_terminated_of_breach broken step) run
  refine ⟨⟨?_, ?_⟩, ?_⟩
  · intro terminated
    refine prefixes.mp ?_
    rintro pre t ⟨post, rfl⟩ here
    exact terminated pre post t rfl here
  · rintro guarded pre post t rfl here
    exact prefixes.mpr guarded pre t (List.prefix_append pre post) here
  · intro guarded op admissible
    obtain ⟨s', step⟩ := progress (owns_run run) (heapTerminated_run guarded) admissible
    rw [step]
    simp

/-- A word, written to, and its copy. -/
theorem terminated_iff_word : ∃ s, (system .five).run
      [.construct 0 (some ⟨ascii "str1", by decide⟩) 5, .set_first_char 0 88,
        .copyConstruct 1 0 6] = some s ∧ Terminated s := by
  have run : (system .five).run [.construct 0 (some ⟨ascii "str1", by decide⟩) 5,
    .set_first_char 0 88, .copyConstruct 1 0 6] = some _ := rfl
  exact ⟨_, run, (terminated_iff run).1.mpr rfl _ [] _ (List.append_nil _).symm run⟩

/-- The default argument, and a character. -/
theorem not_terminated_empty : ∃ s, (system .five).run
      [.construct 0 (some ⟨[], by simp⟩) 5, .set_first_char 0 88] = some s ∧ ¬ Terminated s := by
  refine ⟨_, rfl, fun terminated => ?_⟩
  obtain ⟨buf, there, nul⟩ := terminated 0 5 rfl
  cases there
  simp [CString.buffer] at nul

end CppLab.Class
