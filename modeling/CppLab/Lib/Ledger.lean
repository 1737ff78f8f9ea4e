import CppLab.Lib.System

/-!
# Ledgers of resources

A trace of acquisitions and releases of resources that have names, where a
name may be handed out again once it has been released (file descriptors,
handles, slots). `closesOf d post` counts the releases of the instance of `d`
acquired just before `post`; the three ways to be wrong are a second release, a
release that never comes and a release of something that was never acquired.

`Ledger.replay` is the executable book-keeper: it follows the set of open
names and refuses a trace that opens an open name or closes one that is not
open. `atMostOnce_of_replay` and `closesOf_eq_one` turn its verdict into facts about
every instance.
-/

namespace CppLab

/-- One entry of a ledger. -/
inductive Entry (δ : Type*)
  | opened (d : δ)
  | closed (d : δ)
  deriving DecidableEq, Repr

namespace Ledger

variable {δ : Type*} [DecidableEq δ]

/-- Releases of the instance of `d` that was acquired just before the list:
those up to the next acquisition of the same name. -/
def closesOf (d : δ) : List (Entry δ) → Nat
  | [] => 0
  | .opened e :: es => if e = d then 0 else closesOf d es
  | .closed e :: es => (if e = d then 1 else 0) + closesOf d es

/-- Every instance is released at most once. -/
def AtMostOnce (es : List (Entry δ)) : Prop :=
  ∀ pre d post, es = pre ++ .opened d :: post → closesOf d post ≤ 1

/-- Every instance is released exactly once. -/
def ExactlyOnce (es : List (Entry δ)) : Prop :=
  ∀ pre d post, es = pre ++ .opened d :: post → closesOf d post = 1

/-- The names open after one more entry, `none` when the entry opens an open
name or closes one that is not open. -/
def record (o : List δ) : Entry δ → Option (List δ)
  | .opened d => if d ∈ o then none else some (d :: o)
  | .closed d => if d ∈ o then some (o.erase d) else none

/-- The book-keeper as a system over ledger entries, nothing open at first. -/
def keeper : System (List δ) (Entry δ) where
  init := []
  step := record

/-- The names left open by a trace. -/
def replay (es : List (Entry δ)) : Option (List δ) := keeper.run es

@[simp] theorem record_opened {o : List δ} {d : δ} (h : d ∉ o) :
    record o (.opened d) = some (d :: o) := if_neg h

@[simp] theorem record_closed {o : List δ} {d : δ} (h : d ∈ o) :
    record o (.closed d) = some (o.erase d) := if_pos h

theorem replay_concat {es : List (Entry δ)} {o o' : List δ} {e : Entry δ}
    (h : replay es = some o) (he : record o e = some o') : replay (es ++ [e]) = some o' :=
  System.run_concat_eq_some.mpr ⟨o, h, he⟩

/-- The book-keeper never lists a name twice. -/
theorem record_nodup {o o' : List δ} {e : Entry δ} (nodup : o.Nodup)
    (h : record o e = some o') : o'.Nodup := by
  cases e with
  | opened d =>
      simp only [record] at h
      split at h
      · cases h
      · injection h with h
        exact h ▸ List.nodup_cons.mpr ⟨‹_›, nodup⟩
  | closed d =>
      simp only [record] at h
      split at h
      · injection h with h
        exact h ▸ nodup.erase d
      · cases h

theorem replay_nodup {es : List (Entry δ)} {o : List δ} (h : replay es = some o) : o.Nodup :=
  System.state_invariant (T := keeper) (I := List.Nodup) List.nodup_nil
    (fun _ _ _ nodup hs => record_nodup nodup hs) h

/-- What an accepted tail does to a name, by whether the name is open before
it: a closed name is not released before it is acquired again, an open one is
released once unless it is still open at the end. -/
theorem closesOf_runFrom (d : δ) {es : List (Entry δ)} {o o' : List δ} (nodup : o.Nodup)
    (h : keeper.runFrom o es = some o') :
    (d ∉ o → closesOf d es = 0) ∧
      (d ∈ o → closesOf d es ≤ 1 ∧ (d ∉ o' → closesOf d es = 1)) := by
  induction es generalizing o with
  | nil =>
      injection h with h
      subst h
      exact ⟨fun _ => rfl, fun hd => ⟨Nat.zero_le 1, fun hd' => absurd hd hd'⟩⟩
  | cons e es ih =>
      rw [System.runFrom_cons, Option.bind_eq_some_iff] at h
      obtain ⟨o₁, h1, h2⟩ := h
      have nodup₁ : o₁.Nodup := record_nodup nodup h1
      obtain ⟨ihOut, ihIn⟩ := ih nodup₁ h2
      cases e with
      | opened x =>
          simp only [keeper, record] at h1
          split at h1
          · cases h1
          · rename_i hx
            injection h1 with h1
            subst h1
            simp only [closesOf]
            refine ⟨fun hd => ?_, fun hd => ?_⟩
            · split
              · rfl
              · exact ihOut (by simp_all [eq_comm])
            · have ne : x ≠ d := fun he => hx (he ▸ hd)
              rw [if_neg ne]
              exact ihIn (List.mem_cons_of_mem x hd)
      | closed x =>
          simp only [keeper, record] at h1
          split at h1
          · rename_i hx
            injection h1 with h1
            subst h1
            simp only [closesOf]
            by_cases he : x = d
            · subst he
              have gone : x ∉ o.erase x := nodup.not_mem_erase
              rw [if_pos rfl, ihOut gone]
              exact ⟨fun hd => absurd hx hd, fun _ => ⟨Nat.le_refl 1, fun _ => rfl⟩⟩
            · have same : d ∈ o.erase x ↔ d ∈ o := List.mem_erase_of_ne (Ne.symm he)
              rw [if_neg he, Nat.zero_add, ← same]
              exact ⟨ihOut, ihIn⟩
          · cases h1

/-- Where an acquisition stands in an accepted trace, the book-keeper had the
name open right after it. -/
theorem runFrom_opened {pre post : List (Entry δ)} {d : δ} {o' : List δ}
    (h : replay (pre ++ .opened d :: post) = some o') :
    ∃ o, (d :: o).Nodup ∧ keeper.runFrom (d :: o) post = some o' := by
  obtain ⟨o, h1, h2⟩ := System.run_prefix h
  rw [System.runFrom_cons, Option.bind_eq_some_iff] at h2
  obtain ⟨o₁, hr, h2⟩ := h2
  change record o (.opened d) = some o₁ at hr
  have nodup := record_nodup (replay_nodup h1) hr
  simp only [record] at hr
  split at hr
  · cases hr
  · injection hr with hr
    subst hr
    exact ⟨o, nodup, h2⟩

/-- In an accepted trace no instance is released twice. -/
theorem atMostOnce_of_replay {es : List (Entry δ)} {o : List δ} (h : replay es = some o) :
    AtMostOnce es := by
  rintro pre d post rfl
  obtain ⟨o₁, nodup, h2⟩ := runFrom_opened h
  exact ((closesOf_runFrom d nodup h2).2 List.mem_cons_self).1

/-- In an accepted trace an instance whose name is not open at the end has been
released exactly once. -/
theorem closesOf_eq_one {pre post : List (Entry δ)} {d : δ} {o : List δ}
    (h : replay (pre ++ .opened d :: post) = some o) (hd : d ∉ o) : closesOf d post = 1 := by
  obtain ⟨o₁, nodup, h2⟩ := runFrom_opened h
  exact ((closesOf_runFrom d nodup h2).2 List.mem_cons_self).2 hd

/-- An accepted trace that leaves nothing open releases every instance exactly
once. -/
theorem exactlyOnce_of_replay {es : List (Entry δ)} (h : replay es = some []) :
    ExactlyOnce es := by
  rintro pre d post rfl
  exact closesOf_eq_one h List.not_mem_nil

/-- An entry other than a release of `d` adds no release of `d`. -/
theorem closesOf_concat_of_ne {d : δ} {es : List (Entry δ)} {e : Entry δ} (ne : e ≠ .closed d) :
    closesOf d (es ++ [e]) = closesOf d es := by
  induction es with
  | nil =>
      cases e with
      | opened x => simp [closesOf]
      | closed x =>
          have other : x ≠ d := fun h => ne (h ▸ rfl)
          simp [closesOf, other]
  | cons x es ih =>
      cases x with
      | opened x => simp only [List.cons_append, closesOf, ih]
      | closed x => simp only [List.cons_append, closesOf, ih]

/-- A name left open has an instance that was never released. -/
theorem exists_unreleased {es : List (Entry δ)} {o : List δ} (h : replay es = some o) :
    ∀ d ∈ o, ∃ pre post, es = pre ++ .opened d :: post ∧ closesOf d post = 0 := by
  refine System.run_invariant (T := keeper) (I := fun es o => ∀ d ∈ o, ∃ pre post,
    es = pre ++ .opened d :: post ∧ closesOf d post = 0) (by simp [keeper]) ?_ h
  intro es o e o' run inv step d hd
  -- an instance open before the entry stays unreleased unless the entry is its release
  have keep : d ∈ o → e ≠ .closed d → ∃ pre post, es ++ [e] = pre ++ .opened d :: post ∧
      closesOf d post = 0 := by
    intro before ne
    obtain ⟨pre, post, rfl, none⟩ := inv d before
    exact ⟨pre, post ++ [e], by simp, by rw [closesOf_concat_of_ne ne, none]⟩
  cases e with
  | opened x =>
      simp only [keeper, record] at step
      split at step
      · cases step
      · injection step with step
        subst step
        rcases List.mem_cons.mp hd with rfl | before
        · exact ⟨es, [], rfl, rfl⟩
        · exact keep before nofun
  | closed x =>
      have nodup : o.Nodup := replay_nodup run
      simp only [keeper, record] at step
      split at step
      · injection step with step
        subst step
        refine keep (List.mem_of_mem_erase hd) ?_
        intro same
        injection same with same
        exact nodup.not_mem_erase (same ▸ hd)
      · cases step

omit [DecidableEq δ] in
/-- The last acquisition of a name. -/
theorem exists_last_opened {es : List (Entry δ)} {d : δ} (h : Entry.opened d ∈ es) :
    ∃ pre post, es = pre ++ .opened d :: post ∧ Entry.opened d ∉ post := by
  obtain ⟨post, pre, split, last⟩ := List.eq_append_cons_of_mem (List.mem_reverse.mpr h)
  refine ⟨pre.reverse, post.reverse, ?_, fun hd => last (List.mem_reverse.mp hd)⟩
  rw [← List.reverse_reverse es, split]
  simp

/-- Releases of an instance whose name is not acquired again add up. -/
theorem closesOf_append {d : δ} {es fs : List (Entry δ)} (last : Entry.opened d ∉ es) :
    closesOf d (es ++ fs) = closesOf d es + closesOf d fs := by
  induction es with
  | nil => simp [closesOf]
  | cons e es ih =>
      rw [List.mem_cons, not_or] at last
      cases e with
      | opened x =>
          have other : x ≠ d := fun h => last.1 (h ▸ rfl)
          rw [List.cons_append, closesOf, closesOf, if_neg other, if_neg other, ih last.2]
      | closed x => rw [List.cons_append, closesOf, closesOf, ih last.2, Nat.add_assoc]

/-- In an accepted trace an instance whose name is acquired again has been released
exactly once. -/
theorem closesOf_eq_one_of_opened {pre post : List (Entry δ)} {d : δ} {o : List δ}
    (h : replay (pre ++ .opened d :: post) = some o) (again : Entry.opened d ∈ post) :
    closesOf d post = 1 := by
  obtain ⟨first, rest, rfl, before⟩ := List.eq_append_cons_of_mem again
  have whole : pre ++ .opened d :: (first ++ .opened d :: rest) =
      (pre ++ .opened d :: first) ++ .opened d :: rest := by simp
  rw [whole] at h
  obtain ⟨names, replayed, tail⟩ := System.run_prefix h
  have absent : d ∉ names := by
    intro member
    rw [System.runFrom_cons] at tail
    simp [keeper, record, member] at tail
  rw [closesOf_append before, closesOf_eq_one replayed absent, closesOf, if_pos rfl]

/-- An instance whose name is left open and not acquired again has not been
released. -/
theorem closesOf_eq_zero {pre post : List (Entry δ)} {d : δ} {o : List δ}
    (h : replay (pre ++ .opened d :: post) = some o) (last : Entry.opened d ∉ post)
    (hd : d ∈ o) : closesOf d post = 0 := by
  obtain ⟨pre', post', split, none⟩ := exists_unreleased h d hd
  rcases List.append_eq_append_iff.mp split with ⟨between, rfl, same⟩ | ⟨between, rfl, same⟩
  · cases between with
    | nil =>
        injection same with _ same
        exact same ▸ none
    | cons e between =>
        injection same with _ same
        exact absurd (same ▸ List.mem_append_right _ List.mem_cons_self) last
  · cases between with
    | nil =>
        injection same with _ same
        exact same ▸ none
    | cons e between =>
        injection same with first same
        have again : Entry.opened d ∈ post' := same ▸ List.mem_append_right _ List.mem_cons_self
        rw [split] at h
        have one := closesOf_eq_one_of_opened h again
        omega

/-- A release of a name that was acquired and is not open is a second release,
whatever comes after it. -/
theorem not_atMostOnce_of_closed_again {es rest : List (Entry δ)} {o : List δ} {d : δ}
    (h : replay es = some o) (hd : d ∉ o) (acquired : Entry.opened d ∈ es) :
    ¬ AtMostOnce (es ++ .closed d :: rest) := by
  intro once
  obtain ⟨pre, post, rfl, last⟩ := exists_last_opened acquired
  have first : closesOf d post = 1 := closesOf_eq_one h hd
  have atMost := once pre d (post ++ .closed d :: rest) (by simp)
  rw [closesOf_append last, first] at atMost
  simp only [closesOf, if_pos] at atMost
  omega

/-- In an accepted trace every instance is released exactly once precisely
when nothing is left open. -/
theorem exactlyOnce_iff_of_replay {es : List (Entry δ)} {o : List δ} (h : replay es = some o) :
    ExactlyOnce es ↔ o = [] := by
  constructor
  · intro once
    refine List.eq_nil_iff_forall_not_mem.mpr fun d hd => ?_
    obtain ⟨pre, post, split, none⟩ := exists_unreleased h d hd
    have one := once pre d post split
    omega
  · rintro rfl
    exact exactlyOnce_of_replay h

end Ledger

end CppLab
