import CppLab.Menu.RunMenu

/-!
# What a session of the menu can do

`Safe` says what the menu is for, about the session so far and where it stands:
no lookup has failed, what runs is what was chosen, a number that is not on the
screen changes nothing, and the menu is left by the number of `Exit`.

It holds in every session as long as no group that can be opened has `INT_MAX`
examples, with which `e_index` overflows as the list is printed, nor an example whose
factory throws what the menu does not catch.
-/

namespace CppLab.Menu

variable {ι : Type*}

/-! ## The printed lists -/

theorem printGroups_eq (gIndex : Nat) (groups : List Bytes)
    (small : gIndex + groups.length < 2 ^ 64) :
    printGroups gIndex groups =
      ((groups.zipIdx gIndex).map Prod.swap, gIndex + groups.length) := by
  induction groups generalizing gIndex with
  | nil => rfl
  | cons group groups ih =>
      rw [List.length_cons] at small
      have next : StdString.sizeAdd gIndex 1 = gIndex + 1 := Nat.mod_eq_of_lt (by omega)
      rw [printGroups, next, ih (gIndex + 1) (by omega), List.zipIdx_cons, List.length_cons]
      simp only [List.map_cons, Prod.swap, Prod.mk.injEq, true_and]
      omega

theorem printExamples_eq (eIndex : Nat) (names : List Bytes) (small : (eIndex : Int) ≤ intMax) :
    printExamples eIndex names =
      if (eIndex + names.length : Int) ≤ intMax then
        some ((names.zipIdx eIndex).map fun line => ((line.2 : Int), line.1),
          (eIndex + names.length : Int))
      else none := by
  induction names generalizing eIndex with
  | nil => simpa [printExamples] using small
  | cons name names ih =>
      rw [printExamples]
      by_cases last : (eIndex : Int) = intMax
      · have past : ¬ ((eIndex : Int) + (name :: names).length ≤ intMax) := by
          rw [List.length_cons]
          omega
        rw [if_pos last, if_neg past]
      · have next : (eIndex : Int) + 1 = (eIndex + 1 : Nat) := by omega
        have size : ((eIndex + 1 : Nat) : Int) + names.length =
            (eIndex : Int) + (name :: names).length := by
          rw [List.length_cons]
          omega
        rw [if_neg last, next, ih (eIndex + 1) (by omega), size]
        split
        · rfl
        · rfl

theorem mem_zipIdx_iff {names : List Bytes} {n : Nat} {name : Bytes} :
    (name, n) ∈ names.zipIdx 1 ↔ ∃ i, n = i + 1 ∧ names[i]? = some name := by
  rw [List.mk_mem_zipIdx_iff_le_and_getElem?_sub]
  constructor
  · rintro ⟨pos, at'⟩
    exact ⟨n - 1, by omega, at'⟩
  · rintro ⟨i, rfl, at'⟩
    exact ⟨by omega, by simpa using at'⟩

/-- The numbered groups: `1` for the first, and `Exit` after the last. -/
theorem mem_printGroups {groups : List Bytes} (small : groups.length + 1 < 2 ^ 64) {n : Nat}
    {group : Bytes} :
    (n, group) ∈ (printGroups 1 groups).1 ↔ ∃ i, n = i + 1 ∧ groups[i]? = some group := by
  rw [printGroups_eq 1 groups (by omega), ← mem_zipIdx_iff]
  simp only [List.mem_map, Prod.exists, Prod.swap_prod_mk, Prod.mk.injEq]
  constructor
  · rintro ⟨a, b, member, rfl, rfl⟩
    exact member
  · intro member
    exact ⟨group, n, member, rfl, rfl⟩

theorem printGroups_exit (groups : List Bytes) (small : groups.length + 1 < 2 ^ 64) :
    (printGroups 1 groups).2 = groups.length + 1 := by
  rw [printGroups_eq 1 groups (by omega), Nat.add_comm]

/-- The numbered examples: `1` for the first, and `Back` after the last. -/
theorem printExamples_some {names : List Bytes} {lines : List (Int × Bytes)} {back : Int}
    (printed : printExamples 1 names = some (lines, back)) :
    back = names.length + 1 ∧
      ∀ x name, (x, name) ∈ lines ↔ ∃ i : Nat, x = i + 1 ∧ names[i]? = some name := by
  rw [← Nat.cast_one, printExamples_eq 1 names (by decide)] at printed
  split at printed
  · cases printed
    refine ⟨by omega, ?_⟩
    intro x name
    simp only [List.mem_map, Prod.exists, Prod.mk.injEq]
    constructor
    · rintro ⟨a, n, member, rfl, rfl⟩
      obtain ⟨i, rfl, at'⟩ := mem_zipIdx_iff.mp member
      exact ⟨i, by omega, at'⟩
    · rintro ⟨i, rfl, at'⟩
      exact ⟨name, i + 1, mem_zipIdx_iff.mpr ⟨i, rfl, at'⟩, by omega, rfl⟩
  · cases printed

/-- `e_index` does not overflow as long as the number of `Back` is an `int`. -/
theorem printExamples_isSome (names : List Bytes) :
    (∃ lines back, printExamples 1 names = some (lines, back)) ↔ names.length < 2 ^ 31 - 1 := by
  have bound : ((1 : Nat) + names.length : Int) ≤ intMax ↔ names.length < 2 ^ 31 - 1 := by
    unfold intMax
    omega
  rw [← bound, ← Nat.cast_one, printExamples_eq 1 names (by decide)]
  split
  · exact ⟨fun _ => ‹_›, fun _ => ⟨_, _, rfl⟩⟩
  · exact ⟨nofun, fun small => absurd small ‹_›⟩

theorem toSize_of_nonneg {x : Int} (nonneg : 0 ≤ x) (small : x ≤ intMax) :
    (toSize x : Int) = x := by
  unfold intMax at small
  unfold toSize
  omega

theorem toSize_of_neg {x : Int} (neg : x < 0) (small : -2 ^ 31 ≤ x) :
    2 ^ 64 - 2 ^ 31 ≤ toSize x := by
  unfold toSize
  omega

/-! ## What the menu is for -/

/-- The numbers on the screen when the menu waits for one. -/
def Call.numbers : Call ι → List Int
  | .groupChoice lines exit => lines.map (fun line => (line.1 : Int)) ++ [(exit : Int)]
  | .exampleChoice lines back => lines.map Prod.fst ++ [back]
  | .execute _ | .anyKey => []

/-- The menu was waiting for a group. -/
def Call.IsGroupChoice : Call ι → Prop
  | .groupChoice _ _ => True
  | _ => False

/-- `group` stood next to the group number typed last. -/
def InGroup (tr : List (Event ι)) (group : Bytes) : Prop :=
  ∃ pre lines exit n mid, tr = pre ++ (.groupChoice lines exit, .choice (n : Nat)) :: mid ∧
    (∀ e ∈ mid, ¬ e.1.IsGroupChoice) ∧ (n, group) ∈ lines

/-- `made` is the example whose name stood next to the number typed last, in the
group that stood next to the group number typed last. -/
def Chosen (cat : Catalogue ι) (tr : List (Event ι)) (made : ι) : Prop :=
  ∃ pre lines back x name group, tr = pre ++ [(.exampleChoice lines back, .choice x)] ∧
    (x, name) ∈ lines ∧ InGroup pre group ∧
    cat.create group name = some (.returns (some made))

/-- What the menu is for: no lookup has failed, an example runs only when it was
chosen, a number that is not on the screen leaves the screen as it is, and the
menu ends at the number of `Exit` or because there is nothing to show. -/
structure Safe (cat : Catalogue ι) (tr : List (Event ι)) (pc : Pc ι) : Prop where
  found : pc ≠ .undefined ∧ pc ≠ .missing
  runs : ∀ made, pending cat pc = some (.execute made) → Chosen cat tr made
  invalid : ∀ pre call x, tr = pre ++ [(call, .choice x)] → x ∉ call.numbers →
    pending cat pc = some call
  left : pending cat pc = none → tr = [] ∧ cat.groups = [] ∨
    ∃ pre lines exit, tr = pre ++ [(.groupChoice lines exit, .choice (exit : Nat))]

/-- Each group whose number is an `int` has fewer than `INT_MAX` examples. -/
def Countable (cat : Catalogue ι) : Prop :=
  ∀ (i : Nat) (group : Bytes) (names : List Bytes), cat.groups[i]? = some group →
    (i + 1 : Int) ≤ intMax → cat.examples group = some names → names.length < 2 ^ 31 - 1

/-- No factory of such a group throws anything but `std::out_of_range`. -/
def Makeable (cat : Catalogue ι) : Prop :=
  ∀ (i : Nat) (group : Bytes) (names : List Bytes), cat.groups[i]? = some group →
    (i + 1 : Int) ≤ intMax → cat.examples group = some names →
      ∀ name ∈ names, cat.create group name ≠ some .throws

/-- The condition. -/
structure Usable (cat : Catalogue ι) : Prop where
  countable : Countable cat
  makeable : Makeable cat

/-! ## One number -/

variable {cat : Catalogue ι}

/-- The list of `group` can be printed, and its examples made. -/
def Opens (cat : Catalogue ι) (group : Bytes) (names : List Bytes) : Prop :=
  cat.examples group = some names ∧ (∀ name ∈ names, cat.create group name ≠ some .throws) ∧
    ∃ lines back, printExamples 1 names = some (lines, back)

theorem enterGroup_of_printed {group : Bytes} {names : List Bytes}
    (listed : cat.examples group = some names)
    (printed : ∃ lines back, printExamples 1 names = some (lines, back)) :
    enterGroup cat group = .examples group names := by
  obtain ⟨lines, back, printed⟩ := printed
  simp only [enterGroup, listed, printed]

theorem enterGroups_of_ne_nil (some : cat.groups ≠ []) : enterGroups cat = .groups := if_neg some

/-- A group number is that of `Exit`, or it is not on the screen, or it is that
of a group. -/
theorem chooseGroup_cases (small : cat.groups.length < 2 ^ 63) {x : Int} (low : -2 ^ 31 ≤ x)
    (high : x ≤ intMax) :
    (x = cat.groups.length + 1 ∧ chooseGroup cat x = .ended) ∨
    ((x < 1 ∨ cat.groups.length + 1 < x) ∧ chooseGroup cat x = enterGroups cat) ∨
    (∃ (i : Nat) (group : Bytes), x = i + 1 ∧ cat.groups[i]? = some group ∧
      chooseGroup cat x = enterGroup cat group) := by
  have exit := printGroups_exit cat.groups (by omega)
  unfold chooseGroup
  rw [exit]
  by_cases nonneg : 0 ≤ x
  · have same := toSize_of_nonneg nonneg high
    by_cases last : x = cat.groups.length + 1
    · left
      refine ⟨last, if_pos ?_⟩
      omega
    · right
      have notLast : ¬ toSize x = cat.groups.length + 1 := by omega
      rw [if_neg notLast]
      by_cases off : x < 1 ∨ cat.groups.length + 1 < x
      · left
        refine ⟨off, if_pos ?_⟩
        omega
      · right
        have on : ¬ (toSize x < 1 ∨ toSize x > cat.groups.length) := by omega
        have inside : toSize x - 1 < cat.groups.length := by omega
        have at' := List.getElem?_eq_getElem inside
        refine ⟨toSize x - 1, cat.groups[toSize x - 1], by omega, at', ?_⟩
        simp only [if_neg on, at']
  · -- a negative number becomes a `size_t` beyond every list
    have huge := toSize_of_neg (Int.not_le.mp nonneg) low
    have notLast : ¬ toSize x = cat.groups.length + 1 := by omega
    right
    left
    rw [if_neg notLast]
    refine ⟨by omega, if_pos ?_⟩
    omega

/-- An example number is that of `Back`, or it is not on the screen, or it is
that of an example. -/
theorem chooseExample_cases (cat : Catalogue ι) (group : Bytes) (names : List Bytes) (x : Int) :
    (x = names.length + 1 ∧
      chooseExample cat group names (names.length + 1) x = enterGroups cat) ∨
    ((x < 1 ∨ names.length + 1 < x) ∧
      chooseExample cat group names (names.length + 1) x = enterGroup cat group) ∨
    (∃ (i : Nat) (name : Bytes), x = i + 1 ∧ names[i]? = some name ∧
      chooseExample cat group names (names.length + 1) x = startExample cat group name) := by
  unfold chooseExample
  by_cases last : x = names.length + 1
  · exact .inl ⟨last, if_pos last⟩
  · right
    rw [if_neg last]
    by_cases off : x < 1 ∨ names.length + 1 < x
    · exact .inl ⟨off, if_pos off⟩
    · right
      have inside : (x - 1).toNat < names.length := by omega
      have at' := List.getElem?_eq_getElem inside
      refine ⟨(x - 1).toNat, names[(x - 1).toNat], by omega, at', ?_⟩
      simp only [if_neg off, at']

/-! ## A session -/

/-- What holds after a session, by where the menu is. -/
def Inv (cat : Catalogue ι) (tr : List (Event ι)) : Pc ι → Prop
  | .groups => cat.groups ≠ []
  | .examples group names => cat.groups ≠ [] ∧ InGroup tr group ∧ Opens cat group names
  | .executing group made =>
      cat.groups ≠ [] ∧ InGroup tr group ∧ (∃ names, Opens cat group names) ∧ Chosen cat tr made
  | .anyKey group => cat.groups ≠ [] ∧ InGroup tr group ∧ ∃ names, Opens cat group names
  | .ended => tr = [] ∧ cat.groups = [] ∨
      ∃ pre lines exit, tr = pre ++ [(.groupChoice lines exit, .choice (exit : Nat))]
  | .undefined | .missing | .threw => False

theorem InGroup.concat {tr : List (Event ι)} {group : Bytes} (within : InGroup tr group)
    {e : Event ι} (other : ¬ e.1.IsGroupChoice) : InGroup (tr ++ [e]) group := by
  obtain ⟨pre, lines, exit, n, mid, rfl, none, line⟩ := within
  refine ⟨pre, lines, exit, n, mid ++ [e], by simp, ?_, line⟩
  intro d member
  rcases List.mem_append.mp member with before | last
  · exact none d before
  · exact List.mem_singleton.mp last ▸ other

/-- The inner loop goes round. -/
theorem inv_enterGroup {tr : List (Event ι)} {group : Bytes} {names : List Bytes}
    (some : cat.groups ≠ []) (within : InGroup tr group) (opens : Opens cat group names) :
    Inv cat tr (enterGroup cat group) := by
  rw [enterGroup_of_printed opens.1 opens.2.2]
  exact ⟨some, within, opens⟩

theorem inv_enterGroups {tr : List (Event ι)} (some : cat.groups ≠ []) :
    Inv cat tr (enterGroups cat) := by
  rw [enterGroups_of_ne_nil some]
  exact some

variable [DecidableEq ι]

theorem inv_init : Inv cat [] (session cat).init := by
  show Inv cat [] (enterGroups cat)
  by_cases empty : cat.groups = []
  · rw [enterGroups, if_pos empty]
    exact .inl ⟨rfl, empty⟩
  · exact inv_enterGroups empty

omit [DecidableEq ι] in
/-- After a number on the list of groups. -/
theorem inv_chooseGroup (closed : cat.Closed) (small : cat.groups.length < 2 ^ 63)
    (usable : Usable cat) {tr : List (Event ι)} (some : cat.groups ≠ []) {x : Int}
    (low : -2 ^ 31 ≤ x) (high : x ≤ intMax) :
    Inv cat (tr ++ [(Call.groupChoice (printGroups 1 cat.groups).1 (printGroups 1 cat.groups).2,
      Ret.choice x)]) (chooseGroup cat x) := by
  have exit := printGroups_exit cat.groups (by omega)
  rcases chooseGroup_cases small low high with
    ⟨last, ended⟩ | ⟨-, again⟩ | ⟨i, group, number, at', entered⟩
  · rw [ended]
    refine .inr ⟨tr, (printGroups 1 cat.groups).1, (printGroups 1 cat.groups).2, ?_⟩
    rw [exit, last]
    rfl
  · rw [again]
    exact inv_enterGroups some
  · rw [entered]
    have member : group ∈ cat.groups := List.mem_of_getElem? at'
    obtain ⟨names, listed⟩ := closed.group group member
    have few := usable.countable i group names at' (number ▸ high) listed
    have made := usable.makeable i group names at' (number ▸ high) listed
    have opens : Opens cat group names := ⟨listed, made, (printExamples_isSome names).mpr few⟩
    have line := (mem_printGroups (by omega)).mpr ⟨i, rfl, at'⟩
    have typed : x = (i + 1 : Nat) := by omega
    refine inv_enterGroup some ?_ opens
    refine ⟨tr, _, (printGroups 1 cat.groups).2, i + 1, [], ?_, by simp, line⟩
    rw [typed]

omit [DecidableEq ι] in
/-- After a number on the list of examples. -/
theorem inv_chooseExample (closed : cat.Closed) {tr : List (Event ι)} (some : cat.groups ≠ [])
    {group : Bytes} {names : List Bytes} {lines : List (Int × Bytes)} {back x : Int}
    (within : InGroup tr group) (listed : cat.examples group = Option.some names)
    (makes : ∀ name ∈ names, cat.create group name ≠ Option.some .throws)
    (printed : printExamples 1 names = Option.some (lines, back)) :
    Inv cat (tr ++ [(Call.exampleChoice lines back, Ret.choice x)])
      (chooseExample cat group names back x) := by
  obtain ⟨rfl, numbered⟩ := printExamples_some printed
  have opens : Opens cat group names := ⟨listed, makes, lines, _, printed⟩
  have within' := within.concat (e := (.exampleChoice lines (names.length + 1), .choice x)) id
  rcases chooseExample_cases cat group names x with
    ⟨-, left⟩ | ⟨-, again⟩ | ⟨i, name, number, at', chosen⟩
  · rw [left]
    exact inv_enterGroups some
  · rw [again]
    exact inv_enterGroup some within' opens
  · rw [chosen]
    have member : name ∈ names := List.mem_of_getElem? at'
    obtain ⟨factory, made⟩ := closed.name group names listed name member
    rw [startExample, made]
    cases factory with
    | returns pointer =>
        cases pointer with
        | none => exact inv_enterGroup some within' opens
        | some example' =>
            refine ⟨some, within', ⟨names, opens⟩, ?_⟩
            have line := (numbered x name).mpr ⟨i, number, at'⟩
            exact ⟨tr, lines, _, x, name, group, rfl, line, within, made⟩
    | outOfRange => exact inv_enterGroup some within' opens
    | throws => exact absurd made (makes name member)

/-- Step lemma. -/
theorem inv_step (closed : cat.Closed) (small : cat.groups.length < 2 ^ 63)
    (usable : Usable cat) {tr : List (Event ι)} {pc pc' : Pc ι} {e : Event ι}
    (inv : Inv cat tr pc) (hstep : (session cat).step pc e = some pc') :
    Inv cat (tr ++ [e]) pc' := by
  obtain ⟨call, ret⟩ := e
  obtain ⟨blocked, answer, rfl⟩ := Process.step_eq_some.mp hstep
  change pending cat pc = some call at blocked
  change Inv cat _ (resume cat pc ret)
  cases pc with
  | groups =>
      cases blocked
      cases ret with
      | choice x =>
          obtain ⟨low, high⟩ := allowed_groupChoice.mp answer
          exact inv_chooseGroup closed small usable inv low high
      | returned => cases answer
      | outOfRange => cases answer
      | key => cases answer
  | examples group names =>
      obtain ⟨some, within, listed, makes, lines, back, printed⟩ := inv
      simp only [pending, printed, Option.map_some, Option.some.injEq] at blocked
      subst blocked
      cases ret with
      | choice x =>
          simp only [resume, printed]
          exact inv_chooseExample closed some within listed makes printed
      | returned => cases answer
      | outOfRange => cases answer
      | key => cases answer
  | executing group made =>
      obtain ⟨some, within, ⟨names, opens⟩, -⟩ := inv
      cases blocked
      have within' := within.concat (e := (.execute made, ret)) id
      cases ret with
      | returned => exact ⟨some, within', names, opens⟩
      | outOfRange => exact inv_enterGroup some within' opens
      | choice x => cases answer
      | key => cases answer
  | anyKey group =>
      obtain ⟨some, within, names, opens⟩ := inv
      cases blocked
      have within' := within.concat (e := (.anyKey, ret)) id
      cases ret with
      | key => exact inv_enterGroup some within' opens
      | returned => cases answer
      | outOfRange => cases answer
      | choice x => cases answer
  | ended => cases blocked
  | undefined => cases blocked
  | missing => cases blocked
  | threw => cases blocked

theorem inv_run (closed : cat.Closed) (small : cat.groups.length < 2 ^ 63)
    (usable : Usable cat) {tr : List (Event ι)} {pc : Pc ι}
    (run : (session cat).run tr = some pc) : Inv cat tr pc :=
  System.run_invariant (I := Inv cat) inv_init
    (fun _ _ _ _ _ inv step => inv_step closed small usable inv step) run

/-- A number that is not on the screen changes nothing. -/
theorem invalid_step (small : cat.groups.length < 2 ^ 63) {tr : List (Event ι)} {pc pc' : Pc ι}
    {call : Call ι} {x : Int} (inv : Inv cat tr pc)
    (hstep : (session cat).step pc (call, .choice x) = some pc') (off : x ∉ call.numbers) :
    pending cat pc' = some call := by
  obtain ⟨blocked, answer, rfl⟩ := Process.step_eq_some.mp hstep
  change pending cat pc = some call at blocked
  change pending cat (resume cat pc (.choice x)) = _
  cases pc with
  | groups =>
      have some : cat.groups ≠ [] := inv
      cases blocked
      obtain ⟨low, high⟩ := allowed_groupChoice.mp answer
      have exit := printGroups_exit cat.groups (by omega)
      simp only [Call.numbers, List.mem_append, List.mem_map, List.mem_singleton, not_or] at off
      show pending cat (chooseGroup cat x) = _
      rcases chooseGroup_cases small low high with
        ⟨last, -⟩ | ⟨-, again⟩ | ⟨i, group, number, at', -⟩
      · rw [exit] at off
        exact absurd (by omega) off.2
      · rw [again, enterGroups_of_ne_nil some]
        rfl
      · have line := (mem_printGroups (by omega)).mpr ⟨i, rfl, at'⟩
        exact absurd ⟨_, line, by omega⟩ off.1
  | examples group names =>
      obtain ⟨-, -, listed, -, lines, back, printed⟩ := inv
      obtain ⟨last, numbered⟩ := printExamples_some printed
      simp only [pending, printed, Option.map_some, Option.some.injEq] at blocked
      subst blocked last
      simp only [Call.numbers, List.mem_append, List.mem_map, List.mem_singleton, not_or] at off
      simp only [resume, printed]
      rcases chooseExample_cases cat group names x with
        ⟨number, -⟩ | ⟨-, again⟩ | ⟨i, name, number, at', -⟩
      · exact absurd number off.2
      · rw [again, enterGroup_of_printed listed ⟨lines, _, printed⟩]
        simp only [pending, printed, Option.map_some]
      · have line := (numbered x name).mpr ⟨i, number, at'⟩
        exact absurd ⟨_, line, rfl⟩ off.1
  | executing group made =>
      cases blocked
      cases answer
  | anyKey group =>
      cases blocked
      cases answer
  | ended => cases blocked
  | undefined => cases blocked
  | missing => cases blocked
  | threw => cases blocked

/-- With every list countable and every example makeable, every session is safe. -/
theorem safe_of_usable (closed : cat.Closed) (small : cat.groups.length < 2 ^ 63)
    (usable : Usable cat) {tr : List (Event ι)} {pc : Pc ι}
    (run : (session cat).run tr = some pc) : Safe cat tr pc := by
  have inv := inv_run closed small usable run
  refine ⟨?_, ?_, ?_, ?_⟩
  · constructor
    · rintro rfl
      exact inv
    · rintro rfl
      exact inv
  · intro made blocked
    cases pc with
    | executing group made' =>
        cases blocked
        exact inv.2.2.2
    | examples group names =>
        obtain ⟨-, -, -, -, lines, back, printed⟩ := inv
        simp only [pending, printed, Option.map_some, Option.some.injEq, reduceCtorEq] at blocked
    | groups => cases blocked
    | anyKey group => cases blocked
    | ended => cases blocked
    | undefined => cases blocked
    | missing => cases blocked
    | threw => cases blocked
  · rintro pre call x rfl off
    obtain ⟨before, run, step⟩ := System.run_concat_eq_some.mp run
    exact invalid_step small (inv_run closed small usable run) step off
  · intro idle
    cases pc with
    | ended => exact inv
    | examples group names =>
        obtain ⟨-, -, -, -, lines, back, printed⟩ := inv
        simp only [pending, printed, Option.map_some, reduceCtorEq] at idle
    | executing group made' => cases idle
    | groups => cases idle
    | anyKey group => cases idle
    | undefined => exact inv.elim
    | missing => exact inv.elim
    | threw => exact inv.elim

/-- The number of a group that is an `int` opens it. -/
theorem exists_opened (small : cat.groups.length < 2 ^ 63) {i : Nat} {group : Bytes}
    (at' : cat.groups[i]? = some group) (typed : (i + 1 : Int) ≤ intMax) :
    ∃ e, (session cat).run [e] = some (enterGroup cat group) := by
  have some : cat.groups ≠ [] := by
    intro empty
    rw [empty] at at'
    cases at'
  have inside : i < cat.groups.length := (List.getElem?_eq_some_iff.mp at').1
  have low : -2 ^ 31 ≤ ((i : Int) + 1) := by omega
  have entered : chooseGroup cat ((i : Int) + 1) = enterGroup cat group := by
    rcases chooseGroup_cases small low typed with ⟨last, -⟩ | ⟨off, -⟩ | ⟨j, g, same, atJ, entered⟩
    · omega
    · omega
    · have index : i = j := by omega
      subst index
      rw [at'] at atJ
      cases atJ
      exact entered
  refine ⟨(.groupChoice (printGroups 1 cat.groups).1 (printGroups 1 cat.groups).2,
    .choice ((i : Int) + 1)), ?_⟩
  show (session cat).run ([] ++ [_]) = Option.some _
  refine System.run_concat_eq_some.mpr ⟨.groups, ?_, ?_⟩
  · exact congrArg _ (enterGroups_of_ne_nil some)
  · refine Process.step_eq_some.mpr ⟨rfl, ?_, entered⟩
    exact allowed_groupChoice.mpr ⟨low, typed⟩

/-- A group of `INT_MAX` examples whose number can be typed. -/
theorem exists_undefined (small : cat.groups.length < 2 ^ 63)
    (not : ¬ Countable cat) :
    ∃ tr, (session cat).run tr = some .undefined := by
  simp only [Countable, not_forall] at not
  obtain ⟨i, group, names, at', typed, listed, many⟩ := not
  have overflow : enterGroup cat group = .undefined := by
    simp only [enterGroup, listed]
    cases printed : printExamples 1 names with
    | none => rfl
    | some result =>
        exact absurd ((printExamples_isSome names).mp ⟨result.1, result.2, printed⟩) many
  obtain ⟨e, run⟩ := exists_opened small at' typed
  exact ⟨[e], overflow ▸ run⟩

/-- An example whose number can be typed and whose factory throws. -/
theorem exists_threw (small : cat.groups.length < 2 ^ 63) (countable : Countable cat)
    (not : ¬ Makeable cat) : ∃ tr lines back x,
      (session cat).run (tr ++ [(.exampleChoice lines back, .choice x)]) = some .threw := by
  simp only [Makeable, not_forall, not_not] at not
  obtain ⟨i, group, names, at', typed, listed, name, member, throws⟩ := not
  have few := countable i group names at' typed listed
  obtain ⟨lines, back, printed⟩ := (printExamples_isSome names).mpr few
  obtain ⟨rfl, -⟩ := printExamples_some printed
  obtain ⟨e, run⟩ := exists_opened small at' typed
  rw [enterGroup_of_printed listed ⟨lines, _, printed⟩] at run
  obtain ⟨j, inside, at''⟩ := List.mem_iff_getElem.mp member
  have at'' : names[j]? = some name := by rw [List.getElem?_eq_getElem inside, at'']
  refine ⟨[e], lines, names.length + 1, j + 1, System.run_concat_eq_some.mpr ⟨_, run, ?_⟩⟩
  refine Process.step_eq_some.mpr ⟨?_, ?_, ?_⟩
  · show pending cat (.examples group names) = _
    simp only [pending, printed, Option.map_some]
  · refine allowed_exampleChoice.mpr ⟨by omega, ?_⟩
    unfold intMax
    omega
  · show resume cat (.examples group names) (.choice ((j : Int) + 1)) = _
    simp only [resume, printed]
    rcases chooseExample_cases cat group names (j + 1) with
      ⟨last, -⟩ | ⟨off, -⟩ | ⟨k, name', same, atK, chosen⟩
    · omega
    · omega
    · have index : j = k := by omega
      subst index
      rw [at''] at atK
      cases atK
      rw [chosen, startExample, throws]

/-- **Menu safety.** Every session of the menu is safe, whatever the registry
holds and in whatever order the library visits it, precisely when each group
whose number is an `int` has fewer than `INT_MAX` examples, and none whose factory
throws anything but `std::out_of_range`. A registry has fewer than `2 ^ 63` groups:
`max_size()` is a difference of pointers. -/
theorem runMenu_safe_iff (it : Iteration)
    (registry : {r : ExampleRegistry ι // r.entries.length < 2 ^ 63}) :
    (∀ tr pc, (session (registry.val.catalogue it)).run tr = some pc →
      Safe (registry.val.catalogue it) tr pc) ↔ Usable (registry.val.catalogue it) := by
  have closed := registry.val.closed it
  have small : (registry.val.catalogue it).groups.length < 2 ^ 63 := by
    show (sort (it.order registry.val.keys)).length < 2 ^ 63
    rw [(sort_perm _).length_eq, (it.perm _).length_eq, UnorderedMap.keys, List.length_map]
    exact registry.property
  constructor
  · intro safe
    have countable : Countable (registry.val.catalogue it) := by
      by_contra not
      obtain ⟨tr, run⟩ := exists_undefined small not
      exact (safe tr .undefined run).found.1 rfl
    refine ⟨countable, ?_⟩
    by_contra not
    obtain ⟨tr, lines, back, x, run⟩ := exists_threw small countable not
    -- the menu has been left, and not through the number of `Exit`
    rcases (safe _ .threw run).left rfl with ⟨empty, -⟩ | ⟨pre, lines', exit, same⟩
    · exact absurd empty (by simp)
    · have last := (List.append_inj' same rfl).2
      simp at last
  · intro usable tr pc run
    exact safe_of_usable closed small usable run

/-- `n` examples in one group, the `i`-th named by `i` zero bytes. -/
def crowd (n : Nat) : ExampleRegistry Unit :=
  UnorderedMap.empty.set [] {
    entries := (List.range n).map fun i => (List.replicate i 0, .returns (some ()))
    nodup := by
      rw [List.map_map]
      refine List.nodup_range.map fun i j same => ?_
      simpa using congrArg List.length same }

theorem crowd_groups (n : Nat) : ((crowd n).catalogue .history).groups = [[]] := rfl

theorem crowd_examples (n : Nat) : ∃ names,
    ((crowd n).catalogue .history).examples [] = some names ∧ names.length = n := by
  refine ⟨_, rfl, ?_⟩
  simp [Iteration.history, UnorderedMap.keys]

/-- A registry with one group of `INT_MAX` examples: choosing it is undefined. -/
theorem not_safe_crowd : ¬ ∀ tr pc,
    (session ((crowd (2 ^ 31 - 1)).catalogue .history)).run tr = some pc →
      Safe ((crowd (2 ^ 31 - 1)).catalogue .history) tr pc := by
  intro safe
  obtain ⟨names, listed, size⟩ := crowd_examples (2 ^ 31 - 1)
  have small : ((crowd (2 ^ 31 - 1)).catalogue .history).groups.length < 2 ^ 63 := by
    rw [crowd_groups]
    decide
  have crowded : ¬ Countable ((crowd (2 ^ 31 - 1)).catalogue .history) := by
    intro countable
    have few := countable 0 [] names (by rw [crowd_groups]; rfl) (by decide) listed
    omega
  obtain ⟨tr, run⟩ := exists_undefined small crowded
  exact (safe tr .undefined run).found.1 rfl

end CppLab.Menu
