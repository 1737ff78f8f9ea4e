import CppLab.Menu.RunMenu

/-!
# The numbers of the menu and the order of registration

Registrars are static objects of different translation units, so they register
their examples in an order that nothing specifies. `runMenu()` sorts the groups
before it numbers them and takes the examples of a group as the map gives them.
-/

namespace CppLab.Menu

variable {ι : Type*}

/-- What one `REGISTER_EXAMPLE` registers. -/
structure Registrar (ι : Type*) where
  group : Bytes
  name : Bytes
  factory : Factory ι
  deriving DecidableEq

/-- Finitely many registrars, no two for one name in one group. -/
structure Registrars (ι : Type*) where
  list : List (Registrar ι)
  nodup : (list.map fun r => (r.group, r.name)).Nodup

/-- The registry after the registrars have run in a given order. -/
def registerAll (order : List (Registrar ι)) : ExampleRegistry ι :=
  order.foldl (fun registry r => registry.registerExample r.group r.name r.factory) .empty

/-- Two registries show the same numbered lists, and the same numbers do the
same. -/
structure SameMenus [DecidableEq ι] (a b : Catalogue ι) : Prop where
  groups : printGroups 1 a.groups = printGroups 1 b.groups
  examples : ∀ group, a.examples group = b.examples group
  sessions : ∀ tr, (session a).run tr = (session b).run tr

/-! ## One registration -/

namespace ExampleRegistry

theorem find?_registerExample (registry : ExampleRegistry ι) (group name : Bytes)
    (factory : Factory ι) (g : Bytes) :
    (registry.registerExample group name factory).find? g =
      if g = group then some (((registry.find? group).getD .empty).set name factory)
      else registry.find? g :=
  UnorderedMap.find?_set registry group _ g

theorem create_registerExample (registry : ExampleRegistry ι) (group name : Bytes)
    (factory : Factory ι) (g n : Bytes) :
    (registry.registerExample group name factory).create g n =
      if g = group ∧ n = name then some factory else registry.create g n := by
  simp only [create, find?_registerExample]
  by_cases here : g = group
  · subst here
    simp only [if_pos, Option.bind_some, UnorderedMap.find?_set, true_and]
    cases found : registry.find? g with
    | none => simp
    | some examples => simp
  · simp only [here, false_and, if_false]

end ExampleRegistry

theorem registerAll_concat (order : List (Registrar ι)) (r : Registrar ι) :
    registerAll (order ++ [r]) =
      (registerAll order).registerExample r.group r.name r.factory := by
  simp only [registerAll, List.foldl_append, List.foldl_cons, List.foldl_nil]

/-! ## All registrations -/

/-- The names registered in a group, in the order of registration. -/
def namesOf (order : List (Registrar ι)) (group : Bytes) : List Bytes :=
  (order.filter (·.group = group)).map (·.name)

/-- The pairs of group and name are distinct. -/
def Distinct (order : List (Registrar ι)) : Prop :=
  (order.map fun r => (r.group, r.name)).Nodup

theorem Distinct.of_concat {order : List (Registrar ι)} {r : Registrar ι}
    (distinct : Distinct (order ++ [r])) :
    Distinct order ∧ ∀ s ∈ order, ¬ (s.group = r.group ∧ s.name = r.name) := by
  simp only [Distinct, List.map_append, List.map_cons, List.map_nil] at distinct
  obtain ⟨before, -, apart⟩ := List.nodup_append.mp distinct
  refine ⟨before, ?_⟩
  rintro s member ⟨group, name⟩
  refine apart (s.group, s.name) (List.mem_map.mpr ⟨s, member, rfl⟩) (r.group, r.name) (by simp) ?_
  rw [group, name]

theorem namesOf_concat (order : List (Registrar ι)) (r : Registrar ι) (group : Bytes) :
    namesOf (order ++ [r]) group =
      if r.group = group then namesOf order group ++ [r.name] else namesOf order group := by
  by_cases here : r.group = group
  · simp [namesOf, List.filter_append, here]
  · simp [namesOf, List.filter_append, here]

theorem mem_namesOf {order : List (Registrar ι)} {group name : Bytes} :
    name ∈ namesOf order group ↔ ∃ r ∈ order, r.group = group ∧ r.name = name := by
  simp only [namesOf, List.mem_map, List.mem_filter, decide_eq_true_eq, and_assoc]

/-- The names of a group stand in the map in the order of registration. -/
theorem find?_registerAll {order : List (Registrar ι)} (distinct : Distinct order)
    (group : Bytes) :
    ((registerAll order).find? group).map UnorderedMap.keys =
      if namesOf order group = [] then none else some (namesOf order group) := by
  induction order using List.reverseRecOn with
  | nil => rfl
  | append_singleton order r ih =>
      obtain ⟨before, fresh⟩ := distinct.of_concat
      have ih := ih before
      rw [registerAll_concat, ExampleRegistry.find?_registerExample, namesOf_concat]
      by_cases here : group = r.group
      · subst here
        have new : r.name ∉ namesOf order r.group := by
          intro member
          obtain ⟨s, registered, same⟩ := mem_namesOf.mp member
          exact fresh s registered same
        have keys : (((registerAll order).find? r.group).getD .empty).keys =
            namesOf order r.group := by
          cases found : (registerAll order).find? r.group with
          | none =>
              rw [found] at ih
              split at ih
              · rename_i empty
                exact empty.symm
              · cases ih
          | some examples =>
              rw [found] at ih
              split at ih
              · cases ih
              · injection ih
        simp only [if_pos, Option.map_some, UnorderedMap.keys_set, keys, if_neg new,
          List.append_eq_nil_iff, List.cons_ne_nil, and_false, if_false]
      · have other : ¬ r.group = group := fun h => here h.symm
        simp only [if_neg here, if_neg other, ih]

theorem create_registerAll {order : List (Registrar ι)} (distinct : Distinct order)
    (group name : Bytes) (factory : Factory ι) :
    (registerAll order).create group name = some factory ↔ ⟨group, name, factory⟩ ∈ order := by
  induction order using List.reverseRecOn with
  | nil => simp [registerAll, ExampleRegistry.create]
  | append_singleton order r ih =>
      obtain ⟨before, fresh⟩ := distinct.of_concat
      rw [registerAll_concat, ExampleRegistry.create_registerExample, List.mem_append,
        List.mem_singleton]
      by_cases here : group = r.group ∧ name = r.name
      · obtain ⟨rfl, rfl⟩ := here
        have absent : ⟨r.group, r.name, factory⟩ ∉ order := fun member => fresh _ member ⟨rfl, rfl⟩
        simp only [and_self, if_true, Option.some.injEq, absent, false_or]
        constructor
        · rintro rfl
          rfl
        · intro same
          rw [← same]
      · rw [if_neg here, ih before]
        constructor
        · exact .inl
        · rintro (member | rfl)
          · exact member
          · exact absurd ⟨rfl, rfl⟩ here

theorem mem_keys_registerAll (order : List (Registrar ι)) (group : Bytes) :
    group ∈ (registerAll order).keys ↔ ∃ r ∈ order, r.group = group := by
  induction order using List.reverseRecOn with
  | nil => simp [registerAll, UnorderedMap.empty, UnorderedMap.keys]
  | append_singleton order r ih =>
      rw [registerAll_concat, ExampleRegistry.registerExample, UnorderedMap.keys_set]
      split
      · rename_i present
        constructor
        · intro member
          obtain ⟨s, registered, same⟩ := ih.mp member
          exact ⟨s, List.mem_append_left _ registered, same⟩
        · rintro ⟨s, registered, rfl⟩
          rcases List.mem_append.mp registered with before | last
          · exact ih.mpr ⟨s, before, rfl⟩
          · exact List.mem_singleton.mp last ▸ present
      · simp only [List.mem_append, List.mem_singleton, ih, or_and_right, exists_or, exists_eq_left]
        exact or_congr_right eq_comm

theorem examples_registerAll {order : List (Registrar ι)} (distinct : Distinct order)
    (it : Iteration) (group : Bytes) :
    ((registerAll order).catalogue it).examples group =
      if namesOf order group = [] then none else some (it.order (namesOf order group)) := by
  have listed := find?_registerAll distinct group
  show ((registerAll order).find? group).map (fun examples => it.order examples.keys) = _
  rw [← Function.comp_def it.order, ← Option.map_map, listed]
  split
  · rfl
  · rfl

/-! ## Two orders -/

/-- The numbered groups never depend on the order. -/
theorem groups_congr {as bs : List (Registrar ι)} (it : Iteration) (perm : as.Perm bs) :
    ((registerAll as).catalogue it).groups = ((registerAll bs).catalogue it).groups := by
  have keys : (registerAll as).keys.Perm (registerAll bs).keys := by
    refine (List.perm_ext_iff_of_nodup (registerAll as).nodup (registerAll bs).nodup).mpr ?_
    intro group
    show group ∈ (registerAll as).keys ↔ group ∈ (registerAll bs).keys
    simp only [mem_keys_registerAll, perm.mem_iff]
  exact sort_congr ((it.perm _).trans (keys.trans (it.perm _).symm))

/-- No group holds two examples. -/
def Lonely (order : List (Registrar ι)) : Prop :=
  ∀ a ∈ order, ∀ b ∈ order, a.group = b.group → a = b

theorem namesOf_congr {as bs : List (Registrar ι)} (perm : as.Perm bs) (distinct : Distinct as)
    (lonely : Lonely as) (group : Bytes) : namesOf as group = namesOf bs group := by
  have members : ∀ r ∈ as.filter (·.group = group), r ∈ as ∧ r.group = group := by
    intro r member
    simpa using List.mem_filter.mp member
  have nodup : (as.filter (·.group = group)).Nodup := (List.Nodup.of_map _ distinct).filter _
  have same := perm.filter (·.group = group)
  unfold namesOf
  cases filtered : as.filter (·.group = group) with
  | nil =>
      rw [filtered] at same
      rw [List.nil_perm.mp same]
  | cons a rest =>
      cases rest with
      | nil =>
          rw [filtered] at same
          rw [List.singleton_perm.mp same]
      | cons b rest =>
          rw [filtered] at members nodup
          obtain ⟨ha, groupA⟩ := members a (by simp)
          obtain ⟨hb, groupB⟩ := members b (by simp)
          have equal := lonely a ha b hb (groupA.trans groupB.symm)
          simp [equal] at nodup

/-- The catalogue does not depend on the order when no group holds two
examples. -/
theorem catalogue_congr {as bs : List (Registrar ι)} (it : Iteration) (perm : as.Perm bs)
    (distinct : Distinct as) (lonely : Lonely as) :
    (registerAll as).catalogue it = (registerAll bs).catalogue it := by
  have distinct' : Distinct bs := (perm.map _).nodup_iff.mp distinct
  have names := namesOf_congr perm distinct lonely
  have groups := groups_congr it perm
  have examples : ((registerAll as).catalogue it).examples =
      ((registerAll bs).catalogue it).examples := by
    funext group
    rw [examples_registerAll distinct, examples_registerAll distinct', names]
  have create : (registerAll as).create = (registerAll bs).create := by
    funext group name
    refine Option.ext fun factory => ?_
    rw [create_registerAll distinct, create_registerAll distinct', perm.mem_iff]
  unfold ExampleRegistry.catalogue at groups examples ⊢
  simp only [Catalogue.mk.injEq] at groups examples ⊢
  exact ⟨groups, examples, create⟩

variable [DecidableEq ι]

/-- **Numbering.** The numbers of the menu are the same for every two orders of
registration, in every library, precisely when no group holds two examples. -/
theorem numbering_iff (examples : Registrars ι) :
    (∀ it as bs, as.Perm examples.list → bs.Perm examples.list →
      SameMenus ((registerAll as).catalogue it) ((registerAll bs).catalogue it)) ↔
    Lonely examples.list := by
  constructor
  · intro same a ha b hb group
    by_contra apart
    have other : b ∈ examples.list.erase a := (List.mem_erase_of_ne (Ne.symm apart)).mpr hb
    have perm : (a :: b :: (examples.list.erase a).erase b).Perm examples.list :=
      (((List.perm_cons_erase ha).trans ((List.perm_cons_erase other).cons a))).symm
    have swapped : (b :: a :: (examples.list.erase a).erase b).Perm examples.list :=
      (List.Perm.swap a b _).trans perm
    have distinct := (perm.map fun r => (r.group, r.name)).nodup_iff.mpr examples.nodup
    have distinct' := (swapped.map fun r => (r.group, r.name)).nodup_iff.mpr examples.nodup
    -- in a library that visits names in the order of insertion, the first name differs
    have listed := (same .history _ _ perm swapped).examples a.group
    rw [examples_registerAll distinct, examples_registerAll distinct'] at listed
    have name : a.name = b.name := by
      simp [namesOf, Iteration.history, group] at listed
      exact listed.1
    have pair : (a.group, a.name) = (b.group, b.name) := by rw [group, name]
    simp [pair] at distinct
  · intro lonely it as bs hAs hBs
    have distinct : Distinct as := (hAs.map _).nodup_iff.mpr examples.nodup
    have alone : Lonely as := fun a ha b hb =>
      lonely a (hAs.mem_iff.mp ha) b (hAs.mem_iff.mp hb)
    have equal := catalogue_congr it (hAs.trans hBs.symm) distinct alone
    rw [equal]
    exact ⟨rfl, fun _ => rfl, fun _ => rfl⟩

/-- Two examples of one group, with distinct names. -/
def twoExamples : Registrars Unit where
  list := [⟨ascii "core", ascii "Thread", .returns (some ())⟩,
    ⟨ascii "core", ascii "Mutex", .returns (some ())⟩]
  nodup := by decide

/-- In a library that visits names in the order of insertion, the registrar that
runs first gets the number `1`. -/
theorem not_numbering_twoExamples : ¬ ∀ it as bs, as.Perm twoExamples.list →
    bs.Perm twoExamples.list →
    SameMenus ((registerAll as).catalogue it) ((registerAll bs).catalogue it) := by
  intro same
  have swapped := same .history twoExamples.list twoExamples.list.reverse (.refl _)
    (List.reverse_perm _)
  exact absurd (swapped.examples (ascii "core")) (by decide)

end CppLab.Menu
