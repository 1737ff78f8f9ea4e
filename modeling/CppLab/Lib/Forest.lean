import Mathlib

/-!
# Forests given by lists of children

A family of lists `kids` is a forest when no node is listed twice, in one list
or in two, and the descent from any node ends. The two facts the clients need:

* `Forest.link` adds an edge to a node that has no parent and is not above the
  new parent;
* `Forest.postorder` says that the post-order traversal from any node ends and
  visits each node at or below it once.
-/

namespace CppLab

variable {α : Type*} (kids : α → List α)

/-- `c` is a child of `p`. -/
def Child (c p : α) : Prop := c ∈ kids p

/-- `a` is at or below `b`. -/
def Below (a b : α) : Prop := Relation.ReflTransGen (Child kids) a b

/-- Every node has at most one parent, is listed there once, and the descent
from any node ends. -/
structure Forest : Prop where
  once : ∀ p, (kids p).Nodup
  one : ∀ c p q, c ∈ kids p → c ∈ kids q → p = q
  wf : WellFounded (Child kids)

variable {kids}

/-- Well-founded child relations have no cycle. -/
theorem not_below_of_child (wf : WellFounded (Child kids)) {c p : α} (child : c ∈ kids p) :
    ¬ Below kids p c := by
  intro below
  have cycle : Relation.TransGen (Child kids) p p := .tail' below child
  exact wf.transGen.irrefl.irrefl p cycle

namespace Forest

theorem acyclic (forest : Forest kids) (n : α) : ¬ Relation.TransGen (Child kids) n n :=
  fun cycle => forest.wf.transGen.irrefl.irrefl n cycle

/-- Two nodes above one node are comparable. -/
theorem below_total (forest : Forest kids) {x a b : α} (ha : Below kids x a)
    (hb : Below kids x b) : Below kids a b ∨ Below kids b a :=
  Relation.ReflTransGen.total_of_right_unique (fun c p q => forest.one c p q) ha hb

/-- The subtrees of two children of one node are disjoint. -/
theorem eq_of_below_of_below (forest : Forest kids) {x a b p : α} (ha : a ∈ kids p)
    (hb : b ∈ kids p) (xa : Below kids x a) (xb : Below kids x b) : a = b := by
  -- the upper of the two is above the common parent, or it is the lower one
  have climb : ∀ {c d}, c ∈ kids p → d ∈ kids p → Below kids c d → c = d := by
    intro c d hc hd below
    rcases Relation.ReflTransGen.cases_head below with same | ⟨q, edge, rest⟩
    · exact same
    · have parent : q = p := forest.one c q p edge hc
      subst parent
      exact absurd rest (not_below_of_child forest.wf hd)
  rcases forest.below_total xa xb with below | below
  · exact climb ha hb below
  · exact (climb hb ha below).symm

/-! ## Adding an edge -/

/-- An edge to a node that is not above the new parent keeps the descent
finite. -/
theorem wf_of_link {more : α → List α} {n p : α} (wf : WellFounded (Child kids))
    (apart : ¬ Below kids p n) (edges : ∀ c q, c ∈ more q → c ∈ kids q ∨ c = n ∧ q = p) :
    WellFounded (Child more) := by
  -- below the linked node nothing has changed
  have subtree : ∀ x, Below kids x n → Acc (Child more) x := by
    intro x
    induction x using wf.induction with
    | _ x ih =>
      intro below
      refine .intro x fun c edge => ?_
      rcases edges c x edge with old | ⟨-, rfl⟩
      · exact ih c old (.head old below)
      · exact absurd below apart
  refine ⟨fun x => ?_⟩
  induction x using wf.induction with
  | _ x ih =>
    refine .intro x fun c edge => ?_
    rcases edges c x edge with old | ⟨rfl, -⟩
    · exact ih c old
    · exact subtree c .refl

/-- A parentless node is linked to a node that is not at or below it. -/
theorem link [DecidableEq α] (forest : Forest kids) {n p : α} (root : ∀ q, n ∉ kids q)
    (apart : ¬ Below kids p n) : Forest (Function.update kids p (kids p ++ [n])) := by
  have edges : ∀ c q, c ∈ Function.update kids p (kids p ++ [n]) q →
      c ∈ kids q ∨ c = n ∧ q = p := by
    intro c q member
    by_cases here : q = p
    · subst here
      rw [Function.update_self, List.mem_append, List.mem_singleton] at member
      exact member.imp_right fun same => ⟨same, rfl⟩
    · rw [Function.update_of_ne here] at member
      exact .inl member
  refine ⟨?_, ?_, wf_of_link forest.wf apart edges⟩
  · intro q
    by_cases here : q = p
    · subst here
      rw [Function.update_self]
      refine List.nodup_append.mpr ⟨forest.once q, List.nodup_singleton n, ?_⟩
      rintro a ha b hb rfl
      exact root q (List.mem_singleton.mp hb ▸ ha)
    · rw [Function.update_of_ne here]
      exact forest.once q
  · intro c q r hq hr
    rcases edges c q hq with oldQ | ⟨rfl, rfl⟩
    · rcases edges c r hr with oldR | ⟨rfl, rfl⟩
      · exact forest.one c q r oldQ oldR
      · exact absurd oldQ (root q)
    · rcases edges c r hr with oldR | ⟨-, rfl⟩
      · exact absurd oldR (root r)
      · rfl

/-- Taking edges away keeps a forest. -/
theorem mono {fewer : α → List α} (forest : Forest kids)
    (sub : ∀ p, (fewer p).Sublist (kids p)) : Forest fewer where
  once p := (forest.once p).sublist (sub p)
  one c p q hp hq := forest.one c p q ((sub p).subset hp) ((sub q).subset hq)
  wf := Subrelation.wf (fun {_ p} edge => (sub p).subset edge) forest.wf

/-- One list is replaced by a part of it. -/
theorem sublist_update [DecidableEq α] {f : α} {l : List α} (sub : l.Sublist (kids f)) (p : α) :
    (Function.update kids f l p).Sublist (kids p) := by
  by_cases here : p = f
  · rw [here, Function.update_self]
    exact sub
  · rw [Function.update_of_ne here]

/-- The order of the lists does not matter. -/
theorem perm {other : α → List α} (forest : Forest kids)
    (same : ∀ p, (other p).Perm (kids p)) : Forest other where
  once p := (same p).nodup_iff.mpr (forest.once p)
  one c p q hp hq := forest.one c p q ((same p).mem_iff.mp hp) ((same q).mem_iff.mp hq)
  wf := Subrelation.wf (fun {_ p} edge => (same p).mem_iff.mp edge) forest.wf

end Forest

/-! ## Post-order traversal -/

/-- The traversals of some nodes, one after another. -/
def traverse (visit : α → Option (List α)) : List α → Option (List α)
  | [] => some []
  | c :: cs => (visit c).bind fun l => (traverse visit cs).map (l ++ ·)

/-- More fuel makes no difference. -/
theorem traverse_mono {visit visit' : α → Option (List α)}
    (more : ∀ c l, visit c = some l → visit' c = some l) {cs l : List α}
    (h : traverse visit cs = some l) : traverse visit' cs = some l := by
  induction cs generalizing l with
  | nil => exact h
  | cons c cs ih =>
      simp only [traverse, Option.bind_eq_some_iff, Option.map_eq_some_iff] at h ⊢
      obtain ⟨a, ha, b, hb, rfl⟩ := h
      exact ⟨a, more c a ha, b, ih hb, rfl⟩

/-- Every one of the traversals has ended. -/
theorem exists_of_traverse {visit : α → Option (List α)} {cs l : List α}
    (h : traverse visit cs = some l) {c : α} (hc : c ∈ cs) : ∃ k, visit c = some k := by
  induction cs generalizing l with
  | nil => cases hc
  | cons d cs ih =>
      simp only [traverse, Option.bind_eq_some_iff, Option.map_eq_some_iff] at h
      obtain ⟨a, ha, b, hb, -⟩ := h
      rcases List.mem_cons.mp hc with rfl | hc
      · exact ⟨a, ha⟩
      · exact ih hb hc

theorem mem_traverse {visit : α → Option (List α)} {cs l : List α}
    (h : traverse visit cs = some l) {m : α} :
    m ∈ l ↔ ∃ c ∈ cs, ∃ k, visit c = some k ∧ m ∈ k := by
  induction cs generalizing l with
  | nil =>
      cases h
      simp
  | cons c cs ih =>
      simp only [traverse, Option.bind_eq_some_iff, Option.map_eq_some_iff] at h
      obtain ⟨a, ha, b, hb, rfl⟩ := h
      rw [List.mem_append, ih hb]
      simp [ha]

theorem nodup_traverse {visit : α → Option (List α)} {cs l : List α} (distinct : cs.Nodup)
    (each : ∀ c ∈ cs, ∀ k, visit c = some k → k.Nodup)
    (apart : ∀ c ∈ cs, ∀ d ∈ cs, ∀ k k', visit c = some k → visit d = some k' →
      ∀ m, m ∈ k → m ∈ k' → c = d)
    (h : traverse visit cs = some l) : l.Nodup := by
  induction cs generalizing l with
  | nil =>
      cases h
      exact List.nodup_nil
  | cons c cs ih =>
      have whole := h
      simp only [traverse, Option.bind_eq_some_iff, Option.map_eq_some_iff] at h
      obtain ⟨a, ha, b, hb, rfl⟩ := h
      obtain ⟨fresh, distinct⟩ := List.nodup_cons.mp distinct
      have rest := ih distinct (fun d hd => each d (List.mem_cons_of_mem c hd))
        (fun d hd e he => apart d (List.mem_cons_of_mem c hd) e (List.mem_cons_of_mem c he)) hb
      refine List.nodup_append.mpr ⟨each c List.mem_cons_self a ha, rest, ?_⟩
      rintro m hm m' hm' rfl
      obtain ⟨d, hd, k, hk, member⟩ := (mem_traverse hb).mp hm'
      have same := apart c List.mem_cons_self d (List.mem_cons_of_mem c hd) a k ha hk m hm member
      exact fresh (same ▸ hd)

/-- The nodes of the traversal from `n`: those of its children, then `n`. -/
def postorder (kids : α → List α) : Nat → α → Option (List α)
  | 0, _ => none
  | fuel + 1, n => (traverse (postorder kids fuel) (kids n)).map (· ++ [n])

theorem postorder_mono {fuel : Nat} {n : α} {l : List α} (h : postorder kids fuel n = some l)
    (extra : Nat) : postorder kids (fuel + extra) n = some l := by
  induction fuel generalizing n l with
  | zero => cases h
  | succ fuel ih =>
      rw [Nat.add_right_comm, postorder, Option.map_eq_some_iff]
      rw [postorder, Option.map_eq_some_iff] at h
      obtain ⟨k, hk, rfl⟩ := h
      exact ⟨k, traverse_mono (fun c l hc => ih hc) hk, rfl⟩

/-- One amount of fuel is enough for finitely many traversals. -/
theorem exists_traverse {cs : List α} (each : ∀ c ∈ cs, ∃ fuel l, postorder kids fuel c = some l) :
    ∃ fuel l, traverse (postorder kids fuel) cs = some l := by
  induction cs with
  | nil => exact ⟨0, [], rfl⟩
  | cons c cs ih =>
      obtain ⟨f, a, ha⟩ := each c List.mem_cons_self
      obtain ⟨g, b, hb⟩ := ih fun d hd => each d (List.mem_cons_of_mem c hd)
      have ha' := postorder_mono ha g
      have hb' := traverse_mono (fun d l hd => postorder_mono hd f) hb
      rw [Nat.add_comm g f] at hb'
      refine ⟨f + g, a ++ b, ?_⟩
      rw [traverse, ha', Option.bind_some, hb']
      rfl

/-- The traversal from any node ends. -/
theorem Forest.exists_postorder (forest : Forest kids) (n : α) :
    ∃ fuel l, CppLab.postorder kids fuel n = some l := by
  induction n using forest.wf.induction with
  | _ n ih =>
    obtain ⟨fuel, l, h⟩ := exists_traverse fun c hc => ih c hc
    refine ⟨fuel + 1, l ++ [n], ?_⟩
    rw [CppLab.postorder, h]
    rfl

/-- The traversal of the children visits what is below them. -/
theorem mem_traverse_postorder {n m : α} {fuel : Nat} {k : List α}
    (child : ∀ c ∈ kids n, ∀ l, postorder kids fuel c = some l → ∀ m, m ∈ l ↔ Below kids m c)
    (hk : traverse (postorder kids fuel) (kids n) = some k) :
    m ∈ k ↔ ∃ c ∈ kids n, Below kids m c := by
  rw [mem_traverse hk]
  constructor
  · rintro ⟨c, hc, l, hl, member⟩
    exact ⟨c, hc, (child c hc l hl m).mp member⟩
  · rintro ⟨c, hc, below⟩
    obtain ⟨l, hl⟩ := exists_of_traverse hk hc
    exact ⟨c, hc, l, hl, (child c hc l hl m).mpr below⟩

/-- At or below a node are the node and what is below its children. -/
theorem below_iff_eq_or_child {m n : α} :
    Below kids m n ↔ (∃ c ∈ kids n, Below kids m c) ∨ m = n := by
  constructor
  · intro below
    rcases Relation.ReflTransGen.cases_tail below with same | ⟨c, below, edge⟩
    · exact .inr same.symm
    · exact .inl ⟨c, edge, below⟩
  · rintro (⟨c, hc, below⟩ | rfl)
    · exact .tail below hc
    · exact .refl

/-- What the traversal from a node visits, if it ends. -/
theorem Forest.postorder_spec (forest : Forest kids) {n : α} {fuel : Nat} {l : List α}
    (h : CppLab.postorder kids fuel n = some l) : l.Nodup ∧ ∀ m, m ∈ l ↔ Below kids m n := by
  induction n using forest.wf.induction generalizing fuel l with
  | _ n ih =>
    cases fuel with
    | zero => cases h
    | succ fuel =>
        rw [CppLab.postorder, Option.map_eq_some_iff] at h
        obtain ⟨k, hk, rfl⟩ := h
        have child : ∀ c ∈ kids n, ∀ l, CppLab.postorder kids fuel c = some l →
            ∀ m, m ∈ l ↔ Below kids m c := fun c hc l hl => (ih c hc hl).2
        have own : n ∉ k := by
          intro member
          obtain ⟨c, hc, below⟩ := (mem_traverse_postorder child hk).mp member
          exact not_below_of_child forest.wf hc below
        have distinct : k.Nodup := by
          refine nodup_traverse (forest.once n) (fun c hc l hl => (ih c hc hl).1) ?_ hk
          intro c hc d hd l l' hl hl' m hm hm'
          exact forest.eq_of_below_of_below hc hd ((child c hc l hl m).mp hm)
            ((child d hd l' hl' m).mp hm')
        refine ⟨List.nodup_append.mpr ⟨distinct, List.nodup_singleton n, ?_⟩, ?_⟩
        · rintro a ha b hb rfl
          exact own (List.mem_singleton.mp hb ▸ ha)
        · intro m
          rw [List.mem_append, List.mem_singleton, mem_traverse_postorder child hk,
            below_iff_eq_or_child]

/-- **Traversal.** In a forest the traversal from any node ends, and visits
exactly the nodes at or below it, each of them once. -/
theorem Forest.postorder (forest : Forest kids) (n : α) :
    ∃ fuel l, CppLab.postorder kids fuel n = some l ∧ l.Nodup ∧ ∀ m, m ∈ l ↔ Below kids m n := by
  obtain ⟨fuel, l, h⟩ := forest.exists_postorder n
  exact ⟨fuel, l, h, forest.postorder_spec h⟩

end CppLab
