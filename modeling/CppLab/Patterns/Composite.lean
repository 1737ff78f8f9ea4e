import CppLab.Lib.Forest

/-!
# The `Composite` example: files, folders and their parents

`Folder::add` and `Folder::remove` keep two representations of one relation:
the `children_` of each folder and the `parent_` of each node. They take any
node, and neither looks at the parent that the node already has.

`Sound` is what the two representations should be; `sound_iff` says in which
runs it holds throughout.
-/

namespace CppLab.Patterns.Composite

/-- The classes of nodes. -/
inductive Kind
  | file
  | zipFile
  | shortCut
  | folder
  deriving DecidableEq, Repr

/-- `isComposite()`: no class overrides `FileSystem::isComposite`, not even
`Folder`. -/
def Kind.isComposite : Kind → Bool
  | .file | .zipFile | .shortCut | .folder => false

variable {Node : Type*} [DecidableEq Node]

/-- `parent_` and `children_` of every node. -/
structure State (Node : Type*) where
  parent : Node → Option Node
  children : Node → List Node

namespace State

/-- Nodes just constructed. -/
def init : State Node := ⟨fun _ => none, fun _ => []⟩

/-- `f->add(fs)` on a folder. -/
def add (s : State Node) (f fs : Node) : State Node where
  parent := Function.update s.parent fs (some f)
  children := Function.update s.children f (s.children f ++ [fs])

/-- `f->remove(fs)` on a folder: `std::list::remove` takes out every element that
is equal, and the parent is cleared in any case. -/
def remove (s : State Node) (f fs : Node) : State Node where
  parent := Function.update s.parent fs none
  children := Function.update s.children f ((s.children f).filter (· ≠ fs))

/-- An `int` from a `size_t` or from the sum of two `int`s. -/
def toInt (x : Int) : Int := x.bmod (2 ^ 32)

/-- `size()`, as far as the fuel goes. -/
def size (kind : Node → Kind) (s : State Node) : Nat → Node → Option Int
  | 0, _ => none
  | fuel + 1, n =>
      match kind n with
      | .folder =>
          (s.children n).foldlM (fun total fs =>
            if (kind fs).isComposite then (s.size kind fuel fs).map fun sub => toInt (total + sub)
            else some total) (toInt (s.children n).length)
      | .file | .zipFile | .shortCut => some 1

/-- `delete n`, as far as the fuel goes: the nodes destroyed, in order. The
destructor of a folder deletes the children first. -/
def delete (kind : Node → Kind) (s : State Node) : Nat → Node → Option (List Node)
  | 0, _ => none
  | fuel + 1, n =>
      match kind n with
      | .folder => (traverse (s.delete kind fuel) (s.children n)).map (· ++ [n])
      | .file | .zipFile | .shortCut => some [n]

end State

/-- The calls through a `FileSystem*`. -/
inductive Op (Node : Type*)
  | add (f fs : Node)
  | remove (f fs : Node)

variable (kind : Node → Kind)

/-- A call: `FileSystem::add` and `FileSystem::remove` do nothing, `Folder`
overrides them. -/
def apply (s : State Node) : Op Node → State Node
  | .add f fs => if kind f = .folder then s.add f fs else s
  | .remove f fs => if kind f = .folder then s.remove f fs else s

/-- Calls in turn, on nodes just constructed. -/
def run (ops : List (Op Node)) : State Node := ops.foldl (apply kind) .init

/-- What the two representations should be. -/
structure Sound (s : State Node) : Prop where
  parent : ∀ n f, s.parent n = some f ↔ n ∈ s.children f
  once : ∀ n f, n ∈ s.children f → (s.children f).count n = 1
  acyclic : ∀ n, ¬ Relation.TransGen (Child s.children) n n
  size : ∀ n, ∃ fuel total, s.size kind fuel n = some total
  delete : ∀ n, s.parent n = none → ∃ fuel gone, s.delete kind fuel n = some gone ∧
    (∀ m, Below s.children m n → gone.count m = 1) ∧ ∀ m ∈ gone, Below s.children m n

/-- The condition on a call: a node is added that has no parent and does not have
the folder at or below it, and is removed from its parent, or has none. -/
def Spares (s : State Node) : Op Node → Prop
  | .add f fs => kind f = .folder → s.parent fs = none ∧ ¬ Below s.children f fs
  | .remove f fs => kind f = .folder → s.parent fs = some f ∨ s.parent fs = none

/-! ## `size()` and `delete` -/

variable {kind}

omit [DecidableEq Node] in
/-- The recursion of `Folder::size()` is never entered. -/
theorem size_eq (s : State Node) (fuel : Nat) (n : Node) :
    s.size kind (fuel + 1) n =
      some (if kind n = .folder then State.toInt (s.children n).length else 1) := by
  have flat : ∀ (total : Int) (fs : Node), (if (kind fs).isComposite then
      (s.size kind fuel fs).map fun sub => State.toInt (total + sub) else some total) =
        some total := by
    intro total fs
    cases kind fs with
    | file => rfl
    | zipFile => rfl
    | shortCut => rfl
    | folder => rfl
  have loop : ∀ (cs : List Node) (total : Int), cs.foldlM (fun total fs =>
      if (kind fs).isComposite then (s.size kind fuel fs).map fun sub => State.toInt (total + sub)
      else some total) total = some total := by
    intro cs
    induction cs with
    | nil => intro total; rfl
    | cons c cs ih =>
        intro total
        rw [List.foldlM_cons, flat]
        exact ih total
  rw [State.size]
  cases kind n with
  | file => rfl
  | zipFile => rfl
  | shortCut => rfl
  | folder =>
      rw [if_pos rfl]
      exact loop (s.children n) _

omit [DecidableEq Node] in
/-- When only folders have children, `delete` is the post-order traversal. -/
theorem delete_eq_postorder {s : State Node}
    (leaves : ∀ n, kind n ≠ .folder → s.children n = []) (fuel : Nat) :
    s.delete kind fuel = postorder s.children fuel := by
  induction fuel with
  | zero => rfl
  | succ fuel ih =>
      funext n
      rw [State.delete, postorder, ih]
      cases hk : kind n with
      | folder => rfl
      | file => rw [leaves n (by simp [hk])]; rfl
      | zipFile => rw [leaves n (by simp [hk])]; rfl
      | shortCut => rw [leaves n (by simp [hk])]; rfl

/-! ## The invariant -/

/-- The two representations agree, and the children are a forest. -/
structure Linked (kind : Node → Kind) (s : State Node) : Prop where
  parent : ∀ n f, s.parent n = some f ↔ n ∈ s.children f
  forest : Forest s.children
  leaves : ∀ n, kind n ≠ .folder → s.children n = []

theorem Linked.sound {s : State Node} (linked : Linked kind s) : Sound kind s where
  parent := linked.parent
  once n f member := List.count_eq_one_of_mem (linked.forest.once f) member
  acyclic := linked.forest.acyclic
  size n := ⟨1, _, size_eq s 0 n⟩
  delete := by
    intro n _
    obtain ⟨fuel, gone, visited, nodup, members⟩ := linked.forest.postorder n
    refine ⟨fuel, gone, ?_, ?_, fun m => (members m).mp⟩
    · rw [delete_eq_postorder linked.leaves, visited]
    · exact fun m below => List.count_eq_one_of_mem nodup ((members m).mpr below)

omit [DecidableEq Node] in
theorem linked_init : Linked kind (State.init : State Node) where
  parent n f := by simp [State.init]
  forest := by
    refine ⟨fun _ => List.nodup_nil, fun _ _ _ member => ?_, ⟨fun n => .intro n fun c edge => ?_⟩⟩
    · cases member
    · cases edge
  leaves _ _ := rfl

theorem Linked.add {s : State Node} (linked : Linked kind s) {f fs : Node}
    (folder : kind f = .folder) (root : s.parent fs = none) (apart : ¬ Below s.children f fs) :
    Linked kind (s.add f fs) where
  parent n g := by
    have fresh : fs ∉ s.children g := by
      intro member
      rw [(linked.parent fs g).mpr member] at root
      cases root
    simp only [State.add]
    by_cases new : n = fs
    · subst new
      rw [Function.update_self]
      by_cases here : g = f
      · subst here
        simp
      · have other : ¬ f = g := fun h => here h.symm
        rw [Function.update_of_ne here]
        simp [other, fresh]
    · rw [Function.update_of_ne new, linked.parent]
      by_cases here : g = f
      · subst here
        simp [new]
      · rw [Function.update_of_ne here]
  forest := by
    refine linked.forest.link ?_ apart
    intro g member
    rw [(linked.parent fs g).mpr member] at root
    cases root
  leaves n leaf := by
    have other : n ≠ f := by
      rintro rfl
      exact leaf folder
    show Function.update s.children f _ n = []
    rw [Function.update_of_ne other]
    exact linked.leaves n leaf

theorem Linked.remove {s : State Node} (linked : Linked kind s) {f fs : Node}
    (folder : kind f = .folder) (child : s.parent fs = some f ∨ s.parent fs = none) :
    Linked kind (s.remove f fs) where
  parent n g := by
    simp only [State.remove]
    by_cases gone : n = fs
    · subst gone
      rw [Function.update_self]
      by_cases here : g = f
      · subst here
        simp
      · rw [Function.update_of_ne here, ← linked.parent]
        rcases child with parent | parent
        · have other : ¬ f = g := fun h => here h.symm
          simp [parent, other]
        · simp [parent]
    · rw [Function.update_of_ne gone, linked.parent]
      by_cases here : g = f
      · subst here
        simp [gone]
      · rw [Function.update_of_ne here]
  forest := by
    refine linked.forest.mono fun g => ?_
    show (Function.update s.children f _ g).Sublist _
    exact Forest.sublist_update List.filter_sublist g
  leaves n leaf := by
    have other : n ≠ f := by
      rintro rfl
      exact leaf folder
    show Function.update s.children f _ n = []
    rw [Function.update_of_ne other]
    exact linked.leaves n leaf

/-- Step lemma. -/
theorem linked_apply {s : State Node} (linked : Linked kind s) {op : Op Node}
    (spares : Spares kind s op) : Linked kind (apply kind s op) := by
  cases op with
  | add f fs =>
      show Linked kind (if kind f = .folder then s.add f fs else s)
      split
      · rename_i folder
        exact linked.add folder (spares folder).1 (spares folder).2
      · exact linked
  | remove f fs =>
      show Linked kind (if kind f = .folder then s.remove f fs else s)
      split
      · rename_i folder
        exact linked.remove folder (spares folder)
      · exact linked

/-- The node is listed twice in one folder, or in the folder that was its parent
and in the new one. -/
theorem not_sound_add_of_parent {s : State Node} (linked : Linked kind s) {f fs g : Node}
    (old : s.parent fs = some g) : ¬ Sound kind (s.add f fs) := by
  intro sound
  have parent : (s.add f fs).parent fs = some f := Function.update_self ..
  have before : fs ∈ s.children g := (linked.parent fs g).mp old
  by_cases here : g = f
  · subst here
    have listed : fs ∈ (s.add g fs).children g := (sound.parent fs g).mp parent
    have twice := sound.once fs g listed
    have first : 0 < (s.children g).count fs := List.count_pos_iff.mpr before
    simp only [State.add, Function.update_self, List.count_append,
      List.count_singleton_self] at twice
    omega
  · have still : fs ∈ (s.add f fs).children g := by
      simpa only [State.add, Function.update_of_ne here] using before
    have other := (sound.parent fs g).mpr still
    rw [parent] at other
    injection other with other
    exact here other.symm

/-- The folder is below the node that it lists. -/
theorem not_sound_add_of_below {s : State Node} {f fs : Node} (below : Below s.children f fs) :
    ¬ Sound kind (s.add f fs) := by
  intro sound
  have listed : fs ∈ (s.add f fs).children f :=
    (sound.parent fs f).mp (Function.update_self ..)
  have edges : ∀ c q, c ∈ s.children q → c ∈ (s.add f fs).children q := by
    intro c q member
    by_cases here : q = f
    · subst here
      simp only [State.add, Function.update_self, List.mem_append]
      exact .inl member
    · simpa only [State.add, Function.update_of_ne here] using member
  have below' : Below (s.add f fs).children f fs := Relation.ReflTransGen.mono edges _ _ below
  exact sound.acyclic fs (Relation.TransGen.head' listed below')

/-- The real parent still lists the node. -/
theorem not_sound_remove {s : State Node} (linked : Linked kind s) {f fs g : Node}
    (old : s.parent fs = some g) (other : g ≠ f) : ¬ Sound kind (s.remove f fs) := by
  intro sound
  have still : fs ∈ (s.remove f fs).children g := by
    simpa only [State.remove, Function.update_of_ne other] using (linked.parent fs g).mp old
  have parent := (sound.parent fs g).mpr still
  simp only [State.remove, Function.update_self, reduceCtorEq] at parent

/-- A call that does not meet the condition breaks a forest. -/
theorem not_sound_apply {s : State Node} (linked : Linked kind s) {op : Op Node}
    (breaks : ¬ Spares kind s op) : ¬ Sound kind (apply kind s op) := by
  cases op with
  | add f fs =>
      simp only [Spares, Classical.not_imp, not_and_or, not_not] at breaks
      obtain ⟨folder, cause⟩ := breaks
      simp only [apply, if_pos folder]
      rcases cause with parent | below
      · obtain ⟨g, old⟩ := Option.ne_none_iff_exists'.mp parent
        exact not_sound_add_of_parent linked old
      · exact not_sound_add_of_below below
  | remove f fs =>
      simp only [Spares, Classical.not_imp, not_or] at breaks
      obtain ⟨folder, notHere, notRoot⟩ := breaks
      simp only [apply, if_pos folder]
      obtain ⟨g, old⟩ := Option.ne_none_iff_exists'.mp notRoot
      apply not_sound_remove linked old
      rintro rfl
      exact notHere old

/-! ## Runs -/

theorem run_concat (ops : List (Op Node)) (op : Op Node) :
    run kind (ops ++ [op]) = apply kind (run kind ops) op := by
  rw [run, List.foldl_append]
  rfl

/-- Run lemma. -/
theorem linked_run {ops : List (Op Node)}
    (spares : ∀ pre op post, ops = pre ++ op :: post → Spares kind (run kind pre) op) :
    Linked kind (run kind ops) := by
  induction ops using List.reverseRecOn with
  | nil => exact linked_init
  | append_singleton ops op ih =>
      have before : Linked kind (run kind ops) := by
        refine ih fun pre op' post split => spares pre op' (post ++ [op]) ?_
        rw [split, List.append_assoc, List.cons_append]
      rw [run_concat]
      exact linked_apply before (spares ops op [] rfl)

variable (kind) in
/-- **Composite structure.** In a run of `add` and `remove` the two
representations are sound in every state precisely when every call meets the
condition. -/
theorem sound_iff (ops : List (Op Node)) :
    (∀ pre post, ops = pre ++ post → Sound kind (run kind pre)) ↔
      ∀ pre op post, ops = pre ++ op :: post → Spares kind (run kind pre) op := by
  constructor
  · intro sound
    -- the shortest prefix whose next call breaks the condition is still linked
    have each : ∀ pre post, ops = pre ++ post →
        ∀ pre' op post', pre = pre' ++ op :: post' → Spares kind (run kind pre') op := by
      intro pre
      induction pre using List.reverseRecOn with
      | nil =>
          intro post _ pre' op post' split
          simp at split
      | append_singleton pre last ih =>
          intro post whole pre' op post' split
          have earlier := ih (last :: post) (by rw [whole, List.append_assoc, List.singleton_append])
          rcases List.eq_nil_or_concat post' with rfl | ⟨post', d, rfl⟩
          · obtain ⟨rfl, same⟩ := List.append_inj' split rfl
            cases same
            by_contra breaks
            refine not_sound_apply (linked_run earlier) breaks ?_
            rw [← run_concat]
            exact sound _ post whole
          · have cut : pre = pre' ++ op :: post' := by
              rw [List.concat_eq_append, ← List.cons_append, ← List.append_assoc] at split
              exact (List.append_inj' split rfl).1
            exact earlier pre' op post' cut
    exact fun pre op post split => each ops [] (List.append_nil ops).symm pre op post split
  · intro spares pre post split
    refine (linked_run fun pre' op post' cut => spares pre' op (post' ++ post) ?_).sound
    rw [split, cut, List.append_assoc, List.cons_append]

/-- Two folders and one file. -/
def shelf (n : Fin 3) : Kind := if n = 2 then .file else .folder

/-- The file is added to both folders: the first still lists it. -/
theorem not_sound_twice : ¬ ∀ pre post, [Op.add (0 : Fin 3) 2, .add 1 2] = pre ++ post →
    Sound shelf (run shelf pre) := by
  intro sound
  have last := sound [.add 0 2, .add 1 2] [] rfl
  have parent : (run shelf [.add 0 2, .add 1 2]).parent 2 = some 0 :=
    (last.parent 2 0).mpr (by decide)
  exact absurd parent (by decide)

end CppLab.Patterns.Composite
