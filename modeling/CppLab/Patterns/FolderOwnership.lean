import CppLab.Lib.Cascade
import CppLab.Lib.System
import CppLab.Env.StdString

/-!
# Who deletes the files of a folder

In the first version of the `Composite` example a folder holds pointers to its files and
subfolders, and its destructor deletes them. A node that is removed by its pointer is
handed back to the caller, one that is removed by its name is deleted. The class has a
destructor and no copy constructor of its own, so a copy has the same pointers.

* `Kept` is the invariant: the folders are a forest of nodes that are alive;
* `owned_of_spares` is what follows for the runs in which no folder with something in it
  is copied;
* `not_owned_copy` is what a copy leads to otherwise.
-/

namespace CppLab.Patterns.FolderOwnership

inductive Kind
  | file
  | folder
  deriving DecidableEq

/-- The nodes constructed so far with their members, and what is alive of them. -/
structure State where
  kind : Nat → Option Kind
  name : Nat → Bytes
  files : Nat → List Nat
  subFolders : Nat → List Nat
  estate : Estate Nat

namespace State

def init : State where
  kind _ := none
  name _ := []
  files _ := []
  subFolders _ := []
  estate := ⟨∅, []⟩

/-- What the destructor of a node deletes, in order. -/
def kids (s : State) (n : Nat) : List Nat := s.files n ++ s.subFolders n

/-- A constructor. -/
def construct (s : State) (n : Nat) (kind : Kind) (name : Bytes) (files subFolders : List Nat) :
    State where
  kind := Function.update s.kind n (some kind)
  name := Function.update s.name n name
  files := Function.update s.files n files
  subFolders := Function.update s.subFolders n subFolders
  estate := { s.estate with live := insert n s.estate.live }

/-- `Folder(const Folder&)`, as the compiler makes it: the members are copied, and a
copied pointer is the same pointer. -/
def copy (s : State) (n src : Nat) : State :=
  s.construct n .folder (s.name src) (s.files src) (s.subFolders src)

/-- `f->addFile(n)`. -/
def addFile (s : State) (f n : Nat) : State :=
  { s with files := Function.update s.files f (s.files f ++ [n]) }

/-- `f->addFolder(g)`. -/
def addFolder (s : State) (f g : Nat) : State :=
  { s with subFolders := Function.update s.subFolders f (s.subFolders f ++ [g]) }

/-- `f->removeFile(n)`: taken out of the list, and not deleted. -/
def removeFile (s : State) (f n : Nat) : State :=
  { s with files := Function.update s.files f ((s.files f).filter (· ≠ n)) }

/-- `f->removeFolder(g)`. -/
def removeFolder (s : State) (f g : Nat) : State :=
  { s with subFolders := Function.update s.subFolders f ((s.subFolders f).filter (· ≠ g)) }

/-- `delete n`. -/
def delete (s : State) (n : Nat) : State := { s with estate := s.estate.destroy s.kids n }

/-- The test of `find_if` in the functions that remove by name. -/
def Named (s : State) (name : Bytes) (n : Nat) : Bool := s.name n = name

/-- `f->removeFileByName(name)`: the first one of that name is deleted, then its entry is
erased. -/
def removeFileByName (s : State) (f : Nat) (name : Bytes) : State :=
  match (s.files f).find? (s.Named name) with
  | some n =>
      { s.delete n with
        files := Function.update s.files f ((s.files f).eraseP (s.Named name)) }
  | none => s

/-- `f->removeFolderByName(name)`. -/
def removeFolderByName (s : State) (f : Nat) (name : Bytes) : State :=
  match (s.subFolders f).find? (s.Named name) with
  | some g =>
      { s.delete g with
        subFolders := Function.update s.subFolders f ((s.subFolders f).eraseP (s.Named name)) }
  | none => s

/-- A folder that calls can be made on. -/
def IsFolder (s : State) (f : Nat) : Prop := s.kind f = some .folder ∧ f ∈ s.estate.live

/-- A node in no list. -/
def Root (s : State) (n : Nat) : Prop := n ∈ s.estate.live ∧ ∀ f ∈ s.estate.live, n ∉ s.kids f

instance (s : State) (f : Nat) : Decidable (s.IsFolder f) := inferInstanceAs (Decidable (_ ∧ _))

instance (s : State) (n : Nat) : Decidable (s.Root n) := inferInstanceAs (Decidable (_ ∧ _))

end State

inductive Op
  | newFile (n : Nat) (name : Bytes)
  | newFolder (n : Nat) (name : Bytes)
  | copyFolder (n src : Nat)
  | addFile (f n : Nat)
  | addFolder (f g : Nat)
  | removeFile (f n : Nat)
  | removeFolder (f g : Nat)
  | removeFileByName (f : Nat) (name : Bytes)
  | removeFolderByName (f : Nat) (name : Bytes)
  | destroy (n : Nat)
  deriving DecidableEq

/-- A program with folders. A node that is added or destroyed is in no list. -/
def system : System State Op where
  init := .init
  step s
    | .newFile n name => if s.kind n = none then some (s.construct n .file name [] []) else none
    | .newFolder n name => if s.kind n = none then some (s.construct n .folder name [] []) else none
    | .copyFolder n src => if s.kind n = none ∧ s.IsFolder src then some (s.copy n src) else none
    | .addFile f n =>
        if s.IsFolder f ∧ s.kind n = some .file ∧ s.Root n then some (s.addFile f n) else none
    | .addFolder f g =>
        if s.IsFolder f ∧ s.kind g = some .folder ∧ s.Root g then some (s.addFolder f g) else none
    | .removeFile f n => if s.IsFolder f then some (s.removeFile f n) else none
    | .removeFolder f g => if s.IsFolder f then some (s.removeFolder f g) else none
    | .removeFileByName f name => if s.IsFolder f then some (s.removeFileByName f name) else none
    | .removeFolderByName f name =>
        if s.IsFolder f then some (s.removeFolderByName f name) else none
    | .destroy n => if s.Root n then some (s.delete n) else none

/-- Nothing has been deleted twice, and no folder lists a deleted node. -/
structure Owned (s : State) : Prop where
  once : s.estate.deleted.Nodup
  listed : ∀ f n, f ∈ s.estate.live → n ∈ s.kids f → n ∉ s.estate.deleted

/-- The condition on a step: a folder that is copied has nothing in it, and a folder that
is added is not, and does not contain, the folder that it is added to. -/
def Spares (s : State) : Op → Prop
  | .copyFolder _ src => s.kids src = []
  | .addFolder f g => ¬ Below s.kids f g
  | _ => True

/-! ## The invariant -/

/-- **Invariant.** What was constructed is alive or has been deleted once; the lists are
those of a forest, in which a live folder lists what is alive, and one that has been
deleted what has been deleted. A file lists nothing. -/
structure Kept (s : State) : Prop where
  there : ∀ n, s.kind n ≠ none ↔ n ∈ s.estate.live ∨ n ∈ s.estate.deleted
  apart : ∀ n, n ∈ s.estate.deleted → n ∉ s.estate.live
  once : s.estate.deleted.Nodup
  forest : Forest s.kids
  alive : ∀ f n, f ∈ s.estate.live → n ∈ s.kids f → n ∈ s.estate.live
  dead : ∀ f n, f ∉ s.estate.live → n ∈ s.kids f → n ∈ s.estate.deleted
  folder : ∀ f n, n ∈ s.kids f → s.kind f = some .folder

theorem Kept.owned {s : State} (kept : Kept s) : Owned s where
  once := kept.once
  listed f n folder member := fun deleted => kept.apart n deleted (kept.alive f n folder member)

theorem kept_init : Kept State.init := by
  refine ⟨fun n => ?_, ?_, List.nodup_nil, ⟨?_, ?_, ⟨fun n => .intro n ?_⟩⟩, ?_, ?_, ?_⟩
  · simp [State.init]
  · exact fun n member => absurd member List.not_mem_nil
  · exact fun p => List.nodup_nil
  · exact fun c p q member => absurd member List.not_mem_nil
  · exact fun c edge => absurd edge List.not_mem_nil
  · exact fun f n _ member => absurd member List.not_mem_nil
  · exact fun f n _ member => absurd member List.not_mem_nil
  · exact fun f n member => absurd member List.not_mem_nil

/-- What is below a live node is alive. -/
theorem Kept.alive_below {s : State} (kept : Kept s) {m n : Nat} (alive : n ∈ s.estate.live)
    (below : Below s.kids m n) : m ∈ s.estate.live := by
  induction below using Relation.ReflTransGen.head_induction_on with
  | refl => exact alive
  | head edge _ ih => exact kept.alive _ _ ih edge

/-- What has not been constructed is neither alive nor deleted. -/
theorem Kept.new {s : State} (kept : Kept s) {n : Nat} (new : s.kind n = none) :
    n ∉ s.estate.live ∧ n ∉ s.estate.deleted :=
  not_or.mp fun before => (kept.there n).mpr before new

theorem Kept.new_not_mem_kids {s : State} (kept : Kept s) {n : Nat} (new : s.kind n = none)
    (p : Nat) : n ∉ s.kids p := by
  intro member
  by_cases alive : p ∈ s.estate.live
  · exact (kept.new new).1 (kept.alive p n alive member)
  · exact (kept.new new).2 (kept.dead p n alive member)

theorem kids_construct (s : State) (n : Nat) (kind : Kind) (name : Bytes)
    (files subFolders : List Nat) : (s.construct n kind name files subFolders).kids =
      Function.update s.kids n (files ++ subFolders) := by
  funext p
  by_cases this : p = n
  · subst this
    simp [State.kids, State.construct]
  · simp [State.kids, State.construct, this]

/-- A node without anything in it is constructed. -/
theorem Kept.construct {s : State} (kept : Kept s) {n : Nat} (new : s.kind n = none) (kind : Kind)
    (name : Bytes) : Kept (s.construct n kind name [] []) := by
  have kids := kids_construct s n kind name [] []
  have sub : ∀ p, (Function.update s.kids n [] p).Sublist (s.kids p) :=
    Forest.sublist_update (List.nil_sublist _)
  refine ⟨fun m => ?_, fun m deleted => ?_, kept.once, kids ▸ kept.forest.mono sub, ?_, ?_, ?_⟩
  · exact Estate.known_insert kept.there n kind m
  · exact Estate.not_mem_insert kept.apart (kept.new new).2 deleted
  · intro f m folder member
    rw [kids] at member
    refine Finset.mem_insert_of_mem ?_
    rcases Finset.mem_insert.mp folder with rfl | old
    · rw [Function.update_self] at member
      cases member
    · exact kept.alive f m old ((sub f).subset member)
  · intro f m gone member
    rw [kids] at member
    exact kept.dead f m (fun old => gone (Finset.mem_insert_of_mem old)) ((sub f).subset member)
  · intro f m member
    rw [kids] at member
    show Function.update s.kind n (some kind) f = some .folder
    by_cases this : f = n
    · rw [this, Function.update_self] at member
      cases member
    · rw [Function.update_of_ne this] at member ⊢
      exact kept.folder f m member

/-- Entries are taken out of the lists. -/
theorem Kept.unlink {s s' : State} (kept : Kept s) (kind : s'.kind = s.kind)
    (estate : s'.estate = s.estate) (sub : ∀ p, (s'.kids p).Sublist (s.kids p)) : Kept s' := by
  refine ⟨?_, ?_, ?_, kept.forest.mono sub, fun f n => ?_, fun f n => ?_, fun f n => ?_⟩
  · rw [kind, estate]
    exact kept.there
  · rw [estate]
    exact kept.apart
  · rw [estate]
    exact kept.once
  · rw [estate]
    exact fun folder member => kept.alive f n folder ((sub f).subset member)
  · rw [estate]
    exact fun gone member => kept.dead f n gone ((sub f).subset member)
  · rw [kind]
    exact fun member => kept.folder f n ((sub f).subset member)

/-- A node in no list gets an entry. -/
theorem Kept.link {s s' : State} (kept : Kept s) {f n : Nat} (folder : s.IsFolder f)
    (root : s.Root n) (apart : ¬ Below s.kids f n) (kind : s'.kind = s.kind)
    (estate : s'.estate = s.estate) (here : (s'.kids f).Perm (s.kids f ++ [n]))
    (other : ∀ p, p ≠ f → s'.kids p = s.kids p) : Kept s' := by
  have same : ∀ p, (s'.kids p).Perm (Function.update s.kids f (s.kids f ++ [n]) p) := by
    intro p
    by_cases this : p = f
    · rw [this, Function.update_self]
      exact here
    · rw [Function.update_of_ne this, other p this]
  have unlisted : ∀ p, n ∉ s.kids p := by
    intro p member
    by_cases alive : p ∈ s.estate.live
    · exact root.2 p alive member
    · exact kept.apart n (kept.dead p n alive member) root.1
  refine ⟨?_, ?_, ?_, (kept.forest.link unlisted apart).perm same, fun p m => ?_,
    fun p m => ?_, fun p m => ?_⟩
  · rw [kind, estate]
    exact kept.there
  · rw [estate]
    exact kept.apart
  · rw [estate]
    exact kept.once
  · rw [estate]
    intro alive member
    by_cases this : p = f
    · subst this
      rcases List.mem_append.mp (here.mem_iff.mp member) with old | new
      · exact kept.alive p m alive old
      · exact List.mem_singleton.mp new ▸ root.1
    · exact kept.alive p m alive (other p this ▸ member)
  · rw [estate]
    intro gone member
    have this : p ≠ f := fun same => gone (same ▸ folder.2)
    exact kept.dead p m gone (other p this ▸ member)
  · rw [kind]
    intro member
    by_cases this : p = f
    · exact this ▸ folder.1
    · exact kept.folder p m (other p this ▸ member)

/-- A node is deleted that has no entry afterwards. -/
theorem Kept.delete {s s' : State} (kept : Kept s) {n : Nat} (alive : n ∈ s.estate.live)
    (kind : s'.kind = s.kind) (estate : s'.estate = s.estate.destroy s.kids n)
    (sub : ∀ p, (s'.kids p).Sublist (s.kids p)) (gone : ∀ p ∈ s.estate.live, n ∉ s'.kids p) :
    Kept s' := by
  obtain ⟨l, once, members, destroy⟩ :=
    Estate.destroy_forest kept.forest fun m => kept.alive_below alive
  rw [destroy] at estate
  have lives : ∀ m ∈ l, m ∈ s.estate.live := fun m member =>
    kept.alive_below alive ((members m).mp member)
  have live : ∀ m, m ∈ s'.estate.live ↔ m ∈ s.estate.live ∧ m ∉ l := fun m => by
    rw [estate, Finset.mem_sdiff, List.mem_toFinset]
  have deleted : s'.estate.deleted = s.estate.deleted ++ l := by rw [estate]
  refine ⟨fun m => ?_, fun m => ?_, ?_, kept.forest.mono sub, fun p m => ?_, fun p m => ?_,
    fun p m => ?_⟩
  · rw [kind, kept.there, live, deleted, List.mem_append]
    have := lives m
    tauto
  · rw [live, deleted, List.mem_append]
    rintro (before | now) ⟨still, fresh⟩
    · exact kept.apart m before still
    · exact fresh now
  · rw [deleted]
    refine List.nodup_append.mpr ⟨kept.once, once, ?_⟩
    rintro a before b now rfl
    exact kept.apart a before (lives a now)
  · rw [live, live]
    rintro ⟨folder, outside⟩ member
    refine ⟨kept.alive p m folder ((sub p).subset member), fun inside => ?_⟩
    -- its folder is the one above it, which has been deleted with it
    rcases Relation.ReflTransGen.cases_head ((members m).mp inside) with rfl | ⟨q, edge, below⟩
    · exact gone p folder member
    · have parent : q = p := kept.forest.one m q p edge ((sub p).subset member)
      exact outside (parent ▸ (members q).mpr below)
  · rw [live, deleted, List.mem_append]
    intro out member
    by_cases before : p ∈ s.estate.live
    · have inside : p ∈ l := by
        by_contra outside
        exact out ⟨before, outside⟩
      exact .inr ((members m).mpr (.head ((sub p).subset member) ((members p).mp inside)))
    · exact .inl (kept.dead p m before ((sub p).subset member))
  · rw [kind]
    exact fun member => kept.folder p m ((sub p).subset member)

/-! ## Steps -/

/-- `erase(it)` takes out what `find_if` has found. -/
theorem not_mem_eraseP_of_find? {test : Nat → Bool} {l : List Nat} {n : Nat} (once : l.Nodup)
    (found : l.find? test = some n) : n ∉ l.eraseP test := by
  obtain ⟨holds, as, bs, rfl, before⟩ := List.find?_eq_some_iff_append.mp found
  have skip : ∀ a ∈ as, ¬ test a = true := fun a member => by simpa using before a member
  rw [List.eraseP_append_right _ skip, List.eraseP_cons_of_pos holds]
  exact (List.nodup_cons.mp ((List.perm_middle.nodup_iff).mp once)).1

theorem kept_addFile {s : State} (kept : Kept s) {f n : Nat} (folder : s.IsFolder f)
    (root : s.Root n) (apart : ¬ Below s.kids f n) : Kept (s.addFile f n) := by
  refine kept.link folder root apart rfl rfl ?_ fun p this => ?_
  · show (Function.update s.files f (s.files f ++ [n]) f ++ s.subFolders f).Perm _
    rw [Function.update_self, State.kids, List.append_assoc, List.append_assoc]
    exact List.perm_append_comm.append_left _
  · show Function.update s.files f _ p ++ s.subFolders p = _
    rw [Function.update_of_ne this]
    rfl

theorem kept_addFolder {s : State} (kept : Kept s) {f g : Nat} (folder : s.IsFolder f)
    (root : s.Root g) (apart : ¬ Below s.kids f g) : Kept (s.addFolder f g) := by
  refine kept.link folder root apart rfl rfl ?_ fun p this => ?_
  · show (s.files f ++ Function.update s.subFolders f (s.subFolders f ++ [g]) f).Perm _
    rw [Function.update_self, State.kids, List.append_assoc]
  · show s.files p ++ Function.update s.subFolders f _ p = _
    rw [Function.update_of_ne this]
    rfl

/-- Entries taken out of one list of files. -/
theorem sublist_files {s : State} {f : Nat} {l : List Nat} (sub : l.Sublist (s.files f)) (p : Nat) :
    (Function.update s.files f l p ++ s.subFolders p).Sublist (s.kids p) := by
  exact (Forest.sublist_update sub p).append_right _

theorem sublist_subFolders {s : State} {f : Nat} {l : List Nat}
    (sub : l.Sublist (s.subFolders f)) (p : Nat) :
    (s.files p ++ Function.update s.subFolders f l p).Sublist (s.kids p) := by
  exact (Forest.sublist_update sub p).append_left _

/-- A node is deleted, and its only entry erased. -/
theorem Kept.deleteEntry {s s' : State} (kept : Kept s) {f n : Nat} (folder : s.IsFolder f)
    (listed : n ∈ s.kids f) (kind : s'.kind = s.kind)
    (estate : s'.estate = s.estate.destroy s.kids n)
    (sub : ∀ p, (s'.kids p).Sublist (s.kids p)) (erased : n ∉ s'.kids f) : Kept s' := by
  refine kept.delete (kept.alive f n folder.2 listed) kind estate sub fun p _ member => ?_
  have this : p = f := kept.forest.one n p f ((sub p).subset member) listed
  exact erased (this ▸ member)

theorem kept_removeFileByName {s : State} (kept : Kept s) {f : Nat} (folder : s.IsFolder f)
    (name : Bytes) : Kept (s.removeFileByName f name) := by
  unfold State.removeFileByName
  split
  · rename_i n found
    obtain ⟨once, -, apart⟩ := List.nodup_append.mp (kept.forest.once f)
    have own : n ∈ s.files f := List.mem_of_find?_eq_some found
    refine kept.deleteEntry folder (List.mem_append_left _ own) rfl rfl
      (sublist_files List.eraseP_sublist) ?_
    show n ∉ Function.update s.files f _ f ++ s.subFolders f
    rw [Function.update_self, List.mem_append, not_or]
    exact ⟨not_mem_eraseP_of_find? once found, fun member => apart n own n member rfl⟩
  · exact kept

theorem kept_removeFolderByName {s : State} (kept : Kept s) {f : Nat} (folder : s.IsFolder f)
    (name : Bytes) : Kept (s.removeFolderByName f name) := by
  unfold State.removeFolderByName
  split
  · rename_i g found
    obtain ⟨-, once, apart⟩ := List.nodup_append.mp (kept.forest.once f)
    have own : g ∈ s.subFolders f := List.mem_of_find?_eq_some found
    refine kept.deleteEntry folder (List.mem_append_right _ own) rfl rfl
      (sublist_subFolders (s := s) List.eraseP_sublist) ?_
    show g ∉ s.files f ++ Function.update s.subFolders f _ f
    rw [Function.update_self, List.mem_append, not_or]
    exact ⟨fun member => apart g member g own rfl, not_mem_eraseP_of_find? once found⟩
  · exact kept

/-- Step lemma. -/
theorem Kept.step {s s' : State} {op : Op} (kept : Kept s) (spares : Spares s op)
    (hstep : system.step s op = some s') : Kept s' := by
  cases op with
  | newFile n name =>
      obtain ⟨new, same⟩ := Option.ite_none_right_eq_some.mp hstep
      cases same
      exact kept.construct new .file name
  | newFolder n name =>
      obtain ⟨new, same⟩ := Option.ite_none_right_eq_some.mp hstep
      cases same
      exact kept.construct new .folder name
  | copyFolder n src =>
      obtain ⟨⟨new, -⟩, same⟩ := Option.ite_none_right_eq_some.mp hstep
      cases same
      obtain ⟨files, subFolders⟩ := List.append_eq_nil_iff.mp spares
      rw [State.copy, files, subFolders]
      exact kept.construct new .folder (s.name src)
  | addFile f n =>
      obtain ⟨⟨folder, file, root⟩, same⟩ := Option.ite_none_right_eq_some.mp hstep
      cases same
      refine kept_addFile kept folder root fun below => ?_
      -- nothing is below a file but the file
      rcases Relation.ReflTransGen.cases_tail below with same | ⟨c, -, edge⟩
      · rw [same, folder.1] at file
        cases file
      · rw [kept.folder n c edge] at file
        cases file
  | addFolder f g =>
      obtain ⟨⟨folder, -, root⟩, same⟩ := Option.ite_none_right_eq_some.mp hstep
      cases same
      exact kept_addFolder kept folder root spares
  | removeFile f n =>
      obtain ⟨-, same⟩ := Option.ite_none_right_eq_some.mp hstep
      cases same
      exact kept.unlink rfl rfl (sublist_files List.filter_sublist)
  | removeFolder f g =>
      obtain ⟨-, same⟩ := Option.ite_none_right_eq_some.mp hstep
      cases same
      exact kept.unlink rfl rfl (sublist_subFolders (s := s) List.filter_sublist)
  | removeFileByName f name =>
      obtain ⟨folder, same⟩ := Option.ite_none_right_eq_some.mp hstep
      cases same
      exact kept_removeFileByName kept folder name
  | removeFolderByName f name =>
      obtain ⟨folder, same⟩ := Option.ite_none_right_eq_some.mp hstep
      cases same
      exact kept_removeFolderByName kept folder name
  | destroy n =>
      obtain ⟨root, same⟩ := Option.ite_none_right_eq_some.mp hstep
      cases same
      exact kept.delete root.1 rfl rfl (fun p => List.Sublist.refl _) root.2

/-- Run lemma. -/
theorem kept_run {tr : List Op} {s : State} (run : system.run tr = some s)
    (spares : ∀ pre op post t, tr = pre ++ op :: post → system.run pre = some t → Spares t op) :
    Kept s := by
  induction tr using List.reverseRecOn generalizing s with
  | nil =>
      cases run
      exact kept_init
  | append_singleton tr op ih =>
      obtain ⟨t, before, last⟩ := system.run_concat_eq_some.mp run
      have kept : Kept t := by
        refine ih before fun pre op' post t split => spares pre op' (post ++ [op]) t ?_
        rw [split, List.append_assoc, List.cons_append]
      exact kept.step (spares tr op [] t rfl before) last

/-- **Ownership.** In a run that copies empty folders only, and never adds a folder to
itself or to a folder in it, no node is deleted twice, and no folder lists a deleted node. -/
theorem owned_of_spares (tr : List Op) (s : State) (run : system.run tr = some s)
    (spares : ∀ pre op post t, tr = pre ++ op :: post → system.run pre = some t → Spares t op) :
    Owned s :=
  (kept_run run spares).owned

/-- An empty folder is copied, and the copy put into another folder. -/
def tidy : List Op :=
  [.newFolder 0 (ascii "root"), .newFolder 1 (ascii "sub"), .copyFolder 2 1, .addFolder 0 2,
    .destroy 0]

theorem owned_tidy : ∃ s, system.run tidy = some s ∧ Owned s := by
  have deletions : (system.run tidy).map (·.estate.deleted) = some [2, 0] := by decide
  obtain ⟨s, run, -⟩ := Option.map_eq_some_iff.mp deletions
  refine ⟨s, run, owned_of_spares tidy s run fun pre op post t split before => ?_⟩
  have here : tidy[pre.length]? = some op := by simp [split]
  have start : pre = tidy.take pre.length := by simp [split]
  rw [start] at before
  generalize pre.length = k at here before
  have short : k < 5 := (List.getElem?_eq_some_iff.mp here).1
  -- only the copy and the folder that is added have a condition
  interval_cases k
  · cases here
    trivial
  · cases here
    trivial
  · cases here
    have empty : (system.run (tidy.take 2)).map (·.kids 1) = some [] := by decide
    rw [before] at empty
    exact Option.some.inj empty
  · cases here
    have empty : (system.run (tidy.take 3)).map (·.kids 2) = some [] := by decide
    rw [before] at empty
    have nothing : t.kids 2 = [] := Option.some.inj empty
    intro below
    rcases Relation.ReflTransGen.cases_tail below with same | ⟨c, -, edge⟩
    · cases same
    · have edge : c ∈ t.kids 2 := edge
      rw [nothing] at edge
      cases edge
  · cases here
    trivial

/-! ## Copies -/

/-- The lists of the copy are those of the folder, and the others are as they were. -/
theorem kids_copy (s : State) (n src : Nat) :
    (s.copy n src).kids = Function.update s.kids n (s.kids src) :=
  kids_construct s n .folder (s.name src) (s.files src) (s.subFolders src)

/-- Below anything but the copy the lists have not changed. -/
theorem below_of_below_copy {s : State} (kept : Kept s) {n src a q : Nat}
    (new : s.kind n = none) (top : q ≠ n) (path : Below (s.copy n src).kids a q) :
    Below s.kids a q := by
  induction path using Relation.ReflTransGen.head_induction_on with
  | refl => exact .refl
  | @head a p edge rest ih =>
      have edge : a ∈ (s.copy n src).kids p := edge
      rw [kids_copy] at edge
      by_cases this : p = n
      · -- the copy is in no list, so it is the top of the path
        subst this
        rcases Relation.ReflTransGen.cases_head rest with same | ⟨r, up, -⟩
        · exact absurd same.symm top
        · have up : p ∈ (s.copy p src).kids r := up
          rw [kids_copy] at up
          by_cases here : r = p
          · rw [here, Function.update_self] at up
            exact absurd up (kept.new_not_mem_kids new src)
          · rw [Function.update_of_ne here] at up
            exact absurd up (kept.new_not_mem_kids new r)
      · rw [Function.update_of_ne this] at edge
        exact .head edge ih

/-- The folder outlives its copy. -/
theorem source_alive {s : State} (kept : Kept s) {n src : Nat} (new : s.kind n = none)
    (folder : s.IsFolder src) : src ∈ ((s.copy n src).delete n).estate.live := by
  have ne : src ≠ n := by
    rintro rfl
    exact (kept.new new).1 folder.2
  have outside : src ∉ ((s.copy n src).delete n).estate.deleted := by
    intro deleted
    rcases Estate.mem_deleted_destroy_cases deleted with before | path
    · exact kept.apart src before folder.2
    · rcases Relation.ReflTransGen.cases_tail path with same | ⟨q, path, edge⟩
      · exact ne same.symm
      · have edge : q ∈ (s.copy n src).kids n := edge
        rw [kids_copy, Function.update_self] at edge
        have top : q ≠ n := fun same => kept.new_not_mem_kids new src (same ▸ edge)
        exact not_below_of_child kept.forest.wf edge (below_of_below_copy kept new top path)
  obtain ⟨-, log, deleted, gone, -⟩ :=
    Estate.later_destroy (s.copy n src).kids (s.copy n src).estate n
  by_contra dead
  refine outside ?_
  show src ∈ ((s.copy n src).estate.destroy (s.copy n src).kids n).deleted
  rw [deleted]
  exact List.mem_append_right _ (gone src (Finset.mem_insert_of_mem folder.2) dead)

/-- A copy of a folder with something in it is destroyed: the folder lists what has been
deleted. -/
theorem not_owned_copy {s : State} (kept : Kept s) {n src c : Nat} (new : s.kind n = none)
    (folder : s.IsFolder src) (listed : c ∈ s.kids src) :
    ∃ s', system.runFrom s [.copyFolder n src, .destroy n] = some s' ∧ ¬ Owned s' := by
  have ne : src ≠ n := by
    rintro rfl
    exact (kept.new new).1 folder.2
  have unlisted : ∀ p, n ∉ (s.copy n src).kids p := by
    intro p
    rw [kids_copy]
    by_cases this : p = n
    · rw [this, Function.update_self]
      exact kept.new_not_mem_kids new src
    · rw [Function.update_of_ne this]
      exact kept.new_not_mem_kids new p
  have root : (s.copy n src).Root n := ⟨Finset.mem_insert_self .., fun p _ => unlisted p⟩
  have copied : system.step s (.copyFolder n src) = some (s.copy n src) := if_pos ⟨new, folder⟩
  have destroyed : system.step (s.copy n src) (.destroy n) = some ((s.copy n src).delete n) :=
    if_pos root
  refine ⟨(s.copy n src).delete n, ?_, fun owned => ?_⟩
  · rw [System.runFrom_cons, copied, Option.bind_some, System.runFrom_cons, destroyed]
    rfl
  · have still : c ∈ ((s.copy n src).delete n).kids src := by
      show c ∈ (s.copy n src).kids src
      rw [kids_copy, Function.update_of_ne ne]
      exact listed
    have child : c ∈ (s.copy n src).kids n := by
      rw [kids_copy, Function.update_self]
      exact listed
    exact owned.listed src c (source_alive kept new folder) still
      (Estate.mem_deleted_of_kids root.1 child)

/-- A folder with a file in it, a copy of the folder, and both destroyed. -/
def copied : List Op :=
  [.newFolder 0 (ascii "docs"), .newFile 1 (ascii "a.txt"), .addFile 0 1, .copyFolder 2 0,
    .destroy 2, .destroy 0]

/-- The file is deleted with the copy and once more with the folder. -/
theorem not_owned_copied : ¬ ∀ tr s, system.run tr = some s → Owned s := by
  intro owned
  have deletions : (system.run copied).map (·.estate.deleted) = some [1, 2, 1, 0] := by decide
  obtain ⟨s, run, deleted⟩ := Option.map_eq_some_iff.mp deletions
  have once := (owned copied s run).once
  rw [deleted] at once
  exact absurd once (by decide)

end CppLab.Patterns.FolderOwnership
