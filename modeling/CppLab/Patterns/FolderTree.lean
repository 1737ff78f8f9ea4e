import CppLab.Patterns.Composite

/-!
# Counting and listing a folder tree

The example has folders twice. In the first version a folder has one list of files and
one of subfolders, and its functions go down the second list. In the second version it
has one list of children, and its functions go down to those for which `isComposite`
returns true: no class overrides it, so they go down to none.

* `size_eq_length`, `mem_getFilesRecursive`, `mem_getSubFoldersRecursive` and
  `places_perm` are about the first version;
* `size_folder` and `getChildrensRecursive_folder` are about the second;
* `countingAgrees_iff` says for which trees the two agree.
-/

namespace CppLab.Patterns.FolderTree

open Composite (Kind)
open Composite.State (toInt)

/-- `problem::Folder`: its address, and what it lists. A file is its address. -/
inductive Folder (α : Type*)
  | mk (self : α) (files : List α) (subFolders : List (Folder α))

/-- `composite_pattern::FileSystem`, with the classes derived from it. -/
inductive FileSystem (α : Type*)
  | file (self : α)
  | zipFile (self : α)
  | shortCut (self : α)
  | folder (self : α) (children : List (FileSystem α))

variable {α : Type*}

/-! ## The first version -/

namespace Folder

def self : Folder α → α
  | .mk self _ _ => self

mutual

/-- `Folder::size()`. -/
def size : Folder α → Int
  | .mk _ files subFolders => sizeLoop subFolders (toInt files.length)

/-- The loop of `size()`. -/
def sizeLoop : List (Folder α) → Int → Int
  | [], total => total
  | sf :: rest, total => sizeLoop rest (toInt (total + sf.size))

end

mutual

/-- `Folder::getFilesRecursive(out)`: the list after the call. -/
def getFilesRecursive : Folder α → List α → List α
  | .mk _ files subFolders, out => filesLoop subFolders (out ++ files)

def filesLoop : List (Folder α) → List α → List α
  | [], out => out
  | sf :: rest, out => filesLoop rest (sf.getFilesRecursive out)

end

mutual

/-- `Folder::getSubFoldersRecursive(out)`: all subfolders first, then what is in them. -/
def getSubFoldersRecursive : Folder α → List α → List α
  | .mk _ _ subFolders, out => foldersLoop subFolders (out ++ subFolders.map self)

def foldersLoop : List (Folder α) → List α → List α
  | [], out => out
  | sf :: rest, out => foldersLoop rest (sf.getSubFoldersRecursive out)

end

/-- The file is somewhere in the folder. -/
inductive HasFile (n : α) : Folder α → Prop
  | own {self : α} {files : List α} {subFolders : List (Folder α)} (listed : n ∈ files) :
      HasFile n (.mk self files subFolders)
  | deeper {self : α} {files : List α} {subFolders : List (Folder α)} {sf : Folder α}
      (listed : sf ∈ subFolders) (inside : HasFile n sf) : HasFile n (.mk self files subFolders)

/-- The folder is somewhere in the folder. -/
inductive HasFolder (n : α) : Folder α → Prop
  | own {self : α} {files : List α} {subFolders : List (Folder α)} {sf : Folder α}
      (listed : sf ∈ subFolders) (this : sf.self = n) : HasFolder n (.mk self files subFolders)
  | deeper {self : α} {files : List α} {subFolders : List (Folder α)} {sf : Folder α}
      (listed : sf ∈ subFolders) (inside : HasFolder n sf) :
      HasFolder n (.mk self files subFolders)

end Folder

/-! ## The second version -/

namespace FileSystem

def self : FileSystem α → α
  | .file self | .zipFile self | .shortCut self | .folder self _ => self

def kind : FileSystem α → Kind
  | .file _ => .file
  | .zipFile _ => .zipFile
  | .shortCut _ => .shortCut
  | .folder _ _ => .folder

def isComposite (fs : FileSystem α) : Bool := fs.kind.isComposite

mutual

/-- `FileSystem::size()`, which `Folder` overrides. -/
def size : FileSystem α → Int
  | .folder _ children => sizeLoop children (toInt children.length)
  | .file _ | .zipFile _ | .shortCut _ => 1

def sizeLoop : List (FileSystem α) → Int → Int
  | [], total => total
  | fs :: rest, total =>
      sizeLoop rest (if fs.isComposite then toInt (total + fs.size) else total)

end

mutual

/-- `Folder::getChildrensRecursive(out)`, a function of folders only. -/
def getChildrensRecursive : FileSystem α → List α → List α
  | .folder _ children, out => childrenLoop children out
  | .file _, out | .zipFile _, out | .shortCut _, out => out

def childrenLoop : List (FileSystem α) → List α → List α
  | [], out => out
  | fs :: rest, out =>
      childrenLoop rest
        (if fs.isComposite then fs.getChildrensRecursive out else out ++ [fs.self])

end

/-- `d` is a proper descendant. -/
inductive Descends (d : FileSystem α) : FileSystem α → Prop
  | child {self : α} {children : List (FileSystem α)} (listed : d ∈ children) :
      Descends d (.folder self children)
  | deeper {self : α} {children : List (FileSystem α)} {fs : FileSystem α}
      (listed : fs ∈ children) (inside : Descends d fs) : Descends d (.folder self children)

/-- The addresses of the proper descendants. -/
def descendants (c : FileSystem α) : Set α := {n | ∃ d : FileSystem α, d.Descends c ∧ d.self = n}

/-- The addresses of the descendant folders. -/
def descendantFolders (c : FileSystem α) : Set α :=
  {n | ∃ d : FileSystem α, d.Descends c ∧ d.kind = .folder ∧ d.self = n}

mutual

/-- The descendants, one entry for each place in the tree. -/
def places : FileSystem α → List α
  | .folder _ children => placesAll children
  | .file _ | .zipFile _ | .shortCut _ => []

def placesAll : List (FileSystem α) → List α
  | [] => []
  | fs :: rest => fs.self :: fs.places ++ placesAll rest

end

mutual

/-- The same tree in the first version, when it is a folder. -/
def toFolder : FileSystem α → Option (Folder α)
  | .folder self children =>
      some (.mk self ((children.filter (·.kind ≠ .folder)).map FileSystem.self)
        (foldersOf children))
  | .file _ | .zipFile _ | .shortCut _ => none

def foldersOf : List (FileSystem α) → List (Folder α)
  | [] => []
  | fs :: rest => fs.toFolder.toList ++ foldersOf rest

end

end FileSystem

/-- Counting agrees with listing, on one tree in both versions. -/
structure CountingAgrees (p : Folder α) (c : FileSystem α) : Prop where
  size : p.size = (p.getFilesRecursive []).length
  files : (p.getFilesRecursive []).Nodup ∧ ∀ n, n ∈ p.getFilesRecursive [] ↔ Folder.HasFile n p
  folders : (p.getSubFoldersRecursive []).Nodup ∧
    ∀ n, n ∈ p.getSubFoldersRecursive [] ↔ Folder.HasFolder n p
  descendants : c.size = c.descendants.ncard
  children : c.descendants.ncard =
    (c.getChildrensRecursive []).length + c.descendantFolders.ncard
  versions : c.size = p.size + (p.getSubFoldersRecursive []).length

/-! ## Induction -/

/-- A folder after its subfolders. -/
theorem Folder.induction {P : Folder α → Prop}
    (mk : ∀ self files subFolders, (∀ sf ∈ subFolders, P sf) → P (.mk self files subFolders))
    (p : Folder α) : P p := by
  refine @Folder.rec α P (fun subFolders => ∀ sf ∈ subFolders, P sf) mk ?_ ?_ p
  · exact fun _ member => absurd member List.not_mem_nil
  · intro head tail first rest sf member
    rcases List.mem_cons.mp member with rfl | later
    · exact first
    · exact rest sf later

/-- A folder after its children. -/
theorem FileSystem.induction {P : FileSystem α → Prop}
    (leaf : ∀ fs, fs.kind ≠ .folder → P fs)
    (folder : ∀ self children, (∀ fs ∈ children, P fs) → P (.folder self children))
    (c : FileSystem α) : P c := by
  refine @FileSystem.rec α P (fun children => ∀ fs ∈ children, P fs) ?_ ?_ ?_ folder ?_ ?_ c
  · exact fun self => leaf (.file self) nofun
  · exact fun self => leaf (.zipFile self) nofun
  · exact fun self => leaf (.shortCut self) nofun
  · exact fun _ member => absurd member List.not_mem_nil
  · intro head tail first rest fs member
    rcases List.mem_cons.mp member with rfl | later
    · exact first
    · exact rest fs later

/-! ## The first version -/

/-- Wrapping around may wait for the last addition. -/
theorem toInt_add_toInt (x y : Int) : toInt (toInt x + toInt y) = toInt (x + y) :=
  (Int.add_bmod x y (2 ^ 32)).symm

/-- Visits that only append, one after another. -/
theorem foldl_eq_append {visit : Folder α → List α → List α} {l : List (Folder α)}
    (each : ∀ sf ∈ l, ∀ out, visit sf out = out ++ visit sf []) (out : List α) :
    l.foldl (fun out sf => visit sf out) out = out ++ l.flatMap (visit · []) := by
  induction l generalizing out with
  | nil => exact (List.append_nil out).symm
  | cons sf rest ih =>
      have later := ih fun s member => each s (List.mem_cons_of_mem sf member)
      rw [List.foldl_cons, later, each sf List.mem_cons_self, List.flatMap_cons,
        List.append_assoc]

namespace Folder

theorem filesLoop_eq (l : List (Folder α)) (out : List α) :
    filesLoop l out = l.foldl (fun out sf => sf.getFilesRecursive out) out := by
  induction l generalizing out with
  | nil => rfl
  | cons sf rest ih => exact ih _

theorem foldersLoop_eq (l : List (Folder α)) (out : List α) :
    foldersLoop l out = l.foldl (fun out sf => sf.getSubFoldersRecursive out) out := by
  induction l generalizing out with
  | nil => rfl
  | cons sf rest ih => exact ih _

theorem getFilesRecursive_append (p : Folder α) (out : List α) :
    p.getFilesRecursive out = out ++ p.getFilesRecursive [] := by
  induction p using Folder.induction generalizing out with
  | mk self files subFolders ih =>
      rw [getFilesRecursive, getFilesRecursive, filesLoop_eq, filesLoop_eq,
        foldl_eq_append ih, foldl_eq_append ih, List.nil_append, List.append_assoc]

theorem getSubFoldersRecursive_append (p : Folder α) (out : List α) :
    p.getSubFoldersRecursive out = out ++ p.getSubFoldersRecursive [] := by
  induction p using Folder.induction generalizing out with
  | mk self files subFolders ih =>
      rw [getSubFoldersRecursive, getSubFoldersRecursive, foldersLoop_eq, foldersLoop_eq,
        foldl_eq_append ih, foldl_eq_append ih, List.nil_append, List.append_assoc]

/-- The own files, then those of each subfolder. -/
theorem getFilesRecursive_mk (self : α) (files : List α) (subFolders : List (Folder α)) :
    (mk self files subFolders).getFilesRecursive [] =
      files ++ subFolders.flatMap fun sf => sf.getFilesRecursive [] := by
  rw [getFilesRecursive, filesLoop_eq, foldl_eq_append fun sf _ => sf.getFilesRecursive_append,
    List.nil_append]

/-- The own subfolders, then those of each of them. -/
theorem getSubFoldersRecursive_mk (self : α) (files : List α) (subFolders : List (Folder α)) :
    (mk self files subFolders).getSubFoldersRecursive [] =
      subFolders.map Folder.self ++ subFolders.flatMap fun sf => sf.getSubFoldersRecursive [] := by
  rw [getSubFoldersRecursive, foldersLoop_eq,
    foldl_eq_append fun sf _ => sf.getSubFoldersRecursive_append, List.nil_append]

/-- `size()` counts what `getFilesRecursive` lists. -/
theorem size_eq_length (p : Folder α) : p.size = toInt (p.getFilesRecursive []).length := by
  induction p using Folder.induction with
  | mk self files subFolders ih =>
      have loop : ∀ (l : List (Folder α)) (total : Int), (∀ sf ∈ l, sf ∈ subFolders) →
          sizeLoop l (toInt total) =
            toInt (total + (l.flatMap fun sf => sf.getFilesRecursive []).length) := by
        intro l
        induction l with
        | nil => exact fun total _ => by rw [sizeLoop]; simp
        | cons sf rest ihl =>
            intro total listed
            rw [sizeLoop, ih sf (listed sf List.mem_cons_self), toInt_add_toInt,
              ihl _ fun s member => listed s (List.mem_cons_of_mem sf member),
              List.flatMap_cons, List.length_append, Nat.cast_add, Int.add_assoc]
      rw [size, loop subFolders _ fun _ member => member, getFilesRecursive_mk,
        List.length_append, Nat.cast_add]

theorem mem_getFilesRecursive (p : Folder α) (n : α) :
    n ∈ p.getFilesRecursive [] ↔ HasFile n p := by
  induction p using Folder.induction with
  | mk self files subFolders ih =>
      rw [getFilesRecursive_mk, List.mem_append, List.mem_flatMap]
      constructor
      · rintro (own | ⟨sf, listed, inside⟩)
        · exact .own own
        · exact .deeper listed ((ih sf listed).mp inside)
      · intro has
        cases has with
        | own own => exact .inl own
        | deeper listed inside => exact .inr ⟨_, listed, (ih _ listed).mpr inside⟩

theorem mem_getSubFoldersRecursive (p : Folder α) (n : α) :
    n ∈ p.getSubFoldersRecursive [] ↔ HasFolder n p := by
  induction p using Folder.induction with
  | mk self files subFolders ih =>
      rw [getSubFoldersRecursive_mk, List.mem_append, List.mem_map, List.mem_flatMap]
      constructor
      · rintro (⟨sf, listed, this⟩ | ⟨sf, listed, inside⟩)
        · exact .own listed this
        · exact .deeper listed ((ih sf listed).mp inside)
      · intro has
        cases has with
        | own listed this => exact .inl ⟨_, listed, this⟩
        | deeper listed inside => exact .inr ⟨_, listed, (ih _ listed).mpr inside⟩

end Folder

/-! ## The second version -/

namespace FileSystem

theorem not_isComposite (fs : FileSystem α) : fs.isComposite = false := by
  unfold isComposite
  cases fs.kind with
  | file => rfl
  | zipFile => rfl
  | shortCut => rfl
  | folder => rfl

/-- `size()` of a folder counts its own children. -/
theorem size_folder (self : α) (children : List (FileSystem α)) :
    (folder self children).size = toInt children.length := by
  have loop : ∀ (l : List (FileSystem α)) (total : Int), sizeLoop l total = total := by
    intro l
    induction l with
    | nil => exact fun _ => rfl
    | cons fs rest ih =>
        intro total
        rw [sizeLoop, fs.not_isComposite, ih]
        rfl
  rw [size, loop]

/-- `getChildrensRecursive` lists the own children. -/
theorem getChildrensRecursive_folder (self : α) (children : List (FileSystem α)) :
    (folder self children).getChildrensRecursive [] = children.map FileSystem.self := by
  have loop : ∀ (l : List (FileSystem α)) (out : List α),
      childrenLoop l out = out ++ l.map FileSystem.self := by
    intro l
    induction l with
    | nil => exact fun out => (List.append_nil out).symm
    | cons fs rest ih =>
        intro out
        rw [childrenLoop, fs.not_isComposite, ih]
        simp
  rw [getChildrensRecursive, loop, List.nil_append]

/-- The tree is the one that the nodes in memory form. -/
inductive InMemory (kind : α → Kind) (s : Composite.State α) : FileSystem α → Prop
  | leaf {fs : FileSystem α} (no : fs.kind ≠ .folder) (here : kind fs.self = fs.kind) :
      InMemory kind s fs
  | folder {self : α} {children : List (FileSystem α)} (here : kind self = .folder)
      (listed : s.children self = children.map FileSystem.self)
      (each : ∀ fs ∈ children, InMemory kind s fs) : InMemory kind s (folder self children)

/-- `size()` on the nodes in memory. -/
theorem size_inMemory {kind : α → Kind} {s : Composite.State α} {c : FileSystem α}
    (shown : InMemory kind s c) (fuel : Nat) : s.size kind (fuel + 1) c.self = some c.size := by
  rw [Composite.size_eq]
  cases shown with
  | @folder self children here listed each =>
      rw [size_folder]
      show some (if kind self = .folder then toInt (s.children self).length else 1) = _
      rw [if_pos here, listed, List.length_map]
  | leaf no here =>
      rw [here, if_neg no]
      cases c with
      | file self => rfl
      | zipFile self => rfl
      | shortCut self => rfl
      | folder self children => exact absurd rfl no

/-! ## Descendants -/

theorem placesAll_eq (l : List (FileSystem α)) :
    placesAll l = l.flatMap fun fs => fs.self :: fs.places := by
  induction l with
  | nil => rfl
  | cons fs rest ih => rw [placesAll, ih, List.flatMap_cons]

theorem foldersOf_eq (l : List (FileSystem α)) : foldersOf l = l.filterMap toFolder := by
  induction l with
  | nil => rfl
  | cons fs rest ih =>
      rw [foldersOf, ih]
      cases h : fs.toFolder with
      | none => rw [List.filterMap_cons_none h]; rfl
      | some q => rw [List.filterMap_cons_some h]; rfl

/-- A leaf has nothing below it, and is no folder in the first version either. -/
theorem leaf_of_kind {fs : FileSystem α} (leaf : fs.kind ≠ .folder) :
    fs.places = [] ∧ fs.toFolder = none ∧ ∀ d : FileSystem α, ¬ d.Descends fs := by
  cases fs with
  | file self => exact ⟨rfl, rfl, nofun⟩
  | zipFile self => exact ⟨rfl, rfl, nofun⟩
  | shortCut self => exact ⟨rfl, rfl, nofun⟩
  | folder self children => exact absurd rfl leaf

theorem exists_toFolder {fs : FileSystem α} (kind : fs.kind = .folder) :
    ∃ q, fs.toFolder = some q ∧ q.self = fs.self := by
  cases fs with
  | file self => cases kind
  | zipFile self => cases kind
  | shortCut self => cases kind
  | folder self children => exact ⟨_, rfl, rfl⟩

/-- One level down. -/
theorem descends_folder {d : FileSystem α} {self : α} {children : List (FileSystem α)} :
    d.Descends (folder self children) ↔ ∃ fs ∈ children, d = fs ∨ d.Descends fs := by
  constructor
  · intro descends
    cases descends with
    | child listed => exact ⟨d, listed, .inl rfl⟩
    | deeper listed inside => exact ⟨_, listed, .inr inside⟩
  · rintro ⟨fs, listed, rfl | inside⟩
    · exact .child listed
    · exact .deeper listed inside

theorem mem_places (c : FileSystem α) (n : α) : n ∈ c.places ↔ n ∈ c.descendants := by
  induction c using FileSystem.induction with
  | leaf fs leaf =>
      obtain ⟨empty, -, nothing⟩ := leaf_of_kind leaf
      rw [empty]
      exact iff_of_false List.not_mem_nil fun ⟨d, descends, _⟩ => nothing d descends
  | folder self children ih =>
      rw [places, placesAll_eq, List.mem_flatMap]
      constructor
      · rintro ⟨fs, listed, here⟩
        rcases List.mem_cons.mp here with rfl | inside
        · exact ⟨fs, .child listed, rfl⟩
        · obtain ⟨d, descends, this⟩ := (ih fs listed).mp inside
          exact ⟨d, .deeper listed descends, this⟩
      · rintro ⟨d, descends, rfl⟩
        obtain ⟨fs, listed, rfl | inside⟩ := descends_folder.mp descends
        · exact ⟨d, listed, List.mem_cons_self⟩
        · exact ⟨fs, listed, List.mem_cons_of_mem _ ((ih fs listed).mpr ⟨d, inside, rfl⟩)⟩

/-- The number of descendants, when no two of them have one address. -/
theorem ncard_descendants {c : FileSystem α} (distinct : c.places.Nodup) :
    c.descendants.ncard = c.places.length := by
  classical
  have same : c.descendants = ↑c.places.toFinset := by
    ext n
    rw [List.coe_toFinset]
    exact (c.mem_places n).symm
  rw [same, Set.ncard_coe_finset, List.toFinset_card_of_nodup distinct]

/-- Every descendant is in one of the two lists of the first version. -/
theorem places_perm {c : FileSystem α} {p : Folder α} (same : c.toFolder = some p) :
    c.places.Perm (p.getSubFoldersRecursive [] ++ p.getFilesRecursive []) := by
  classical
  refine List.perm_iff_count.mpr fun n => ?_
  rw [List.count_append]
  induction c using FileSystem.induction generalizing p with
  | leaf fs leaf =>
      rw [(leaf_of_kind leaf).2.1] at same
      cases same
  | folder self children ih =>
      cases same
      rw [places, placesAll_eq, Folder.getSubFoldersRecursive_mk, Folder.getFilesRecursive_mk,
        foldersOf_eq]
      induction children with
      | nil => rfl
      | cons fs rest ihr =>
          have later := ihr fun d member => ih d (List.mem_cons_of_mem fs member)
          by_cases kind : fs.kind = .folder
          · obtain ⟨q, this, address⟩ := exists_toFolder kind
            have here := ih fs List.mem_cons_self this
            have skipped : (fs :: rest).filter (·.kind ≠ .folder) =
                rest.filter (·.kind ≠ .folder) := List.filter_cons_of_neg (by simp [kind])
            rw [skipped]
            simp only [List.flatMap_cons, List.filterMap_cons_some this, List.map_cons,
              List.count_append, List.count_cons, List.cons_append, address] at later ⊢
            omega
          · obtain ⟨empty, this, -⟩ := leaf_of_kind kind
            have kept : (fs :: rest).filter (·.kind ≠ .folder) =
                fs :: rest.filter (·.kind ≠ .folder) := List.filter_cons_of_pos (by simp [kind])
            rw [kept]
            simp only [List.flatMap_cons, List.filterMap_cons_none this, List.map_cons,
              List.count_append, List.count_cons, List.cons_append, empty, List.nil_append]
              at later ⊢
            omega

/-- The folders below are those that the first version lists. -/
theorem mem_descendantFolders {c : FileSystem α} {p : Folder α} (same : c.toFolder = some p)
    (n : α) : n ∈ c.descendantFolders ↔ n ∈ p.getSubFoldersRecursive [] := by
  induction c using FileSystem.induction generalizing p with
  | leaf fs leaf =>
      rw [(leaf_of_kind leaf).2.1] at same
      cases same
  | folder self children ih =>
      cases same
      rw [Folder.getSubFoldersRecursive_mk, List.mem_append, List.mem_map, List.mem_flatMap,
        foldersOf_eq]
      constructor
      · rintro ⟨d, descends, kind, rfl⟩
        obtain ⟨fs, listed, rfl | inside⟩ := descends_folder.mp descends
        · obtain ⟨q, this, address⟩ := exists_toFolder kind
          exact .inl ⟨q, List.mem_filterMap.mpr ⟨d, listed, this⟩, address⟩
        · by_cases above : fs.kind = .folder
          · obtain ⟨q, this, -⟩ := exists_toFolder above
            exact .inr ⟨q, List.mem_filterMap.mpr ⟨fs, listed, this⟩,
              (ih fs listed this).mp ⟨d, inside, kind, rfl⟩⟩
          · exact absurd inside ((leaf_of_kind above).2.2 d)
      · rintro (⟨q, member, rfl⟩ | ⟨q, member, inside⟩)
        · obtain ⟨fs, listed, this⟩ := List.mem_filterMap.mp member
          by_cases kind : fs.kind = .folder
          · obtain ⟨q', this', address⟩ := exists_toFolder kind
            rw [this] at this'
            cases this'
            exact ⟨fs, .child listed, kind, address.symm⟩
          · rw [(leaf_of_kind kind).2.1] at this
            cases this
        · obtain ⟨fs, listed, this⟩ := List.mem_filterMap.mp member
          obtain ⟨d, descends, kind, address⟩ := (ih fs listed this).mpr inside
          exact ⟨d, .deeper listed descends, kind, address⟩

end FileSystem

/-! ## Both versions -/

theorem toInt_natCast {n : Nat} (fits : n < 2 ^ 31) : toInt n = n := by
  unfold toInt
  exact Int.bmod_eq_of_le (by omega) (by omega)

theorem length_le_places (self : α) (children : List (FileSystem α)) :
    children.length ≤ (FileSystem.folder self children).places.length := by
  rw [FileSystem.places, FileSystem.placesAll_eq]
  induction children with
  | nil => exact Nat.le_refl 0
  | cons fs rest ih =>
      simp only [List.flatMap_cons, List.length_append, List.length_cons] at ih ⊢
      omega

/-- Every tree of the first version is one of the second. -/
theorem exists_fileSystem (p : Folder α) : ∃ c : FileSystem α, c.toFolder = some p := by
  induction p using Folder.induction with
  | mk self files subFolders ih =>
      have list : ∀ l : List (Folder α), (∀ sf ∈ l, sf ∈ subFolders) →
          ∃ children : List (FileSystem α), children.filterMap FileSystem.toFolder = l ∧
            children.filter (·.kind ≠ .folder) = [] := by
        intro l
        induction l with
        | nil => exact fun _ => ⟨[], rfl, rfl⟩
        | cons sf rest ihl =>
            intro listed
            obtain ⟨c, here⟩ := ih sf (listed sf List.mem_cons_self)
            obtain ⟨children, later, none⟩ := ihl fun s member =>
              listed s (List.mem_cons_of_mem sf member)
            refine ⟨c :: children, by rw [List.filterMap_cons_some here, later], ?_⟩
            have kind : c.kind = .folder := by
              by_contra leaf
              rw [(FileSystem.leaf_of_kind leaf).2.1] at here
              cases here
            rw [List.filter_cons_of_neg (by simp [kind]), none]
      obtain ⟨children, folders, none⟩ := list subFolders fun _ member => member
      refine ⟨.folder self (files.map .file ++ children), ?_⟩
      have leaves : (files.map FileSystem.file).filter (·.kind ≠ .folder) = files.map .file :=
        List.filter_eq_self.mpr fun fs member => by
          obtain ⟨n, -, rfl⟩ := List.mem_map.mp member
          rfl
      have noFolders : (files.map FileSystem.file).filterMap FileSystem.toFolder = [] :=
        List.filterMap_eq_nil_iff.mpr fun fs member => by
          obtain ⟨n, -, rfl⟩ := List.mem_map.mp member
          rfl
      have addresses : (files.map FileSystem.file).map FileSystem.self = files := by
        rw [List.map_map]
        exact List.map_id _
      rw [FileSystem.toFolder, FileSystem.foldersOf_eq, List.filter_append,
        List.filterMap_append, leaves, noFolders, none, folders, List.append_nil, addresses,
        List.nil_append]

section

variable {p : Folder α} {c : FileSystem α} (same : c.toFolder = some p)

include same

theorem length_places : c.places.length =
    (p.getSubFoldersRecursive []).length + (p.getFilesRecursive []).length := by
  rw [(FileSystem.places_perm same).length_eq, List.length_append]

/-- The number of descendant folders. -/
theorem ncard_descendantFolders (distinct : c.places.Nodup) :
    c.descendantFolders.ncard = (p.getSubFoldersRecursive []).length := by
  classical
  have once := ((FileSystem.places_perm same).nodup_iff.mp distinct).of_append_left
  have set : c.descendantFolders = ↑(p.getSubFoldersRecursive []).toFinset := by
    ext n
    rw [List.coe_toFinset]
    exact FileSystem.mem_descendantFolders same n
  rw [set, Set.ncard_coe_finset, List.toFinset_card_of_nodup once]

/-- **Counting.** On a tree whose nodes have their own addresses, and whose counts are
within `int`, counting agrees with listing precisely when there is no folder in the folder. -/
theorem countingAgrees_iff (distinct : c.places.Nodup) (fits : c.descendants.ncard < 2 ^ 31) :
    CountingAgrees p c ↔ ∀ d : FileSystem α, d.Descends c → d.kind ≠ .folder := by
  obtain ⟨self, children, rfl⟩ : ∃ self children, c = .folder self children := by
    cases c with
    | folder self children => exact ⟨self, children, rfl⟩
    | file self => cases same
    | zipFile self => cases same
    | shortCut self => cases same
  have folders := ncard_descendantFolders same distinct
  have all := length_places same
  have total := FileSystem.ncard_descendants distinct
  rw [total] at fits
  have own := length_le_places self children
  have size : (FileSystem.folder self children).size = children.length := by
    rw [FileSystem.size_folder, toInt_natCast (by omega)]
  have listed : ((FileSystem.folder self children).getChildrensRecursive []).length =
      children.length := by
    rw [FileSystem.getChildrensRecursive_folder, List.length_map]
  constructor
  · -- the count is that of the children, so there is nothing left for the folders
    intro agrees d descends kind
    have counted := agrees.descendants
    have split := agrees.children
    have member : d.self ∈ p.getSubFoldersRecursive [] :=
      (FileSystem.mem_descendantFolders same d.self).mp ⟨d, descends, kind, rfl⟩
    have nonempty := List.length_pos_of_mem member
    omega
  · intro flat
    have noFolder : p.getSubFoldersRecursive [] = [] := by
      refine List.eq_nil_iff_forall_not_mem.mpr fun n member => ?_
      obtain ⟨d, descends, kind, -⟩ := (FileSystem.mem_descendantFolders same n).mpr member
      exact flat d descends kind
    have zero : (p.getSubFoldersRecursive []).length = 0 := by rw [noFolder]; rfl
    have leaves : (FileSystem.folder self children).places.length = children.length := by
      rw [FileSystem.places, FileSystem.placesAll_eq, List.length_flatMap]
      have single : ∀ fs ∈ children, (fs.self :: fs.places).length = 1 := fun fs here => by
        rw [(FileSystem.leaf_of_kind (flat fs (.child here))).1]
        rfl
      rw [List.map_congr_left single, List.map_const', List.sum_replicate, smul_eq_mul, mul_one]
    obtain ⟨onceFolders, onceFiles, -⟩ :=
      List.nodup_append.mp ((FileSystem.places_perm same).nodup_iff.mp distinct)
    have files : p.size = (p.getFilesRecursive []).length := by
      rw [p.size_eq_length, toInt_natCast (by omega)]
    exact ⟨files, ⟨onceFiles, p.mem_getFilesRecursive⟩, ⟨onceFolders, p.mem_getSubFoldersRecursive⟩,
      by omega, by omega, by omega⟩

end

/-- A file in a folder in the root. -/
def nested : FileSystem Nat := .folder 0 [.folder 1 [.file 2]]

/-- The root of `nested` has two descendants, and its `size()` is one. -/
theorem not_countingAgrees_nested : ¬ ∀ (p : Folder Nat) (c : FileSystem Nat),
    c.toFolder = some p → c.places.Nodup → c.descendants.ncard < 2 ^ 31 → CountingAgrees p c := by
  intro agree
  have distinct : nested.places.Nodup := by decide
  have fits : nested.descendants.ncard < 2 ^ 31 := by
    rw [FileSystem.ncard_descendants distinct]
    decide
  have agrees := agree (.mk 0 [] [.mk 1 [2] []]) nested rfl distinct fits
  exact absurd agrees.versions (by decide)

/-- A folder with two files in it. -/
def desk : FileSystem Nat := .folder 0 [.file 1, .zipFile 2]

theorem countingAgrees_desk : CountingAgrees (.mk 0 [1, 2] []) desk := by
  have distinct : desk.places.Nodup := by decide
  have fits : desk.descendants.ncard < 2 ^ 31 := by
    rw [FileSystem.ncard_descendants distinct]
    decide
  refine (countingAgrees_iff rfl distinct fits).mpr fun d descends => ?_
  obtain ⟨fs, listed, below⟩ := FileSystem.descends_folder.mp descends
  have leaf : fs.kind ≠ .folder := by
    simp only [List.mem_cons, List.not_mem_nil, or_false] at listed
    rcases listed with rfl | rfl
    · exact nofun
    · exact nofun
  rcases below with rfl | deeper
  · exact leaf
  · exact absurd deeper ((FileSystem.leaf_of_kind leaf).2.2 d)

end CppLab.Patterns.FolderTree
