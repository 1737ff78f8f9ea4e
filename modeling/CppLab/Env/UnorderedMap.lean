import CppLab.Env.StdString

/-!
# `std::unordered_map` keyed by strings, and `std::sort` on strings

A map is its entries in the order in which their keys were first inserted, one
entry per key. The order in which a loop visits them is up to the library and
may depend on that history: it is an `Iteration`, a rearrangement of the
history that the standard says nothing more about.
-/

namespace CppLab

/-- A map from strings, one entry per key, oldest first. -/
structure UnorderedMap (V : Type*) where
  entries : List (Bytes × V)
  nodup : (entries.map Prod.fst).Nodup

/-- The order in which the library visits the keys of a map that got them in a
given order. -/
structure Iteration where
  order : List Bytes → List Bytes
  perm : ∀ keys, (order keys).Perm keys

/-- A library that visits the keys in the order of their insertion. -/
def Iteration.history : Iteration := ⟨id, fun _ => .refl _⟩

namespace UnorderedMap

variable {V : Type*}

/-- A map without entries. -/
def empty : UnorderedMap V := ⟨[], List.nodup_nil⟩

/-- The keys, oldest first. -/
def keys (m : UnorderedMap V) : List Bytes := m.entries.map Prod.fst

/-- `m.find(k)`, or `m.at(k)` with `none` where it throws. -/
def find? (m : UnorderedMap V) (k : Bytes) : Option V := m.entries.lookup k

/-- The entries after `m[k] = v`. -/
def assign (k : Bytes) (v : V) : List (Bytes × V) → List (Bytes × V)
  | [] => [(k, v)]
  | e :: es => if e.1 = k then (k, v) :: es else e :: assign k v es

theorem keys_assign (k : Bytes) (v : V) (es : List (Bytes × V)) :
    (assign k v es).map Prod.fst =
      if k ∈ es.map Prod.fst then es.map Prod.fst else es.map Prod.fst ++ [k] := by
  induction es with
  | nil => rfl
  | cons e es ih =>
      by_cases same : e.1 = k
      · simp [assign, same]
      · have other : ¬ k = e.1 := fun h => same h.symm
        simp only [assign, if_neg same, List.map_cons, ih, List.mem_cons, other, false_or]
        split
        · rfl
        · rfl

/-- `m[k] = v`: an entry that exists is overwritten where it is. -/
def set (m : UnorderedMap V) (k : Bytes) (v : V) : UnorderedMap V where
  entries := assign k v m.entries
  nodup := by
    rw [keys_assign]
    split
    · exact m.nodup
    · rename_i fresh
      refine List.nodup_append.mpr ⟨m.nodup, List.nodup_singleton k, ?_⟩
      rintro a ha b hb rfl
      exact fresh (List.mem_singleton.mp hb ▸ ha)

@[simp] theorem find?_empty (k : Bytes) : (empty : UnorderedMap V).find? k = none := rfl

theorem lookup_cons (k key : Bytes) (value : V) (es : List (Bytes × V)) :
    ((key, value) :: es).lookup k = if k = key then some value else es.lookup k := by
  by_cases same : k = key
  · rw [if_pos same, same, List.lookup_cons_self]
  · rw [if_neg same, List.lookup_cons, beq_false_of_ne same]

theorem lookup_assign (k : Bytes) (v : V) (es : List (Bytes × V)) (l : Bytes) :
    (assign k v es).lookup l = if l = k then some v else es.lookup l := by
  induction es with
  | nil => exact lookup_cons l k v []
  | cons e es ih =>
      obtain ⟨key, value⟩ := e
      by_cases here : key = k
      · subst here
        simp only [assign, if_pos, lookup_cons]
        split
        · rfl
        · rfl
      · simp only [assign, if_neg here, lookup_cons, ih]
        by_cases same : l = k
        · have other : ¬ l = key := fun h => here (h.symm.trans same)
          simp only [if_neg other, if_pos same]
        · simp only [if_neg same]

theorem find?_set (m : UnorderedMap V) (k : Bytes) (v : V) (l : Bytes) :
    (m.set k v).find? l = if l = k then some v else m.find? l :=
  lookup_assign k v m.entries l

theorem keys_set (m : UnorderedMap V) (k : Bytes) (v : V) :
    (m.set k v).keys = if k ∈ m.keys then m.keys else m.keys ++ [k] :=
  keys_assign k v m.entries

theorem mem_keys_iff (m : UnorderedMap V) (k : Bytes) :
    k ∈ m.keys ↔ ∃ v, m.find? k = some v := by
  unfold keys find?
  induction m.entries with
  | nil => simp
  | cons e es ih =>
      obtain ⟨key, value⟩ := e
      by_cases same : k = key
      · simp [same]
      · simp [lookup_cons, same, ih]

end UnorderedMap

/-! ## Sorting -/

instance : Std.Total (α := Bytes) (· ≤ ·) := ⟨List.le_total⟩

/-- `std::sort` on strings: bytes are compared as unsigned. -/
def sort (names : List Bytes) : List Bytes := names.insertionSort (· ≤ ·)

theorem sort_perm (names : List Bytes) : (sort names).Perm names := names.perm_insertionSort _

/-- The sorted list does not depend on the order of the input. -/
theorem sort_congr {as bs : List Bytes} (perm : as.Perm bs) : sort as = sort bs := by
  have sameKeys : (sort as).Perm (sort bs) :=
    (sort_perm as).trans (perm.trans (sort_perm bs).symm)
  exact sameKeys.eq_of_pairwise (fun a b _ _ ab ba => List.le_antisymm ab ba)
    (as.pairwise_insertionSort _) (bs.pairwise_insertionSort _)

end CppLab
