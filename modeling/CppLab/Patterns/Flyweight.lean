import CppLab.Env.UnorderedMap

/-!
# `ImageFlyweightFactory`

The pool is keyed by the file name followed by the decimal digits of the
product of the three dimensions. A call finds the image of the first call that
had its key, so a factory hands out the right images precisely when no two
different requests share a key.
-/

namespace CppLab.Patterns.Flyweight

/-- `std::to_string` of an `int`. -/
def toDecimal (x : Int) : Bytes := ascii (toString x)

/-- The fields of an image that are shared. -/
structure ImageFlyweight where
  fileName : Bytes
  width : Int
  height : Int
  dpi : Int
  deriving DecidableEq, Repr

/-- The arguments of a call: positive dimensions whose product is an `int`. -/
structure Request where
  fileName : Bytes
  w : Int
  h : Int
  dpi : Int
  w_pos : 0 < w
  h_pos : 0 < h
  dpi_pos : 0 < dpi
  fits : w * h * dpi ≤ 2 ^ 31 - 1

/-- The image that was asked for. -/
def Request.image (r : Request) : ImageFlyweight := ⟨r.fileName, r.w, r.h, r.dpi⟩

theorem Request.image_inj {a b : Request} (same : a.image = b.image) : a = b := by
  cases a
  cases b
  cases same
  rfl

/-- `imageFlyweights_`. -/
abbrev ImageFlyweightFactory := UnorderedMap ImageFlyweight

namespace ImageFlyweightFactory

/-- `getKey`. -/
def getKey (name : Bytes) (w h dpi : Int) : Bytes :=
  ascii "key_" ++ name ++ toDecimal (w * h * dpi)

/-- `getImangeFlyweight`: the image returned, `none` if `at` throws, and the
pool. -/
def getImangeFlyweight (pool : ImageFlyweightFactory) (fileName : Bytes) (w h dpi : Int) :
    Option ImageFlyweight × ImageFlyweightFactory :=
  let key := getKey fileName w h dpi
  let pool :=
    match pool.find? key with
    | none => pool.set key ⟨fileName, w, h, dpi⟩
    | some _ => pool
  (pool.find? key, pool)

/-- The pool after some calls on a new factory. -/
def after (calls : List Request) : ImageFlyweightFactory :=
  calls.foldl (fun pool r => (pool.getImangeFlyweight r.fileName r.w r.h r.dpi).2) .empty

/-- What a call returns after some earlier ones. -/
def returned (earlier : List Request) (r : Request) : Option ImageFlyweight :=
  ((after earlier).getImangeFlyweight r.fileName r.w r.h r.dpi).1

end ImageFlyweightFactory

open ImageFlyweightFactory

/-- The key of a request. -/
def Request.key (r : Request) : Bytes := getKey r.fileName r.w r.h r.dpi

/-- The file name and the digits of the product, read as one text. -/
def Request.text (r : Request) : Bytes := r.fileName ++ toDecimal (r.w * r.h * r.dpi)

theorem Request.key_eq_iff {a b : Request} : a.key = b.key ↔ a.text = b.text := by
  simp only [key, getKey, text, List.append_assoc, List.append_cancel_left_eq]

theorem after_concat (calls : List Request) (r : Request) :
    after (calls ++ [r]) =
      ((after calls).getImangeFlyweight r.fileName r.w r.h r.dpi).2 := by
  rw [after, List.foldl_append]
  rfl

/-- The pool holds, under each key, the image of the first call that had it. -/
theorem find?_after (calls : List Request) (key : Bytes) :
    (after calls).find? key = (calls.find? (·.key = key)).map Request.image := by
  induction calls using List.reverseRecOn with
  | nil => rfl
  | append_singleton calls r ih =>
      have own := ih
      rw [after_concat, List.find?_append]
      unfold getImangeFlyweight
      change (match (after calls).find? r.key with
        | none => (after calls).set r.key r.image
        | some _ => after calls).find? key = _
      by_cases here : r.key = key
      · subst here
        rw [own]
        cases first : calls.find? (·.key = r.key) with
        | none =>
            rw [Option.map_none, UnorderedMap.find?_set, if_pos rfl]
            simp
        | some earlier =>
            rw [Option.map_some, own, first]
            rfl
      · have other : ¬ key = r.key := fun h => here h.symm
        have skip : [r].find? (·.key = key) = none := by simp [here]
        rw [skip, Option.or_none, ← own]
        split
        · rw [UnorderedMap.find?_set, if_neg other]
        · rfl

/-- A call returns the image of the first call, itself included, with its key. -/
theorem returned_eq (earlier : List Request) (r : Request) :
    returned earlier r = ((earlier ++ [r]).find? (·.key = r.key)).map Request.image := by
  rw [← find?_after, after_concat]
  rfl

/-- **The right image.** In a sequence of calls on one factory every call returns
exactly the image that it asks for precisely when no two different requests
read the same as file name and product. -/
theorem returned_iff (calls : List Request) :
    (∀ earlier r later, calls = earlier ++ r :: later → returned earlier r = some r.image) ↔
      ∀ a ∈ calls, ∀ b ∈ calls, a.text = b.text → a = b := by
  constructor
  · intro right
    -- every request is the first one with its key
    have first : ∀ a ∈ calls, calls.find? (·.key = a.key) = some a := by
      intro a member
      obtain ⟨earlier, later, rfl⟩ := List.append_of_mem member
      have image := right earlier a later rfl
      rw [returned_eq, Option.map_eq_some_iff] at image
      obtain ⟨found, at', same⟩ := image
      cases Request.image_inj same
      rw [← List.singleton_append, ← List.append_assoc, List.find?_append, at', Option.some_or]
    intro a ha b hb text
    have key := Request.key_eq_iff.mpr text
    have firstA := first a ha
    rw [key, first b hb] at firstA
    injection firstA with same
    exact same.symm
  · rintro apart earlier r later rfl
    rw [returned_eq]
    have some : ((earlier ++ [r]).find? (·.key = r.key)).isSome := by
      rw [List.find?_isSome]
      exact ⟨r, by simp, by simp⟩
    obtain ⟨found, at'⟩ := Option.isSome_iff_exists.mp some
    have member := List.mem_of_find?_eq_some at'
    have key : found.key = r.key := by simpa using List.find?_some at'
    have inside : found ∈ earlier ++ r :: later := by
      rcases List.mem_append.mp member with before | last
      · exact List.mem_append_left _ before
      · exact List.mem_append_right _ (List.mem_singleton.mp last ▸ List.mem_cons_self)
    have same := apart found inside r (by simp) (Request.key_eq_iff.mp key)
    rw [at', same]
    rfl

/-- A landscape image. -/
def wide : Request where
  fileName := ascii "img1.svg"
  w := 16
  h := 9
  dpi := 96
  w_pos := by decide
  h_pos := by decide
  dpi_pos := by decide
  fits := by decide

/-- The same image in portrait. -/
def tall : Request := { wide with
  w := 9
  h := 16
  w_pos := by decide
  h_pos := by decide
  fits := by decide }

/-- The portrait is answered with the landscape. -/
theorem not_returned_tall : returned [wide] tall ≠ some tall.image := by
  rw [returned_eq]
  have first : [wide].find? (·.key = tall.key) = some wide := by
    simp [Request.key, getKey, wide, tall]
  rw [List.find?_append, first]
  decide

end CppLab.Patterns.Flyweight
