import CppLab.Lib.ByteOrder

/-!
# Byte-addressed memory with word accesses

A memory is a byte for every address. A word access reads or writes the four
bytes from its address on, which need not be a multiple of four. What a program
then needs of a word is only which bytes it moves: `store_load` and `store_zero`
say so, and `span` counts the bytes that a loop over whole words covers.
-/

namespace CppLab

/-- The contents of memory. -/
abbrev Memory := Nat → UInt8

namespace Memory

/-- The four bytes from an address on. -/
def bytesAt (m : Memory) (a : Nat) : Bytes := [m a, m (a + 1), m (a + 2), m (a + 3)]

/-- Read a 32-bit word. -/
def load (e : Endian) (m : Memory) (a : Nat) : Nat := e.decode (m.bytesAt a)

/-- Write a 32-bit word. -/
def store (e : Endian) (m : Memory) (a word : Nat) : Memory := fun b =>
  if a ≤ b ∧ b < a + 4 then (e.encode 4 word).getD (b - a) 0 else m b

/-- The bytes that whole words cover from `a` on, up to the first that starts
at `b` or behind it. -/
def span (a b : Nat) : Nat := 4 * ((b - a + 3) / 4)

/-- Bytes moved by whole words from `src` to `dst`. -/
def moved (m : Memory) (src dst n : Nat) : Memory := fun b =>
  if dst ≤ b ∧ b < dst + n then m (src + (b - dst)) else m b

/-- Bytes cleared. -/
def cleared (m : Memory) (dst n : Nat) : Memory := fun b =>
  if dst ≤ b ∧ b < dst + n then 0 else m b

/-- Bytes copied to `dst`. -/
def write (m : Memory) (dst : Nat) (bytes : Bytes) : Memory := fun b =>
  if dst ≤ b ∧ b < dst + bytes.length then bytes.getD (b - dst) 0 else m b

/-- The `n` bytes from an address on. -/
def range (m : Memory) (a n : Nat) : Bytes := (List.range n).map fun i => m (a + i)

theorem getD_bytesAt (m : Memory) (a : Nat) {i : Nat} (small : i < 4) :
    (m.bytesAt a).getD i 0 = m (a + i) := by
  rcases i with _ | _ | _ | _ | i
  · rfl
  · rfl
  · rfl
  · rfl
  · omega

/-- A word that is read and written elsewhere moves its four bytes. -/
theorem store_load (e : Endian) (m : Memory) (src dst : Nat) :
    m.store e dst (m.load e src) = m.moved src dst 4 := by
  funext b
  simp only [store, moved]
  split
  · rename_i inside
    have same : e.encode 4 (m.load e src) = m.bytesAt src := e.encode_decode (m.bytesAt src)
    have small : b - dst < 4 := by omega
    rw [same, getD_bytesAt m src small]
  · rfl

/-- The word zero clears its four bytes. -/
theorem store_zero (e : Endian) (m : Memory) (dst : Nat) : m.store e dst 0 = m.cleared dst 4 := by
  funext b
  simp only [store, cleared]
  split
  · have small : b - dst < 4 := by omega
    have zeros : e.encode 4 0 = List.replicate 4 0 := by
      cases e with
      | little => rfl
      | big => rfl
    rw [zeros]
    exact List.getD_replicate 0 small
  · rfl

@[simp] theorem moved_zero (m : Memory) (src dst : Nat) : m.moved src dst 0 = m := by
  funext b
  simp only [moved]
  split
  · omega
  · rfl

@[simp] theorem cleared_zero (m : Memory) (dst : Nat) : m.cleared dst 0 = m := by
  funext b
  simp only [cleared]
  split
  · omega
  · rfl

/-- Four bytes and then the rest, from a source that the first four do not
touch. -/
theorem moved_moved (m : Memory) {src dst n : Nat}
    (apart : ∀ i < n, src + 4 + i < dst ∨ dst + 4 ≤ src + 4 + i) :
    (m.moved src dst 4).moved (src + 4) (dst + 4) n = m.moved src dst (4 + n) := by
  funext b
  by_cases first : dst ≤ b ∧ b < dst + 4
  · have notRest : ¬ (dst + 4 ≤ b ∧ b < dst + 4 + n) := by omega
    have all : dst ≤ b ∧ b < dst + (4 + n) := by omega
    simp only [moved, if_pos first, if_neg notRest, if_pos all]
  · by_cases rest : dst + 4 ≤ b ∧ b < dst + 4 + n
    · have all : dst ≤ b ∧ b < dst + (4 + n) := by omega
      have small : b - (dst + 4) < n := by omega
      have same : src + 4 + (b - (dst + 4)) = src + (b - dst) := by omega
      have source : ¬ (dst ≤ src + (b - dst) ∧ src + (b - dst) < dst + 4) := by
        have away := apart (b - (dst + 4)) small
        omega
      simp only [moved, if_pos rest, same, if_neg source, if_pos all]
    · have none : ¬ (dst ≤ b ∧ b < dst + (4 + n)) := by omega
      simp only [moved, if_neg first, if_neg rest, if_neg none]

theorem cleared_cleared (m : Memory) (dst n : Nat) :
    (m.cleared dst 4).cleared (dst + 4) n = m.cleared dst (4 + n) := by
  funext b
  simp only [cleared]
  split
  · rw [if_pos (by omega)]
  · split
    · rw [if_pos (by omega)]
    · rw [if_neg (by omega)]

/-! ## Bytes written one behind the other -/

@[simp] theorem write_nil (m : Memory) (dst : Nat) : m.write dst [] = m := by
  funext b
  exact if_neg (by simp)

theorem write_write (m : Memory) (dst : Nat) (xs ys : Bytes) :
    (m.write dst xs).write (dst + xs.length) ys = m.write dst (xs ++ ys) := by
  funext b
  simp only [write, List.length_append]
  by_cases first : dst ≤ b ∧ b < dst + xs.length
  · have notSecond : ¬ (dst + xs.length ≤ b ∧ b < dst + xs.length + ys.length) := by omega
    have all : dst ≤ b ∧ b < dst + (xs.length + ys.length) := by omega
    rw [if_neg notSecond, if_pos first, if_pos all, List.getD_append _ _ _ _ (by omega)]
  · by_cases second : dst + xs.length ≤ b ∧ b < dst + xs.length + ys.length
    · have all : dst ≤ b ∧ b < dst + (xs.length + ys.length) := by omega
      have same : b - dst - xs.length = b - (dst + xs.length) := by omega
      rw [if_pos second, if_pos all, List.getD_append_right _ _ _ _ (by omega), same]
    · have none : ¬ (dst ≤ b ∧ b < dst + (xs.length + ys.length)) := by omega
      rw [if_neg second, if_neg first, if_neg none]

/-- What has been written is read back. -/
theorem range_write (m : Memory) (dst : Nat) (bytes : Bytes) :
    (m.write dst bytes).range dst bytes.length = bytes := by
  apply List.ext_getElem
  · simp [range]
  · intro i _ inside
    simp [range, write, inside]

theorem span_of_le {a b : Nat} (done : b ≤ a) : span a b = 0 := by
  simp only [span]
  omega

theorem span_of_lt {a b : Nat} (more : a < b) : span a b = 4 + span (a + 4) b := by
  simp only [span]
  omega

theorem le_span (a b : Nat) : b ≤ a + span a b := by
  simp only [span]
  omega

/-- Words that start at a multiple of four end before any that is not passed. -/
theorem span_le_of_aligned {a b stop : Nat} (order : a ≤ b) (inside : b ≤ stop)
    (start : 4 ∣ a) (finish : 4 ∣ stop) : a + span a b ≤ stop := by
  simp only [span]
  omega

end Memory

end CppLab
