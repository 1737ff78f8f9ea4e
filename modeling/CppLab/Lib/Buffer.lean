import Mathlib

/-!
# Buffers under `size_t` counters

An object in memory has fewer than `2 ^ 64` elements, so a counter that stays within
its size never wraps. Programs that transfer a buffer piece by piece keep such a
counter; the pieces are the slices between its values.

`List.splitLengths` is what a transfer by given lengths should deliver.
-/

namespace CppLab

variable {α : Type*}

/-- The elements of an object. -/
structure Buffer (α : Type*) where
  items : List α
  length_lt : items.length < UInt64.size

namespace Buffer

/-- `sizeof`, in elements. -/
def size (b : Buffer α) : UInt64 := .ofNatLT b.items.length b.length_lt

/-- The `length` elements from `offset` on. -/
def slice (b : Buffer α) (offset length : UInt64) : List α :=
  (b.items.drop offset.toNat).take length.toNat

variable (b : Buffer α)

@[simp] theorem toNat_size : b.size.toNat = b.items.length := UInt64.toNat_ofNatLT

theorem length_slice {offset length : UInt64}
    (inside : offset.toNat + length.toNat ≤ b.items.length) :
    (b.slice offset length).length = length.toNat := by
  rw [slice, List.length_take, List.length_drop]
  omega

variable {b}

/-- A counter that stays inside the buffer does not wrap. -/
theorem toNat_add {offset length : UInt64}
    (inside : offset.toNat + length.toNat ≤ b.items.length) :
    (offset + length).toNat = offset.toNat + length.toNat := by
  have bound := b.length_lt
  rw [UInt64.toNat_add]
  exact Nat.mod_eq_of_lt (Nat.lt_of_le_of_lt inside bound)

end Buffer

/-! ## Transfers by given lengths -/

/-- What is delivered is the front of the list. -/
theorem flatten_splitLengths_take (l : List α) (lengths : List Nat) :
    (lengths.splitLengths l).flatten = l.take lengths.sum := by
  induction lengths generalizing l with
  | nil => rfl
  | cons n lengths ih =>
      rw [List.splitLengths_cons, List.flatten_cons, ih, List.sum_cons, List.take_add]

/-- The last of the pieces. -/
theorem splitLengths_concat (l : List α) (lengths : List Nat) (n : Nat) :
    (lengths ++ [n]).splitLengths l =
      lengths.splitLengths l ++ [(l.drop lengths.sum).take n] := by
  induction lengths generalizing l with
  | nil =>
      rw [List.nil_append, List.splitLengths_cons]
      rfl
  | cons m lengths ih =>
      rw [List.cons_append, List.splitLengths_cons, ih, List.splitLengths_cons, List.drop_drop,
        List.sum_cons, List.cons_append]

end CppLab
