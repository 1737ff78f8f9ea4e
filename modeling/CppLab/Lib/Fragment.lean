import Mathlib

/-!
# Fragmentations of a stream

The ways a stream may be delivered in non-empty chunks of at most `n` elements.
-/

namespace CppLab

variable {α : Type*}

/-- `chunks` is a way to cut `s` into non-empty chunks of at most `n`. -/
structure Fragments (n : Nat) (s : List α) (chunks : List (List α)) : Prop where
  flatten : chunks.flatten = s
  sizes : ∀ c ∈ chunks, 0 < c.length ∧ c.length ≤ n

namespace Fragments

variable {n : Nat} {s t c : List α} {f g : List (List α)}

theorem nil : Fragments n ([] : List α) [] where
  flatten := rfl
  sizes := by simp

theorem cons (pos : 0 < c.length) (room : c.length ≤ n) (h : Fragments n s f) :
    Fragments n (c ++ s) (c :: f) where
  flatten := by rw [List.flatten_cons, h.flatten]
  sizes := by
    intro d hd
    rcases List.mem_cons.mp hd with rfl | hd
    · exact ⟨pos, room⟩
    · exact h.sizes d hd

theorem tail (h : Fragments n s (c :: f)) : Fragments n f.flatten f where
  flatten := rfl
  sizes := fun d hd => h.sizes d (List.mem_cons_of_mem c hd)

theorem append (hf : Fragments n s f) (hg : Fragments n t g) :
    Fragments n (s ++ t) (f ++ g) where
  flatten := by rw [List.flatten_append, hf.flatten, hg.flatten]
  sizes := by
    intro d hd
    rcases List.mem_append.mp hd with hd | hd
    · exact hf.sizes d hd
    · exact hg.sizes d hd

/-- The first chunk is a non-empty prefix of the first `n` elements. -/
theorem head_prefix (h : Fragments n s (c :: f)) : c <+: s.take n := by
  have room := (h.sizes c List.mem_cons_self).2
  have hs : s = c ++ f.flatten := by rw [← h.flatten, List.flatten_cons]
  rw [hs, List.prefix_take_iff]
  exact ⟨List.prefix_append c f.flatten, room⟩

/-- One element at a time. -/
theorem singletons (pos : 0 < n) (s : List α) : Fragments n s (s.map fun b => [b]) where
  flatten := by
    induction s with
    | nil => rfl
    | cons b s ih => simp [ih]
  sizes := by
    intro d hd
    obtain ⟨b, _, rfl⟩ := List.mem_map.mp hd
    exact ⟨Nat.zero_lt_one, pos⟩

end Fragments

end CppLab
