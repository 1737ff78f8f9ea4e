import Mathlib

/-!
# Byte strings and the `std::string` members the sources use

A `std::string` is its list of bytes. `size_t` arithmetic is modulo `2 ^ 64`,
which matters in one place: `find_last_not_of` answers `npos`, the largest
`size_t`, when every byte belongs to the set, and the sources add one to it.
-/

namespace CppLab

abbrev Bytes := List UInt8

/-- The bytes of an ASCII literal. -/
def ascii (s : String) : Bytes := s.toList.map fun c => c.toNat.toUInt8

namespace StdString

/-- `std::string::npos`. -/
def npos : Nat := 2 ^ 64 - 1

/-- `a + b` on `size_t`. -/
def sizeAdd (a b : Nat) : Nat := (a + b) % 2 ^ 64

/-- `s.find_last_not_of(set)`. -/
def findLastNotOf (s set : Bytes) : Nat :=
  match s.reverse.findIdx? (· ∉ set) with
  | some k => s.length - 1 - k
  | none => npos

/-- `s.erase(pos)`. -/
def erase (s : Bytes) (pos : Nat) : Bytes := s.take pos

theorem findLastNotOf_concat_of_mem {s set : Bytes} {b : UInt8} (hb : b ∈ set) :
    findLastNotOf (s ++ [b]) set = findLastNotOf s set := by
  simp only [findLastNotOf, List.reverse_append, List.reverse_singleton, List.singleton_append,
    List.findIdx?_cons, hb, not_true_eq_false, decide_false, Bool.false_eq_true, if_false,
    List.length_append, List.length_singleton]
  cases s.reverse.findIdx? (· ∉ set) with
  | none => rfl
  | some k =>
      simp only [Option.map_some]
      omega

theorem findLastNotOf_concat_of_not_mem {s set : Bytes} {b : UInt8} (hb : b ∉ set) :
    findLastNotOf (s ++ [b]) set = s.length := by
  simp [findLastNotOf, List.findIdx?_cons, hb]

/-- The position after the last byte outside the set is within the string. -/
theorem sizeAdd_findLastNotOf_le (s set : Bytes) :
    sizeAdd (findLastNotOf s set) 1 ≤ s.length := by
  unfold findLastNotOf sizeAdd
  split
  · rename_i k hk
    have := (List.findIdx?_eq_some_iff_getElem.mp hk).1
    rw [List.length_reverse] at this
    exact le_trans (Nat.mod_le _ _) (by omega)
  · simp [npos]

/-- `s.erase(s.find_last_not_of(set) + 1)` strips the trailing bytes that are
in `set`; when there is nothing else, `npos + 1` wraps to `0` and the whole
string goes. -/
theorem erase_findLastNotOf (s set : Bytes) (small : s.length < 2 ^ 64) :
    erase s (sizeAdd (findLastNotOf s set) 1) = s.rdropWhile (· ∈ set) := by
  induction s using List.reverseRecOn with
  | nil => simp [erase]
  | append_singleton s b ih =>
      rw [List.length_append, List.length_singleton] at small
      by_cases hb : b ∈ set
      · rw [findLastNotOf_concat_of_mem hb, List.rdropWhile_concat_pos _ _ _ (by simpa using hb),
          ← ih (by omega)]
        simp only [erase]
        rw [List.take_append_of_le_length (sizeAdd_findLastNotOf_le s set)]
      · rw [findLastNotOf_concat_of_not_mem hb,
          List.rdropWhile_concat_neg _ _ _ (by simpa using hb)]
        simp only [erase, sizeAdd]
        rw [Nat.mod_eq_of_lt small, List.take_of_length_le (by simp)]

/-- `s.find_last_of(set)`. -/
def findLastOf (s set : Bytes) : Nat :=
  match s.reverse.findIdx? (· ∈ set) with
  | some k => s.length - 1 - k
  | none => npos

theorem findLastOf_concat_of_mem {s set : Bytes} {b : UInt8} (hb : b ∈ set) :
    findLastOf (s ++ [b]) set = s.length := by
  simp [findLastOf, List.findIdx?_cons, hb]

theorem findLastOf_concat_of_not_mem {s set : Bytes} {b : UInt8} (hb : b ∉ set) :
    findLastOf (s ++ [b]) set = findLastOf s set := by
  simp only [findLastOf, List.reverse_append, List.reverse_singleton, List.singleton_append,
    List.findIdx?_cons, hb, decide_false, Bool.false_eq_true, if_false,
    List.length_append, List.length_singleton]
  cases s.reverse.findIdx? (· ∈ set) with
  | none => rfl
  | some k =>
      simp only [Option.map_some]
      omega

theorem findLastOf_lt {s set : Bytes} (found : findLastOf s set ≠ npos) :
    findLastOf s set < s.length := by
  unfold findLastOf at found ⊢
  cases first : s.reverse.findIdx? (· ∈ set) with
  | none =>
      rw [first] at found
      exact absurd rfl found
  | some k =>
      have inside := (List.findIdx?_eq_some_iff_getElem.mp first).1
      rw [List.length_reverse] at inside
      show s.length - 1 - k < s.length
      omega

/-- What follows the last byte of the set, or the whole string where there is none. -/
theorem drop_findLastOf (s set : Bytes) (small : s.length < 2 ^ 64) :
    (if findLastOf s set ≠ npos then s.drop (findLastOf s set + 1) else s) =
      s.rtakeWhile (· ∉ set) := by
  induction s using List.reverseRecOn with
  | nil => rfl
  | append_singleton s b ih =>
      rw [List.length_append, List.length_singleton] at small
      have short : s.length ≠ npos := by
        unfold npos
        omega
      by_cases hb : b ∈ set
      · rw [findLastOf_concat_of_mem hb, if_pos short,
          List.rtakeWhile_concat_neg _ _ _ (by simpa using hb), List.drop_eq_nil_of_le]
        rw [List.length_append, List.length_singleton]
      · rw [findLastOf_concat_of_not_mem hb,
          List.rtakeWhile_concat_pos _ _ _ (by simpa using hb), ← ih (by omega)]
        by_cases found : findLastOf s set ≠ npos
        · rw [if_pos found, if_pos found, List.drop_append_of_le_length (findLastOf_lt found)]
        · rw [if_neg found, if_neg found]

/-- `s.rfind(t, pos)`: the last position up to `pos` at which `t` occurs in `s`. -/
def rfind (s t : Bytes) : Nat → Nat
  | 0 => if t <+: s then 0 else npos
  | pos + 1 =>
      if pos + 1 ≤ s.length ∧ t <+: s.drop (pos + 1) then pos + 1 else rfind s t pos

/-- `s.rfind(t, 0) == 0` tests for a prefix. -/
theorem rfind_zero_eq_zero_iff (s t : Bytes) : rfind s t 0 = 0 ↔ t <+: s := by
  rw [rfind]
  split
  · rename_i starts
    exact iff_of_true rfl starts
  · rename_i other
    exact iff_of_false (by decide) other

end StdString

end CppLab
