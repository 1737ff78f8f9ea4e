import CppLab.Lib.Memory

/-!
# `Reset_Handler`

The startup code of the firmware copies `.data` from flash and clears `.bss`,
both in whole words, between byte addresses that the linker script provides.

A word access at an address that is no multiple of four does what it does on a
Cortex-M3. An access to an address that does not answer is a fault, which ends
in `Default_Handler`; of the addresses that can be written the linker script
knows RAM. `src` and `dst` are registers, so that clearing memory does not
clear them.
-/

namespace CppLab.Embedded

open Memory

/-- `ORIGIN(RAM)`. -/
def ramOrigin : Nat := 0x20000000

/-- `LENGTH(RAM)`, 8K. -/
def ramLength : Nat := 8 * 1024

/-- `_estack`, the top of RAM. -/
def estack : Nat := ramOrigin + ramLength

/-- The addresses of RAM. -/
def InRam (a : Nat) : Prop := ramOrigin ≤ a ∧ a < estack

/-- The addresses outside RAM that can be read. -/
abbrev Readable := Nat → Bool

/-- The symbols of the linker script. -/
structure Layout (readable : Readable) where
  sidata : Nat
  sdata : Nat
  edata : Nat
  sbss : Nat
  ebss : Nat
  origin_le_sdata : ramOrigin ≤ sdata
  sdata_le_edata : sdata ≤ edata
  edata_le_sbss : edata ≤ sbss
  sbss_le_ebss : sbss ≤ ebss
  ebss_le_estack : ebss ≤ estack
  image_readable : ∀ a, sidata ≤ a → a < sidata + span sdata edata → readable a = true
  image_not_inRam : ∀ a, sidata ≤ a → a < sidata + span sdata edata → ¬ InRam a

instance (a : Nat) : Decidable (InRam a) := inferInstanceAs (Decidable (_ ∧ _))

/-- A word is read: all of its bytes answer. -/
def CanLoad (readable : Readable) (a : Nat) : Prop :=
  ∀ i < 4, InRam (a + i) ∨ readable (a + i) = true

/-- A word is written: all of its bytes are in RAM. -/
def CanStore (a : Nat) : Prop := ∀ i < 4, InRam (a + i)

instance (readable : Readable) (a : Nat) : Decidable (CanLoad readable a) :=
  inferInstanceAs (Decidable (∀ i < 4, _))

instance (a : Nat) : Decidable (CanStore a) := inferInstanceAs (Decidable (∀ i < 4, _))

/-- `while (dst < &_edata) *dst++ = *src++;`, `none` on a fault. -/
def copyData (readable : Readable) (edata : Nat) (m : Memory) (src dst : Nat) : Option Memory :=
  if dst < edata then
    if CanLoad readable src ∧ CanStore dst then
      copyData readable edata (m.store .little dst (m.load .little src)) (src + 4) (dst + 4)
    else none
  else some m
termination_by edata - dst

/-- `while (dst < &_ebss) *dst++ = 0;`, `none` on a fault. -/
def clearBss (ebss : Nat) (m : Memory) (dst : Nat) : Option Memory :=
  if dst < ebss then
    if CanStore dst then clearBss ebss (m.store .little dst 0) (dst + 4) else none
  else some m
termination_by ebss - dst

/-- `Reset_Handler`: the memory in which `main` is called. -/
def resetHandler {readable : Readable} (l : Layout readable) (m : Memory) : Option Memory :=
  (copyData readable l.edata m l.sidata l.sdata).bind fun m => clearBss l.ebss m l.sbss

/-! ## The loops -/

theorem canStore_iff {a : Nat} : CanStore a ↔ ramOrigin ≤ a ∧ a + 4 ≤ estack := by
  constructor
  · intro can
    have first := can 0 (by omega)
    have last := can 3 (by omega)
    exact ⟨first.1, last.2⟩
  · rintro ⟨low, high⟩ i small
    constructor
    · omega
    · omega

variable {readable : Readable}

/-- The copy loop moves the words that cover `.data`, or faults at the end of
RAM. -/
theorem copyData_eq {edata : Nat} {m : Memory} {src dst : Nat} (low : ramOrigin ≤ dst)
    (high : dst ≤ estack)
    (image : ∀ a, src ≤ a → a < src + span dst edata → readable a = true ∧ ¬ InRam a) :
    copyData readable edata m src dst =
      if dst + span dst edata ≤ estack then some (m.moved src dst (span dst edata)) else none := by
  fun_induction copyData readable edata m src dst with
  | case1 m src dst more can ih =>
      have room := canStore_iff.mp can.2
      have whole := span_of_lt more
      have rest : ∀ a, src + 4 ≤ a → a < src + 4 + span (dst + 4) edata →
          readable a = true ∧ ¬ InRam a := by
        intro a low high
        exact image a (by omega) (by omega)
      have apart : ∀ i < span (dst + 4) edata, src + 4 + i < dst ∨ dst + 4 ≤ src + 4 + i := by
        intro i small
        -- the image is outside RAM, the word just written is in it
        have outside := (rest (src + 4 + i) (by omega) (by omega)).2
        simp only [InRam] at outside
        omega
      rw [ih (by omega) room.2 rest, store_load, moved_moved m apart, whole, Nat.add_assoc]
  | case2 m src dst more cannot =>
      have whole := span_of_lt more
      have full : ¬ dst + span dst edata ≤ estack := by
        intro room
        apply cannot
        constructor
        · intro i small
          exact .inr (image (src + i) (by omega) (by omega)).1
        · exact canStore_iff.mpr ⟨low, by omega⟩
      rw [if_neg full]
  | case3 m src dst done =>
      have nothing : span dst edata = 0 := span_of_le (Nat.le_of_not_lt done)
      rw [nothing, Nat.add_zero, if_pos high, moved_zero]

/-- The clear loop clears the words that cover `.bss`, or faults at the end of
RAM. -/
theorem clearBss_eq {ebss : Nat} {m : Memory} {dst : Nat} (low : ramOrigin ≤ dst)
    (high : dst ≤ estack) :
    clearBss ebss m dst =
      if dst + span dst ebss ≤ estack then some (m.cleared dst (span dst ebss)) else none := by
  fun_induction clearBss ebss m dst with
  | case1 m dst more can ih =>
      have room := canStore_iff.mp can
      rw [ih (by omega) room.2, store_zero, cleared_cleared, span_of_lt more, Nat.add_assoc]
  | case2 m dst more cannot =>
      have whole := span_of_lt more
      have full : ¬ dst + span dst ebss ≤ estack := by
        intro room
        exact cannot (canStore_iff.mpr ⟨low, by omega⟩)
      rw [if_neg full]
  | case3 m dst done =>
      have nothing : span dst ebss = 0 := span_of_le (Nat.le_of_not_lt done)
      rw [nothing, Nat.add_zero, if_pos high, cleared_zero]

/-! ## The memory of `main` -/

/-- `Reset_Handler` in closed form. The copy comes first: what its last word
spills behind `.data` is cleared again where it is `.bss`. -/
theorem resetHandler_eq (l : Layout readable) (m : Memory) :
    resetHandler l m =
      if l.sdata + span l.sdata l.edata ≤ estack ∧ l.sbss + span l.sbss l.ebss ≤ estack then
        some ((m.moved l.sidata l.sdata (span l.sdata l.edata)).cleared l.sbss (span l.sbss l.ebss))
      else none := by
  have origin := l.origin_le_sdata
  have data := l.sdata_le_edata
  have between := l.edata_le_sbss
  have bss := l.sbss_le_ebss
  have top := l.ebss_le_estack
  have image : ∀ a, l.sidata ≤ a → a < l.sidata + span l.sdata l.edata →
      readable a = true ∧ ¬ InRam a :=
    fun a low high => ⟨l.image_readable a low high, l.image_not_inRam a low high⟩
  rw [resetHandler, copyData_eq origin (by omega) image]
  by_cases room : l.sdata + span l.sdata l.edata ≤ estack
  · rw [if_pos room, Option.bind_some, clearBss_eq (by omega) (by omega)]
    simp only [room, true_and]
  · rw [if_neg room, Option.bind_none, if_neg (fun both => room both.1)]

/-- `main` is called precisely when the last word of neither section leaves RAM. -/
theorem resetHandler_eq_some_iff {l : Layout readable} {m m' : Memory} :
    resetHandler l m = some m' ↔
      (l.sdata + span l.sdata l.edata ≤ estack ∧ l.sbss + span l.sbss l.ebss ≤ estack) ∧
      (m.moved l.sidata l.sdata (span l.sdata l.edata)).cleared l.sbss (span l.sbss l.ebss) = m' := by
  rw [resetHandler_eq, Option.ite_none_right_eq_some, Option.some.injEq]

/-- Neither loop writes outside RAM. -/
theorem resetHandler_frame {l : Layout readable} {m m' : Memory}
    (main : resetHandler l m = some m') {a : Nat} (outside : ¬ InRam a) : m' a = m a := by
  have origin := l.origin_le_sdata
  have data := l.sdata_le_edata
  have between := l.edata_le_sbss
  obtain ⟨⟨dataRoom, bssRoom⟩, rfl⟩ := resetHandler_eq_some_iff.mp main
  simp only [InRam] at outside
  have notBss : ¬ (l.sbss ≤ a ∧ a < l.sbss + span l.sbss l.ebss) := by omega
  have notData : ¬ (l.sdata ≤ a ∧ a < l.sdata + span l.sdata l.edata) := by omega
  simp only [cleared, if_neg notBss, moved, if_neg notData]

/-- The image itself stays as it is. -/
theorem resetHandler_image {l : Layout readable} {m m' : Memory}
    (main : resetHandler l m = some m') {i : Nat} (inside : i < l.edata - l.sdata) :
    m' (l.sidata + i) = m (l.sidata + i) := by
  have covered := le_span l.sdata l.edata
  apply resetHandler_frame main
  apply l.image_not_inRam
  · omega
  · omega

/-- `.data` is its image: no word of `.bss` reaches down to it. -/
theorem resetHandler_data {l : Layout readable} {m m' : Memory}
    (main : resetHandler l m = some m') {i : Nat} (inside : i < l.edata - l.sdata) :
    m' (l.sdata + i) = m (l.sidata + i) := by
  obtain ⟨-, rfl⟩ := resetHandler_eq_some_iff.mp main
  have between := l.edata_le_sbss
  have covered := le_span l.sdata l.edata
  have notBss : ¬ (l.sbss ≤ l.sdata + i ∧ l.sdata + i < l.sbss + span l.sbss l.ebss) := by omega
  have inData : l.sdata ≤ l.sdata + i ∧ l.sdata + i < l.sdata + span l.sdata l.edata := by omega
  simp only [cleared, if_neg notBss, moved, if_pos inData, Nat.add_sub_cancel_left]

/-- `.bss` is zero. -/
theorem resetHandler_bss {l : Layout readable} {m m' : Memory}
    (main : resetHandler l m = some m') {a : Nat} (low : l.sbss ≤ a) (high : a < l.ebss) :
    m' a = 0 := by
  obtain ⟨-, rfl⟩ := resetHandler_eq_some_iff.mp main
  have covered := le_span l.sbss l.ebss
  have inBss : l.sbss ≤ a ∧ a < l.sbss + span l.sbss l.ebss := by omega
  simp only [cleared, if_pos inBss]

/-- Sections that start at multiples of four, as sections of words do, always
let `main` be called. -/
theorem resetHandler_of_aligned (l : Layout readable) (m : Memory) (data : 4 ∣ l.sdata)
    (bss : 4 ∣ l.sbss) : ∃ m', resetHandler l m = some m' := by
  have top : 4 ∣ estack := by decide
  have order := l.sdata_le_edata
  have between := l.edata_le_sbss
  have inside := l.ebss_le_estack
  have order' := l.sbss_le_ebss
  have dataRoom := span_le_of_aligned order (by omega) data top
  have bssRoom := span_le_of_aligned order' inside bss top
  exact ⟨_, resetHandler_eq_some_iff.mpr ⟨⟨dataRoom, bssRoom⟩, rfl⟩⟩

/-- **Boot memory initialisation.** In the memory in which `main` is called,
`.data` is its image and `.bss` is zero, and nothing outside RAM has changed.
`main` is called precisely when the last word of neither section leaves RAM. -/
theorem resetHandler_initialises (l : Layout readable) (m : Memory) :
    (∀ m', resetHandler l m = some m' →
      (∀ i < l.edata - l.sdata, m' (l.sdata + i) = m' (l.sidata + i)) ∧
      (∀ i < l.edata - l.sdata, m' (l.sidata + i) = m (l.sidata + i)) ∧
      (∀ a, l.sbss ≤ a → a < l.ebss → m' a = 0) ∧
      (∀ a, ¬ InRam a → m' a = m a)) ∧
    ((∃ m', resetHandler l m = some m') ↔
      l.sdata + span l.sdata l.edata ≤ estack ∧ l.sbss + span l.sbss l.ebss ≤ estack) := by
  constructor
  · intro m' main
    refine ⟨?_, ?_, ?_, ?_⟩
    · intro i inside
      rw [resetHandler_data main inside, resetHandler_image main inside]
    · intro i inside
      exact resetHandler_image main inside
    · intro a low high
      exact resetHandler_bss main low high
    · intro a outside
      exact resetHandler_frame main outside
  · constructor
    · rintro ⟨m', main⟩
      exact (resetHandler_eq_some_iff.mp main).1
    · intro room
      exact ⟨_, resetHandler_eq_some_iff.mpr ⟨room, rfl⟩⟩

/-- Five bytes of `.data`, whose second word spills into `.bss`. -/
example : Layout fun a => 0x08000000 ≤ a ∧ a < 0x08020000 where
  sidata := 0x08000401
  sdata := ramOrigin
  edata := ramOrigin + 5
  sbss := ramOrigin + 5
  ebss := ramOrigin + 11
  origin_le_sdata := by decide
  sdata_le_edata := by decide
  edata_le_sbss := by decide
  sbss_le_ebss := by decide
  ebss_le_estack := by decide
  image_readable a low high := by
    simp only [span, decide_eq_true_eq] at *
    omega
  image_not_inRam a low high := by
    simp only [span, InRam, ramOrigin] at *
    omega

end CppLab.Embedded
