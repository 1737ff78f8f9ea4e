import CppLab.Embedded.Startup

/-!
# What `Reset_Handler` touches

The linker script puts `_edata` and `_ebss` where the contents of the sections end,
and the loops of `Reset_Handler` go on by words until they have passed these
addresses. `boot` is `Reset_Handler` with a record of the bytes that it reads and
writes; `boot_snd` says that it computes the same memory.

The bytes are those of the sections and of the image of `.data` precisely when both
sections are whole words long.
-/

namespace CppLab.Embedded

open Memory

/-- `ORIGIN(FLASH)`. -/
def flashOrigin : Nat := 0x08000000

/-- `LENGTH(FLASH)`, 128K. -/
def flashLength : Nat := 128 * 1024

/-- A layout that the linker script gives: `.data` and `.bss` in RAM one behind the
other, the image of `.data` in flash. -/
structure Sections (readable : Readable) where
  sidata : Nat
  sdata : Nat
  edata : Nat
  sbss : Nat
  ebss : Nat
  origin_le_sdata : ramOrigin ≤ sdata
  sdata_le_edata : sdata ≤ edata
  edata_le_sbss : edata ≤ sbss
  sbss_le_ebss : sbss ≤ ebss
  ebss_le_estack : ebss ≤ estack
  flashOrigin_le_sidata : flashOrigin ≤ sidata
  image_le_flash : sidata + (edata - sdata) ≤ flashOrigin + flashLength
  image_readable : ∀ a, sidata ≤ a → a < sidata + (edata - sdata) → readable a = true

/-- An access to one byte. -/
inductive Access
  | read (a : Nat)
  | write (a : Nat)
  deriving DecidableEq, Repr

/-- The bytes of a word. -/
def wordBytes (a : Nat) : List Nat := [a, a + 1, a + 2, a + 3]

/-- `while (dst < &_edata) *dst++ = *src++;` with its accesses. -/
def copyDataAccesses (readable : Readable) (edata : Nat) (m : Memory) (src dst : Nat) :
    List Access × Option Memory :=
  if dst < edata then
    if CanLoad readable src ∧ CanStore dst then
      let rest := copyDataAccesses readable edata (m.store .little dst (m.load .little src))
        (src + 4) (dst + 4)
      ((wordBytes src).map .read ++ (wordBytes dst).map .write ++ rest.1, rest.2)
    else ([], none)
  else ([], some m)
termination_by edata - dst

/-- `while (dst < &_ebss) *dst++ = 0;` with its accesses. -/
def clearBssAccesses (ebss : Nat) (m : Memory) (dst : Nat) : List Access × Option Memory :=
  if dst < ebss then
    if CanStore dst then
      let rest := clearBssAccesses ebss (m.store .little dst 0) (dst + 4)
      ((wordBytes dst).map .write ++ rest.1, rest.2)
    else ([], none)
  else ([], some m)
termination_by ebss - dst

variable {readable : Readable}

/-- `Reset_Handler`: its accesses, and the memory in which `main` is called. -/
def boot (l : Sections readable) (m : Memory) : List Access × Option Memory :=
  let copied := copyDataAccesses readable l.edata m l.sidata l.sdata
  let cleared := copied.2.map fun m => clearBssAccesses l.ebss m l.sbss
  (copied.1 ++ cleared.elim [] Prod.fst, cleared.bind Prod.snd)

/-- `main` is called, nothing is written outside the sections, and nothing is read
outside the image of `.data`. -/
def Contained (l : Sections readable) (m : Memory) : Prop :=
  ∃ accesses m', boot l m = (accesses, some m') ∧
    (∀ a, .write a ∈ accesses → (l.sdata ≤ a ∧ a < l.edata) ∨ (l.sbss ≤ a ∧ a < l.ebss)) ∧
    (∀ a, .read a ∈ accesses → l.sidata ≤ a ∧ a < l.sidata + (l.edata - l.sdata)) ∧
    ∀ a, ¬ (l.sdata ≤ a ∧ a < l.edata) → ¬ (l.sbss ≤ a ∧ a < l.ebss) → m' a = m a

/-! ## The record -/

theorem copyDataAccesses_snd (edata : Nat) (m : Memory) (src dst : Nat) :
    (copyDataAccesses readable edata m src dst).2 = copyData readable edata m src dst := by
  fun_induction copyData readable edata m src dst with
  | case1 m src dst more can ih =>
      rw [copyDataAccesses, if_pos more, if_pos can]
      exact ih
  | case2 m src dst more cannot => rw [copyDataAccesses, if_pos more, if_neg cannot]
  | case3 m src dst done => rw [copyDataAccesses, if_neg done]

theorem clearBssAccesses_snd (ebss : Nat) (m : Memory) (dst : Nat) :
    (clearBssAccesses ebss m dst).2 = clearBss ebss m dst := by
  fun_induction clearBss ebss m dst with
  | case1 m dst more can ih =>
      rw [clearBssAccesses, if_pos more, if_pos can]
      exact ih
  | case2 m dst more cannot => rw [clearBssAccesses, if_pos more, if_neg cannot]
  | case3 m dst done => rw [clearBssAccesses, if_neg done]

/-- The record changes nothing. -/
theorem boot_snd (l : Sections readable) (m : Memory) : (boot l m).2 =
    (copyData readable l.edata m l.sidata l.sdata).bind fun m => clearBss l.ebss m l.sbss := by
  unfold boot
  simp only [copyDataAccesses_snd, Option.bind_map]
  exact congrArg _ (funext fun m => clearBssAccesses_snd l.ebss m l.sbss)

/-- Both loops have ended when `main` is called. -/
theorem boot_eq_some {l : Sections readable} {m m' : Memory} {accesses : List Access}
    (main : boot l m = (accesses, some m')) : ∃ m₁,
      (copyDataAccesses readable l.edata m l.sidata l.sdata).2 = some m₁ ∧
      (clearBssAccesses l.ebss m₁ l.sbss).2 = some m' ∧
      accesses = (copyDataAccesses readable l.edata m l.sidata l.sdata).1 ++
        (clearBssAccesses l.ebss m₁ l.sbss).1 := by
  unfold boot at main
  cases copied : (copyDataAccesses readable l.edata m l.sidata l.sdata).2 with
  | none =>
      simp only [copied, Option.map_none, Option.bind_none, Prod.mk.injEq, reduceCtorEq,
        and_false] at main
  | some m₁ =>
      simp only [copied, Option.map_some, Option.bind_some, Option.elim_some, Prod.mk.injEq] at main
      exact ⟨m₁, rfl, main.2, main.1.symm⟩

theorem mem_wordBytes {a b : Nat} : b ∈ wordBytes a ↔ a ≤ b ∧ b < a + 4 := by
  unfold wordBytes
  simp only [List.mem_cons, List.not_mem_nil, or_false]
  omega

/-- A copy loop that ends has read and written whole words. -/
theorem mem_copyDataAccesses {edata : Nat} {m m' : Memory} {src dst : Nat}
    (ended : (copyDataAccesses readable edata m src dst).2 = some m') (a : Nat) :
    (.read a ∈ (copyDataAccesses readable edata m src dst).1 ↔
      src ≤ a ∧ a < src + span dst edata) ∧
    (.write a ∈ (copyDataAccesses readable edata m src dst).1 ↔
      dst ≤ a ∧ a < dst + span dst edata) := by
  fun_induction copyDataAccesses readable edata m src dst with
  | case1 m src dst more can rest ih =>
      obtain ⟨reads, writes⟩ := ih ended
      have whole := span_of_lt more
      simp only [List.mem_append, List.mem_map, mem_wordBytes, reduceCtorEq, Access.read.injEq,
        Access.write.injEq, and_false, exists_false, exists_eq_right, or_false, false_or]
      rw [reads, writes, whole]
      constructor
      · omega
      · omega
  | case2 m src dst more cannot => cases ended
  | case3 m src dst done =>
      rw [span_of_le (Nat.le_of_not_lt done)]
      constructor
      · exact iff_of_false List.not_mem_nil (by omega)
      · exact iff_of_false List.not_mem_nil (by omega)

/-- A clear loop that ends has written whole words. -/
theorem mem_clearBssAccesses {ebss : Nat} {m m' : Memory} {dst : Nat}
    (ended : (clearBssAccesses ebss m dst).2 = some m') (a : Nat) :
    .read a ∉ (clearBssAccesses ebss m dst).1 ∧
    (.write a ∈ (clearBssAccesses ebss m dst).1 ↔ dst ≤ a ∧ a < dst + span dst ebss) := by
  fun_induction clearBssAccesses ebss m dst with
  | case1 m dst more can rest ih =>
      obtain ⟨reads, writes⟩ := ih ended
      have whole := span_of_lt more
      simp only [List.mem_append, List.mem_map, mem_wordBytes, reduceCtorEq,
        Access.write.injEq, and_false, exists_false, exists_eq_right, false_or]
      rw [writes, whole]
      refine ⟨reads, ?_⟩
      omega
  | case2 m dst more cannot => cases ended
  | case3 m dst done =>
      rw [span_of_le (Nat.le_of_not_lt done)]
      exact ⟨List.not_mem_nil, iff_of_false List.not_mem_nil (by omega)⟩

/-- The accesses of a boot: the words that cover the sections. -/
theorem mem_boot {l : Sections readable} {m m' : Memory} {accesses : List Access}
    (main : boot l m = (accesses, some m')) (a : Nat) :
    (.read a ∈ accesses ↔ l.sidata ≤ a ∧ a < l.sidata + span l.sdata l.edata) ∧
    (.write a ∈ accesses ↔ (l.sdata ≤ a ∧ a < l.sdata + span l.sdata l.edata) ∨
      (l.sbss ≤ a ∧ a < l.sbss + span l.sbss l.ebss)) := by
  obtain ⟨m₁, copied, cleared, rfl⟩ := boot_eq_some main
  obtain ⟨reads, writes⟩ := mem_copyDataAccesses copied a
  obtain ⟨reads', writes'⟩ := mem_clearBssAccesses cleared a
  rw [List.mem_append, List.mem_append, reads, writes, writes']
  exact ⟨or_iff_left reads', Iff.rfl⟩

/-! ## The main result -/

theorem span_of_dvd {a b : Nat} (whole : 4 ∣ b - a) : span a b = b - a := by
  unfold span
  omega

/-- A section of another length has a byte behind it in its last word. -/
theorem lt_span_of_not_dvd {a b : Nat} (part : ¬ 4 ∣ b - a) : b - a < span a b := by
  unfold span
  omega

/-- Sections of whole words are copied and cleared as they are. -/
theorem contained_of_dvd (l : Sections readable) (m : Memory) (data : 4 ∣ l.edata - l.sdata)
    (bss : 4 ∣ l.ebss - l.sbss) : Contained l m := by
  have origin := l.origin_le_sdata
  have order := l.sdata_le_edata
  have between := l.edata_le_sbss
  have order' := l.sbss_le_ebss
  have top := l.ebss_le_estack
  have dataSpan := span_of_dvd data
  have bssSpan := span_of_dvd bss
  have image : ∀ a, l.sidata ≤ a → a < l.sidata + span l.sdata l.edata →
      readable a = true ∧ ¬ InRam a := by
    intro a low high
    rw [dataSpan] at high
    have flash := l.image_le_flash
    refine ⟨l.image_readable a low high, ?_⟩
    simp only [InRam, ramOrigin, flashOrigin, flashLength] at flash ⊢
    omega
  have copied := copyData_eq (m := m) origin (by omega) image
  rw [dataSpan, if_pos (by omega)] at copied
  have low : ramOrigin ≤ l.sbss := by omega
  have high : l.sbss ≤ estack := by omega
  have room : l.sbss + span l.sbss l.ebss ≤ estack := by omega
  have result := boot_snd l m
  rw [copied, Option.bind_some, clearBss_eq low high, if_pos room, bssSpan] at result
  have main : boot l m = ((boot l m).1, some _) := Prod.ext rfl result
  refine ⟨_, _, main, ?_, ?_, ?_⟩
  · intro a write
    have inside := (mem_boot main a).2.mp write
    omega
  · intro a read
    have inside := (mem_boot main a).1.mp read
    omega
  · intro a notData notBss
    have notBss : ¬ (l.sbss ≤ a ∧ a < l.sbss + (l.ebss - l.sbss)) := by omega
    have notData : ¬ (l.sdata ≤ a ∧ a < l.sdata + (l.edata - l.sdata)) := by omega
    simp only [cleared, if_neg notBss, moved, if_neg notData]

/-- **What the boot code touches.** For every layout that the linker script gives,
`main` is called with nothing written outside the sections and nothing read
outside the image if and only if both sections are whole words long. -/
theorem contained_iff (l : Sections readable) (m : Memory) :
    Contained l m ↔ 4 ∣ l.edata - l.sdata ∧ 4 ∣ l.ebss - l.sbss := by
  constructor
  · rintro ⟨accesses, m', main, writes, reads, -⟩
    have order' := l.sbss_le_ebss
    have between := l.edata_le_sbss
    constructor
    · by_contra part
      -- the last word is read from behind the image
      have behind := lt_span_of_not_dvd part
      have inside := reads (l.sidata + (l.edata - l.sdata))
        ((mem_boot main _).1.mpr ⟨Nat.le_add_right _ _, by omega⟩)
      omega
    · by_contra part
      -- the last word is cleared behind `.bss`
      have behind := lt_span_of_not_dvd part
      have inside := writes l.ebss ((mem_boot main _).2.mpr (.inr ⟨order', by omega⟩))
      omega
  · rintro ⟨data, bss⟩
    exact contained_of_dvd l m data bss

/-- Flash, and nothing else, can be read besides RAM. -/
def flash : Readable := fun a => flashOrigin ≤ a ∧ a < flashOrigin + flashLength

/-- Sections of `data` and `bss` bytes, `.bss` at the next multiple of four. -/
def sample (data bss : Nat) (small : data + 3 + bss ≤ 1024) : Sections flash where
  sidata := flashOrigin + 1024
  sdata := ramOrigin
  edata := ramOrigin + data
  sbss := ramOrigin + (data + 3) / 4 * 4
  ebss := ramOrigin + (data + 3) / 4 * 4 + bss
  origin_le_sdata := Nat.le_refl _
  sdata_le_edata := Nat.le_add_right _ _
  edata_le_sbss := by omega
  sbss_le_ebss := Nat.le_add_right _ _
  ebss_le_estack := by
    unfold estack ramLength
    omega
  flashOrigin_le_sidata := Nat.le_add_right _ _
  image_le_flash := by
    unfold flashLength
    omega
  image_readable a low high := by
    unfold flash flashLength
    rw [decide_eq_true_eq]
    omega

/-- Five bytes of `.data`: the second word is read from three bytes behind the
image. -/
theorem not_contained_five : ¬ Contained (sample 5 8 (by decide)) fun _ => 0 := by
  rintro ⟨accesses, m', main, -, reads, -⟩
  have inside := reads (flashOrigin + 1024 + 5) ((mem_boot main _).1.mpr (by decide))
  exact absurd inside (by decide)

end CppLab.Embedded
