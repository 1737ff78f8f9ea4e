import CppLab.Lib.Buffer
import CppLab.Lib.Memory
import CppLab.Lib.System

/-!
# `read` over `mockRingbufferReceiveUpTo`

The mock hands out `fakeResponses` in chunks of at most five bytes and counts them in
its static `offset`; `read` asks for chunks until it has as many bytes as it wants or
there are none. Both counters are `size_t`.

A sequence of calls should cut the responses into consecutive pieces of the sizes that
are asked for, as long as there are bytes: this is `List.splitLengths`. The memory that
the calls write to is not that of `fakeResponses`.
-/

namespace CppLab.Tests.UsbHostSerial

/-- What the mock returns when it has data: where in `fakeResponses`, and
`*pxItemSize`. -/
structure Item where
  ret : UInt64
  pxItemSize : UInt64
  deriving DecidableEq, Repr

/-- The item, `none` for `nullptr`, and the static `offset` afterwards. -/
def mockRingbufferReceiveUpTo (fakeResponses : Buffer UInt8) (offset xMaxSize : UInt64) :
    Option Item × UInt64 :=
  if fakeResponses.size ≤ offset then (none, offset)
  else
    let remaining := fakeResponses.size - offset
    let chunkSize := if remaining < xMaxSize then remaining else xMaxSize
    let chunkSize := if 5 < chunkSize then 5 else chunkSize
    (some ⟨offset, chunkSize⟩, offset + chunkSize)

/-- The static `offset`, and `read` at the head of its loop. -/
structure Reading where
  offset : UInt64
  memory : Memory
  retVal : UInt64

/-- `while (size > retVal)` with at most so many rounds, `none` if they are not
enough. -/
def readLoop (fakeResponses : Buffer UInt8) (dest : Nat) (size : UInt64) :
    Nat → Reading → Option Reading
  | 0, _ => none
  | rounds + 1, r =>
      if r.retVal < size then
        match mockRingbufferReceiveUpTo fakeResponses r.offset (size - r.retVal) with
        | (none, offset) => some { r with offset := offset }
        | (some item, offset) =>
            readLoop fakeResponses dest size rounds
              { offset := offset
                memory := r.memory.write (dest + r.retVal.toNat)
                  (fakeResponses.slice item.ret item.pxItemSize)
                retVal := r.retVal + item.pxItemSize }
      else some r

/-- `read(dest, size)`. A round that is not the last delivers a byte. -/
def read (fakeResponses : Buffer UInt8) (offset : UInt64) (memory : Memory) (dest : Nat)
    (size : UInt64) : Option Reading :=
  readLoop fakeResponses dest size (size.toNat + 1) ⟨offset, memory, 0⟩

/-- A call of `read`. -/
structure Call where
  dest : Nat
  size : UInt64
  deriving DecidableEq, Repr

/-- The program between two calls, and the bytes that each call has returned. -/
structure State where
  offset : UInt64
  memory : Memory
  returned : List Bytes

/-- Calls one after the other. A call returns the `retVal` bytes at `dest`. -/
def system (fakeResponses : Buffer UInt8) (memory : Memory) : System State Call where
  init := ⟨0, memory, []⟩
  step s c := (read fakeResponses s.offset s.memory c.dest c.size).map fun r =>
    ⟨r.offset, r.memory, s.returned ++ [r.memory.range c.dest r.retVal.toNat]⟩

/-! ## One chunk -/

variable {fakeResponses : Buffer UInt8}

theorem toNat_smaller (a b : UInt64) : (if a < b then a else b).toNat = min a.toNat b.toNat := by
  by_cases less : a < b
  · rw [if_pos less]
    rw [UInt64.lt_iff_toNat_lt] at less
    omega
  · rw [if_neg less]
    rw [UInt64.lt_iff_toNat_lt] at less
    omega

/-- While there is data, the mock hands out some of the bytes that are asked for, from
where it has stopped. -/
theorem exists_chunk {offset : UInt64} (xMaxSize : UInt64) (more : offset < fakeResponses.size)
    (asked : 0 < xMaxSize.toNat) : ∃ chunkSize : UInt64, 0 < chunkSize.toNat ∧
      chunkSize.toNat ≤ xMaxSize.toNat ∧
      offset.toNat + chunkSize.toNat ≤ fakeResponses.items.length ∧
      mockRingbufferReceiveUpTo fakeResponses offset xMaxSize =
        (some ⟨offset, chunkSize⟩, offset + chunkSize) := by
  have five : (5 : UInt64).toNat = 5 := rfl
  have remaining := UInt64.toNat_sub_of_le _ _ (UInt64.le_of_lt more)
  have room := UInt64.lt_iff_toNat_lt.mp more
  rw [Buffer.toNat_size] at remaining room
  have result : mockRingbufferReceiveUpTo fakeResponses offset xMaxSize = (some ⟨offset, _⟩, _) :=
    if_neg (UInt64.not_le.mpr more)
  refine ⟨_, ?_, ?_, ?_, result⟩
  · rw [toNat_smaller, toNat_smaller, five, remaining]
    omega
  · rw [toNat_smaller, toNat_smaller]
    omega
  · rw [toNat_smaller, toNat_smaller, remaining]
    omega

theorem mock_of_not_lt {offset xMaxSize : UInt64} (done : ¬ offset < fakeResponses.size) :
    mockRingbufferReceiveUpTo fakeResponses offset xMaxSize = (none, offset) :=
  if_pos (UInt64.not_lt.mp done)

/-! ## One call -/

/-- The counters are within what they count. -/
structure Within (fakeResponses : Buffer UInt8) (size : UInt64) (r : Reading) : Prop where
  offset : r.offset.toNat ≤ fakeResponses.items.length
  retVal : r.retVal.toNat ≤ size.toNat

/-- The bytes that the loop still gets. -/
def pending (fakeResponses : Buffer UInt8) (size : UInt64) (r : Reading) : Bytes :=
  (fakeResponses.items.drop r.offset.toNat).take (size.toNat - r.retVal.toNat)

/-- `retVal += pxItemSize` does not wrap. -/
theorem toNat_retVal_add {retVal chunkSize size : UInt64}
    (asked : retVal.toNat + chunkSize.toNat ≤ size.toNat) :
    (retVal + chunkSize).toNat = retVal.toNat + chunkSize.toNat := by
  rw [UInt64.toNat_add]
  exact Nat.mod_eq_of_lt (Nat.lt_of_le_of_lt asked size.toNat_lt)

/-- A chunk is the front of what the loop gets. -/
theorem pending_eq {size chunkSize : UInt64} {r : Reading} (memory : Memory)
    (inside : r.offset.toNat + chunkSize.toNat ≤ fakeResponses.items.length)
    (asked : r.retVal.toNat + chunkSize.toNat ≤ size.toNat) :
    pending fakeResponses size r = fakeResponses.slice r.offset chunkSize ++
      pending fakeResponses size ⟨r.offset + chunkSize, memory, r.retVal + chunkSize⟩ := by
  have all : size.toNat - r.retVal.toNat =
      chunkSize.toNat + (size.toNat - (r.retVal.toNat + chunkSize.toNat)) := by omega
  rw [pending, pending, Buffer.slice, Buffer.toNat_add inside, toNat_retVal_add asked, all,
    List.take_add, List.drop_drop]

/-- With a round for each byte that is still wanted and one more, the loop ends, and it
has put what it gets behind what it had. -/
theorem readLoop_eq (dest : Nat) {size : UInt64} {rounds : Nat} {r : Reading}
    (within : Within fakeResponses size r) (enough : size.toNat - r.retVal.toNat < rounds) :
    ∃ r', readLoop fakeResponses dest size rounds r = some r' ∧
      r'.offset.toNat = r.offset.toNat + (pending fakeResponses size r).length ∧
      r'.retVal.toNat = r.retVal.toNat + (pending fakeResponses size r).length ∧
      r'.memory = r.memory.write (dest + r.retVal.toNat) (pending fakeResponses size r) := by
  induction rounds generalizing r with
  | zero => exact absurd enough (Nat.not_lt_zero _)
  | succ rounds ih =>
      obtain ⟨offset, retVal⟩ := within
      rw [readLoop]
      by_cases wants : r.retVal < size
      · rw [if_pos wants]
        by_cases more : r.offset < fakeResponses.size
        · have wanted := UInt64.toNat_sub_of_le _ _ (UInt64.le_of_lt wants)
          rw [UInt64.lt_iff_toNat_lt] at wants
          obtain ⟨chunkSize, positive, atMost, inside, mock⟩ :=
            exists_chunk (size - r.retVal) more (by omega)
          have asked : r.retVal.toNat + chunkSize.toNat ≤ size.toNat := by omega
          have offsets := Buffer.toNat_add inside
          have counts := toNat_retVal_add asked
          have split := pending_eq (r.memory.write (dest + r.retVal.toNat)
            (fakeResponses.slice r.offset chunkSize)) inside asked
          have length := Buffer.length_slice fakeResponses inside
          rw [mock]
          -- the chunk is not empty, so a round less is enough for what is still wanted
          obtain ⟨r', result, offset', retVal', memory'⟩ := ih
            (r := ⟨r.offset + chunkSize, _, r.retVal + chunkSize⟩)
            ⟨by rw [offsets]; exact inside, by rw [counts]; exact asked⟩ (by rw [counts]; omega)
          refine ⟨r', result, ?_, ?_, ?_⟩
          · rw [offset', split, List.length_append, length, offsets, Nat.add_assoc]
          · rw [retVal', split, List.length_append, length, counts, Nat.add_assoc]
          · rw [memory', split, counts, ← Nat.add_assoc, ← length, Memory.write_write]
        · rw [mock_of_not_lt more]
          have nothing : pending fakeResponses size r = [] := by
            rw [UInt64.lt_iff_toNat_lt, Buffer.toNat_size] at more
            rw [pending, List.drop_eq_nil_of_le (by omega), List.take_nil]
          rw [nothing]
          exact ⟨_, rfl, rfl, rfl, (Memory.write_nil _ _).symm⟩
      · rw [if_neg wants]
        have nothing : pending fakeResponses size r = [] := by
          rw [UInt64.lt_iff_toNat_lt] at wants
          rw [pending, Nat.sub_eq_zero_of_le (by omega), List.take_zero]
        rw [nothing]
        exact ⟨r, rfl, rfl, rfl, (Memory.write_nil _ _).symm⟩

/-- **Spec of `read`.** A call ends, and it gets the next bytes, as many as it asks for
or as there are. -/
theorem exists_read {offset : UInt64} (inside : offset.toNat ≤ fakeResponses.items.length)
    (memory : Memory) (dest : Nat) (size : UInt64) :
    ∃ r, read fakeResponses offset memory dest size = some r ∧
      r.offset.toNat =
        offset.toNat + ((fakeResponses.items.drop offset.toNat).take size.toNat).length ∧
      r.retVal.toNat = ((fakeResponses.items.drop offset.toNat).take size.toNat).length ∧
      r.memory =
        memory.write dest ((fakeResponses.items.drop offset.toNat).take size.toNat) := by
  obtain ⟨r, result, offset', retVal', memory'⟩ :=
    readLoop_eq dest (r := ⟨offset, memory, 0⟩) ⟨inside, Nat.zero_le size.toNat⟩
      (Nat.lt_succ_of_le (Nat.sub_le size.toNat _))
  exact ⟨r, result, offset', by rw [retVal']; exact Nat.zero_add _, memory'⟩

/-! ## Any number of calls -/

/-- After some calls: the pieces that they asked for have been returned, and `offset`
has counted them. -/
structure Delivered (fakeResponses : Buffer UInt8) (calls : List Call) (s : State) : Prop where
  returned : s.returned = (calls.map (·.size.toNat)).splitLengths fakeResponses.items
  offset : s.offset.toNat = s.returned.flatten.length

theorem Delivered.offset_eq {calls : List Call} {s : State}
    (delivered : Delivered fakeResponses calls s) :
    s.offset.toNat = min (calls.map (·.size.toNat)).sum fakeResponses.items.length := by
  rw [delivered.offset, delivered.returned, flatten_splitLengths_take, List.length_take]

theorem Delivered.inside {calls : List Call} {s : State}
    (delivered : Delivered fakeResponses calls s) :
    s.offset.toNat ≤ fakeResponses.items.length := by
  rw [delivered.offset_eq]
  exact Nat.min_le_right _ _

/-- What is left behind `offset` is what is left behind the sizes. -/
theorem Delivered.drop_eq {calls : List Call} {s : State}
    (delivered : Delivered fakeResponses calls s) :
    fakeResponses.items.drop s.offset.toNat =
      fakeResponses.items.drop (calls.map (·.size.toNat)).sum := by
  rw [delivered.offset_eq]
  rcases Nat.le_total (calls.map (·.size.toNat)).sum fakeResponses.items.length with less | all
  · rw [Nat.min_eq_left less]
  · rw [Nat.min_eq_right all, List.drop_length, List.drop_eq_nil_of_le all]

/-- **Step lemma.** -/
theorem Delivered.exists_step {calls : List Call} {s : State} {memory : Memory}
    (delivered : Delivered fakeResponses calls s) (c : Call) :
    ∃ s', (system fakeResponses memory).step s c = some s' ∧
      Delivered fakeResponses (calls ++ [c]) s' := by
  obtain ⟨r, result, offset, retVal, written⟩ :=
    exists_read delivered.inside s.memory c.dest c.size
  have bytes : r.memory.range c.dest r.retVal.toNat =
      (fakeResponses.items.drop s.offset.toNat).take c.size.toNat := by
    rw [written, retVal]
    exact Memory.range_write _ _ _
  refine ⟨_, Option.map_eq_some_iff.mpr ⟨r, result, rfl⟩, ?_, ?_⟩
  · show s.returned ++ [r.memory.range c.dest r.retVal.toNat] = _
    rw [bytes, delivered.drop_eq, delivered.returned, List.map_append, List.map_singleton,
      splitLengths_concat]
  · show r.offset.toNat = (s.returned ++ [r.memory.range c.dest r.retVal.toNat]).flatten.length
    rw [bytes, List.flatten_append, List.length_append, List.flatten_singleton, offset,
      delivered.offset]

/-- **Run lemma.** -/
theorem exists_run (fakeResponses : Buffer UInt8) (memory : Memory) (calls : List Call) :
    ∃ s, (system fakeResponses memory).run calls = some s ∧ Delivered fakeResponses calls s := by
  induction calls using List.reverseRecOn with
  | nil => exact ⟨_, rfl, rfl, rfl⟩
  | append_singleton calls c ih =>
      obtain ⟨s, run, delivered⟩ := ih
      obtain ⟨s', hstep, delivered'⟩ := delivered.exists_step c
      exact ⟨s', System.run_concat_eq_some.mpr ⟨s, run, hstep⟩, delivered'⟩

/-! ## The main result -/

/-- **Reading in chunks.** For responses of any length and any sequence of calls: the
calls end, and they return the pieces of the responses that they ask for, one behind the
other. A further call returns as many bytes as it asks for, or as are left, and puts
these bytes at `dest` and nothing anywhere else. -/
theorem reads_in_order (fakeResponses : Buffer UInt8) (memory : Memory) (calls : List Call) :
    ∃ s, (system fakeResponses memory).run calls = some s ∧
      s.returned = (calls.map (·.size.toNat)).splitLengths fakeResponses.items ∧
      s.returned.flatten = fakeResponses.items.take s.returned.flatten.length ∧
      ∀ dest size, ∃ r bytes, read fakeResponses s.offset s.memory dest size = some r ∧
        r.retVal.toNat =
          min size.toNat (fakeResponses.items.length - s.returned.flatten.length) ∧
        bytes = (fakeResponses.items.drop s.returned.flatten.length).take r.retVal.toNat ∧
        bytes.length = r.retVal.toNat ∧ r.memory = s.memory.write dest bytes := by
  obtain ⟨s, run, delivered⟩ := exists_run fakeResponses memory calls
  refine ⟨s, run, delivered.returned, ?_, ?_⟩
  · rw [← List.prefix_iff_eq_take, delivered.returned, flatten_splitLengths_take]
    exact List.take_prefix _ _
  · intro dest size
    obtain ⟨r, result, -, retVal, written⟩ := exists_read delivered.inside s.memory dest size
    rw [delivered.offset] at retVal written
    refine ⟨r, _, result, ?_, ?_, retVal.symm, written⟩
    · rw [retVal, List.length_take, List.length_drop]
    · rw [retVal]
      exact List.prefix_iff_eq_take.mp (List.take_prefix _ _)

/-- Seven bytes, which end within a chunk, and then more than there are. -/
example : ((system ⟨ascii "abcdefgh", by decide⟩ fun _ => 0).run [⟨0, 7⟩, ⟨100, 9⟩]).map
    (·.returned) = some [ascii "abcdefg", ascii "h"] := by
  decide +kernel

end CppLab.Tests.UsbHostSerial
