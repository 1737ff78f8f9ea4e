import CppLab.Env.StdString

/-!
# `std::istream` over the bytes of a file

The state flags and the unformatted input functions that the sources use, with
the default exception mask: a failing function sets flags and never throws. A
function entered on a stream that is not `good()` sets `failbit` and does
nothing else (the sentry). `badbit` stands for errors of the device, which a
file with given contents does not have.
-/

namespace CppLab

/-- An input stream: the bytes not extracted yet, `eofbit` and `failbit`. -/
structure IStream where
  rest : Bytes
  eof : Bool
  fail : Bool
  deriving DecidableEq, Repr

namespace IStream

/-- A stream just opened on a file with the given contents. -/
def ofBytes (contents : Bytes) : IStream := ⟨contents, false, false⟩

/-- `good()`. -/
def good (s : IStream) : Bool := !s.eof && !s.fail

/-- `peek()`, with `none` for `EOF`. -/
def peek (s : IStream) : Option UInt8 × IStream :=
  if s.good then
    match s.rest with
    | [] => (none, { s with eof := true })
    | b :: _ => (some b, s)
  else (none, { s with fail := true })

/-- `read(buffer, n)` where `buffer` holds `n` bytes: the bytes that the stream
has go to the front of the buffer, the others are left as they were, and a
short read sets both flags. -/
def read (s : IStream) (buffer : Bytes) : Bytes × IStream :=
  if s.good then
    if buffer.length ≤ s.rest.length then
      (s.rest.take buffer.length, { s with rest := s.rest.drop buffer.length })
    else (s.rest ++ buffer.drop s.rest.length, ⟨[], true, true⟩)
  else (buffer, { s with fail := true })

@[simp] theorem good_ofBytes (contents : Bytes) : (ofBytes contents).good = true := rfl

@[simp] theorem peek_ofBytes_nil : (ofBytes []).peek = (none, ⟨[], true, false⟩) := rfl

@[simp] theorem peek_ofBytes_cons (b : UInt8) (bs : Bytes) :
    (ofBytes (b :: bs)).peek = (some b, ofBytes (b :: bs)) := rfl

theorem read_ofBytes (bs buffer : Bytes) :
    (ofBytes bs).read buffer =
      if buffer.length ≤ bs.length then (bs.take buffer.length, ofBytes (bs.drop buffer.length))
      else (bs ++ buffer.drop bs.length, ⟨[], true, true⟩) := rfl

/-- The stream has at least as many bytes as the buffer. -/
theorem read_append {data buffer : Bytes} (rest : Bytes) (size : data.length = buffer.length) :
    (ofBytes (data ++ rest)).read buffer = (data, ofBytes rest) := by
  have room : buffer.length ≤ (data ++ rest).length := by
    rw [List.length_append]
    omega
  rw [read_ofBytes, if_pos room, List.take_left' size, List.drop_left' size]

/-- A stream that is not good stores nothing. -/
theorem read_of_not_good {s : IStream} (buffer : Bytes) (bad : s.good = false) :
    s.read buffer = (buffer, { s with fail := true }) := by
  simp only [read, bad, Bool.false_eq_true, if_false]

/-- What the buffer held is overwritten, never resized. -/
@[simp] theorem length_read (s : IStream) (buffer : Bytes) :
    (s.read buffer).1.length = buffer.length := by
  unfold read
  split
  · split
    · simpa using ‹buffer.length ≤ s.rest.length›
    · rw [List.length_append, List.length_drop]
      omega
  · rfl

/-- Reading never adds bytes to a stream. -/
theorem length_rest_read_le (s : IStream) (buffer : Bytes) :
    (s.read buffer).2.rest.length ≤ s.rest.length := by
  unfold read
  split
  · split
    · simp
    · simp
  · exact Nat.le_refl _

/-- A peeked stream is good and has bytes. -/
theorem peek_eq_some {s : IStream} {b : UInt8} {t : IStream} (h : s.peek = (some b, t)) :
    t = s ∧ s.good = true ∧ ∃ bs, s.rest = b :: bs := by
  unfold peek at h
  split at h
  · rename_i good
    split at h
    · cases h
    · rename_i c bs rest
      cases h
      exact ⟨rfl, good, bs, rest⟩
  · cases h

/-- Reading into a buffer that is not empty takes bytes from a good stream. -/
theorem length_rest_read_lt {s : IStream} {buffer : Bytes} (good : s.good = true)
    (some : s.rest ≠ []) (nonempty : buffer ≠ []) :
    (s.read buffer).2.rest.length < s.rest.length := by
  have pos : 0 < buffer.length := List.length_pos_iff.mpr nonempty
  have bytes : 0 < s.rest.length := List.length_pos_iff.mpr some
  unfold read
  rw [if_pos good]
  split
  · rw [List.length_drop]
    omega
  · exact bytes

/-- A read that leaves the stream good has filled the buffer. -/
theorem eq_of_read_good {s t : IStream} {buffer data : Bytes} (h : s.read buffer = (data, t))
    (good : t.good = true) :
    s.good = true ∧ data.length = buffer.length ∧ s.rest = data ++ t.rest := by
  have size : data.length = buffer.length := by
    rw [← length_read s buffer, h]
  unfold read at h
  split at h
  · rename_i before
    split at h
    · cases h
      exact ⟨before, size, (List.take_append_drop buffer.length s.rest).symm⟩
    · cases h
      cases good
  · cases h
    simp [IStream.good] at good

/-- What a stream still delivers: its bytes while it is good, nothing after. -/
def Delivers (s : IStream) (bs : Bytes) : Prop :=
  s = ofBytes bs ∨ (s.good = false ∧ bs = [])

/-- Successive reads cut the contents into consecutive pieces, whether or not
the contents last for all of them. -/
theorem Delivers.read {s : IStream} {bs : Bytes} (h : s.Delivers bs) (buffer : Bytes) :
    (s.read buffer).1 = bs.take buffer.length ++ buffer.drop bs.length ∧
      (s.read buffer).2.Delivers (bs.drop buffer.length) := by
  rcases h with rfl | ⟨bad, rfl⟩
  · rw [read_ofBytes]
    by_cases room : buffer.length ≤ bs.length
    · rw [if_pos room, List.drop_eq_nil_of_le room, List.append_nil]
      exact ⟨rfl, .inl rfl⟩
    · have short : bs.length ≤ buffer.length := Nat.le_of_not_le room
      rw [if_neg room, List.take_of_length_le short, List.drop_eq_nil_of_le short]
      exact ⟨rfl, .inr ⟨rfl, rfl⟩⟩
  · rw [read_of_not_good buffer bad, List.drop_nil, List.take_nil]
    refine ⟨(List.nil_append buffer).symm, .inr ⟨?_, rfl⟩⟩
    simp [IStream.good]

/-- `peek()` on a stream that is not good. -/
theorem peek_of_not_good {s : IStream} (bad : s.good = false) : s.peek.1 = none := by
  simp only [peek, bad, Bool.false_eq_true, if_false]

end IStream

end CppLab
