import CppLab.FileHandle.AccountSearch

/-!
# What a failed `read` leaves of an account

`Account::read` decodes each field into the object before it knows whether the next
one is there. `readInPlace` is the member function with the object in view at every
point where it can stop: at the exception of `name_.resize(length)`, and at its end
with a stream that may have failed.

`readInPlace_ofBytes` says what is in the fields then, whatever the bytes are, and
`intact_iff` on which inputs a failed read has changed nothing.
-/

namespace CppLab

/-! ## Consecutive reads of a stream -/

/-- A stream on `bs` from which `k` bytes have been asked for. -/
def IStream.past (bs : Bytes) (k : Nat) : IStream :=
  if k ≤ bs.length then .ofBytes (bs.drop k) else ⟨[], true, true⟩

theorem IStream.fail_past (bs : Bytes) (k : Nat) : (past bs k).fail = true ↔ bs.length < k := by
  unfold past
  split
  · exact iff_of_false (by simp [ofBytes]) (by omega)
  · exact iff_of_true rfl (by omega)

/-- What is there goes to the front of the buffer. -/
theorem IStream.read_past (bs buffer : Bytes) (k : Nat) : (past bs k).read buffer =
    ((bs.drop k).take buffer.length ++ buffer.drop (bs.length - k),
      past bs (k + buffer.length)) := by
  by_cases there : k ≤ bs.length
  · have size : (bs.drop k).length = bs.length - k := List.length_drop
    rw [past, if_pos there, read_ofBytes, size]
    by_cases room : buffer.length ≤ bs.length - k
    · rw [if_pos room, past, if_pos (by omega), List.drop_eq_nil_of_le room, List.append_nil,
        List.drop_drop]
    · rw [if_neg room, past, if_neg (by omega), List.take_of_length_le (by omega)]
  · have empty : bs.drop k = [] := List.drop_eq_nil_of_le (by omega)
    rw [past, if_neg there, read_of_not_good buffer rfl, past, if_neg (by omega), empty,
      List.take_nil, Nat.sub_eq_zero_of_le (by omega), List.drop_zero, List.nil_append]

/-- Bytes that are put over the front of a buffer change nothing. -/
theorem overlay_eq_iff (data buffer : Bytes) :
    data.take buffer.length ++ buffer.drop data.length = buffer ↔
      data.take buffer.length <+: buffer := by
  constructor
  · intro same
    exact ⟨_, same⟩
  · intro front
    by_cases short : data.length ≤ buffer.length
    · rw [List.take_of_length_le short] at front ⊢
      obtain ⟨rest, rfl⟩ := front
      rw [List.drop_left]
    · have size : (data.take buffer.length).length = buffer.length := by
        rw [List.length_take]
        omega
      rw [List.drop_eq_nil_of_le (by omega), List.append_nil]
      exact front.eq_of_length size

namespace FileHandle

variable (p : Platform)

/-- How `Account::read` ends. -/
structure ReadEnd where
  thrown : Option Exn
  account : Account
  stream : IStream
  deriving DecidableEq, Repr

namespace Account

/-- `Account::read`, with the object as it is when the function is left. -/
def readInPlace (acc : Account) (is : IStream) : ReadEnd :=
  let (code, is) := is.read (acc.codeBytes p)
  let acc := { acc with code := BitVec.ofNat 32 (p.endian.decode code) }
  let (balance, is) := is.read (acc.balanceBytes p)
  let acc := { acc with balance := BitVec.ofNat 64 (p.endian.decode balance) }
  let (length, is) := is.read (p.endian.encode p.sizeT 0)
  match p.resize acc.name (p.endian.decode length) with
  | .error e => ⟨some e, acc, is⟩
  | .ok name =>
      let (name, is) := is.read name
      ⟨none, { acc with name := name }, is⟩

/-- It is the function that reports an exception or the account and the stream. -/
theorem read_eq_readInPlace (acc : Account) (is : IStream) : acc.read p is =
    match (acc.readInPlace p is).thrown with
    | some e => .error e
    | none => .ok ((acc.readInPlace p is).account, (acc.readInPlace p is).stream) := by
  have same : ∀ code, balanceBytes p { acc with code := code } = balanceBytes p acc := fun _ => rfl
  simp only [read, readInPlace, same]
  generalize p.resize acc.name (p.endian.decode _) = resized
  cases resized with
  | error e => rfl
  | ok name => rfl

/-- The balance at the front of the bytes, those of its bytes that are missing taken
from `balance`. -/
def balanceField (p : Platform) (balance : BitVec 64) (bytes : Bytes) : BitVec 64 :=
  BitVec.ofNat 64 (p.endian.decode
    ((bytes.drop 4).take 8 ++ (p.endian.encode 8 balance.toNat).drop (bytes.length - 4)))

/-- The account with the numbers at the front of the bytes. -/
def withNumbers (acc : Account) (bytes : Bytes) : Account :=
  { acc with code := codeField p acc.code bytes, balance := balanceField p acc.balance bytes }

/-- What is in the object and in the stream at the end, for all bytes. -/
theorem readInPlace_ofBytes (acc : Account) (bytes : Bytes) :
    acc.readInPlace p (.ofBytes bytes) =
      match p.resize acc.name (lengthField p bytes) with
      | .error e => ⟨some e, acc.withNumbers p bytes, .past bytes (12 + p.sizeT)⟩
      | .ok name => ⟨none, { acc.withNumbers p bytes with
          name := (bytes.drop (12 + p.sizeT)).take name.length ++
            name.drop (bytes.length - (12 + p.sizeT)) },
          .past bytes (12 + p.sizeT + name.length)⟩ := by
  have start : IStream.ofBytes bytes = .past bytes 0 := by
    rw [IStream.past, if_pos (Nat.zero_le _), List.drop_zero]
  unfold readInPlace
  rw [start, IStream.read_past]
  simp only
  rw [IStream.read_past]
  simp only
  rw [IStream.read_past]
  simp only [length_codeBytes, length_balanceBytes, Endian.length_encode, List.drop_zero,
    Nat.sub_zero, Nat.zero_add, Nat.reduceAdd, IStream.read_past]
  rfl

/-- When the read fails, the account is what it was before. -/
def Intact (acc : Account) (bytes : Bytes) : Prop :=
  let last := acc.readInPlace p (.ofBytes bytes)
  last.thrown ≠ none ∨ last.stream.fail = true → last.account = acc

/-- The bytes begin with a whole record whose name fits. -/
def Whole (bytes : Bytes) : Prop :=
  lengthField p bytes ≤ p.memory ∧ 12 + p.sizeT + lengthField p bytes ≤ bytes.length

/-- The numbers in the bytes, as far as they are there, are those of the account. -/
def SameNumbers (acc : Account) (bytes : Bytes) : Prop :=
  bytes.take 4 <+: acc.codeBytes p ∧ (bytes.drop 4).take 8 <+: acc.balanceBytes p

/-- So is the name, and its length. -/
def SameName (acc : Account) (bytes : Bytes) : Prop :=
  lengthField p bytes = acc.name.length ∧ bytes.drop (12 + p.sizeT) <+: acc.name

variable {p}

/-- A number is decoded from its own bytes only. -/
theorem ofNat_decode_eq_iff {n w : Nat} (width : 256 ^ n = 2 ^ w) {value : BitVec w} {bytes : Bytes}
    (size : bytes.length = n) :
    BitVec.ofNat w (p.endian.decode bytes) = value ↔ bytes = p.endian.encode n value.toNat := by
  have small := p.endian.decode_lt bytes
  rw [size, width] at small
  constructor
  · intro same
    have decoded : p.endian.decode bytes = value.toNat := by
      rw [← same, BitVec.toNat_ofNat, Nat.mod_eq_of_lt small]
    rw [← decoded, ← size, p.endian.encode_decode]
  · rintro rfl
    have fits : value.toNat < 256 ^ n := width ▸ value.isLt
    rw [p.endian.decode_encode_of_lt fits, BitVec.ofNat_toNat, BitVec.setWidth_eq]

theorem withNumbers_eq_iff (acc : Account) (bytes : Bytes) (name : Bytes) :
    { acc.withNumbers p bytes with name := name } = acc ↔
      acc.SameNumbers p bytes ∧ name = acc.name := by
  have code : codeField p acc.code bytes = acc.code ↔ bytes.take 4 <+: acc.codeBytes p := by
    have size : (bytes.take 4 ++ (acc.codeBytes p).drop bytes.length).length = 4 := by
      rw [List.length_append, List.length_take, List.length_drop, length_codeBytes]
      omega
    have overlay := overlay_eq_iff bytes (acc.codeBytes p)
    rw [length_codeBytes] at overlay
    exact (ofNat_decode_eq_iff (by decide) size).trans overlay
  have balance : balanceField p acc.balance bytes = acc.balance ↔
      (bytes.drop 4).take 8 <+: acc.balanceBytes p := by
    have size : ((bytes.drop 4).take 8 ++
        (acc.balanceBytes p).drop (bytes.length - 4)).length = 8 := by
      rw [List.length_append, List.length_take, List.length_drop, List.length_drop,
        length_balanceBytes]
      omega
    have overlay := overlay_eq_iff (bytes.drop 4) (acc.balanceBytes p)
    rw [length_balanceBytes, List.length_drop] at overlay
    exact (ofNat_decode_eq_iff (by decide) size).trans overlay
  rw [SameNumbers, ← code, ← balance]
  constructor
  · intro same
    exact ⟨⟨congrArg Account.code same, congrArg Account.balance same⟩, congrArg Account.name same⟩
  · rintro ⟨⟨sameCode, sameBalance⟩, rfl⟩
    show (⟨codeField p acc.code bytes, acc.name, balanceField p acc.balance bytes⟩ : Account) = acc
    rw [sameCode, sameBalance]

/-- A name that keeps its length keeps its bytes. -/
theorem resize_same {s name : Bytes} (resized : p.resize s s.length = .ok name) : name = s := by
  unfold Platform.resize at resized
  split at resized
  · cases resized
  · split at resized
    · cases resized
    · cases resized
      simp

/-- A name that is cut off is the old one precisely when its length and its bytes are. -/
theorem overlay_name_eq_iff {acc : Account} {bytes name : Bytes}
    (resized : p.resize acc.name (lengthField p bytes) = .ok name)
    (short : bytes.length < 12 + p.sizeT + name.length) :
    (bytes.drop (12 + p.sizeT)).take name.length ++ name.drop (bytes.length - (12 + p.sizeT)) =
      acc.name ↔ acc.SameName p bytes := by
  have size := p.length_resize resized
  have length : (bytes.drop (12 + p.sizeT)).length = bytes.length - (12 + p.sizeT) :=
    List.length_drop
  have overlay := overlay_eq_iff (bytes.drop (12 + p.sizeT)) name
  have cut : (bytes.drop (12 + p.sizeT)).take name.length = bytes.drop (12 + p.sizeT) := by
    refine List.take_of_length_le ?_
    omega
  rw [cut, length] at overlay
  rw [cut]
  constructor
  · intro same
    refine ⟨?_, _, same⟩
    rw [← size, ← same, List.length_append, length, List.length_drop]
    omega
  · rintro ⟨sameLength, front⟩
    rw [sameLength] at resized
    cases resize_same resized
    exact overlay.mpr front

/-- **A failed read.** It leaves the account as it was precisely when the bytes begin with
a whole record, so that it does not fail, or when what they have of a record is the
account's own, but for a length that is impossible. -/
theorem intact_iff (p : Platform) (acc : Account) (bytes : Bytes) : acc.Intact p bytes ↔
    Whole p bytes ∨
      acc.SameNumbers p bytes ∧ (p.memory < lengthField p bytes ∨ acc.SameName p bytes) := by
  unfold Intact
  rw [readInPlace_ofBytes]
  by_cases large : p.memory < lengthField p bytes
  · obtain ⟨e, thrown⟩ := p.resize_of_lt acc.name large
    have notWhole : ¬ Whole p bytes := fun whole => absurd whole.1 (by omega)
    rw [thrown]
    simp only [ne_eq, reduceCtorEq, not_false_eq_true, true_or, forall_const, notWhole, false_or,
      large, and_true]
    exact (withNumbers_eq_iff acc bytes acc.name).trans (and_iff_left rfl)
  · have room : lengthField p bytes ≤ p.memory := by omega
    rcases resized : p.resize acc.name (lengthField p bytes) with e | name
    · rw [p.resize_of_le acc.name room] at resized
      cases resized
    · have size := p.length_resize resized
      simp only [ne_eq, not_true_eq_false, false_or, IStream.fail_past, large]
      by_cases short : bytes.length < 12 + p.sizeT + name.length
      · have notWhole : ¬ Whole p bytes := fun whole => absurd whole.2 (by omega)
        simp only [short, forall_const, notWhole, false_or]
        rw [withNumbers_eq_iff, overlay_name_eq_iff resized short]
      · exact iff_of_true (fun fails => absurd fails short) (.inl ⟨room, by omega⟩)

/-- An account with a name, and the end of the file. -/
theorem not_intact_end_of_file :
    ¬ Intact desktop ⟨2, ascii "Michael Jackson", 0⟩ [] := by
  intro intact
  have failed := intact (.inr (by decide))
  exact absurd (congrArg Account.name failed) (by decide)

end Account

end FileHandle

end CppLab
