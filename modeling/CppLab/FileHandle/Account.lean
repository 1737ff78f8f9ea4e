import CppLab.Env.StdStream
import CppLab.Lib.ByteOrder

/-!
# `Account` and its binary records

A record is the object representations of `code_`, `balance_` and the length
of `name_`, then the bytes of `name_`, with no separator and no check value.

* `Account.write` and `Account.read` are the two member functions;
* `Account.readAll` is the loop `while (is.peek() != EOF) acc.read(is)`;
* `Account.Complete` is the set of accounts whose record says their length
  correctly, so that records can be told apart (`serialize_inj`).
-/

namespace CppLab.FileHandle

/-- What the file format depends on: the byte order, `sizeof(std::size_t)`, the
`max_size()` of a string and the longest string that the memory has room for.
No object is larger than half of the values of `std::size_t`. -/
structure Platform where
  endian : Endian
  sizeT : Nat
  maxSize : Nat
  memory : Nat
  memory_le : memory ≤ maxSize
  maxSize_lt : maxSize < 256 ^ sizeT / 2

/-- What `name_.resize(length)` throws. -/
inductive Exn
  | lengthError
  | badAlloc
  deriving DecidableEq, Repr

variable (p : Platform)

theorem Platform.memory_lt : p.memory < 256 ^ p.sizeT := by
  have := p.memory_le
  have := p.maxSize_lt
  omega

/-- `s.resize(n)`. -/
def Platform.resize (s : Bytes) (n : Nat) : Except Exn Bytes :=
  if p.maxSize < n then .error .lengthError
  else if p.memory < n then .error .badAlloc
  else .ok (s.take n ++ List.replicate (n - s.length) 0)

theorem Platform.resize_of_le {n : Nat} (s : Bytes) (room : n ≤ p.memory) :
    p.resize s n = .ok (s.take n ++ List.replicate (n - s.length) 0) := by
  have := p.memory_le
  unfold Platform.resize
  rw [if_neg (by omega), if_neg (by omega)]

theorem Platform.resize_of_lt {n : Nat} (s : Bytes) (large : p.memory < n) :
    ∃ e, p.resize s n = .error e := by
  rw [Platform.resize, if_pos large]
  split
  · exact ⟨_, rfl⟩
  · exact ⟨_, rfl⟩

theorem Platform.length_resize {s name : Bytes} {n : Nat} (h : p.resize s n = .ok name) :
    name.length = n := by
  unfold Platform.resize at h
  split at h
  · cases h
  · split at h
    · cases h
    · injection h with h
      rw [← h, List.length_append, List.length_take, List.length_replicate]
      omega

/-- An account: `code_`, `name_`, and the eight bytes of `balance_`. -/
structure Account where
  code : BitVec 32
  name : Bytes
  balance : BitVec 64
  deriving DecidableEq, Repr

namespace Account

/-- `Account()`. -/
def default : Account := ⟨0, [], 0⟩

/-- The object representation of `code_`. -/
def codeBytes (acc : Account) : Bytes := p.endian.encode 4 acc.code.toNat

/-- The object representation of `balance_`. -/
def balanceBytes (acc : Account) : Bytes := p.endian.encode 8 acc.balance.toNat

/-- `Account::write`, on the bytes written so far. -/
def write (acc : Account) (os : Bytes) : Bytes :=
  let os := os ++ acc.codeBytes p
  let os := os ++ acc.balanceBytes p
  let length := acc.name.length
  let os := os ++ p.endian.encode p.sizeT length
  os ++ acc.name

/-- `Account::read`. Every field keeps the bytes that a short read leaves
untouched; `length` starts at `0`. -/
def read (acc : Account) (is : IStream) : Except Exn (Account × IStream) :=
  let (code, is) := is.read (acc.codeBytes p)
  let (balance, is) := is.read (acc.balanceBytes p)
  let (length, is) := is.read (p.endian.encode p.sizeT 0)
  match p.resize acc.name (p.endian.decode length) with
  | .error e => .error e
  | .ok name =>
      let (name, is) := is.read name
      .ok (⟨BitVec.ofNat 32 (p.endian.decode code), name,
        BitVec.ofNat 64 (p.endian.decode balance)⟩, is)

/-! ## Records -/

/-- The bytes of one record. -/
def serialize (acc : Account) : Bytes :=
  acc.codeBytes p ++ (acc.balanceBytes p ++ (p.endian.encode p.sizeT acc.name.length ++ acc.name))

/-- The bytes of several records, one after another. -/
def serializeAll (accs : List Account) : Bytes := accs.flatMap (serialize p)

@[simp] theorem serializeAll_nil : serializeAll p [] = [] := rfl

@[simp] theorem serializeAll_cons (acc : Account) (accs : List Account) :
    serializeAll p (acc :: accs) = acc.serialize p ++ serializeAll p accs := rfl

@[simp] theorem length_codeBytes (acc : Account) : (acc.codeBytes p).length = 4 :=
  p.endian.length_encode 4 _

@[simp] theorem length_balanceBytes (acc : Account) : (acc.balanceBytes p).length = 8 :=
  p.endian.length_encode 8 _

theorem write_eq (acc : Account) (os : Bytes) : acc.write p os = os ++ acc.serialize p := by
  simp only [write, serialize, List.append_assoc]

/-- Writing accounts one after another appends their records. -/
theorem foldl_write (accs : List Account) (os : Bytes) :
    accs.foldl (fun os acc => acc.write p os) os = os ++ serializeAll p accs := by
  induction accs generalizing os with
  | nil => exact (List.append_nil os).symm
  | cons acc accs ih =>
      rw [List.foldl_cons, ih, write_eq, serializeAll_cons, List.append_assoc]

/-- The length field of the record holds the length of the name. -/
def Complete (acc : Account) : Prop := acc.name.length < 256 ^ p.sizeT

/-- The name is a string that the memory has room for. -/
def Fits (acc : Account) : Prop := acc.name.length ≤ p.memory

variable {p}

theorem Fits.complete {acc : Account} (fits : acc.Fits p) : acc.Complete p :=
  Nat.lt_of_le_of_lt fits p.memory_lt

theorem serialize_ne_nil (acc : Account) : acc.serialize p ≠ [] := by
  intro empty
  have size := congrArg List.length empty
  simp [serialize] at size

theorem code_lt (acc : Account) : acc.code.toNat < 256 ^ 4 := acc.code.isLt

theorem balance_lt (acc : Account) : acc.balance.toNat < 256 ^ 8 := acc.balance.isLt

/-- Records can be told apart: complete accounts are read off the front of a
sequence of bytes in one way. -/
theorem serialize_inj {a b : Account} {as bs : Bytes} (ha : a.Complete p) (hb : b.Complete p)
    (same : a.serialize p ++ as = b.serialize p ++ bs) : a = b ∧ as = bs := by
  simp only [serialize, List.append_assoc] at same
  obtain ⟨code, same⟩ := List.append_inj same (by simp)
  obtain ⟨balance, same⟩ := List.append_inj same (by simp)
  obtain ⟨length, same⟩ := List.append_inj same (by simp)
  have length := p.endian.encode_inj ha hb length
  obtain ⟨name, rest⟩ := List.append_inj same length
  have code := p.endian.encode_inj a.code_lt b.code_lt code
  have balance := p.endian.encode_inj a.balance_lt b.balance_lt balance
  refine ⟨?_, rest⟩
  obtain ⟨aCode, aName, aBalance⟩ := a
  obtain ⟨bCode, bName, bBalance⟩ := b
  cases name
  cases BitVec.eq_of_toNat_eq code
  cases BitVec.eq_of_toNat_eq balance
  rfl

/-! ## Reading -/

/-- Reading a record whose name fits gives the account, whatever the object held
before, and the stream is left good just after the record. -/
theorem read_serialize {acc : Account} (temp : Account) (rest : Bytes) (fits : acc.Fits p) :
    temp.read p (.ofBytes (acc.serialize p ++ rest)) = .ok (acc, .ofBytes rest) := by
  have complete : acc.name.length < 256 ^ p.sizeT := fits.complete
  have code := p.endian.decode_encode_of_lt acc.code_lt
  have balance := p.endian.decode_encode_of_lt acc.balance_lt
  have length := p.endian.decode_encode_of_lt complete
  have resized := p.resize_of_le temp.name fits
  have size : acc.name.length =
      (temp.name.take acc.name.length ++
        List.replicate (acc.name.length - temp.name.length) 0).length :=
    (p.length_resize resized).symm
  simp only [read, serialize, List.append_assoc]
  rw [IStream.read_append _ (by simp)]
  simp only
  rw [IStream.read_append _ (by simp)]
  simp only
  rw [IStream.read_append _ (by simp)]
  simp only [length, resized]
  rw [IStream.read_append _ size]
  simp only [codeBytes, balanceBytes, code, balance, BitVec.ofNat_toNat, BitVec.setWidth_eq]

/-- Reading takes bytes from a good stream that has some. -/
theorem read_progress {temp acc : Account} {is is' : IStream} (good : is.good = true)
    (some : is.rest ≠ []) (h : temp.read p is = .ok (acc, is')) :
    is'.rest.length < is.rest.length := by
  simp only [read] at h
  split at h
  · cases h
  · injection h with h
    injection h with _ stream
    have nonempty : temp.codeBytes p ≠ [] := List.ne_nil_of_length_pos (by simp)
    have first := IStream.length_rest_read_lt good some nonempty
    rw [← stream]
    refine Nat.lt_of_le_of_lt (IStream.length_rest_read_le _ _) ?_
    refine Nat.lt_of_le_of_lt (IStream.length_rest_read_le _ _) ?_
    exact Nat.lt_of_le_of_lt (IStream.length_rest_read_le _ _) first

/-- The length field of the record at the front of the bytes, those of its bytes
that are missing zero. -/
def lengthField (p : Platform) (bytes : Bytes) : Nat :=
  p.endian.decode ((bytes.drop 12).take p.sizeT ++
    (p.endian.encode p.sizeT 0).drop (bytes.length - 12))

/-- The code at the front of the bytes, those of its bytes that are missing
taken from `code`. -/
def codeField (p : Platform) (code : BitVec 32) (bytes : Bytes) : BitVec 32 :=
  BitVec.ofNat 32 (p.endian.decode
    (bytes.take 4 ++ (p.endian.encode 4 code.toNat).drop bytes.length))

/-- What `read` makes of arbitrary bytes: the length field decides whether it
throws, and the code is that of the front. -/
theorem read_ofBytes (temp : Account) (bytes : Bytes) :
    (p.memory < lengthField p bytes → ∃ e, temp.read p (.ofBytes bytes) = .error e) ∧
    (lengthField p bytes ≤ p.memory → ∃ acc is, temp.read p (.ofBytes bytes) = .ok (acc, is) ∧
      acc.code = codeField p temp.code bytes) := by
  have start : (IStream.ofBytes bytes).Delivers bytes := .inl rfl
  obtain ⟨code, after⟩ := start.read (temp.codeBytes p)
  obtain ⟨-, after⟩ := after.read (temp.balanceBytes p)
  obtain ⟨length, -⟩ := after.read (p.endian.encode p.sizeT 0)
  simp only [length_codeBytes, length_balanceBytes, Endian.length_encode, List.drop_drop,
    List.length_drop, Nat.reduceAdd] at code length
  have field : p.endian.decode (((((IStream.ofBytes bytes).read (temp.codeBytes p)).2.read
      (temp.balanceBytes p)).2.read (p.endian.encode p.sizeT 0)).1) = lengthField p bytes := by
    rw [length]
    rfl
  constructor
  · intro large
    obtain ⟨e, thrown⟩ := p.resize_of_lt temp.name large
    refine ⟨e, ?_⟩
    simp only [read, field, thrown]
  · intro room
    simp only [read, field, p.resize_of_le temp.name room]
    refine ⟨_, _, rfl, ?_⟩
    simp only [code]
    rfl

/-- A read that leaves the stream good has read a complete record. -/
theorem serialize_of_read_good {temp acc : Account} {bytes : Bytes} {is : IStream}
    (h : temp.read p (.ofBytes bytes) = .ok (acc, is)) (good : is.good = true) :
    acc.Complete p ∧ bytes = acc.serialize p ++ is.rest := by
  rcases hcode : (IStream.ofBytes bytes).read (temp.codeBytes p) with ⟨code, afterCode⟩
  rcases hbalance : afterCode.read (temp.balanceBytes p) with ⟨balance, afterBalance⟩
  rcases hlength : afterBalance.read (p.endian.encode p.sizeT 0) with ⟨length, afterLength⟩
  simp only [read, hcode, hbalance, hlength] at h
  split at h
  · cases h
  · rename_i name resized
    rcases hname : afterLength.read name with ⟨chars, last⟩
    rw [hname] at h
    cases h
    obtain ⟨good, nameSize, nameSplit⟩ := IStream.eq_of_read_good hname good
    obtain ⟨good, lengthSize, lengthSplit⟩ := IStream.eq_of_read_good hlength good
    obtain ⟨good, balanceSize, balanceSplit⟩ := IStream.eq_of_read_good hbalance good
    obtain ⟨-, codeSize, codeSplit⟩ := IStream.eq_of_read_good hcode good
    rw [length_codeBytes] at codeSize
    rw [length_balanceBytes] at balanceSize
    rw [Endian.length_encode] at lengthSize
    -- each field is the representation of the value decoded from it
    have codeBack := p.endian.encode_decode code
    have balanceBack := p.endian.encode_decode balance
    have lengthBack := p.endian.encode_decode length
    have codeLt := p.endian.decode_lt code
    have balanceLt := p.endian.decode_lt balance
    have lengthLt := p.endian.decode_lt length
    rw [codeSize] at codeBack codeLt
    rw [balanceSize] at balanceBack balanceLt
    rw [lengthSize] at lengthBack lengthLt
    have size : chars.length = p.endian.decode length := by
      rw [nameSize, p.length_resize resized]
    have codeNat : (BitVec.ofNat 32 (p.endian.decode code)).toNat = p.endian.decode code :=
      Nat.mod_eq_of_lt codeLt
    have balanceNat : (BitVec.ofNat 64 (p.endian.decode balance)).toNat = p.endian.decode balance :=
      Nat.mod_eq_of_lt balanceLt
    refine ⟨?_, ?_⟩
    · show chars.length < 256 ^ p.sizeT
      rw [size]
      exact lengthLt
    · show (IStream.ofBytes bytes).rest = _
      rw [codeSplit, balanceSplit, lengthSplit, nameSplit]
      simp only [serialize, codeBytes, balanceBytes, codeNat, balanceNat, size, codeBack,
        balanceBack, lengthBack, List.append_assoc]

end Account

end CppLab.FileHandle
