import CppLab.Env.StdString

/-!
# Object representations of unsigned integers

The bytes of an `n`-byte unsigned integer in memory or in a file, in either
byte order. Both orders decode what they encode; a platform that encodes with
one order and decodes with the other is not modelled.
-/

namespace CppLab

/-- The byte order of a platform. -/
inductive Endian
  | little
  | big
  deriving DecidableEq, Repr

/-- The `n` low bytes of a number, least significant first. -/
def lowBytes : Nat → Nat → Bytes
  | 0, _ => []
  | n + 1, value => (value % 256).toUInt8 :: lowBytes n (value / 256)

/-- The number whose bytes are given least significant first. -/
def ofLowBytes : Bytes → Nat
  | [] => 0
  | b :: bs => b.toNat + 256 * ofLowBytes bs

@[simp] theorem length_lowBytes (n value : Nat) : (lowBytes n value).length = n := by
  induction n generalizing value with
  | zero => rfl
  | succ n ih => simp only [lowBytes, List.length_cons, ih]

theorem ofLowBytes_lowBytes (n value : Nat) : ofLowBytes (lowBytes n value) = value % 256 ^ n := by
  induction n generalizing value with
  | zero => rw [lowBytes, ofLowBytes, Nat.pow_zero, Nat.mod_one]
  | succ n ih =>
      have byte : (value % 256).toUInt8.toNat = value % 256 := by
        have small : value % 256 < 2 ^ 8 := Nat.mod_lt value (by decide)
        exact UInt8.toNat_ofNat_of_lt' small
      have split : value % 256 ^ (n + 1) = value % 256 + 256 * (value / 256 % 256 ^ n) := by
        rw [Nat.pow_succ, Nat.mul_comm, Nat.mod_mul]
      rw [lowBytes, ofLowBytes, ih, byte, split]

theorem ofLowBytes_lt (bs : Bytes) : ofLowBytes bs < 256 ^ bs.length := by
  induction bs with
  | nil => simp [ofLowBytes]
  | cons b bs ih =>
      have byte : b.toNat < 256 := b.toNat_lt
      simp only [ofLowBytes, List.length_cons, Nat.pow_succ]
      omega

/-- Bytes are determined by the number they spell. -/
theorem lowBytes_ofLowBytes (bs : Bytes) : lowBytes bs.length (ofLowBytes bs) = bs := by
  induction bs with
  | nil => rfl
  | cons b bs ih =>
      have byte : b.toNat < 256 := b.toNat_lt
      have low : (b.toNat + 256 * ofLowBytes bs) % 256 = b.toNat := by omega
      have high : (b.toNat + 256 * ofLowBytes bs) / 256 = ofLowBytes bs := by omega
      have back : b.toNat.toUInt8 = b := UInt8.ofNat_toNat
      rw [List.length_cons, ofLowBytes, lowBytes, low, high, ih, back]

namespace Endian

/-- The object representation of an `n`-byte unsigned integer. -/
def encode (e : Endian) (n value : Nat) : Bytes :=
  match e with
  | .little => lowBytes n value
  | .big => (lowBytes n value).reverse

/-- The value of an object representation. -/
def decode (e : Endian) (bs : Bytes) : Nat :=
  match e with
  | .little => ofLowBytes bs
  | .big => ofLowBytes bs.reverse

@[simp] theorem length_encode (e : Endian) (n value : Nat) : (e.encode n value).length = n := by
  cases e with
  | little => exact length_lowBytes n value
  | big => exact (List.length_reverse).trans (length_lowBytes n value)

theorem decode_encode (e : Endian) (n value : Nat) :
    e.decode (e.encode n value) = value % 256 ^ n := by
  cases e with
  | little => exact ofLowBytes_lowBytes n value
  | big =>
      show ofLowBytes (lowBytes n value).reverse.reverse = value % 256 ^ n
      rw [List.reverse_reverse, ofLowBytes_lowBytes]

theorem decode_encode_of_lt (e : Endian) {n value : Nat} (small : value < 256 ^ n) :
    e.decode (e.encode n value) = value := by
  rw [decode_encode, Nat.mod_eq_of_lt small]

theorem encode_decode (e : Endian) (bs : Bytes) : e.encode bs.length (e.decode bs) = bs := by
  cases e with
  | little => exact lowBytes_ofLowBytes bs
  | big =>
      show (lowBytes bs.length (ofLowBytes bs.reverse)).reverse = bs
      have size : bs.reverse.length = bs.length := List.length_reverse
      rw [← size, lowBytes_ofLowBytes, List.reverse_reverse]

theorem decode_lt (e : Endian) (bs : Bytes) : e.decode bs < 256 ^ bs.length := by
  cases e with
  | little => exact ofLowBytes_lt bs
  | big =>
      have size : bs.reverse.length = bs.length := List.length_reverse
      rw [← size]
      exact ofLowBytes_lt bs.reverse

/-- Two integers of one width with the same representation are the same. -/
theorem encode_inj (e : Endian) {n a b : Nat} (ha : a < 256 ^ n) (hb : b < 256 ^ n)
    (same : e.encode n a = e.encode n b) : a = b := by
  rw [← e.decode_encode_of_lt ha, same, e.decode_encode_of_lt hb]

end Endian

end CppLab
