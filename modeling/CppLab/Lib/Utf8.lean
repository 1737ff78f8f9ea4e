import Mathlib

/-!
# Texts in UTF-8

The bytes of a list of characters, with the decoder of the standard library, and how a
text is cut where its bytes are: at the front anywhere, at the back where ASCII
follows, since no other character ends with a byte below 128.
-/

namespace CppLab.Utf8

/-- A text in UTF-8. -/
def encode (t : List Char) : List UInt8 := t.flatMap String.utf8EncodeChar

def decode (bytes : List UInt8) : Option (List Char) :=
  bytes.toByteArray.utf8Decode?.map Array.toList

theorem encode_append (t u : List Char) : encode (t ++ u) = encode t ++ encode u :=
  List.flatMap_append

theorem utf8Encode_eq (t : List Char) : t.utf8Encode = (encode t).toByteArray := rfl

theorem decode_encode (t : List Char) : decode (encode t) = some t := by
  rw [decode, ← utf8Encode_eq, List.utf8Decode?_utf8Encode]
  rfl

theorem decode_eq_some {bytes : List UInt8} {t : List Char} :
    decode bytes = some t ↔ encode t = bytes := by
  constructor
  · intro h
    obtain ⟨chars, decoded, rfl⟩ := Option.map_eq_some_iff.mp h
    have whole := ByteArray.utf8Encode_get_utf8Decode? (b := bytes.toByteArray)
      (h := Option.isSome_of_eq_some decoded)
    rw [Option.get_of_eq_some _ decoded, utf8Encode_eq] at whole
    exact List.toByteArray_inj.mp whole
  · rintro rfl
    exact decode_encode t

theorem encode_inj {t u : List Char} : encode t = encode u ↔ t = u := by
  constructor
  · intro same
    have decoded := decode_encode t
    rw [same, decode_encode] at decoded
    injection decoded with decoded
    exact decoded.symm
  · rintro rfl
    rfl

/-- A text begins with the characters its bytes begin with. -/
theorem eq_append {t front : List Char} {back : List UInt8}
    (whole : encode t = encode front ++ back) : ∃ u, t = front ++ u ∧ encode u = back := by
  have bytes : front.utf8Encode ++ back.toByteArray = t.utf8Encode := by
    rw [utf8Encode_eq, utf8Encode_eq, whole, List.toByteArray_append]
  obtain ⟨u, rfl⟩ := List.isPrefix_of_utf8Encode_append_eq_utf8Encode _ bytes
  rw [encode_append] at whole
  exact ⟨u, rfl, List.append_cancel_left whole⟩

/-- A character is one byte below 128, or all its bytes are 128 or more. -/
theorem encodeChar_cases (c : Char) :
    (c.toNat < 128 ∧ String.utf8EncodeChar c = [c.toNat.toUInt8]) ∨
      ∀ b ∈ String.utf8EncodeChar c, 128 ≤ b.toNat := by
  have next : ∀ v : Nat, 128 ≤ (UInt8.ofNat (v % 64 + 0x80)).toNat := by
    intro v
    rw [UInt8.toNat_ofNat']
    omega
  fun_cases String.utf8EncodeChar c with
  | case1 v small => exact .inl ⟨Nat.lt_succ_of_le small, rfl⟩
  | case2 v =>
      right
      simp only [List.forall_mem_cons, List.not_mem_nil, false_imp_iff, implies_true, and_true]
      refine ⟨?_, next _⟩
      rw [UInt8.toNat_ofNat']
      omega
  | case3 v =>
      right
      simp only [List.forall_mem_cons, List.not_mem_nil, false_imp_iff, implies_true, and_true]
      refine ⟨?_, next _, next _⟩
      rw [UInt8.toNat_ofNat']
      omega
  | case4 v =>
      right
      simp only [List.forall_mem_cons, List.not_mem_nil, false_imp_iff, implies_true, and_true]
      refine ⟨?_, next _, next _, next _⟩
      rw [UInt8.toNat_ofNat']
      omega

theorem encode_singleton {c : Char} (ascii : c.toNat < 128) : encode [c] = [c.toNat.toUInt8] := by
  have small : c.val.toNat ≤ 127 := Nat.le_of_lt_succ ascii
  rw [encode, List.flatMap_singleton, String.utf8EncodeChar, if_pos small]
  rfl

theorem encode_of_ascii {t : List Char} (ascii : ∀ c ∈ t, c.toNat < 128) :
    encode t = t.map fun c => c.toNat.toUInt8 := by
  induction t with
  | nil => rfl
  | cons c t ih =>
      obtain ⟨first, ascii⟩ := List.forall_mem_cons.mp ascii
      rw [← List.singleton_append, encode_append, encode_singleton first, ih ascii]
      rfl

/-- A byte below 128 is a character. -/
theorem mem_of_mem_encode {t : List Char} {b : UInt8} (member : b ∈ encode t)
    (small : b.toNat < 128) : ∃ c ∈ t, c.toNat = b.toNat := by
  obtain ⟨c, there, member⟩ := List.mem_flatMap.mp member
  rcases encodeChar_cases c with ⟨ascii, code⟩ | large
  · rw [code, List.mem_singleton] at member
    refine ⟨c, there, ?_⟩
    rw [member, Nat.toUInt8_eq, UInt8.toNat_ofNat', Nat.mod_eq_of_lt (by omega)]
  · exact absurd small (Nat.not_lt.mpr (large b member))

theorem eq_concat {t : List Char} {front : List UInt8} {c : Char} (ascii : c.toNat < 128)
    (whole : encode t = front ++ [c.toNat.toUInt8]) : ∃ u, t = u ++ [c] ∧ encode u = front := by
  have byte : c.toNat.toUInt8.toNat = c.toNat := by
    rw [Nat.toUInt8_eq, UInt8.toNat_ofNat', Nat.mod_eq_of_lt (by omega)]
  induction t using List.reverseRecOn with
  | nil => simp [encode] at whole
  | append_singleton u d _ =>
      rw [encode_append] at whole
      rcases encodeChar_cases d with ⟨small, -⟩ | large
      · rw [encode_singleton small] at whole
        obtain ⟨same, last⟩ := List.append_inj' whole rfl
        injection last with last
        have last := congrArg UInt8.toNat last
        rw [byte, Nat.toUInt8_eq, UInt8.toNat_ofNat', Nat.mod_eq_of_lt (by omega)] at last
        refine ⟨u, ?_, same⟩
        rw [Char.toNat_inj.mp last]
      · have last : c.toNat.toUInt8 ∈ encode [d] := by
          obtain ⟨init, b, code⟩ :=
            (List.eq_nil_or_concat' (encode [d])).resolve_left (by simp [encode])
          rw [code, ← List.append_assoc] at whole
          rw [code, List.append_inj_right' whole rfl]
          exact List.mem_append_right _ (List.mem_singleton_self _)
        rw [encode, List.flatMap_singleton] at last
        have := large _ last
        omega

/-- A text ends with the characters its bytes end with, if these are ASCII. -/
theorem eq_append_ascii {t back : List Char} {front : List UInt8}
    (ascii : ∀ c ∈ back, c.toNat < 128) (whole : encode t = front ++ encode back) :
    ∃ u, t = u ++ back ∧ encode u = front := by
  induction back using List.reverseRecOn generalizing t with
  | nil =>
      rw [show encode [] = [] from rfl, List.append_nil] at whole
      exact ⟨t, (List.append_nil t).symm, whole⟩
  | append_singleton back c ih =>
      rw [List.forall_mem_append] at ascii
      obtain ⟨ascii, last⟩ := ascii
      have small := last c (List.mem_singleton_self c)
      rw [encode_append, encode_singleton small, ← List.append_assoc] at whole
      obtain ⟨u, rfl, shorter⟩ := eq_concat small whole
      obtain ⟨w, rfl, rest⟩ := ih ascii shorter
      exact ⟨w, List.append_assoc .., rest⟩

end CppLab.Utf8
