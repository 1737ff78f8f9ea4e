import CppLab.FileHandle.AccountFile

/-!
# The search of `run()` on arbitrary contents

`run()` opens `data.bin` and reads accounts into one object until it finds the
code `2`. It does not look at the stream that `read` returns: at the end of the
file an incomplete record leaves the object half overwritten, and the length
field is believed whatever it says.

The bytes at the front of the unread contents are a complete record or they are
not (`complete_or_cut`), and each case has one lemma that says what the loop does next.
`search_iff` says for which contents the search does what it is for.
-/

namespace CppLab.FileHandle

namespace Account

variable (p : Platform)

/-- The search loop of `run()`: the account printed under `Account #2`, if any. -/
def search (temp : Account) (inf : IStream) : Except Exn (Option Account) :=
  match _hpeek : inf.peek with
  | (none, _) => .ok none
  | (some _, peeked) =>
      match _hread : temp.read p peeked with
      | .error e => .error e
      | .ok (temp', inf') =>
          if temp'.code = 2 then .ok (some temp') else search temp' inf'
termination_by inf.rest.length
decreasing_by
  obtain ⟨rfl, good, bs, rest⟩ := IStream.peek_eq_some _hpeek
  exact read_progress good (by simp [rest]) _hread

/-- `acc` is the first account of code `2` in a sequence of complete records at
the front of the contents. -/
def FirstTwo (contents : Bytes) (acc : Account) : Prop :=
  ∃ before rest, contents = serializeAll p before ++ (acc.serialize p ++ rest) ∧
    (∀ b ∈ before, b.Complete p ∧ b.code ≠ 2) ∧ acc.Complete p ∧ acc.code = 2

/-- What the search is for: it ends without an exception and prints the first
account of code `2`, or nothing when there is none. -/
def Finds (temp : Account) (contents : Bytes) : Prop :=
  ∃ printed, search p temp (.ofBytes contents) = .ok printed ∧
    ∀ acc, printed = some acc ↔ FirstTwo p contents acc

/-! ## The condition -/

/-- The bytes do not begin with a complete record. -/
def Cut (bytes : Bytes) : Prop :=
  ∀ (acc : Account) (rest : Bytes), acc.Complete p → bytes ≠ acc.serialize p ++ rest

/-- The code of the last account of a sequence, `code` if it is empty. -/
def lastCode (code : BitVec 32) (accs : List Account) : BitVec 32 :=
  (accs.getLast?.map Account.code).getD code

/-- Before an account of code `2` is met, no length field exceeds the memory,
and an incomplete record at the end of the contents does not leave the object
with code `2`. -/
def Clean (code : BitVec 32) (contents : Bytes) : Prop :=
  ∀ before rest, contents = serializeAll p before ++ rest →
    (∀ b ∈ before, b.Complete p ∧ b.code ≠ 2) →
    lengthField p rest ≤ p.memory ∧
      (rest ≠ [] → Cut p rest → codeField p (lastCode code before) rest ≠ 2)

variable {p}

/-! ## One round of the loop -/

theorem search_of_peek_none {temp : Account} {inf : IStream} (last : inf.peek.1 = none) :
    search p temp inf = .ok none := by
  unfold search
  split
  · rfl
  · rename_i peeked
    rw [peeked] at last
    cases last

theorem search_step (temp : Account) {contents : Bytes} (more : contents ≠ []) :
    search p temp (.ofBytes contents) =
      match temp.read p (.ofBytes contents) with
      | .error e => .error e
      | .ok (acc, is) => if acc.code = 2 then .ok (some acc) else search p acc is := by
  obtain ⟨b, bs, rfl⟩ := List.exists_cons_of_ne_nil more
  rw [search]
  split
  · rename_i peeked
    rw [IStream.peek_ofBytes_cons] at peeked
    cases peeked
  · rename_i peeked
    rw [IStream.peek_ofBytes_cons] at peeked
    cases peeked
    split
    · rename_i thrown
      rw [thrown]
    · rename_i result
      rw [result]

/-- A complete record at the front, with room for its name. -/
theorem search_serialize (temp : Account) {acc : Account} (rest : Bytes) (fits : acc.Fits p) :
    search p temp (.ofBytes (acc.serialize p ++ rest)) =
      if acc.code = 2 then .ok (some acc) else search p acc (.ofBytes rest) := by
  rw [search_step temp (List.append_ne_nil_of_left_ne_nil acc.serialize_ne_nil rest),
    read_serialize temp rest fits]

/-- A length field that exceeds the memory. -/
theorem search_of_large (temp : Account) {contents : Bytes} (more : contents ≠ [])
    (large : p.memory < lengthField p contents) :
    ∃ e, search p temp (.ofBytes contents) = .error e := by
  obtain ⟨e, thrown⟩ := (read_ofBytes temp contents).1 large
  refine ⟨e, ?_⟩
  rw [search_step temp more, thrown]

/-- An incomplete record: the loop ends here, and prints what `read` has left in
the object if its code happens to be `2`. -/
theorem search_of_cut (temp : Account) {contents : Bytes} (more : contents ≠ [])
    (cut : Cut p contents) (room : lengthField p contents ≤ p.memory) :
    ∃ acc, search p temp (.ofBytes contents) =
      .ok (if codeField p temp.code contents = 2 then some acc else none) := by
  obtain ⟨acc, is, result, code⟩ := (read_ofBytes temp contents).2 room
  have bad : is.good = false := by
    by_contra good
    rw [Bool.not_eq_false] at good
    obtain ⟨complete, split⟩ := serialize_of_read_good result good
    exact cut acc is.rest complete split
  refine ⟨acc, ?_⟩
  rw [search_step temp more, result]
  simp only [code]
  split
  · rfl
  · exact search_of_peek_none (IStream.peek_of_not_good bad)

/-! ## What the contents begin with -/

theorem complete_or_cut (contents : Bytes) :
    (∃ acc : Account, ∃ rest, acc.Complete p ∧ contents = acc.serialize p ++ rest) ∨
      Cut p contents := by
  by_cases complete : ∃ acc : Account, ∃ rest, acc.Complete p ∧ contents = acc.serialize p ++ rest
  · exact .inl complete
  · exact .inr fun acc rest h split => complete ⟨acc, rest, h, split⟩

theorem lengthField_serialize {acc : Account} (complete : acc.Complete p) (rest : Bytes) :
    lengthField p (acc.serialize p ++ rest) = acc.name.length := by
  have fields : acc.serialize p ++ rest = (acc.codeBytes p ++ acc.balanceBytes p) ++
      (p.endian.encode p.sizeT acc.name.length ++ (acc.name ++ rest)) := by
    simp only [serialize, List.append_assoc]
  have header : (acc.codeBytes p ++ acc.balanceBytes p).length = 12 := by simp
  have long : p.sizeT ≤ (acc.serialize p ++ rest).length - 12 := by
    rw [fields, List.length_append, header, List.length_append, Endian.length_encode]
    omega
  have none : (p.endian.encode p.sizeT 0).drop ((acc.serialize p ++ rest).length - 12) = [] :=
    List.drop_eq_nil_of_le (by rwa [Endian.length_encode])
  rw [lengthField, none, List.append_nil, fields,
    List.drop_left' header, List.take_left' (by simp), p.endian.decode_encode_of_lt complete]

@[simp] theorem lengthField_nil : lengthField p [] = 0 := by
  simp [lengthField, Endian.decode_encode]

/-- A sequence of records and a rest that begin with a complete record: the
record is the first of the sequence, or the sequence is empty. -/
theorem split_of_serialize {acc : Account} {rest rest' : Bytes} {before : List Account}
    (complete : acc.Complete p) (all : ∀ b ∈ before, b.Complete p)
    (split : acc.serialize p ++ rest = serializeAll p before ++ rest') :
    before = [] ∧ rest' = acc.serialize p ++ rest ∨
      ∃ more, before = acc :: more ∧ rest = serializeAll p more ++ rest' := by
  cases before with
  | nil => exact .inl ⟨rfl, split.symm⟩
  | cons b more =>
      rw [serializeAll_cons, List.append_assoc] at split
      obtain ⟨rfl, tail⟩ := serialize_inj complete (all b List.mem_cons_self) split
      exact .inr ⟨more, rfl, tail⟩

theorem firstTwo_serialize {acc found : Account} {rest : Bytes} (complete : acc.Complete p) :
    FirstTwo p (acc.serialize p ++ rest) found ↔
      if acc.code = 2 then found = acc else FirstTwo p rest found := by
  constructor
  · rintro ⟨before, rest', split, all, complete', two⟩
    rcases split_of_serialize complete (fun b hb => (all b hb).1) split with
      ⟨rfl, whole⟩ | ⟨more, rfl, tail⟩
    · obtain ⟨rfl, -⟩ := serialize_inj complete' complete whole
      rw [if_pos two]
    · rw [if_neg (all acc List.mem_cons_self).2]
      exact ⟨more, rest', tail, fun b hb => all b (List.mem_cons_of_mem acc hb), complete', two⟩
  · intro h
    split at h
    · rename_i two
      subst h
      exact ⟨[], rest, rfl, by simp, complete, two⟩
    · rename_i other
      obtain ⟨before, rest', split, all, complete', two⟩ := h
      refine ⟨acc :: before, rest', ?_, ?_, complete', two⟩
      · rw [split, serializeAll_cons, List.append_assoc]
      · intro b hb
        rcases List.mem_cons.mp hb with rfl | hb
        · exact ⟨complete, other⟩
        · exact all b hb

theorem not_firstTwo_of_cut {contents : Bytes} (cut : Cut p contents) (acc : Account) :
    ¬ FirstTwo p contents acc := by
  rintro ⟨before, rest, split, all, complete, -⟩
  cases before with
  | nil => exact cut acc rest complete split
  | cons b more =>
      rw [serializeAll_cons, List.append_assoc] at split
      exact cut b _ (all b List.mem_cons_self).1 split

theorem lastCode_cons (code : BitVec 32) (acc : Account) (accs : List Account) :
    lastCode code (acc :: accs) = lastCode acc.code accs := by
  cases accs with
  | nil => rfl
  | cons b more => rfl

theorem clean_serialize {code : BitVec 32} {acc : Account} {rest : Bytes}
    (complete : acc.Complete p) :
    Clean p code (acc.serialize p ++ rest) ↔
      acc.Fits p ∧ (acc.code ≠ 2 → Clean p acc.code rest) := by
  constructor
  · intro clean
    refine ⟨?_, ?_⟩
    · have first := (clean [] (acc.serialize p ++ rest) rfl (by simp)).1
      rwa [lengthField_serialize complete] at first
    · intro other before rest' split all
      have whole := clean (acc :: before) rest'
      rw [serializeAll_cons, List.append_assoc, lastCode_cons] at whole
      refine whole (congrArg _ split) ?_
      intro b hb
      rcases List.mem_cons.mp hb with rfl | hb
      · exact ⟨complete, other⟩
      · exact all b hb
  · rintro ⟨fits, clean⟩ before rest' split all
    rcases split_of_serialize complete (fun b hb => (all b hb).1) split with
      ⟨rfl, rfl⟩ | ⟨more, rfl, tail⟩
    · rw [lengthField_serialize complete]
      exact ⟨fits, fun _ cut => absurd rfl (cut acc rest complete)⟩
    · rw [lastCode_cons]
      exact clean (all acc List.mem_cons_self).2 more rest' tail
        fun b hb => all b (List.mem_cons_of_mem acc hb)

theorem clean_of_cut {code : BitVec 32} {contents : Bytes} (cut : Cut p contents) :
    Clean p code contents ↔ lengthField p contents ≤ p.memory ∧
      (contents ≠ [] → codeField p code contents ≠ 2) := by
  constructor
  · intro clean
    obtain ⟨room, other⟩ := clean [] contents rfl (by simp)
    exact ⟨room, fun more => other more cut⟩
  · rintro ⟨room, other⟩ before rest split all
    cases before with
    | nil =>
        cases split
        exact ⟨room, fun more _ => other more⟩
    | cons b more =>
        rw [serializeAll_cons, List.append_assoc] at split
        exact absurd split (cut b _ (all b List.mem_cons_self).1)

/-! ## The search -/

/-- An exception is not what the search is for. -/
theorem not_finds_of_large (temp : Account) {contents : Bytes} (more : contents ≠ [])
    (large : p.memory < lengthField p contents) : ¬ Finds p temp contents := by
  obtain ⟨e, thrown⟩ := search_of_large temp more large
  rintro ⟨printed, ended, -⟩
  rw [thrown] at ended
  cases ended

theorem finds_iff_clean_of_cut (temp : Account) {contents : Bytes} (cut : Cut p contents) :
    Finds p temp contents ↔ Clean p temp.code contents := by
  have absent : ∀ acc, ¬ FirstTwo p contents acc := not_firstTwo_of_cut cut
  rw [clean_of_cut cut]
  by_cases more : contents = []
  · subst more
    have ended : search p temp (.ofBytes []) = .ok none := search_of_peek_none rfl
    have finds : Finds p temp [] := by
      refine ⟨none, ended, fun acc => ?_⟩
      simp only [reduceCtorEq, absent]
    exact ⟨fun _ => ⟨by simp, fun some => absurd rfl some⟩, fun _ => finds⟩
  · by_cases room : lengthField p contents ≤ p.memory
    · obtain ⟨acc, ended⟩ := search_of_cut temp more cut room
      rw [Finds, ended]
      by_cases two : codeField p temp.code contents = 2
      · simp only [if_pos two]
        refine ⟨?_, fun clean => absurd two (clean.2 more)⟩
        rintro ⟨printed, shown, finds⟩
        cases shown
        exact absurd ((finds acc).mp rfl) (absent acc)
      · simp only [if_neg two]
        refine ⟨fun _ => ⟨room, fun _ => two⟩, fun _ => ⟨none, rfl, fun acc => ?_⟩⟩
        simp only [reduceCtorEq, absent]
    · have thrown := not_finds_of_large temp more (Nat.not_le.mp room)
      exact ⟨fun finds => absurd finds thrown, fun clean => absurd clean.1 room⟩

theorem finds_iff_clean (temp : Account) (contents : Bytes) :
    Finds p temp contents ↔ Clean p temp.code contents := by
  induction size : contents.length using Nat.strong_induction_on generalizing temp contents with
  | _ n ih =>
  rcases complete_or_cut (p := p) contents with ⟨acc, rest, complete, rfl⟩ | cut
  · have more : acc.serialize p ++ rest ≠ [] :=
      List.append_ne_nil_of_left_ne_nil acc.serialize_ne_nil rest
    rw [clean_serialize complete]
    by_cases fits : acc.Fits p
    · have found : ∀ x, FirstTwo p (acc.serialize p ++ rest) x ↔
          if acc.code = 2 then x = acc else FirstTwo p rest x :=
        fun x => firstTwo_serialize complete
      rw [Finds, search_serialize temp rest fits]
      simp only [found]
      by_cases two : acc.code = 2
      · simp only [if_pos two]
        exact ⟨fun _ => ⟨fits, fun other => absurd two other⟩,
          fun _ => ⟨some acc, rfl, fun x => by simp [eq_comm]⟩⟩
      · simp only [if_neg two]
        have shorter : rest.length < n := by
          have pos := List.length_pos_iff.mpr (acc.serialize_ne_nil (p := p))
          rw [List.length_append] at size
          omega
        have smaller := ih rest.length shorter acc rest rfl
        exact ⟨fun finds => ⟨fits, fun _ => smaller.mp finds⟩,
          fun clean => smaller.mpr (clean.2 two)⟩
    · have large : p.memory < lengthField p (acc.serialize p ++ rest) := by
        rw [lengthField_serialize complete]
        exact Nat.not_le.mp fits
      have thrown := not_finds_of_large temp more large
      exact ⟨fun finds => absurd finds thrown, fun clean => absurd clean.1 fits⟩
  · exact finds_iff_clean_of_cut temp cut

/-- On a file that `write` has made, the search is `List.find?`. -/
theorem search_serializeAll (accs : List {acc : Account // acc.Fits p}) (temp : Account) :
    search p temp (.ofBytes (serializeAll p (accs.map Subtype.val))) =
      .ok ((accs.map Subtype.val).find? (·.code = 2)) := by
  induction accs generalizing temp with
  | nil => exact search_of_peek_none rfl
  | cons acc accs ih =>
      rw [List.map_cons, serializeAll_cons, search_serialize temp _ acc.property, List.find?_cons]
      by_cases two : acc.val.code = 2
      · simp only [two, if_pos, decide_true]
      · simp only [two, if_neg, decide_false, not_false_iff, ih]

variable (p) in
/-- **The search.** With the object that `run()` starts from, the search does
what it is for on exactly the clean contents. -/
theorem search_iff (contents : Bytes) :
    Finds p default contents ↔ Clean p 0 contents :=
  finds_iff_clean default contents

/-- Fewer bytes than the three fixed fields have. -/
theorem cut_of_short {bytes : Bytes} (short : bytes.length < 12) : Cut p bytes := by
  rintro acc rest - rfl
  simp [serialize] at short
  omega

/-- A 64-bit little-endian platform with 16 GiB for a string. -/
def desktop : Platform where
  endian := .little
  sizeT := 8
  maxSize := 2 ^ 62
  memory := 2 ^ 34
  memory_le := by decide
  maxSize_lt := by decide

/-- A file of the single byte `2`: the short read leaves code `2` in the object,
and the object is printed. -/
theorem not_finds_truncated : ¬ Finds desktop default [2] := by
  rw [finds_iff_clean]
  intro clean
  obtain ⟨-, other⟩ := clean [] [2] rfl (by simp)
  exact other (by simp) (cut_of_short (by simp)) (by decide)

end Account

end CppLab.FileHandle
