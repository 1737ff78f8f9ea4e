import CppLab.FileHandle.Account

/-!
# A file of accounts

Writing accounts one after another and reading until `peek()` answers `EOF`
gives the accounts back. Records have no separators, so each one is found only
because all earlier ones were consumed exactly.
-/

namespace CppLab.FileHandle

namespace Account

variable (p : Platform)

/-- The bytes in a file after `write` of each account in turn. -/
def writeAll (accs : List Account) : Bytes := accs.foldl (fun os acc => acc.write p os) []

/-- `while (is.peek() != EOF) temp.read(is);`: the accounts that `temp` has been
after each `read`, and the stream as the last `peek()` finds it. -/
def readAll (temp : Account) (is : IStream) : Except Exn (List Account × IStream) :=
  match _hpeek : is.peek with
  | (none, _) => .ok ([], is)
  | (some _, peeked) =>
      match _hread : temp.read p peeked with
      | .error e => .error e
      | .ok (acc, is') =>
          match readAll acc is' with
          | .error e => .error e
          | .ok (accs, last) => .ok (acc :: accs, last)
termination_by is.rest.length
decreasing_by
  obtain ⟨rfl, good, bs, rest⟩ := IStream.peek_eq_some _hpeek
  exact read_progress good (by simp [rest]) _hread

theorem readAll_nil (temp : Account) :
    readAll p temp (.ofBytes []) = .ok ([], .ofBytes []) := by
  unfold readAll
  rfl

/-- A record at the front is read first. -/
theorem readAll_serialize (temp : Account) {acc : Account} (rest : Bytes) (fits : acc.Fits p) :
    readAll p temp (.ofBytes (acc.serialize p ++ rest)) =
      match readAll p acc (.ofBytes rest) with
      | .error e => .error e
      | .ok (accs, last) => .ok (acc :: accs, last) := by
  have read := read_serialize temp rest fits
  obtain ⟨b, bs, cons⟩ := List.exists_cons_of_ne_nil
    (List.append_ne_nil_of_left_ne_nil (acc.serialize_ne_nil (p := p)) rest)
  rw [cons] at read ⊢
  rw [readAll]
  split
  · rename_i peeked
    rw [IStream.peek_ofBytes_cons] at peeked
    cases peeked
  · rename_i peeked
    rw [IStream.peek_ofBytes_cons] at peeked
    cases peeked
    split
    · rename_i thrown
      rw [read] at thrown
      cases thrown
    · rename_i result
      rw [read] at result
      cases result
      rfl

/-- **Round trip.** Accounts written one after another are read back in order,
by any object; when the last `peek()` answers `EOF` the stream has no flag set
before it and no byte left. -/
theorem readAll_writeAll (accs : List {acc : Account // acc.Fits p}) (temp : Account) :
    ∃ is, readAll p temp (.ofBytes (writeAll p (accs.map Subtype.val))) =
        .ok (accs.map Subtype.val, is) ∧
      is.rest = [] ∧ is.eof = false ∧ is.fail = false ∧ is.peek.1 = none := by
  refine ⟨.ofBytes [], ?_, rfl, rfl, rfl, rfl⟩
  rw [writeAll, foldl_write, List.nil_append]
  induction accs generalizing temp with
  | nil => exact readAll_nil p temp
  | cons acc accs ih =>
      rw [List.map_cons, serializeAll_cons, readAll_serialize p temp _ acc.property, ih]

end Account

end CppLab.FileHandle
