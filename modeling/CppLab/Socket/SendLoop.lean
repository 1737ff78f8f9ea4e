import CppLab.Env.Posix

/-!
# The partial-write loop

`TCPServer::sendAll` and `TCPClient::send` contain the same loop,

    while (total < len) {
      ssize_t sent = send(fd, data + total, len - total, 0);
      if (sent <= 0) throw std::runtime_error("send failed");
      total += sent;
    }

modelled here once. A thread inside the loop is blocked in `send` with
`total < len`; that is the `lt` field of `Sending`, so a loop that has already
written everything cannot be represented as still writing.
-/

namespace CppLab.Socket

open CppLab.Posix

/-- Blocked in the loop's `send`, `total` of the bytes of `data` accepted. -/
structure Sending where
  data : Bytes
  total : Nat
  lt : total < data.length
  deriving DecidableEq

/-- Control points of the loop. -/
inductive SendLoop
  | sending (s : Sending)
  | returned
  | threw (what : String)
  deriving DecidableEq

/-- The head of the loop, `while (total < len)`. -/
def sendFrom (data : Bytes) (total : Nat) : SendLoop :=
  if h : total < data.length then .sending ⟨data, total, h⟩ else .returned

namespace Sending

/-- What the blocked `send` is offered: `len - total` bytes at `data + total`. -/
def rest (s : Sending) : Bytes := s.data.drop s.total

/-- The call the loop is blocked in. -/
def call (fd : Int) (s : Sending) : Call := .send fd s.rest

/-- The loop body after `send` has answered `sent`. -/
def resume (s : Sending) (sent : Int) : SendLoop :=
  if sent ≤ 0 then .threw "send failed" else sendFrom s.data (s.total + sent.toNat)

theorem rest_ne_nil (s : Sending) : s.rest ≠ [] := by
  have lt := s.lt
  intro h
  rw [rest, List.drop_eq_nil_iff] at h
  omega

theorem rest_length_pos (s : Sending) : 0 < s.rest.length :=
  List.length_pos_iff.mpr s.rest_ne_nil

/-- What an answered `send` hands to the kernel is the front of `rest`. -/
@[simp] theorem acceptedBy_call (fd : Int) (s : Sending) (sent : Int) :
    acceptedBy (s.call fd, .int sent) = s.rest.take sent.toNat := rfl

/-- The inversion of the loop body: it throws on a failed `send`; otherwise
the accepted bytes leave the front of `rest`, and the loop ends exactly when
none are left. -/
theorem resume_cases (s : Sending) (sent : Int) :
    (sent ≤ 0 ∧ s.resume sent = .threw "send failed") ∨
    (0 < sent ∧ s.rest.take sent.toNat = s.rest ∧ s.resume sent = .returned) ∨
    (0 < sent ∧ ∃ s', s.resume sent = .sending s' ∧ s'.data = s.data ∧
      s.rest.take sent.toNat ++ s'.rest = s.rest) := by
  by_cases hs : sent ≤ 0
  · exact .inl ⟨hs, if_pos hs⟩
  · have pos : 0 < sent := by omega
    have unfolded : s.resume sent = sendFrom s.data (s.total + sent.toNat) := if_neg hs
    by_cases hlt : s.total + sent.toNat < s.data.length
    · refine .inr (.inr ⟨pos, ⟨s.data, s.total + sent.toNat, hlt⟩, ?_, rfl, ?_⟩)
      · rw [unfolded]
        exact dif_pos hlt
      · simp only [rest, ← List.drop_drop, List.take_append_drop]
    · refine .inr (.inl ⟨pos, ?_, ?_⟩)
      · rw [List.take_eq_self_iff, rest, List.length_drop]
        omega
      · rw [unfolded]
        exact dif_neg hlt

/-- A successful `send` accepts at least one byte. -/
theorem take_rest_ne_nil (s : Sending) {sent : Int} (pos : 0 < sent) :
    s.rest.take sent.toNat ≠ [] := by
  have := s.rest_length_pos
  rw [← List.length_pos_iff, List.length_take]
  omega

end Sending

/-- Entering the loop: nothing to do for an empty buffer, otherwise blocked in
the first `send` with the whole buffer to go. -/
theorem sendFrom_zero (data : Bytes) :
    (data = [] ∧ sendFrom data 0 = .returned) ∨
    (∃ s, sendFrom data 0 = .sending s ∧ s.data = data ∧ s.rest = data) := by
  by_cases h : 0 < data.length
  · exact .inr ⟨⟨data, 0, h⟩, dif_pos h, rfl, rfl⟩
  · refine .inl ⟨?_, dif_neg h⟩
    exact List.eq_nil_of_length_eq_zero (by omega)

/-- Entering the loop with something to write. -/
theorem sendFrom_zero_of_ne_nil {data : Bytes} (ne : data ≠ []) :
    ∃ s, sendFrom data 0 = .sending s ∧ s.data = data ∧ s.rest = data := by
  rcases sendFrom_zero data with ⟨h, _⟩ | h
  · exact absurd h ne
  · exact h

end CppLab.Socket
