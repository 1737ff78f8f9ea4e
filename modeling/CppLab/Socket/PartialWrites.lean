import CppLab.Lib.Buffer
import CppLab.Socket.SendLoop

/-!
# `TCPServer::sendAll` and `TCPClient::send`

The two functions with the types of the sources: counters and requests are `size_t`,
the results of `send` are `ssize_t`. A run is what a function does with a list of
results, so any list of results is a behaviour of the kernel.

`SendLoop`, which counts in natural numbers, is what the loops compute as long as the
kernel accepts no more than it is offered (`sendAllLoop_refines`).
-/

namespace CppLab.Socket.PartialWrites

/-- `send(fd, data + offset, length, 0)`. -/
structure Request where
  fd : Int
  offset : UInt64
  length : UInt64
  deriving DecidableEq, Repr

inductive Outcome
  | returned
  | threw (what : String)
  deriving DecidableEq, Repr

/-- The requests, and how the function has ended, `none` if it waits for the answer to
the last of them. -/
structure Run where
  requests : List Request
  outcome : Option Outcome
  deriving DecidableEq, Repr

/-- A run with a request in front. -/
def Run.cons (run : Run) (r : Request) : Run := ⟨r :: run.requests, run.outcome⟩

/-! ## `TCPServer::sendAll` -/

namespace TCPServer

/-- `while (total < len)`, with the results of the sends to come. -/
def sendAllLoop (fd : Int) (len : UInt64) : UInt64 → List Int64 → Run
  | total, [] =>
      if total < len then ⟨[⟨fd, total, len - total⟩], none⟩ else ⟨[], some .returned⟩
  | total, sent :: results =>
      if total < len then
        if sent ≤ 0 then ⟨[⟨fd, total, len - total⟩], some (.threw "send failed")⟩
        else
          (sendAllLoop fd len (total + sent.toUInt64) results).cons ⟨fd, total, len - total⟩
      else ⟨[], some .returned⟩

/-- `sendAll(fd, data, len)` of a whole buffer. -/
def sendAll (fd : Int) (data : Buffer UInt8) (results : List Int64) : Run :=
  sendAllLoop fd data.size 0 results

end TCPServer

/-! ## `TCPClient::send` -/

namespace TCPClient

/-- `while (total < len)`, with the results of the sends to come. -/
def sendLoop (client_fd_ : Int) (len : UInt64) : UInt64 → List Int64 → Run
  | total, [] =>
      if total < len then ⟨[⟨client_fd_, total, len - total⟩], none⟩ else ⟨[], some .returned⟩
  | total, sent :: results =>
      if total < len then
        if sent ≤ 0 then ⟨[⟨client_fd_, total, len - total⟩], some (.threw "send failed")⟩
        else
          (sendLoop client_fd_ len (total + sent.toUInt64) results).cons
            ⟨client_fd_, total, len - total⟩
      else ⟨[], some .returned⟩

/-- `send(msg)`. -/
def send (client_fd_ : Int) (msg : Buffer UInt8) (results : List Int64) : Run :=
  if client_fd_ < 0 then ⟨[], some (.threw "socket not connected")⟩
  else sendLoop client_fd_ msg.size 0 results

end TCPClient

/-! ## What POSIX allows and what is accepted -/

/-- Each result is a count up to the length of its request, or it is not positive. -/
def Allowed (requests : List Request) (results : List Int64) : Prop :=
  ∀ p ∈ requests.zip results, p.2.toInt ≤ p.1.length.toNat

instance (requests : List Request) (results : List Int64) : Decidable (Allowed requests results) :=
  inferInstanceAs (Decidable (∀ p ∈ requests.zip results, p.2.toInt ≤ p.1.length.toNat))

/-- The front of an offer that a result accepts. -/
def piece (offer : Bytes) (sent : Int64) : Bytes := offer.take sent.toInt.toNat

/-- The bytes that are offered by a request. -/
def Request.offer (data : Buffer UInt8) (r : Request) : Bytes := data.slice r.offset r.length

/-- The pieces that the kernel has accepted, one behind the other. -/
def Run.accepted (data : Buffer UInt8) (results : List Int64) (run : Run) : Bytes :=
  (List.zipWith piece (run.requests.map (·.offer data)) results).flatten

/-- A function that sends each byte of the buffer once. With as many results as there
are bytes it has ended; it has returned with the whole buffer accepted, or thrown with a
proper prefix of it. -/
structure SendsOnce (data : Buffer UInt8) (results : List Int64) (run : Run) : Prop where
  terminates : data.items.length ≤ results.length → run.outcome ≠ none
  returned : run.outcome = some .returned → run.accepted data results = data.items
  threw : ∀ what, run.outcome = some (.threw what) →
    run.accepted data results <+: data.items ∧ run.accepted data results ≠ data.items

/-! ## The loop in natural numbers -/

/-- What the sends of the loop are offered. -/
def offers : SendLoop → List Int64 → List Bytes
  | .sending s, [] => [s.rest]
  | .sending s, sent :: results => s.rest :: offers (s.resume sent.toInt) results
  | _, _ => []

/-- The loop after some results. -/
def after : SendLoop → List Int64 → SendLoop
  | .sending s, sent :: results => after (s.resume sent.toInt) results
  | loop, _ => loop

def outcome : SendLoop → Option Outcome
  | .sending _ => none
  | .returned => some .returned
  | .threw what => some (.threw what)

/-- What the kernel accepts of the offers. -/
def taken (loop : SendLoop) (results : List Int64) : Bytes :=
  (List.zipWith piece (offers loop results) results).flatten

theorem after_returned (results : List Int64) : after .returned results = .returned := by
  cases results <;> rfl

theorem after_threw (what : String) (results : List Int64) :
    after (.threw what) results = .threw what := by
  cases results <;> rfl

theorem taken_returned (results : List Int64) : taken .returned results = [] := by
  cases results <;> rfl

theorem taken_threw (what : String) (results : List Int64) : taken (.threw what) results = [] := by
  cases results <;> rfl

theorem taken_cons (s : Sending) (sent : Int64) (results : List Int64) :
    taken (.sending s) (sent :: results) =
      piece s.rest sent ++ taken (s.resume sent.toInt) results := rfl

/-- What is accepted and what is left are what there was to write. The loop returns
with nothing left and throws with something left; while it goes on, each result has
taken a byte. -/
theorem exists_left (s : Sending) (results : List Int64) :
    ∃ left, taken (.sending s) results ++ left = s.rest ∧
      (outcome (after (.sending s) results) = some .returned → left = []) ∧
      (∀ what, outcome (after (.sending s) results) = some (.threw what) → left ≠ []) ∧
      (outcome (after (.sending s) results) = none → results.length < s.rest.length) := by
  induction results generalizing s with
  | nil => exact ⟨s.rest, rfl, nofun, nofun, fun _ => s.rest_length_pos⟩
  | cons sent results ih =>
      rcases s.resume_cases sent.toInt with ⟨failed, next⟩ | ⟨-, all, next⟩ |
        ⟨positive, s', next, -, split⟩
      · have nothing : piece s.rest sent = [] := by
          rw [piece, Int.toNat_of_nonpos failed, List.take_zero]
        have ends : after (.sending s) (sent :: results) = .threw "send failed" := by
          rw [after, next, after_threw]
        rw [ends, taken_cons, next, taken_threw, nothing]
        exact ⟨s.rest, rfl, nofun, fun _ _ => s.rest_ne_nil, nofun⟩
      · have ends : after (.sending s) (sent :: results) = .returned := by
          rw [after, next, after_returned]
        rw [ends, taken_cons, next, taken_returned, piece, all]
        exact ⟨[], by rw [List.append_nil, List.append_nil], fun _ => rfl, nofun, nofun⟩
      · obtain ⟨left, rest, returned, threw, goes⟩ := ih s'
        have goesOn : after (.sending s) (sent :: results) = after (.sending s') results := by
          rw [after, next]
        rw [goesOn, taken_cons, next]
        refine ⟨left, ?_, returned, threw, ?_⟩
        · rw [List.append_assoc, rest]
          exact split
        · intro goesOn
          -- the piece that was accepted is not empty
          have fewer := goes goesOn
          have accepts := List.length_pos_iff.mpr (s.take_rest_ne_nil positive)
          have lengths := congrArg List.length split
          rw [List.length_append] at lengths
          rw [List.length_cons]
          omega

/-! ## The loops at their machine types -/

/-- The client's loop is the server's. -/
theorem sendLoop_eq (fd : Int) (len total : UInt64) (results : List Int64) :
    TCPClient.sendLoop fd len total results = TCPServer.sendAllLoop fd len total results := by
  induction results generalizing total with
  | nil => rfl
  | cons sent results ih => rw [TCPClient.sendLoop, TCPServer.sendAllLoop, ih]

theorem send_eq_sendAll {fd : Int} (connected : 0 ≤ fd) (data : Buffer UInt8)
    (results : List Int64) :
    TCPClient.send fd data results = TCPServer.sendAll fd data results := by
  rw [TCPClient.send, if_neg (Int.not_lt.mpr connected), sendLoop_eq, TCPServer.sendAll]

theorem send_not_connected {fd : Int} (negative : fd < 0) (data : Buffer UInt8)
    (results : List Int64) :
    TCPClient.send fd data results = ⟨[], some (.threw "socket not connected")⟩ :=
  if_pos negative

/-- A positive result as a `size_t`. -/
theorem toNat_toUInt64 {sent : Int64} (positive : ¬ sent ≤ 0) :
    sent.toUInt64.toNat = sent.toInt.toNat := by
  rw [Int64.toNat_toInt]
  apply Int64.toNat_toUInt64_of_le
  rw [Int64.le_iff_toInt_le] at positive ⊢
  omega

variable {data : Buffer UInt8} {total : UInt64}

/-- The rest of the buffer is what the request offers. -/
theorem offer_eq (fd : Int) (more : total < data.size) :
    (Request.mk fd total (data.size - total)).offer data = data.items.drop total.toNat := by
  rw [Request.offer, Buffer.slice, List.take_eq_self_iff, List.length_drop,
    UInt64.toNat_sub_of_le _ _ (UInt64.le_of_lt more), Buffer.toNat_size]

/-- `total += sent` does not wrap. -/
theorem toNat_add_sent {sent : Int64} (inside : total ≤ data.size) (positive : ¬ sent ≤ 0)
    (accepts : sent.toInt ≤ (data.size - total).toNat) :
    (total + sent.toUInt64).toNat = total.toNat + sent.toInt.toNat ∧
      total + sent.toUInt64 ≤ data.size := by
  have same := toNat_toUInt64 positive
  rw [UInt64.toNat_sub_of_le _ _ inside] at accepts
  rw [UInt64.le_iff_toNat_le, Buffer.toNat_size] at inside ⊢
  rw [Buffer.toNat_size] at accepts
  have room : total.toNat + sent.toUInt64.toNat ≤ data.items.length := by omega
  rw [Buffer.toNat_add room, same]
  omega

/-- The result of a request that is followed by others. -/
theorem Allowed.head {r : Request} {requests : List Request} {sent : Int64} {results : List Int64}
    (allowed : Allowed (r :: requests) (sent :: results)) :
    sent.toInt ≤ r.length.toNat ∧ Allowed requests results :=
  List.forall_mem_cons.mp allowed

theorem sendFrom_of_lt (more : total < data.size) :
    ∃ s, sendFrom data.items total.toNat = .sending s ∧ s.data = data.items ∧
      s.total = total.toNat := by
  rw [UInt64.lt_iff_toNat_lt, Buffer.toNat_size] at more
  exact ⟨⟨data.items, total.toNat, more⟩, dif_pos more, rfl, rfl⟩

theorem sendFrom_of_not_lt (done : ¬ total < data.size) :
    sendFrom data.items total.toNat = .returned := by
  rw [UInt64.lt_iff_toNat_lt, Buffer.toNat_size] at done
  exact dif_neg done

/-- **Refinement.** The loop with machine words offers what the loop with natural numbers
offers, and ends as that does. -/
theorem sendAllLoop_refines {fd : Int} {results : List Int64} (inside : total ≤ data.size)
    (allowed : Allowed (TCPServer.sendAllLoop fd data.size total results).requests results) :
    (TCPServer.sendAllLoop fd data.size total results).requests.map (·.offer data) =
        offers (sendFrom data.items total.toNat) results ∧
      (TCPServer.sendAllLoop fd data.size total results).outcome =
        outcome (after (sendFrom data.items total.toNat) results) := by
  induction results generalizing total with
  | nil =>
      rw [TCPServer.sendAllLoop]
      by_cases more : total < data.size
      · obtain ⟨s, blocked, buffer, counter⟩ := sendFrom_of_lt more
        rw [if_pos more, blocked, List.map_singleton, offer_eq fd more, ← buffer, ← counter]
        exact ⟨rfl, rfl⟩
      · rw [if_neg more, sendFrom_of_not_lt more]
        exact ⟨rfl, rfl⟩
  | cons sent results ih =>
      rw [TCPServer.sendAllLoop] at allowed ⊢
      by_cases more : total < data.size
      · obtain ⟨s, blocked, buffer, counter⟩ := sendFrom_of_lt more
        have offer : (Request.mk fd total (data.size - total)).offer data = s.rest := by
          rw [offer_eq fd more, ← buffer, ← counter]
          rfl
        rw [if_pos more] at allowed ⊢
        rw [blocked, after, offers]
        by_cases failed : sent ≤ 0
        · have throws : s.resume sent.toInt = .threw "send failed" :=
            if_pos (Int64.le_iff_toInt_le.mp failed)
          rw [if_pos failed, throws, after_threw, List.map_singleton, offer]
          cases results with
          | nil | cons next results => exact ⟨rfl, rfl⟩
        · rw [if_neg failed] at allowed ⊢
          obtain ⟨accepts, others⟩ := allowed.head
          obtain ⟨sum, inside'⟩ := toNat_add_sent inside failed accepts
          have goesOn : s.resume sent.toInt =
              sendFrom data.items (total + sent.toUInt64).toNat := by
            rw [sum, ← buffer, ← counter]
            exact if_neg fun bad => failed (Int64.le_iff_toInt_le.mpr bad)
          obtain ⟨offered, ends⟩ := ih inside' others
          rw [goesOn, ← offered, ← ends, ← offer]
          exact ⟨rfl, rfl⟩
      · rw [if_neg more, sendFrom_of_not_lt more]
        exact ⟨rfl, rfl⟩

/-! ## The main result -/

/-- The loop from the start of a buffer, in natural numbers. -/
theorem exists_left_sendFrom (bytes : Bytes) (results : List Int64) :
    ∃ left, taken (sendFrom bytes 0) results ++ left = bytes ∧
      (outcome (after (sendFrom bytes 0) results) = some .returned → left = []) ∧
      (∀ what, outcome (after (sendFrom bytes 0) results) = some (.threw what) → left ≠ []) ∧
      (outcome (after (sendFrom bytes 0) results) = none → results.length < bytes.length) := by
  rcases sendFrom_zero bytes with ⟨rfl, ended⟩ | ⟨s, blocked, -, whole⟩
  · rw [ended, after_returned, taken_returned]
    exact ⟨[], rfl, fun _ => rfl, nofun, nofun⟩
  · obtain ⟨left, split, returned, threw, goes⟩ := exists_left s results
    rw [blocked, ← whole]
    exact ⟨left, split, returned, threw, goes⟩

/-- What the machine loop has accepted is what the loop in natural numbers has. -/
theorem accepted_sendAll {fd : Int} {results : List Int64}
    (allowed : Allowed (TCPServer.sendAll fd data results).requests results) :
    (TCPServer.sendAll fd data results).accepted data results =
        taken (sendFrom data.items 0) results ∧
      (TCPServer.sendAll fd data results).outcome =
        outcome (after (sendFrom data.items 0) results) := by
  have start : (0 : UInt64) ≤ data.size := by
    rw [UInt64.le_iff_toNat_le]
    exact Nat.zero_le _
  obtain ⟨offered, ends⟩ := sendAllLoop_refines start allowed
  refine ⟨?_, ends⟩
  rw [Run.accepted, taken]
  exact congrArg (fun offers => (List.zipWith piece offers results).flatten) offered

theorem sendsOnce_sendAll {fd : Int} {results : List Int64}
    (allowed : Allowed (TCPServer.sendAll fd data results).requests results) :
    SendsOnce data results (TCPServer.sendAll fd data results) := by
  obtain ⟨accepted, ends⟩ := accepted_sendAll allowed
  obtain ⟨left, split, returned, threw, goes⟩ := exists_left_sendFrom data.items results
  rw [← ends] at returned threw goes
  rw [← accepted] at split
  constructor
  · intro enough waits
    exact absurd (goes waits) (Nat.not_lt.mpr enough)
  · intro here
    rw [returned here, List.append_nil] at split
    exact split
  · intro what here
    refine ⟨⟨left, split⟩, ?_⟩
    intro all
    rw [all] at split
    exact threw what here (List.append_right_eq_self.mp split)

/-- **Partial writes.** For every buffer, every descriptor and every list of results
that the requests allow, `sendAll` ends, and it sends each byte once. `send` of a client
with a descriptor does the same, with the same requests; without one it throws in front
of the first request. -/
theorem partial_writes (data : Buffer UInt8) (fd : Int) {results : List Int64}
    (allowed : Allowed (TCPServer.sendAll fd data results).requests results) :
    SendsOnce data results (TCPServer.sendAll fd data results) ∧
    (0 ≤ fd → SendsOnce data results (TCPClient.send fd data results) ∧
      (TCPClient.send fd data results).requests = (TCPServer.sendAll fd data results).requests ∧
      (TCPClient.send fd data results).outcome = (TCPServer.sendAll fd data results).outcome) ∧
    (fd < 0 → TCPClient.send fd data results = ⟨[], some (.threw "socket not connected")⟩) := by
  have once := sendsOnce_sendAll allowed
  refine ⟨once, ?_, fun negative => send_not_connected negative data results⟩
  intro connected
  rw [send_eq_sendAll connected]
  exact ⟨once, rfl, rfl⟩

/-- A buffer of some text. -/
def sampleBuffer : Buffer UInt8 := ⟨ascii "hello", by decide⟩

/-- Three writes, the last one of what is left. -/
theorem partial_writes_three :
    (TCPServer.sendAll 4 sampleBuffer [1, 3, 1]).accepted sampleBuffer [1, 3, 1] = ascii "hello" ∧
    (TCPClient.send 4 sampleBuffer [1, 3, 1]).requests = [⟨4, 0, 5⟩, ⟨4, 1, 4⟩, ⟨4, 4, 1⟩] := by
  obtain ⟨once, same, -⟩ := @partial_writes sampleBuffer 4 [1, 3, 1] (by decide)
  have requests := (same (by decide)).2.1
  refine ⟨once.returned (by decide), ?_⟩
  rw [requests]
  decide

/-- A client without a descriptor: nothing is sent where `sendAll` makes a request, and
of the empty buffer the exception leaves no proper prefix. -/
theorem not_same_unconnected :
    (TCPClient.send (-1) sampleBuffer [-1]).requests ≠
      (TCPServer.sendAll (-1) sampleBuffer [-1]).requests ∧
    ¬ SendsOnce ⟨[], by decide⟩ [] (TCPClient.send (-1) ⟨[], by decide⟩ []) := by
  refine ⟨by decide, ?_⟩
  intro once
  exact (once.threw "socket not connected" rfl).2 rfl

end CppLab.Socket.PartialWrites
