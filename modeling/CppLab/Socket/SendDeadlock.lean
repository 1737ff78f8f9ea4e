import CppLab.Socket.Link

/-!
# Both parties blocked in `send`

The client writes a whole line before it reads, the server echoes a whole chunk
before it reads again. With bounded buffers both can be blocked in `send`, each
waiting for the other to read: what is in flight then fills both buffers, and
each party has a byte more in hand. A line that leaves no room for that cannot
bring it about.
-/

namespace CppLab.Socket.Link

open CppLab.Posix CppLab.Socket.TCPServer

/-- The client is blocked in the loop of `send` with `up` full, the server in
`sendAll` with `down` full. -/
def Deadlock (upCap downCap : Nat) (s : Link) : Prop :=
  (∃ l, s.client.pc = .sending l) ∧ upCap ≤ s.up.length ∧
    (∃ l, s.server = .welcome l ∨ s.server = .echo l) ∧ downCap ≤ s.down.length

/-- The condition on a line, when the client has read it: with what is on its
way to the server it fits into `up` and the part of `down`, and one byte more,
that the server does not need for what it holds. -/
def Fitting (upCap downCap : Nat) (s : Link) : Label → Prop
  | .client (.getline, .line (some msg)) =>
      s.up.length + (msg.length + 1) ≤
        upCap + (downCap + 1 - (s.down.length + (hold s.server).length))
  | _ => True

instance (upCap downCap : Nat) (s : Link) : (l : Label) → Decidable (Fitting upCap downCap s l)
  | .client (.getline, .line (some msg)) =>
      inferInstanceAs (Decidable (s.up.length + (msg.length + 1) ≤
        upCap + (downCap + 1 - (s.down.length + (hold s.server).length))))
  | .client (.getline, .line none) | .client (.getline, .int _) | .client (.getline, .data _)
  | .client (.socket, _) | .client (.inetPton, _) | .client (.connect _, _)
  | .client (.send _ _, _) | .client (.recv _ _, _) | .client (.close _, _)
  | .server _ => .isTrue trivial

/-- The bytes on the client's side of the server fit as `Fitting` says. -/
structure Balance (upCap downCap cfd : Nat) (s : Link) : Prop where
  attached : Attached cfd s.client
  room : s.down.length ≤ downCap
  fits : s.up.length + (unsent s.client.pc).length ≤
    upCap + (downCap + 1 - (s.down.length + (hold s.server).length))

theorem balance_init (port : UInt16) (upCap downCap cfd sfd : Nat) :
    Balance upCap downCap cfd (link port cfd sfd (some upCap) (some downCap)).init where
  attached := .inl ⟨rfl, trivial⟩
  room := Nat.zero_le downCap
  fits := Nat.zero_le _

/-- A `send` that completes leaves the buffer within its capacity. -/
theorem length_le_of_send {cap : Nat} {ended : Bool} {out inn out' inn' buf : Bytes}
    {fd sent : Int}
    (h : transfer (some cap) ended out inn (.send fd buf, .int sent) = some (out', inn')) :
    out'.length ≤ cap := by
  obtain ⟨_, fits, rfl, _⟩ := transfer_send h
  have fits : out.length + sent.toNat ≤ cap := fits cap rfl
  rw [List.length_append, List.length_take]
  omega

/-- Step lemma for the server. -/
theorem balance_server {port : UInt16} {upCap downCap cfd sfd : Nat} {s s' : Link} {e : Event}
    (inv : Balance upCap downCap cfd s)
    (h : (link port cfd sfd (some upCap) (some downCap)).step s (.server e) = some s') :
    Balance upCap downCap cfd s' := by
  obtain ⟨attached, room, fits⟩ := inv
  obtain ⟨move, client, htransfer⟩ := step_server h
  have total := congrArg List.length (server_conserves move htransfer)
  simp only [List.length_append] at total
  suffices bytes : s'.down.length ≤ downCap ∧ s'.up.length + (unsent s.client.pc).length ≤
      upCap + (downCap + 1 - (s'.down.length + (hold s'.server).length)) from
    ⟨client ▸ attached, bytes.1, client ▸ bytes.2⟩
  -- a step that leaves `up` alone moves bytes between what is held and `down` only
  have still : s'.up = s.up → s'.down.length ≤ downCap →
      s'.down.length ≤ downCap ∧ s'.up.length + (unsent s.client.pc).length ≤
        upCap + (downCap + 1 - (s'.down.length + (hold s'.server).length)) := by
    intro same room'
    rw [same] at total ⊢
    exact ⟨room', by omega⟩
  generalize hpc : s.server = pc at move fits total
  generalize hpc' : s'.server = pc' at move total still ⊢
  cases move with
  | welcomeFail _ => exact still (transfer_send htransfer).2.2.2 (length_le_of_send htransfer)
  | welcomeMore _ _ => exact still (transfer_send htransfer).2.2.2 (length_le_of_send htransfer)
  | welcomeDone _ _ => exact still (transfer_send htransfer).2.2.2 (length_le_of_send htransfer)
  | eof =>
      obtain ⟨_, _, hdown, hup⟩ := transfer_end htransfer
      exact still hup (hdown ▸ room)
  | recvFail _ =>
      obtain ⟨_, _, hdown, hup⟩ := transfer_end htransfer
      exact still hup (hdown ▸ room)
  | @recvData l _ hrest =>
      -- the chunk changes sides; the server held nothing, so `down` has the room
      obtain ⟨hdown, hup⟩ := transfer_data htransfer
      have none : (hold .recv).length = 0 := rfl
      have chunk : s.up.length = l.data.length + s'.up.length := by
        rw [hup, List.length_append]
      rw [none] at fits total
      rw [hdown] at total ⊢
      exact ⟨room, by omega⟩
  | echoFail _ => exact still (transfer_send htransfer).2.2.2 (length_le_of_send htransfer)
  | echoMore _ _ _ => exact still (transfer_send htransfer).2.2.2 (length_le_of_send htransfer)
  | echoQuit _ _ _ => exact still (transfer_send htransfer).2.2.2 (length_le_of_send htransfer)
  | echoNext _ _ _ => exact still (transfer_send htransfer).2.2.2 (length_le_of_send htransfer)
  | close =>
      obtain ⟨hdown, hup⟩ := transfer_close htransfer
      exact still hup (hdown ▸ room)

/-- A `send` moves bytes from the hand of the client into `up`. -/
theorem total_of_send {cap : Option Nat} {ended : Bool} {up down up' down' held : Bytes} {fd : Int}
    {l : Sending} {sent : Int} {n : Nat}
    (h : transfer cap ended up down (l.call fd, .int sent) = some (up', down'))
    (fits : up.length + l.rest.length ≤ n) (split : l.rest.take sent.toNat ++ held = l.rest) :
    down'.length ≤ down.length ∧ up'.length + held.length ≤ n := by
  obtain ⟨_, _, hup, hdown⟩ := transfer_send h
  have lengths := congrArg List.length split
  rw [List.length_append] at lengths
  rw [hup, hdown, List.length_append]
  exact ⟨Nat.le_refl _, by omega⟩

/-- A `recv` takes bytes from `down` only. -/
theorem total_of_recv {cap : Option Nat} {ended : Bool} {up down up' down' : Bytes} {fd : Int}
    {len : Nat} {r : Ret} {n : Nat}
    (h : transfer cap ended up down (.recv fd len, r) = some (up', down'))
    (fits : up.length ≤ n) : down'.length ≤ down.length ∧ up'.length ≤ n := by
  cases r with
  | data chunk =>
      obtain ⟨hup, hdown⟩ := transfer_data h
      rw [hup]
      refine ⟨?_, fits⟩
      rw [hdown, List.length_append]
      exact Nat.le_add_left _ _
  | int r =>
      obtain ⟨_, _, hup, hdown⟩ := transfer_end h
      rw [hup, hdown]
      exact ⟨Nat.le_refl _, fits⟩
  | line msg =>
      injection h with h
      injection h with hup hdown
      rw [← hup, ← hdown]
      exact ⟨Nat.le_refl _, fits⟩

/-- Step lemma for the client. -/
theorem balance_client {port : UInt16} {upCap downCap cfd sfd : Nat} {s s' : Link} {e : Event}
    (inv : Balance upCap downCap cfd s) (fitting : Fitting upCap downCap s (.client e))
    (h : (link port cfd sfd (some upCap) (some downCap)).step s (.client e) = some s') :
    Balance upCap downCap cfd s' := by
  obtain ⟨attached, room, fits⟩ := inv
  obtain ⟨move, attached', server, htransfer⟩ := step_client attached h
  suffices bytes : s'.down.length ≤ s.down.length ∧
      s'.up.length + (unsent s'.client.pc).length ≤
        upCap + (downCap + 1 - (s.down.length + (hold s.server).length)) by
    refine ⟨attached', by omega, ?_⟩
    rw [server]
    omega
  generalize hpc : s.client.pc = pc at move fits
  generalize s'.client.pc = pc' at move
  cases move with
  | greet => exact total_of_recv htransfer fits
  | greetEnd => exact total_of_recv htransfer fits
  | @line msg l hrest =>
      obtain ⟨hup, hdown⟩ := transfer_getline htransfer
      have whole : (unsent (.sending l)).length = msg.length + 1 := by
        show l.rest.length = _
        rw [hrest, List.length_append]
        rfl
      rw [whole, hup, hdown]
      exact ⟨Nat.le_refl _, fitting⟩
  | inputEnd =>
      obtain ⟨hup, hdown⟩ := transfer_getline htransfer
      rw [hup, hdown]
      exact ⟨Nat.le_refl _, fits⟩
  | sendFail neg =>
      obtain ⟨pos, _⟩ := transfer_send htransfer
      omega
  | sendMore _ hrest => exact total_of_send htransfer fits hrest
  | sendDone _ hrest =>
      exact total_of_send htransfer fits (by rw [hrest]; exact List.append_nil _)
  | response => exact total_of_recv htransfer fits
  | responseEnd => exact total_of_recv htransfer fits
  | close =>
      obtain ⟨hup, hdown⟩ := transfer_close htransfer
      rw [hup, hdown]
      exact ⟨Nat.le_refl _, fits⟩

/-- Run lemma. -/
theorem balance_run {port : UInt16} {upCap downCap cfd sfd : Nat} {tr : List Label} {s : Link}
    (run : ((link port cfd sfd (some upCap) (some downCap)).restrict
      (Fitting upCap downCap)).run tr = some s) : Balance upCap downCap cfd s := by
  refine System.state_invariant
    (T := (link port cfd sfd (some upCap) (some downCap)).restrict (Fitting upCap downCap))
    (balance_init port upCap downCap cfd sfd) ?_ run
  intro s l s' inv h
  obtain ⟨fitting, h⟩ := System.restrict_step_eq_some.mp h
  cases l with
  | client e => exact balance_client inv fitting h
  | server e => exact balance_server inv h

/-- Blocked parties have something in hand. -/
theorem not_deadlock_of_balance {upCap downCap cfd : Nat} {s : Link}
    (inv : Balance upCap downCap cfd s) : ¬ Deadlock upCap downCap s := by
  rintro ⟨⟨l, hclient⟩, upFull, ⟨k, hserver⟩, downFull⟩
  have fits := inv.fits
  have unsentPos : 0 < (unsent s.client.pc).length := by
    rw [hclient]
    exact l.rest_length_pos
  have holdPos : 0 < (hold s.server).length := by
    rcases hserver with hserver | hserver <;> rw [hserver] <;> exact k.rest_length_pos
  omega

/-- **No mutual send deadlock.** Over buffers of any capacities, in every
interleaving in which each line the client reads is a fitting one, the parties
are never blocked in `send` both at once. -/
theorem no_send_deadlock (port : UInt16) (upCap downCap cfd sfd : Nat) {tr : List Label}
    {s : Link} (run : ((link port cfd sfd (some upCap) (some downCap)).restrict
      (Fitting upCap downCap)).run tr = some s) : ¬ Deadlock upCap downCap s :=
  not_deadlock_of_balance (balance_run run)

/-- The welcome fills `down` and is received; a line is sent. -/
def fitting (length : Nat) : List Label :=
  [.server (.send 4 (welcome 80), .int 72), .client (.recv 3 1024, .data (welcome 80)),
    .client (.getline, .line (some (List.replicate length 97)))]

theorem no_send_deadlock_sample :
    ∃ s, ((link 80 3 4 (some 73) (some 72)).restrict (Fitting 73 72)).run (fitting 145) = some s ∧
      ¬ Deadlock 73 72 s := by
  have guarded : (((link 80 3 4 (some 73) (some 72)).restrict (Fitting 73 72)).run
      (fitting 145)).isSome = true := by decide +kernel
  obtain ⟨s, run⟩ := Option.isSome_iff_exists.mp guarded
  exact ⟨s, run, no_send_deadlock 80 73 72 3 4 run⟩

/-- A line one byte longer, in pieces that fill both buffers. -/
def sampleBlocked : List Label :=
  fitting 146 ++
    [.client (.send 3 (List.replicate 146 97 ++ [newline]), .int 73),
      .server (.recv 4 1023, .data (List.replicate 73 97)),
      .server (.send 4 (List.replicate 73 97), .int 72),
      .client (.send 3 (List.replicate 73 97 ++ [newline]), .int 73)]

theorem not_no_send_deadlock :
    ∃ s, (link 80 3 4 (some 73) (some 72)).run sampleBlocked = some s ∧ Deadlock 73 72 s := by
  refine ⟨⟨⟨3, .sending ⟨List.replicate 146 97 ++ [newline], 146, by simp⟩⟩,
    .echo ⟨List.replicate 73 97, 72, by simp⟩, List.replicate 73 97, List.replicate 72 97⟩,
    by decide +kernel, ⟨_, rfl⟩, ?_, ⟨_, .inr rfl⟩, ?_⟩
  · rw [List.length_replicate]
  · rw [List.length_replicate]

end CppLab.Socket.Link
