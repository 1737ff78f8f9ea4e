import CppLab.Socket.SendLoop

/-!
# `TCPServer::handleClient`

One client session as a process: the welcome, then `recv`, echo, quit test, in
a loop with three exits (end of the stream, the quit command, an exception out
of `sendAll` or `recv`), and the `close` that ends the first two. The third is
finished by the caller: both accept loops run the session as

    try { handleClient(client_fd); }
    catch (const std::exception& e) { std::cerr << ...; close(client_fd); }

which is `Serve`.
-/

namespace CppLab.Socket.TCPServer

open CppLab.Posix CppLab.StdString

/-- `sendAll(fd, data, len)`. -/
def sendAll (fd : Int) (data : Bytes) : Process SendLoop Call Ret where
  init := sendFrom data 0
  pending
    | .sending s => some (s.call fd)
    | _ => none
  resume
    | .sending s, .int sent => s.resume sent
    | pc, _ => pc

/-- The message a session starts with. -/
def welcome (port : UInt16) : Bytes :=
  ascii "Connected to the TCP Server on port " ++ ascii (toString port.toNat) ++
    ascii "\nType 'Q' to stop the connection.\n"

/-- `sizeof(buffer) - 1`, the room `recv` is given in `char buffer[1024]`. -/
def recvRoom : Nat := 1024 - 1

/-- `std::string line(buffer, bytes)` after
`line.erase(line.find_last_not_of("\r\n") + 1)`. -/
def stripped (chunk : Bytes) : Bytes :=
  erase chunk (sizeAdd (findLastNotOf chunk (ascii "\r\n")) 1)

/-- The test `line == "Q"` on a chunk. -/
def isQuit (chunk : Bytes) : Bool := stripped chunk = ascii "Q"

/-- How the session loop was left. -/
inductive Ending
  | eof
  | quit
  deriving DecidableEq, Repr

/-- Control points of `handleClient`: the call the session is blocked in, or
how it has ended. In `echo`, `s.data` is what `recv` left in the buffer. -/
inductive HandleClient
  | welcome (s : Sending)
  | recv
  | echo (s : Sending)
  | close (why : Ending)
  | returned (why : Ending)
  | threw (what : String)
  deriving DecidableEq

/-- The session after the welcome loop has moved. -/
def afterWelcome : SendLoop → HandleClient
  | .sending s => .welcome s
  | .returned => .recv
  | .threw what => .threw what

/-- The session after the echo loop for `chunk` has moved; once the echo is
out, the quit test. -/
def afterEcho (chunk : Bytes) : SendLoop → HandleClient
  | .sending s => .echo s
  | .returned => if isQuit chunk then .close .quit else .recv
  | .threw what => .threw what

namespace HandleClient

/-- The call a control point is blocked in. -/
def pending (fd : Int) : HandleClient → Option Call
  | .welcome s => some (s.call fd)
  | .recv => some (.recv fd recvRoom)
  | .echo s => some (s.call fd)
  | .close _ => some (.close fd)
  | .returned _ => none
  | .threw _ => none

/-- What the session does with the answer to that call. -/
def resume : HandleClient → Ret → HandleClient
  | .welcome s, .int sent => afterWelcome (s.resume sent)
  | .recv, .int bytes => if bytes = 0 then .close .eof else .threw "recv failed"
  | .recv, .data chunk => afterEcho chunk (sendFrom chunk 0)
  | .echo s, .int sent => afterEcho s.data (s.resume sent)
  | .close why, .int _ => .returned why
  | pc, _ => pc

end HandleClient

/-- `handleClient(client_fd)` on a server whose `port_` is `port`. -/
def handleClient (port : UInt16) (fd : Int) : Process HandleClient Call Ret where
  init := afterWelcome (sendFrom (welcome port) 0)
  pending := HandleClient.pending fd
  resume := HandleClient.resume

/-! ## The quit test -/

theorem ascii_Q : ascii "Q" = [81] := by decide

theorem ascii_crlf : ascii "\r\n" = [13, 10] := by decide

theorem stripped_eq {chunk : Bytes} (room : chunk.length ≤ recvRoom) :
    stripped chunk = chunk.rdropWhile (· ∈ ([13, 10] : Bytes)) := by
  have small : chunk.length < 2 ^ 64 := by
    simp only [recvRoom] at room
    omega
  rw [stripped, ascii_crlf, erase_findLastNotOf chunk _ small]

/-- A chunk reads as the quit command when it is a `Q` followed by carriage
returns and newlines only. -/
theorem isQuit_iff {chunk : Bytes} (room : chunk.length ≤ recvRoom) :
    isQuit chunk = true ↔ ∃ tail, chunk = 81 :: tail ∧ ∀ b ∈ tail, b = 13 ∨ b = 10 := by
  simp only [isQuit, stripped_eq room, ascii_Q, decide_eq_true_eq]
  constructor
  · intro h
    refine ⟨chunk.rtakeWhile (· ∈ ([13, 10] : Bytes)), ?_, ?_⟩
    · have split : chunk.rdropWhile (· ∈ ([13, 10] : Bytes)) ++
          chunk.rtakeWhile (· ∈ ([13, 10] : Bytes)) = chunk := List.rdropWhile_append_rtakeWhile
      rw [h] at split
      exact split.symm
    · intro b hb
      simpa using List.mem_rtakeWhile_imp hb
  · rintro ⟨tail, rfl, htail⟩
    have all : ∀ b ∈ tail.reverse, decide (b ∈ ([13, 10] : Bytes)) = true := by
      intro b hb
      simpa using htail b (List.mem_reverse.mp hb)
    rw [List.rdropWhile, List.reverse_cons, List.dropWhile_append_of_pos all]
    decide

theorem welcome_ne_nil (port : UInt16) : welcome port ≠ [] := by
  have h : ascii "Connected to the TCP Server on port " ≠ [] := by decide
  simp [welcome, h]

/-! ## What one step of a session can do -/

/-- The moves of a session: every call it makes, every answer, and where it
stands afterwards. -/
inductive Move (fd : Int) : HandleClient → Event → HandleClient → Prop
  | welcomeFail {s sent} : sent ≤ 0 →
      Move fd (.welcome s) (s.call fd, .int sent) (.threw "send failed")
  | welcomeMore {s s' sent} : 0 < sent → s.rest.take sent.toNat ++ s'.rest = s.rest →
      Move fd (.welcome s) (s.call fd, .int sent) (.welcome s')
  | welcomeDone {s sent} : 0 < sent → s.rest.take sent.toNat = s.rest →
      Move fd (.welcome s) (s.call fd, .int sent) .recv
  | eof : Move fd .recv (.recv fd recvRoom, .int 0) (.close .eof)
  | recvFail {r} : r < 0 → Move fd .recv (.recv fd recvRoom, .int r) (.threw "recv failed")
  | recvData {s} : s.data.length ≤ recvRoom → s.rest = s.data →
      Move fd .recv (.recv fd recvRoom, .data s.data) (.echo s)
  | echoFail {s sent} : sent ≤ 0 →
      Move fd (.echo s) (s.call fd, .int sent) (.threw "send failed")
  | echoMore {s s' sent} : 0 < sent → s'.data = s.data →
      s.rest.take sent.toNat ++ s'.rest = s.rest →
      Move fd (.echo s) (s.call fd, .int sent) (.echo s')
  | echoQuit {s sent} : 0 < sent → s.rest.take sent.toNat = s.rest → isQuit s.data = true →
      Move fd (.echo s) (s.call fd, .int sent) (.close .quit)
  | echoNext {s sent} : 0 < sent → s.rest.take sent.toNat = s.rest → isQuit s.data = false →
      Move fd (.echo s) (s.call fd, .int sent) .recv
  | close {why r} : Move fd (.close why) (.close fd, .int r) (.returned why)

/-- The session system of `handleClient`. -/
abbrev session (port : UInt16) (fd : Int) : System HandleClient Event :=
  (handleClient port fd).system allowed

/-- An answer to a `send` is an integer result. -/
theorem eq_int_of_allowed_send {fd : Int} {buf : Bytes} {r : Ret}
    (h : allowed (.send fd buf) r = true) : ∃ sent, r = .int sent ∧ sent ≤ buf.length := by
  cases r with
  | int sent => exact ⟨sent, rfl, by simpa [allowed] using h⟩
  | data bytes => simp [allowed] at h
  | line msg => simp [allowed] at h

/-- Every step of a session is one of its moves. -/
theorem move_of_step {port : UInt16} {fd : Int} {pc pc' : HandleClient} {e : Event}
    (h : (session port fd).step pc e = some pc') : Move fd pc e pc' := by
  obtain ⟨c, r⟩ := e
  obtain ⟨hc, hr, rfl⟩ := Process.step_eq_some.mp h
  cases pc with
  | welcome s =>
      simp only [handleClient, HandleClient.pending, Option.some.injEq] at hc
      subst hc
      obtain ⟨sent, rfl, _⟩ := eq_int_of_allowed_send hr
      simp only [handleClient, HandleClient.resume]
      rcases s.resume_cases sent with ⟨hs, he⟩ | ⟨hs, hrest, he⟩ | ⟨hs, s', he, _, hrest⟩ <;>
        rw [he]
      · exact .welcomeFail hs
      · exact .welcomeDone hs hrest
      · exact .welcomeMore hs hrest
  | recv =>
      simp only [handleClient, HandleClient.pending, Option.some.injEq] at hc
      subst hc
      cases r with
      | int bytes =>
          simp only [allowed, decide_eq_true_eq] at hr
          simp only [handleClient, HandleClient.resume]
          split
          · rename_i h0
            subst h0
            exact .eof
          · exact .recvFail (by omega)
      | data chunk =>
          simp only [allowed, Bool.and_eq_true, decide_eq_true_eq] at hr
          have ne : chunk ≠ [] := List.length_pos_iff.mp hr.1
          obtain ⟨s, hs, rfl, hrest⟩ := sendFrom_zero_of_ne_nil ne
          simp only [handleClient, HandleClient.resume, hs, afterEcho]
          exact .recvData hr.2 hrest
      | line msg => simp [allowed] at hr
  | echo s =>
      simp only [handleClient, HandleClient.pending, Option.some.injEq] at hc
      subst hc
      obtain ⟨sent, rfl, _⟩ := eq_int_of_allowed_send hr
      simp only [handleClient, HandleClient.resume]
      rcases s.resume_cases sent with ⟨hs, he⟩ | ⟨hs, hrest, he⟩ | ⟨hs, s', he, hd, hrest⟩ <;>
        rw [he]
      · exact .echoFail hs
      · cases hq : isQuit s.data with
        | true => simpa [afterEcho, hq] using Move.echoQuit hs hrest hq
        | false => simpa [afterEcho, hq] using Move.echoNext hs hrest hq
      · exact .echoMore hs hd hrest
  | close why =>
      simp only [handleClient, HandleClient.pending, Option.some.injEq] at hc
      subst hc
      cases r with
      | int result => exact .close
      | data bytes => simp [allowed] at hr
      | line msg => simp [allowed] at hr
  | returned why => simp [handleClient, HandleClient.pending] at hc
  | threw what => simp [handleClient, HandleClient.pending] at hc

end CppLab.Socket.TCPServer
