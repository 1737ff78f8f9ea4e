import CppLab.Lib.Fragment
import CppLab.Socket.Echo

/-!
# Where the quit command is recognised

`handleClient` tests each `recv` chunk for the quit command and calls the chunk
`line`; the peer sees a byte stream, in which the command is a line. This
module compares the two: for which streams does the session end at the first
quit line however `recv` cuts the stream?
-/

namespace CppLab.Socket.TCPServer

open CppLab.Posix

/-- A line whose whole content is `Q`, trailing carriage returns ignored. -/
def isQuitLine (line : Bytes) : Bool := line.rdropWhile (· = 13) = ascii "Q"

/-- The first quit line of a stream, counted from `0`; lines are delimited by
newlines and the last one may be unterminated. -/
def firstQuitLine (s : Bytes) : Option Nat := (s.splitOn newline).findIdx? isQuitLine

/-- The line of the received stream at which a finished session was left by
the quit command: the newlines received before the quit chunk. -/
def quitLine (tr : List Event) : Ending → Option Nat
  | .quit => some ((received tr).dropLast.flatten.count newline)
  | .eof => none

/-- On the stream `s`, every fragmentation and every schedule of partial
writes makes a session that runs to its end leave at the first quit line of
`s`, or at the end of the stream when there is none. -/
def QuitFraming (port : UInt16) (fd : Int) (s : Bytes) : Prop :=
  ∀ f, Fragments recvRoom s f → ∀ tr why,
    (session port fd).run tr = some (.returned why) →
    recvRets tr <+: f.map Ret.data ++ [.int 0] → quitLine tr why = firstQuitLine s

/-- The line at which the chunk test finds the quit command, with `line`
newlines before the first chunk. -/
def quitLineFrom (line : Nat) : List Bytes → Option Nat
  | [] => none
  | c :: cs => if isQuit c then some line else quitLineFrom (line + c.count newline) cs

theorem quitLineFrom_of_plain {cs : List Bytes} (h : Plain cs) (line : Nat)
    (rest : List Bytes) :
    quitLineFrom line (cs ++ rest) = quitLineFrom (line + cs.flatten.count newline) rest := by
  induction cs generalizing line with
  | nil => rfl
  | cons c cs ih =>
      have hc : isQuit c = false := h c List.mem_cons_self
      have hcs : Plain cs := fun d hd => h d (List.mem_cons_of_mem c hd)
      simp only [List.cons_append, quitLineFrom, hc, Bool.false_eq_true, if_false, ih hcs,
        List.flatten_cons, List.count_append, Nat.add_assoc]

theorem quitLineFrom_le {cs : List Bytes} {line i : Nat} (h : quitLineFrom line cs = some i) :
    line ≤ i := by
  induction cs generalizing line with
  | nil => cases h
  | cons c cs ih =>
      simp only [quitLineFrom] at h
      split at h
      · injection h with h
        exact Nat.le_of_eq h
      · exact le_trans (Nat.le_add_right _ _) (ih h)

/-- What a finished session does is what the chunk test does on the chunks. -/
theorem quitLine_eq {port : UInt16} {fd : Int} {f : List Bytes} {tr : List Event}
    {why : Ending} (run : (session port fd).run tr = some (.returned why))
    (script : recvRets tr <+: f.map Ret.data ++ [.int 0]) :
    quitLine tr why = quitLineFrom 0 f := by
  have ended : Ended port tr why := echoInv_run run
  cases why with
  | eof =>
      obtain ⟨cs, hs⟩ := ended
      rw [hs.answers, List.append_nil] at script
      have all : cs = f := eq_of_answers script
      subst all
      have none := quitLineFrom_of_plain hs.plain 0 []
      rw [List.append_nil] at none
      rw [none]
      rfl
  | quit =>
      obtain ⟨cs, c, hc, hs⟩ := ended
      have chunksEq : received tr = cs ++ [c] := hs.received_eq rfl
      rw [hs.answers] at script
      obtain ⟨late, rfl⟩ := prefix_of_answers script
      rw [List.append_assoc, quitLineFrom_of_plain hs.plain]
      simp [quitLine, quitLineFrom, chunksEq, hc]

/-! ## Every fragmentation has a finished session -/

theorem runFrom_welcome (port : UInt16) (fd : Int) (es : List Event) :
    (session port fd).run ((.send fd (welcome port), .int (welcome port).length) :: es) =
      (session port fd).runFrom .recv es := by
  have pos : 0 < (welcome port).length := List.length_pos_iff.mpr (welcome_ne_nil port)
  have start : sendFrom (welcome port) 0 = .sending ⟨welcome port, 0, pos⟩ := dif_pos pos
  have done : (session port fd).step (afterWelcome (sendFrom (welcome port) 0))
      (.send fd (welcome port), .int (welcome port).length) = some .recv := by
    rw [Process.step_eq_some, start]
    refine ⟨rfl, by simp [allowed], ?_⟩
    simp [handleClient, HandleClient.resume, afterWelcome, Sending.resume, sendFrom,
      welcome_ne_nil port]
  show ((session port fd).step (afterWelcome (sendFrom (welcome port) 0)) _).bind _ = _
  rw [done]
  rfl

theorem runFrom_chunk (port : UInt16) (fd : Int) {c : Bytes} (pos : 0 < c.length)
    (room : c.length ≤ recvRoom) (es : List Event) :
    (session port fd).runFrom .recv
        ((.recv fd recvRoom, .data c) :: (.send fd c, .int c.length) :: es) =
      (session port fd).runFrom (if isQuit c then .close .quit else .recv) es := by
  have ne : c ≠ [] := List.length_pos_iff.mp pos
  have got : (session port fd).step .recv (.recv fd recvRoom, .data c) =
      some (.echo ⟨c, 0, pos⟩) := by
    rw [Process.step_eq_some]
    refine ⟨rfl, by simp [allowed, pos, room], ?_⟩
    simp [handleClient, HandleClient.resume, sendFrom, afterEcho, pos]
  have echoed : (session port fd).step (.echo ⟨c, 0, pos⟩) (.send fd c, .int c.length) =
      some (if isQuit c then .close .quit else .recv) := by
    rw [Process.step_eq_some]
    refine ⟨rfl, by simp [allowed], ?_⟩
    simp [handleClient, HandleClient.resume, Sending.resume, sendFrom, afterEcho, ne]
  rw [System.runFrom_cons, got, Option.bind_some, System.runFrom_cons, echoed,
    Option.bind_some]

theorem exists_run_recv (port : UInt16) (fd : Int) {s : Bytes} {f : List Bytes}
    (h : Fragments recvRoom s f) :
    ∃ es why, (session port fd).runFrom .recv es = some (.returned why) ∧
      recvRets es <+: f.map Ret.data ++ [.int 0] := by
  induction f generalizing s with
  | nil =>
      refine ⟨[(.recv fd recvRoom, .int 0), (.close fd, .int 0)], .eof, ?_, ?_⟩
      · simp [System.runFrom, Process.system, handleClient, HandleClient.pending,
          HandleClient.resume, allowed]
      · exact List.prefix_rfl
  | cons c f ih =>
      obtain ⟨pos, room⟩ := h.sizes c List.mem_cons_self
      cases hq : isQuit c with
      | true =>
          refine ⟨[(.recv fd recvRoom, .data c), (.send fd c, .int c.length),
            (.close fd, .int 0)], .quit, ?_, ?_⟩
          · rw [runFrom_chunk port fd pos room, hq]
            simp [System.runFrom, Process.system, handleClient, HandleClient.pending,
              HandleClient.resume, allowed]
          · exact List.cons_prefix_cons.mpr ⟨rfl, List.nil_prefix⟩
      | false =>
          obtain ⟨es, why, run, script⟩ := ih h.tail
          refine ⟨(.recv fd recvRoom, .data c) :: (.send fd c, .int c.length) :: es, why,
            ?_, ?_⟩
          · rw [runFrom_chunk port fd pos room, hq]
            exact run
          · exact List.cons_prefix_cons.mpr ⟨rfl, script⟩

/-- For every fragmentation of a stream there is a session that receives it
and runs to its end. -/
theorem exists_run (port : UInt16) (fd : Int) {s : Bytes} {f : List Bytes}
    (h : Fragments recvRoom s f) :
    ∃ tr why, (session port fd).run tr = some (.returned why) ∧
      recvRets tr <+: f.map Ret.data ++ [.int 0] := by
  obtain ⟨es, why, run, script⟩ := exists_run_recv port fd h
  refine ⟨(.send fd (welcome port), .int (welcome port).length) :: es, why, ?_, script⟩
  rw [runFrom_welcome]
  exact run

/-- Quit framing is a property of the chunk test alone. -/
theorem quitFraming_iff_chunks (port : UInt16) (fd : Int) (s : Bytes) :
    QuitFraming port fd s ↔
      ∀ f, Fragments recvRoom s f → quitLineFrom 0 f = firstQuitLine s := by
  constructor
  · intro h f hf
    obtain ⟨tr, why, run, script⟩ := exists_run port fd hf
    rw [← quitLine_eq run script]
    exact h f hf tr why run script
  · intro h f hf tr why run script
    rw [quitLine_eq run script]
    exact h f hf

/-! ## The lines of a stream -/

theorem isQuitLine_iff {l : Bytes} :
    isQuitLine l = true ↔ ∃ crs, l = 81 :: crs ∧ ∀ b ∈ crs, b = 13 := by
  simp only [isQuitLine, ascii_Q, decide_eq_true_eq]
  constructor
  · intro h
    have split : l.rdropWhile (· = 13) ++ l.rtakeWhile (· = 13) = l :=
      List.rdropWhile_append_rtakeWhile
    rw [h] at split
    refine ⟨l.rtakeWhile (· = 13), split.symm, ?_⟩
    intro b hb
    simpa using List.mem_rtakeWhile_imp hb
  · rintro ⟨crs, rfl, hcrs⟩
    have all : ∀ b ∈ crs.reverse, decide (b = 13) = true := by
      intro b hb
      simpa using hcrs b (List.mem_reverse.mp hb)
    rw [List.rdropWhile, List.reverse_cons, List.dropWhile_append_of_pos all]
    decide

/-- A line without a `Q` is not a quit line. -/
theorem isQuitLine_of_not_mem {l : Bytes} (h : 81 ∉ l) : isQuitLine l = false := by
  rw [Bool.eq_false_iff]
  intro hq
  obtain ⟨crs, rfl, _⟩ := isQuitLine_iff.mp hq
  exact h List.mem_cons_self

/-- A stream is its first line, with or without a newline and more after it. -/
theorem exists_first_line (s : Bytes) :
    (newline ∉ s ∧ s.splitOn newline = [s]) ∨
    ∃ l r, newline ∉ l ∧ s = l ++ newline :: r ∧ s.splitOn newline = l :: r.splitOn newline := by
  by_cases h : newline ∈ s
  · obtain ⟨l, r, rfl, hl⟩ := List.eq_append_cons_of_mem h
    exact .inr ⟨l, r, hl, rfl, List.splitOn_append_cons_self_of_not_mem hl r⟩
  · exact .inl ⟨h, List.splitOn_eq_singleton h⟩

/-- A byte of a line is a byte of the stream. -/
theorem mem_of_mem_splitOn {s l : Bytes} {b : UInt8} (hl : l ∈ s.splitOn newline)
    (hb : b ∈ l) : b ∈ s := by
  induction s generalizing l with
  | nil =>
      rw [List.splitOn_nil, List.mem_singleton] at hl
      exact hl ▸ hb
  | cons x s ih =>
      rw [List.splitOn_cons_eq_if_modifyHead] at hl
      split at hl
      · rcases List.mem_cons.mp hl with rfl | hl
        · exact absurd hb List.not_mem_nil
        · exact List.mem_cons_of_mem x (ih hl hb)
      · cases hsp : s.splitOn newline with
        | nil => exact absurd hsp (List.splitOn_ne_nil _ _)
        | cons h ts =>
            rw [hsp, List.modifyHead_cons] at hl
            rcases List.mem_cons.mp hl with rfl | hl
            · rcases List.mem_cons.mp hb with rfl | hb
              · exact List.mem_cons_self
              · exact List.mem_cons_of_mem x (ih (hsp ▸ List.mem_cons_self) hb)
            · exact List.mem_cons_of_mem x (ih (hsp ▸ List.mem_cons_of_mem h hl) hb)

/-- Without a `Q` there is no quit line. -/
theorem firstQuitLine_of_not_mem {s : Bytes} (h : 81 ∉ s) : firstQuitLine s = none := by
  rw [firstQuitLine, List.findIdx?_eq_none_iff]
  intro l hl
  exact isQuitLine_of_not_mem fun hQ => h (mem_of_mem_splitOn hl hQ)

/-- The first line is a quit line when it is the first one there is. -/
theorem isQuitLine_of_firstQuitLine {l : Bytes} {ls : List Bytes}
    (h : (l :: ls).findIdx? isQuitLine = some 0) : isQuitLine l = true := by
  rw [List.findIdx?_cons] at h
  split at h
  · assumption
  · simp at h

/-- A quit line that starts with the `Q`-free `u` starts right at its `Q`. -/
theorem eq_nil_of_isQuitLine {u t : Bytes} (hu : 81 ∉ u)
    (hq : isQuitLine (u ++ 81 :: t) = true) : u = [] ∧ ∀ b ∈ t, b = 13 := by
  obtain ⟨crs, he, hcrs⟩ := isQuitLine_iff.mp hq
  cases u with
  | nil =>
      injection he with _ he
      exact ⟨rfl, he ▸ hcrs⟩
  | cons x u =>
      injection he with hx _
      exact absurd (hx ▸ List.mem_cons_self) hu

/-- Where the first `Q` of a stream stands in the first quit line, that line
begins at it and holds nothing else but carriage returns. -/
theorem split_at_firstQuitLine {u t : Bytes} {i : Nat} (hu : 81 ∉ u)
    (hline : u.count newline = i) (h : firstQuitLine (u ++ 81 :: t) = some i) :
    (u = [] ∨ ∃ v, u = v ++ [newline]) ∧
      ∃ crs r, t = crs ++ r ∧ (∀ b ∈ crs, b = 13) ∧ (r = [] ∨ ∃ r', r = newline :: r') := by
  -- by induction on the line number, taking lines off the front of `u`
  induction i generalizing u with
  | zero =>
      have hnu : newline ∉ u := List.count_eq_zero.mp hline
      rcases exists_first_line t with ⟨hnt, _⟩ | ⟨l, r, hnl, rfl, _⟩
      · have hn : newline ∉ u ++ 81 :: t := by
          simp only [List.mem_append, List.mem_cons, not_or]
          exact ⟨hnu, by decide, hnt⟩
        rw [firstQuitLine, List.splitOn_eq_singleton hn] at h
        obtain ⟨hnil, hcrs⟩ := eq_nil_of_isQuitLine hu (isQuitLine_of_firstQuitLine h)
        exact ⟨.inl hnil, t, [], (List.append_nil t).symm, hcrs, .inl rfl⟩
      · have hn : newline ∉ u ++ 81 :: l := by
          simp only [List.mem_append, List.mem_cons, not_or]
          exact ⟨hnu, by decide, hnl⟩
        have hs : u ++ 81 :: (l ++ newline :: r) = (u ++ 81 :: l) ++ newline :: r := by simp
        rw [firstQuitLine, hs, List.splitOn_append_cons_self_of_not_mem hn] at h
        obtain ⟨hnil, hcrs⟩ := eq_nil_of_isQuitLine hu (isQuitLine_of_firstQuitLine h)
        exact ⟨.inl hnil, l, newline :: r, rfl, hcrs, .inr ⟨r, rfl⟩⟩
  | succ j ih =>
      rcases exists_first_line u with ⟨hnu, _⟩ | ⟨l, u', hnl, rfl, _⟩
      · rw [List.count_eq_zero.mpr hnu] at hline
        cases hline
      · have hl : isQuitLine l = false :=
          isQuitLine_of_not_mem fun hQ => hu (List.mem_append_left _ hQ)
        have hu' : 81 ∉ u' := fun hQ => hu (by simp [hQ])
        rw [List.count_append, List.count_eq_zero.mpr hnl, List.count_cons_self] at hline
        have hrest : firstQuitLine (u' ++ 81 :: t) = some j := by
          rw [firstQuitLine, List.append_assoc, List.cons_append,
            List.splitOn_append_cons_self_of_not_mem hnl, List.findIdx?_cons, hl] at h
          simpa [firstQuitLine] using h
        obtain ⟨hend, tail⟩ := ih hu' (by omega) hrest
        refine ⟨.inr ?_, tail⟩
        rcases hend with rfl | ⟨v, rfl⟩
        · exact ⟨l, rfl⟩
        · exact ⟨l ++ newline :: v, by simp⟩

/-! ## The exact condition -/

theorem isQuit_singleton (b : UInt8) : isQuit [b] = true ↔ b = 81 := by
  rw [isQuit_iff (by simp [recvRoom])]
  constructor
  · rintro ⟨tail, he, _⟩
    injection he
  · rintro rfl
    exact ⟨[], rfl, by simp⟩

/-- Chunks without a `Q` are plain. -/
theorem plain_of_not_mem {s : Bytes} {f : List Bytes} (h : Fragments recvRoom s f)
    (hs : 81 ∉ s) : Plain f := by
  intro c hc
  rw [Bool.eq_false_iff]
  intro hq
  obtain ⟨tail, rfl, _⟩ := (isQuit_iff (h.sizes c hc).2).mp hq
  apply hs
  rw [← h.flatten]
  exact List.mem_flatten.mpr ⟨_, hc, List.mem_cons_self⟩

/-- One byte at a time, the session is left at the first `Q` there is. -/
theorem quitLineFrom_singletons {u t : Bytes} (hu : 81 ∉ u) (line : Nat) :
    quitLineFrom line ((u ++ 81 :: t).map fun b => [b]) = some (line + u.count newline) := by
  have plain : Plain (u.map fun b => [b]) :=
    plain_of_not_mem (Fragments.singletons (by decide) u) hu
  have hQ : isQuit [81] = true := (isQuit_singleton 81).mpr rfl
  rw [List.map_append, quitLineFrom_of_plain plain,
    (Fragments.singletons (n := 1) Nat.zero_lt_one u).flatten]
  simp [quitLineFrom, hQ]

/-- After the quit line, the next `Q` is on a later line. -/
theorem quitLineFrom_after {crs r : Bytes} (hcrs : ∀ b ∈ crs, b = 13)
    (hr : r = [] ∨ ∃ r', r = newline :: r') (line : Nat) :
    quitLineFrom line ((crs ++ r).map fun b => [b]) ≠ some line := by
  have noQ : 81 ∉ crs := by
    intro h
    exact absurd (hcrs 81 h) (by decide)
  have plain : Plain (crs.map fun b => [b]) :=
    plain_of_not_mem (Fragments.singletons (by decide) crs) noQ
  rw [List.map_append, quitLineFrom_of_plain plain]
  rcases hr with rfl | ⟨r', rfl⟩
  · exact fun h => nomatch h
  · have hnl : isQuit [newline] = false := by decide
    intro h
    simp only [List.map_cons, quitLineFrom, hnl, Bool.false_eq_true, if_false] at h
    have := quitLineFrom_le h
    simp at this

/-- A `recv` that returns as much as it can hides no newline before the end of
the quit line: it reads as the quit command or reaches past that line. -/
theorem isQuit_take_or_newline {crs r : Bytes} (hcrs : ∀ b ∈ crs, b = 13)
    (hr : r = [] ∨ ∃ r', r = newline :: r') :
    isQuit ((81 :: (crs ++ r)).take recvRoom) = true ∨
      newline ∈ (81 :: (crs ++ r)).take recvRoom := by
  by_cases hnl : newline ∈ (81 :: (crs ++ r)).take recvRoom
  · exact .inr hnl
  · left
    rw [isQuit_iff (List.length_take_le _ _)]
    refine ⟨(crs ++ r).take (recvRoom - 1), rfl, ?_⟩
    intro b hb
    rw [List.take_append] at hb
    rcases List.mem_append.mp hb with hb | hb
    · exact .inl (hcrs b (List.mem_of_mem_take hb))
    · exfalso
      rcases hr with rfl | ⟨r', rfl⟩
      · rw [List.take_nil] at hb
        exact absurd hb List.not_mem_nil
      · -- the byte taken from `r` comes with the newline at its front
        have room : recvRoom - 1 - crs.length ≠ 0 := by
          intro h0
          rw [h0, List.take_zero] at hb
          exact absurd hb List.not_mem_nil
        obtain ⟨k, hk⟩ := Nat.exists_eq_succ_of_ne_zero room
        apply hnl
        show newline ∈ 81 :: (crs ++ newline :: r').take (recvRoom - 1)
        rw [List.take_append, hk]
        simp

/-- A first chunk that reaches past the quit line does not read as the quit
command, and the session leaves later. -/
theorem isQuit_of_framed {crs r : Bytes} (hcrs : ∀ b ∈ crs, b = 13)
    (hr : r = [] ∨ ∃ r', r = newline :: r')
    (framed : ∀ f, Fragments recvRoom (81 :: (crs ++ r)) f → quitLineFrom 0 f = some 0) :
    isQuit ((81 :: (crs ++ r)).take recvRoom) = true := by
  rcases isQuit_take_or_newline hcrs hr with hq | hnl
  · exact hq
  · by_contra hq
    rw [Bool.not_eq_true] at hq
    have pos : 0 < ((81 :: (crs ++ r)).take recvRoom).length := by simp [recvRoom]
    have frag := Fragments.cons pos (List.length_take_le _ _)
      (Fragments.singletons (by decide) ((81 :: (crs ++ r)).drop recvRoom))
    rw [List.take_append_drop] at frag
    have leaves := framed _ frag
    rw [quitLineFrom, if_neg (by simp [hq])] at leaves
    have late := quitLineFrom_le leaves
    have early := List.count_pos_iff.mpr hnl
    omega

/-- Where the quit line is not the first line, the newline before it can be glued
to its `Q`: that chunk is not the quit command. -/
theorem not_framed_of_newline {v crs r : Bytes} (noQ : 81 ∉ v) (hcrs : ∀ b ∈ crs, b = 13)
    (hr : r = [] ∨ ∃ r', r = newline :: r') :
    ¬ ∀ f, Fragments recvRoom (v ++ [newline] ++ 81 :: (crs ++ r)) f →
      quitLineFrom 0 f = some (v.count newline + 1) := by
  intro framed
  have frag := (Fragments.singletons (by decide) v).append
    (Fragments.cons (n := recvRoom) (c := [newline, 81]) (by simp) (by simp [recvRoom])
      (Fragments.singletons (by decide) (crs ++ r)))
  have whole : v ++ ([newline, 81] ++ (crs ++ r)) = v ++ [newline] ++ 81 :: (crs ++ r) := by simp
  rw [whole] at frag
  have leaves := framed _ frag
  have plain : Plain (v.map fun b => [b]) :=
    plain_of_not_mem (Fragments.singletons (by decide) v) noQ
  have glued : isQuit [newline, 81] = false := by decide
  rw [quitLineFrom_of_plain plain, quitLineFrom, glued,
    (Fragments.singletons (n := 1) Nat.zero_lt_one v).flatten] at leaves
  refine quitLineFrom_after hcrs hr (v.count newline + 1) ?_
  simpa [newline] using leaves

/-- Whatever the first `recv` returns of such a stream is the quit command. -/
theorem quitLineFrom_of_isQuit {s : Bytes} (hq : isQuit (s.take recvRoom) = true) {f : List Bytes}
    (hf : Fragments recvRoom s f) : quitLineFrom 0 f = some 0 := by
  obtain ⟨tail, htake, htail⟩ := (isQuit_iff (List.length_take_le _ _)).mp hq
  cases f with
  | nil =>
      have hs : s = [] := by rw [← hf.flatten, List.flatten_nil]
      simp [hs] at htake
  | cons c f =>
      obtain ⟨pos, room⟩ := hf.sizes c List.mem_cons_self
      have hc := hf.head_prefix
      rw [htake] at hc
      cases c with
      | nil => cases pos
      | cons b c =>
          rw [List.cons_prefix_cons] at hc
          obtain ⟨rfl, hc⟩ := hc
          have quits : isQuit (81 :: c) = true :=
            (isQuit_iff room).mpr ⟨c, rfl, fun b hb => htail b (hc.subset hb)⟩
          rw [quitLineFrom, if_pos quits]

/-- The chunk test is framed by lines on a stream exactly when the stream has
no `Q` at all, or whatever the first `recv` returns reads as the quit command
and the first line is one. -/
theorem quitLineFrom_framed_iff (s : Bytes) :
    (∀ f, Fragments recvRoom s f → quitLineFrom 0 f = firstQuitLine s) ↔
      81 ∉ s ∨ (isQuit (s.take recvRoom) = true ∧ firstQuitLine s = some 0) := by
  constructor
  · intro framed
    by_cases hs : 81 ∈ s
    · right
      obtain ⟨u, t, rfl, hu⟩ := List.eq_append_cons_of_mem hs
      have first : firstQuitLine (u ++ 81 :: t) = some (u.count newline) := by
        rw [← framed _ (Fragments.singletons (by decide) _), quitLineFrom_singletons hu,
          Nat.zero_add]
      obtain ⟨hstart, crs, r, rfl, hcrs, hr⟩ := split_at_firstQuitLine hu rfl first
      rcases hstart with rfl | ⟨v, rfl⟩
      · simp only [List.nil_append, List.count_nil] at framed first ⊢
        rw [first] at framed
        exact ⟨isQuit_of_framed hcrs hr framed, first⟩
      · exfalso
        have noQ : 81 ∉ v := fun h => hu (List.mem_append_left _ h)
        rw [List.count_append, List.count_singleton_self] at first
        rw [first] at framed
        exact not_framed_of_newline noQ hcrs hr framed
    · exact .inl hs
  · rintro (hs | ⟨hq, hfirst⟩) f hf
    · have none := quitLineFrom_of_plain (plain_of_not_mem hf hs) 0 []
      rw [List.append_nil] at none
      rw [none, firstQuitLine_of_not_mem hs]
      rfl
    · rw [hfirst]
      exact quitLineFrom_of_isQuit hq hf

/-- **Quit framing, exactly.** The session leaves at the first quit line for
every fragmentation of `s` just when `s` contains no `Q` or starts with the
quit line and nothing else within the room of one `recv`. -/
theorem quitFraming_iff (port : UInt16) (fd : Int) (s : Bytes) :
    QuitFraming port fd s ↔
      81 ∉ s ∨ (isQuit (s.take recvRoom) = true ∧ firstQuitLine s = some 0) :=
  (quitFraming_iff_chunks port fd s).trans (quitLineFrom_framed_iff s)

/-- Pipelined behind the quit line, more input hides it from a `recv` that
returns both. -/
theorem not_quitFraming_pipelined : ¬ ∀ s, QuitFraming 8080 4 s := by
  intro framed
  have frag : Fragments recvRoom (ascii "Q\nmore\n") [ascii "Q\nmore\n"] :=
    ⟨by decide, by decide⟩
  have run : (session 8080 4).run [(.send 4 (welcome 8080), .int 74),
      (.recv 4 1023, .data (ascii "Q\nmore\n")), (.send 4 (ascii "Q\nmore\n"), .int 7),
      (.recv 4 1023, .int 0), (.close 4, .int 0)] = some (.returned .eof) := by decide
  have same := framed _ _ frag _ _ run (by decide)
  have line : firstQuitLine (ascii "Q\nmore\n") = some 0 := by decide
  rw [line] at same
  cases same

end CppLab.Socket.TCPServer
