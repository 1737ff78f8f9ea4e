import CppLab.Env.Posix
import CppLab.Lib.CriticalSection

/-!
# The logger

`Logger::log` writes one line in eighteen pieces while it holds `mutex_`. Every
example logs through it, from as many threads as it starts. Here each byte is a
step of its own and any thread may move in between; what a program writes past
the logger is not part of it.
-/

namespace CppLab.Concurrency.Logger

open CppLab.StdString CppLab.Posix

/-- `std::source_location`. -/
structure SourceLocation where
  file_name : Bytes
  line : UInt32
  function_name : Bytes
  deriving DecidableEq

/-- The arguments of a call of `log`. -/
structure LogCall where
  msg : Bytes
  level : Bytes
  loc : SourceLocation
  deriving DecidableEq

/-- The local time that `localtime_r` gives. -/
structure Tm where
  tm_hour : Fin 24
  tm_min : Fin 60
  tm_sec : Fin 61
  deriving DecidableEq

/-- A number below 100 in two digits. -/
def twoDigits (n : Nat) : Bytes := [(48 + n / 10).toUInt8, (48 + n % 10).toUInt8]

/-- `std::strftime` with `"%H:%M:%S"`. -/
def strftime (tm : Tm) : Bytes :=
  twoDigits tm.tm_hour ++ ascii ":" ++ twoDigits tm.tm_min ++ ascii ":" ++ twoDigits tm.tm_sec

/-- `file` after the path has been cut off. -/
def filename (file : Bytes) : Bytes :=
  if findLastOf file (ascii "/\\") ≠ npos then file.drop (findLastOf file (ascii "/\\") + 1)
  else file

def kGreen : Bytes := ascii "\x1b[32m"

def kReset : Bytes := ascii "\x1b[0m"

/-- The line that `log` writes, before its `'\n'`. -/
def line (c : LogCall) (tm : Tm) : Bytes :=
  ascii "[" ++ strftime tm ++ ascii "]" ++ ascii "[" ++ c.level ++ ascii "]" ++ ascii "[" ++
    filename c.loc.file_name ++ ascii ":" ++ ascii (toString c.loc.line.toNat) ++ ascii "]" ++
    ascii "[" ++ c.loc.function_name ++ ascii "] " ++ kGreen ++ c.msg ++ kReset

/-- What `log` writes while it has the mutex. -/
def log (c : LogCall) (tm : Tm) : Bytes := line c tm ++ [newline]

/-- `LOG(msg)`. -/
def LOG (msg : Bytes) (loc : SourceLocation) : LogCall := ⟨msg, ascii "INFO", loc⟩

/-- `LOG_S(expr)`, where `expr` writes `s_`. -/
def LOG_S (s_ : Bytes) (loc : SourceLocation) : LogCall :=
  LOG (if s_.getLast? = some newline then s_.dropLast else s_) loc

/-- The threads of a process, each with what it logs. -/
def threads {τ : Type*} (program : τ → List LogCall) : Sections τ LogCall Tm UInt8 where
  program := program
  body := log

/-! ## One line each -/

/-- The file is named without its path. -/
theorem filename_eq {file : Bytes} (small : file.length < 2 ^ 64) :
    filename file = file.rtakeWhile (· ∉ ascii "/\\") :=
  drop_findLastOf file (ascii "/\\") small

/-- No argument has a newline in it. -/
structure LogCall.OneLine (c : LogCall) : Prop where
  msg : newline ∉ c.msg
  level : newline ∉ c.level
  file : newline ∉ c.loc.file_name
  function : newline ∉ c.loc.function_name

/-- `LOG_S` drops the newline that a message ends with. -/
theorem oneLine_LOG_S {s : Bytes} {loc : SourceLocation} (file : newline ∉ loc.file_name)
    (function : newline ∉ loc.function_name)
    (single : newline ∉ s ∨ ∃ m, newline ∉ m ∧ s = m ++ [newline]) : (LOG_S s loc).OneLine := by
  have info : newline ∉ ascii "INFO" := by decide
  refine ⟨?_, info, file, function⟩
  show newline ∉ if s.getLast? = some newline then s.dropLast else s
  rcases single with none | ⟨m, none, rfl⟩
  · split
    · exact fun there => none (List.mem_of_mem_dropLast there)
    · exact none
  · rw [List.getLast?_concat, if_pos rfl, List.dropLast_concat]
    exact none

theorem newline_not_mem_twoDigits : ∀ n < 100, newline ∉ twoDigits n := by decide

theorem newline_not_mem_number (n : Nat) : newline ∉ ascii (toString n) := by
  intro there
  obtain ⟨c, digit, same⟩ := List.mem_map.mp there
  rw [Nat.toString_eq_repr, Nat.toList_repr] at digit
  have digit := Nat.isDigit_of_mem_toDigits (by decide) (by decide) digit
  simp only [Char.isDigit, Bool.and_eq_true, decide_eq_true_eq, UInt32.le_iff_toNat_le] at digit
  have low : 48 ≤ c.toNat := digit.1
  have high : c.toNat ≤ 57 := digit.2
  have value := congrArg UInt8.toNat same
  rw [Nat.toUInt8_eq, UInt8.toNat_ofNat'] at value
  have ten : newline.toNat = 10 := rfl
  omega

theorem newline_not_mem_filename {file : Bytes} (none : newline ∉ file) :
    newline ∉ filename file := by
  unfold filename
  split
  · exact fun there => none (List.mem_of_mem_drop there)
  · exact none

theorem newline_not_mem_strftime (tm : Tm) : newline ∉ strftime tm := by
  have colon : newline ∉ ascii ":" := by decide
  have hour := newline_not_mem_twoDigits tm.tm_hour (by omega)
  have min := newline_not_mem_twoDigits tm.tm_min (by omega)
  have sec := newline_not_mem_twoDigits tm.tm_sec (by omega)
  simp only [strftime, List.mem_append, hour, min, sec, colon, or_self, not_false_eq_true]

/-- The one newline of a line is its last byte. -/
theorem newline_not_mem_line {c : LogCall} (clean : c.OneLine) (tm : Tm) :
    newline ∉ line c tm := by
  have open_ : newline ∉ ascii "[" := by decide
  have close : newline ∉ ascii "]" := by decide
  have colon : newline ∉ ascii ":" := by decide
  have space : newline ∉ ascii "] " := by decide
  have green : newline ∉ kGreen := by decide
  have reset : newline ∉ kReset := by decide
  simp only [line, List.mem_append, clean.msg, clean.level, clean.function,
    newline_not_mem_filename clean.file, newline_not_mem_strftime, newline_not_mem_number, open_,
    close, colon, space, green, reset, or_self, not_false_eq_true]

/-- Lines that each end in the delimiter are what a split at it gives back. -/
theorem splitOn_lines {lines : List Bytes} (clean : ∀ l ∈ lines, newline ∉ l) :
    (lines.flatMap (· ++ [newline])).splitOn newline = lines ++ [[]] := by
  induction lines with
  | nil => exact List.splitOn_nil ..
  | cons l lines ih =>
      rw [List.flatMap_cons, List.append_assoc, List.singleton_append,
        List.splitOn_append_cons_self_of_not_mem (clean l List.mem_cons_self),
        ih fun l there => clean l (List.mem_cons_of_mem _ there)]
      rfl

/-- **Whole lines.** However many threads log whatever they like, and however they are
scheduled: the output is the lines of the calls in the order in which these took the mutex,
the last one perhaps in part, and each thread's lines are in the order in which it logs.
With the mutex free, and no newline in what is logged, reading the output line by line
gives the calls back. -/
theorem log_lines {τ : Type*} [DecidableEq τ] (program : τ → List LogCall)
    {tr : List (Sections.Label τ Tm)} {s : Sections.State τ LogCall UInt8}
    (run : (threads program).system.run tr = some s) :
    ∃ es : List (Sections.Entry τ LogCall Tm),
      es.map (fun e => (e.thread, e.input)) = Sections.acquired tr ∧
      (∀ t, program t = Sections.calls t es ++ s.todo t) ∧
      es.dropLast.flatMap (threads program).text <+: s.out ∧
      s.out <+: es.flatMap (threads program).text ∧
      (s.held = none → (∀ t, ∀ c ∈ program t, c.OneLine) →
        s.out.splitOn newline = es.map (fun e => line e.call e.input) ++ [[]]) := by
  obtain ⟨es, order, calls, whole⟩ := Sections.serial_run run
  have calls : ∀ t, program t = Sections.calls t es ++ s.todo t := calls
  have between : es.dropLast.flatMap (threads program).text <+: s.out ∧
      s.out <+: es.flatMap (threads program).text := by
    cases held : s.held with
    | none =>
        rw [held] at whole
        have all : s.out = es.flatMap (threads program).text := whole
        rw [all]
        obtain ⟨last, split⟩ := List.dropLast_prefix es
        refine ⟨⟨last.flatMap (threads program).text, ?_⟩, List.prefix_refl _⟩
        rw [← List.flatMap_append, split]
    | some holder =>
        rw [held] at whole
        obtain ⟨before, e, written, rfl, -, text, out⟩ := whole
        rw [out, List.dropLast_concat, List.flatMap_append, List.flatMap_singleton, text]
        exact ⟨List.prefix_append _ _, holder.2, by rw [List.append_assoc]⟩
  refine ⟨es, order, calls, between.1, between.2, ?_⟩
  intro free clean
  rw [free] at whole
  have all : s.out = es.flatMap (threads program).text := whole
  have lines : es.flatMap (threads program).text =
      (es.map fun e => line e.call e.input).flatMap (· ++ [newline]) := by
    rw [List.flatMap_map]
    rfl
  rw [all, lines, splitOn_lines]
  intro l there
  obtain ⟨e, member, rfl⟩ := List.mem_map.mp there
  apply newline_not_mem_line
  -- a call that has been made is one of its thread's program
  apply clean e.thread
  rw [calls e.thread]
  apply List.mem_append_left
  exact List.mem_map.mpr ⟨e, List.mem_filter.mpr ⟨member, decide_eq_true rfl⟩, rfl⟩

/-- Two threads that log; the second has to wait for the first. -/
def sampleProgram : Bool → List LogCall
  | false => [LOG (ascii "begin") ⟨ascii "/src/Timing.cpp", 12, ascii "run"⟩]
  | true => [LOG_S (ascii "end\n") ⟨ascii "Timing.cpp", 14, ascii "run"⟩]

def sampleLog : List (Sections.Label Bool Tm) :=
  [[.lock false ⟨9, 30, 0⟩], List.replicate 52 (.write false), [.unlock false],
    [.lock true ⟨9, 30, 1⟩], List.replicate 50 (.write true), [.unlock true]].flatten

theorem log_lines_sample : ∃ s, (threads sampleProgram).system.run sampleLog = some s ∧
    ∃ es : List (Sections.Entry Bool LogCall Tm),
      es.map (fun e => (e.thread, e.input)) = [(false, ⟨9, 30, 0⟩), (true, ⟨9, 30, 1⟩)] ∧
      s.out.splitOn newline = es.map (fun e => line e.call e.input) ++ [[]] := by
  have ended : ((threads sampleProgram).system.run sampleLog).map (·.held.isNone) = some true := by
    decide
  obtain ⟨s, run, free⟩ := Option.map_eq_some_iff.mp ended
  obtain ⟨es, order, -, -, -, lines⟩ := log_lines sampleProgram run
  refine ⟨s, run, es, order, lines (Option.isNone_iff_eq_none.mp free) ?_⟩
  intro t c member
  cases t with
  | false =>
      rw [List.mem_singleton.mp member]
      exact ⟨by decide, by decide, by decide, by decide⟩
  | true =>
      rw [List.mem_singleton.mp member]
      exact ⟨by decide, by decide, by decide, by decide⟩

end CppLab.Concurrency.Logger
