import CppLab.Env.StdLines

/-!
# Writing a file, reading it and removing it

`run()` of the file example. `fileInput` reads the file twice, once word by word and once
line by line; it goes on when the file cannot be opened, and each loop ends with the first
read that fails. `unspaced` and `terminated` are what the loops print of any contents.
-/

namespace CppLab.FileHandle.FileIO

open IStream (unspaced terminated)

/-- What has been written to `std::cout` and `std::cerr`. -/
structure Output where
  cout : Bytes
  cerr : Bytes
  deriving DecidableEq, Repr

def Output.print (o : Output) (text : Bytes) : Output := { o with cout := o.cout ++ text }

def Output.error (o : Output) (text : Bytes) : Output := { o with cerr := o.cerr ++ text }

/-- What the system allows to do with the file. -/
structure Os where
  create : Bool
  read : Bool
  remove : Bool
  deriving DecidableEq, Repr

/-- What a `std::ifstream` that is opened on the file finds. -/
def Os.opened (os : Os) (file : Option Bytes) : Option Bytes := if os.read then file else none

def kTestFileName : Bytes := ascii "fileio_test.csv"

/-- A `std::ifstream`. -/
structure IFStream where
  is_open : Bool
  stream : IStream
  deriving DecidableEq, Repr

/-- The constructor, which opens the file. -/
def IFStream.construct : Option Bytes → IFStream
  | some contents => ⟨true, .ofBytes contents⟩
  | none => ⟨false, ⟨[], false, true⟩⟩

/-- `close()`. -/
def IFStream.close (f : IFStream) : IFStream :=
  if f.is_open then { f with is_open := false }
  else { f with stream := { f.stream with fail := true } }

/-- `open(name)`, which clears the flags when it succeeds. -/
def IFStream.reopen (f : IFStream) (file : Option Bytes) : IFStream :=
  if f.is_open then { f with stream := { f.stream with fail := true } }
  else
    match file with
    | some contents => ⟨true, .ofBytes contents⟩
    | none => { f with stream := { f.stream with fail := true } }

/-- `while (in_file >> input_str)`, as far as the fuel goes. -/
def printWords : Nat → IStream → Bytes → Output → Option (IStream × Output)
  | 0, _, _, _ => none
  | fuel + 1, in_file, input_str, o =>
      let (input_str, in_file) := in_file.extractWord input_str
      if in_file.fail then some (in_file, o)
      else printWords fuel in_file input_str (o.print input_str)

/-- `while (std::getline(in_file, input_str))`. -/
def printLines : Nat → IStream → Bytes → Output → Option (IStream × Output)
  | 0, _, _, _ => none
  | fuel + 1, in_file, input_str, o =>
      let (input_str, in_file) := in_file.getline input_str
      if in_file.fail then some (in_file, o)
      else printLines fuel in_file input_str (o.print (input_str ++ [10]))

def cannotOpen : Bytes := ascii "Cannot open file: " ++ kTestFileName ++ ascii " \n"

/-- `fileInput()`, where `file` is what there is to open. -/
def fileInput (fuel : Nat) (file : Option Bytes) (o : Output) : Option Output :=
  let in_file := IFStream.construct file
  let o := if !in_file.is_open then o.error cannotOpen else o
  let o := o.print (ascii "====skip while space content====\n")
  (printWords fuel in_file.stream [] o).bind fun (stream, o) =>
    let o := o.print (ascii "========\n" ++ ascii "====full content====\n")
    let in_file := (IFStream.close { in_file with stream := stream }).reopen file
    (printLines fuel in_file.stream [] o).map fun (_, o) => o.print (ascii "========\n")

/-- The bytes that `fileOutput` puts, in four pieces. -/
def contents : Bytes :=
  ascii ("\n" ++
  "        time_s,\n" ++
  "        gsr_value 0.0, 45.27761157741693 0.005, 41.69912812397066 0.01,\n" ++
  "        38.13110177547114 0.015, 35.32162785580394 0.02,\n" ++
  "        31.75617843363382 0.025, 28.352875321528607 0.03,\n" ++
  "        25.23210282654006 0.035, 21.769688905641132 0.04,\n" ++
  "        17.99031153059391 0.045, 15.073732055666543 0.05,\n" ++
  "        15.13550182371759 0.055, 14.69547985289048 0.06,\n" ++
  "        14.867397107985468 0.065, 14.982082556093832 0.07,\n" ++
  "        14.893751010484861 0.075, 14.877034044202343 0.08,\n" ++
  "        14.820590581790071 0.085, 15.1065350504897 0.09,\n" ++
  "        15.152287796727098 0.095, 14.764395300078201 0.1,\n" ++
  "        15.118189654760348 0.105, 15.473255351586635 0.11,\n" ++
  "        14.913896402347113\n" ++
  "    \\n ") ++
  ascii ("0x0 0x0" ++ "0x0 0x0" ++ "0x0 0x0") ++
  ascii ("0xF 0xA " ++ "              0xE 0xB " ++ "              0x0 0x0") ++ ascii "E"

/-- `fileOutput()`: the file afterwards. -/
def fileOutput (os : Os) (file : Option Bytes) (o : Output) : Option Bytes × Output :=
  if os.create then (some contents, o) else (file, o.error cannotOpen)

/-- `fileRemove()`: whether the file is gone is seen by an attempt to open it. -/
def fileRemove (os : Os) (file : Option Bytes) (o : Output) : Option Bytes × Output :=
  let file := if os.remove then none else file
  if (os.opened file).isSome then
    (file, o.error (ascii "Cannot delete file: " ++ kTestFileName ++ ascii " \n"))
  else (file, o.print (ascii "Delete file: " ++ kTestFileName ++ ascii " \n"))

/-- `run()`. -/
def run (fuel : Nat) (os : Os) (file : Option Bytes) : Option (Option Bytes × Output) :=
  let (file, o) := fileOutput os file ⟨[], []⟩
  (fileInput fuel (os.opened file) o).map fun o => fileRemove os file o

/-! ## The loops -/

variable {fuel : Nat} {str text : Bytes} {o : Output}

/-- A stream that is not good ends a loop. -/
theorem printWords_bad {s : IStream} (bad : s.good = false) :
    printWords (fuel + 1) s str o = some ({ s with fail := true }, o) := by
  simp only [printWords, IStream.extractWord_of_not_good str bad, if_true]

theorem print_print (o : Output) (a b : Bytes) : (o.print a).print b = o.print (a ++ b) := by
  simp only [Output.print, List.append_assoc]

/-- The words are all that is not white space. -/
theorem printWords_ofBytes (enough : text.length + 2 ≤ fuel) :
    ∃ s, printWords fuel (.ofBytes text) str o = some (s, o.print (unspaced text)) := by
  induction fuel generalizing text str o with
  | zero => omega
  | succ fuel ih =>
      by_cases blank : text.dropWhile IStream.isSpace = []
      · obtain ⟨none, empty⟩ := IStream.extractWord_blank str blank
        refine ⟨⟨[], true, true⟩, ?_⟩
        simp only [printWords, none, if_true, empty, Output.print, List.append_nil]
      · obtain ⟨word, after, taken, parts, shorter⟩ := IStream.extractWord_word str blank
        simp only [printWords, taken, Bool.false_eq_true, if_false, parts]
        cases after with
        | nil =>
            -- the word ends with the file, so the stream is at its end
            obtain ⟨fuel, rfl⟩ : ∃ k, fuel = k + 1 := ⟨fuel - 1, by omega⟩
            refine ⟨⟨[], true, true⟩, ?_⟩
            have ends : printWords (fuel + 1) ⟨[], true, false⟩ word (o.print word) =
                some (⟨[], true, true⟩, o.print word) := printWords_bad rfl
            simpa [unspaced] using ends
        | cons b bs =>
            obtain ⟨s, rest⟩ : ∃ s, printWords fuel (.ofBytes (b :: bs)) word (o.print word) =
                some (s, (o.print word).print (unspaced (b :: bs))) := ih (by omega)
            rw [print_print] at rest
            exact ⟨s, rest⟩

/-- Each line is printed with its end, and the last one gets one. -/
theorem printLines_ofBytes (enough : text.length + 2 ≤ fuel) :
    ∃ s, printLines fuel (.ofBytes text) str o = some (s, o.print (terminated text)) := by
  induction fuel generalizing text str o with
  | zero => omega
  | succ fuel ih =>
      by_cases inside : 10 ∈ text
      · obtain ⟨line, rest, rfl, first⟩ := List.eq_append_cons_of_mem inside
        obtain ⟨taken, ended⟩ := IStream.getline_line str rest first
        have shorter : rest.length + 2 ≤ fuel := by
          rw [List.length_append, List.length_cons] at enough
          omega
        obtain ⟨s, later⟩ : ∃ s, printLines fuel (.ofBytes rest) line (o.print (line ++ [10])) =
            some (s, (o.print (line ++ [10])).print (terminated rest)) := ih shorter
        refine ⟨s, ?_⟩
        have running : (IStream.ofBytes rest).fail = false := rfl
        rw [print_print, List.append_assoc] at later
        simp only [printLines, taken, running, Bool.false_eq_true, if_false, ended]
        exact later
      · by_cases empty : text = []
        · subst empty
          refine ⟨⟨[], true, true⟩, ?_⟩
          simp [printLines, IStream.getline_nil, terminated, Output.print]
        · obtain ⟨taken, ended⟩ := IStream.getline_last str empty inside
          obtain ⟨fuel, rfl⟩ : ∃ k, fuel = k + 1 := ⟨fuel - 1, by omega⟩
          refine ⟨⟨[], true, true⟩, ?_⟩
          have bad : IStream.good ⟨[], true, false⟩ = false := rfl
          simp only [printLines, taken, Bool.false_eq_true, if_false, ended,
            IStream.getline_of_not_good _ bad, if_true]

/-- What `fileInput` prints of a file, or of none. -/
def shown (file : Option Bytes) : Bytes :=
  ascii "====skip while space content====\n" ++ unspaced (file.getD []) ++ ascii "========\n" ++
    ascii "====full content====\n" ++ terminated (file.getD []) ++ ascii "========\n"

/-- The loops end, and they have come to all of the file. -/
theorem fileInput_eq {file : Option Bytes} (enough : (file.getD []).length + 2 ≤ fuel) :
    fileInput fuel file o =
      some ((if file = none then o.error cannotOpen else o).print (shown file)) := by
  obtain ⟨fuel, rfl⟩ : ∃ k, fuel = k + 1 := ⟨fuel - 1, by omega⟩
  cases file with
  | some text =>
      have enough : text.length + 2 ≤ fuel + 1 := enough
      obtain ⟨s, words⟩ : ∃ s, printWords (fuel + 1) (.ofBytes text) []
          (o.print (ascii "====skip while space content====\n")) = some (s, _) :=
        printWords_ofBytes enough
      obtain ⟨s', lines⟩ : ∃ s', printLines (fuel + 1) (.ofBytes text) []
          (((o.print (ascii "====skip while space content====\n")).print (unspaced text)).print
            (ascii "========\n" ++ ascii "====full content====\n")) = some (s', _) :=
        printLines_ofBytes enough
      simp only [fileInput, IFStream.construct, words, Option.bind_some, IFStream.close,
        IFStream.reopen, if_true, Bool.false_eq_true, if_false, lines, Option.map_some,
        Bool.not_true, reduceCtorEq]
      simp only [shown, print_print, List.append_assoc, Option.getD_some]
  | none =>
      have bad : IStream.good ⟨[], false, true⟩ = false := rfl
      simp only [fileInput, IFStream.construct, printWords_bad bad, Option.bind_some,
        IFStream.close, IFStream.reopen, if_true, Bool.false_eq_true, if_false, printLines,
        IStream.getline_of_not_good _ bad, Option.map_some, Bool.not_false]
      have nothing : unspaced [] = [] ∧ terminated [] = [] := ⟨rfl, rfl⟩
      simp only [shown, print_print, List.append_assoc, Option.getD_none, nothing.1, nothing.2,
        List.nil_append]

/-- The last byte that is written is no end of a line. -/
theorem terminated_contents : terminated contents = contents ++ [10] := by
  have last : contents.getLast? = some 69 := by
    rw [contents, List.getLast?_append]
    rfl
  rw [terminated, if_neg]
  rintro (empty | ended)
  · rw [empty] at last
    cases last
  · rw [last] at ended
    exact absurd ended (by decide)

/-- The file that `fileInput` finds. -/
def Os.found (os : Os) (before : Option Bytes) : Option Bytes :=
  os.opened (if os.create then some contents else before)

/-- The file that is left. -/
def Os.left (os : Os) (before : Option Bytes) : Option Bytes :=
  if os.remove then none else if os.create then some contents else before

theorem fileOutput_eq (os : Os) (before : Option Bytes) : fileOutput os before ⟨[], []⟩ =
    (if os.create then some contents else before,
      ⟨[], if os.create then [] else cannotOpen⟩) := by
  rw [fileOutput]
  split
  · rfl
  · rfl

/-- The message depends on whether what is left of the file can be opened. -/
theorem fileRemove_eq (os : Os) (before : Option Bytes) (o : Output) :
    fileRemove os (if os.create then some contents else before) o =
      (os.left before, if os.opened (os.left before) = none then
        o.print (ascii "Delete file: " ++ kTestFileName ++ ascii " \n")
      else o.error (ascii "Cannot delete file: " ++ kTestFileName ++ ascii " \n")) := by
  show (if (os.opened (os.left before)).isSome then (_, _) else _) = _
  cases os.opened (os.left before) with
  | none => rfl
  | some text => rfl

theorem run_eq (fuel : Nat) (os : Os) (before : Option Bytes) : run fuel os before =
    (fileInput fuel (os.found before) ⟨[], if os.create then [] else cannotOpen⟩).map
      (fileRemove os (if os.create then some contents else before)) := by
  rw [run, fileOutput_eq]
  rfl

/-- **What is written is what is read.** Whatever the system allows and whatever file there was
before, `run()` comes to its end, with the file gone if it may be removed. In between it
shows the file without its white space and then line by line: what `fileOutput` has
written, every byte of it, or the old file if that could not be written. -/
theorem run_prints (os : Os) (before : Option Bytes) :
    ∃ fuel o, run fuel os before = some (os.left before, o) ∧
      o.cout = shown (os.found before) ++
        (if os.opened (os.left before) = none then
          ascii "Delete file: " ++ kTestFileName ++ ascii " \n" else []) ∧
      o.cerr = (if os.create then [] else cannotOpen) ++
        (if os.found before = none then cannotOpen else []) ++
        (if os.opened (os.left before) = none then []
          else ascii "Cannot delete file: " ++ kTestFileName ++ ascii " \n") ∧
      (os.create = true → os.read = true → ∃ front back,
        o.cout = front ++ ascii "====full content====\n" ++ contents ++ [10] ++ back) := by
  refine ⟨((os.found before).getD []).length + 2, ⟨_, _⟩, ?_, rfl, rfl, ?_⟩
  · rw [run_eq, fileInput_eq (le_refl _), Option.map_some, fileRemove_eq]
    by_cases gone : os.opened (os.left before) = none
    · by_cases missing : os.found before = none
      · simp only [gone, missing, if_true, Output.print, Output.error, List.append_nil,
          List.nil_append]
      · simp only [gone, missing, if_true, if_false, Output.print, List.append_nil,
          List.nil_append]
    · by_cases missing : os.found before = none
      · simp only [gone, missing, if_true, if_false, Output.print, Output.error, List.append_nil,
          List.nil_append]
      · simp only [gone, missing, if_false, Output.print, Output.error, List.append_nil,
          List.nil_append]
  · intro create read
    have seen : os.found before = some contents := by
      rw [Os.found, Os.opened, if_pos read, if_pos create]
    rw [seen, shown, Option.getD_some, terminated_contents]
    generalize (if os.opened (os.left before) = none then _ else _) = last
    refine ⟨ascii "====skip while space content====\n" ++ unspaced contents ++
      ascii "========\n", ascii "========\n" ++ last, ?_⟩
    simp only [List.append_assoc]

end CppLab.FileHandle.FileIO
