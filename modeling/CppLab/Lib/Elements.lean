import CppLab.Env.StdString
import CppLab.Lib.System

/-!
# Well-formed elements

A reader of markup that goes byte by byte and keeps a stack of the elements that
are open. An end tag has to have the name of the innermost of them, and nothing
may be open at the end: what can be read is balanced. Entities, comments and
declarations are not interpreted.

`Reads` says what a piece of markup adds to the siblings that have been read,
wherever it stands. It is closed under concatenation, and there is one rule for
each thing that a markup is made of.
-/

namespace CppLab.Elements

/-- Character data is a node for each byte. The tag of an element is what stands
between `<` and `>`. -/
inductive Node
  | char (b : UInt8)
  | element (tag : Bytes) (children : List Node)

/-- The name that a tag starts with. -/
def name (tag : Bytes) : Bytes := tag.takeWhile (· ≠ 32)

/-- The siblings so far, the open elements with the siblings before them, and the
tag that is being read, with the quote that is open in it. -/
structure Reader where
  nodes : List Node
  stack : List (Bytes × List Node)
  tag : Option (Bytes × Option UInt8)

namespace Reader

/-- A tag has been read: `</name`, `<tag/` or `<tag`. -/
def tagged (s : Reader) (tag : Bytes) : Option Reader :=
  if tag.head? = some 47 then
    match s.stack with
    | [] => none
    | (start, before) :: stack =>
        if name start = tag.tail then
          some ⟨before ++ [.element start s.nodes], stack, none⟩
        else none
  else if tag.getLast? = some 47 then
    some ⟨s.nodes ++ [.element tag.dropLast []], s.stack, none⟩
  else some ⟨[], (tag, s.nodes) :: s.stack, none⟩

/-- One byte. Within quotes `>` does not end a tag. -/
def next (s : Reader) (b : UInt8) : Option Reader :=
  match s.tag with
  | none =>
      if b = 60 then some { s with tag := some ([], none) }
      else some { s with nodes := s.nodes ++ [.char b] }
  | some (tag, none) =>
      if b = 62 then s.tagged tag
      else some { s with tag := some (tag ++ [b], if b = 34 ∨ b = 39 then some b else none) }
  | some (tag, some quote) =>
      some { s with tag := some (tag ++ [b], if b = quote then none else some quote) }

end Reader

/-- The reader over the bytes of a markup. -/
def reader : System Reader UInt8 where
  init := ⟨[], [], none⟩
  step := Reader.next

/-- The nodes of a balanced markup. -/
def read (markup : Bytes) : Option (List Node) :=
  match reader.run markup with
  | some ⟨nodes, [], none⟩ => some nodes
  | _ => none

example : read (ascii "<p>a</q>") = none := rfl

/-- The elements among siblings. -/
def elements : List Node → List (Bytes × List Node)
  | [] => []
  | .char _ :: nodes => elements nodes
  | .element tag children :: nodes => (tag, children) :: elements nodes

/-- The character data among siblings. -/
def characters : List Node → Bytes
  | [] => []
  | .char b :: nodes => b :: characters nodes
  | .element _ _ :: nodes => characters nodes

/-- A piece of markup adds these nodes. -/
def Reads (markup : Bytes) (nodes : List Node) : Prop :=
  ∀ before stack, reader.runFrom ⟨before, stack, none⟩ markup = some ⟨before ++ nodes, stack, none⟩

/-- Content between a start tag and its end tag. -/
def enclosed (tag content : Bytes) : Bytes :=
  60 :: (tag ++ [62]) ++ content ++ 60 :: (47 :: name tag ++ [62])

/-- The quote that is open after these bytes of a tag, `none` when the tag has
ended. -/
def quoteAfter : Option UInt8 → Bytes → Option (Option UInt8)
  | quote, [] => some quote
  | none, b :: bs =>
      if b = 62 then none else quoteAfter (if b = 34 ∨ b = 39 then some b else none) bs
  | some quote, b :: bs => quoteAfter (if b = quote then none else some quote) bs

/-! ## Reading -/

theorem read_of_reads {markup : Bytes} {nodes : List Node} (reads : Reads markup nodes) :
    read markup = some nodes := by
  have run : reader.run markup = some ⟨nodes, [], none⟩ := reads [] []
  unfold read
  rw [run]

theorem Reads.nil : Reads [] [] := by
  intro before stack
  rw [List.append_nil]
  rfl

theorem Reads.append {a b : Bytes} {x y : List Node} (first : Reads a x) (second : Reads b y) :
    Reads (a ++ b) (x ++ y) := by
  intro before stack
  rw [System.runFrom_append, first before stack, Option.bind_some, second (before ++ x) stack,
    List.append_assoc]

theorem Reads.flatMap {α : Type*} {pieces : List α} {markup : α → Bytes} {nodes : α → List Node}
    (each : ∀ a ∈ pieces, Reads (markup a) (nodes a)) :
    Reads (pieces.flatMap markup) (pieces.flatMap nodes) := by
  induction pieces with
  | nil => exact Reads.nil
  | cons a pieces ih =>
      rw [List.forall_mem_cons] at each
      exact each.1.append (ih each.2)

theorem Reads.replicate {markup : Bytes} {nodes : List Node} (reads : Reads markup nodes)
    (n : Nat) : Reads (List.replicate n markup).flatten (List.replicate n nodes).flatten := by
  induction n with
  | zero => exact Reads.nil
  | succ n ih =>
      rw [List.replicate_succ, List.replicate_succ]
      exact reads.append ih

/-- Character data. -/
theorem Reads.text {text : Bytes} (data : 60 ∉ text) : Reads text (text.map .char) := by
  induction text with
  | nil => exact Reads.nil
  | cons b text ih =>
      rw [List.mem_cons, not_or] at data
      obtain ⟨other, data⟩ := data
      intro before stack
      have step : reader.step ⟨before, stack, none⟩ b =
          some ⟨before ++ [.char b], stack, none⟩ := if_neg (Ne.symm other)
      rw [System.runFrom_cons, step, Option.bind_some, ih data, List.append_assoc]
      rfl

/-! ## Tags -/

theorem quoteAfter_append (quote : Option UInt8) (a b : Bytes) :
    quoteAfter quote (a ++ b) = (quoteAfter quote a).bind fun quote => quoteAfter quote b := by
  induction a generalizing quote with
  | nil => rfl
  | cons c a ih =>
      cases quote with
      | none =>
          rw [List.cons_append, quoteAfter, quoteAfter]
          split
          · rfl
          · exact ih _
      | some quote =>
          rw [List.cons_append, quoteAfter, quoteAfter]
          exact ih _

/-- Bytes without the quote stay within it. -/
theorem quoteAfter_quoted {quote : UInt8} {text : Bytes} (clean : quote ∉ text) :
    quoteAfter (some quote) text = some (some quote) := by
  induction text with
  | nil => rfl
  | cons b text ih =>
      rw [List.mem_cons, not_or] at clean
      rw [quoteAfter, if_neg (Ne.symm clean.1), ih clean.2]

/-- The bytes of a tag are collected. -/
theorem runFrom_tag {s : Reader} {tag bytes : Bytes} {quote quote' : Option UInt8}
    (open_ : s.tag = some (tag, quote)) (after : quoteAfter quote bytes = some quote') :
    reader.runFrom s bytes = some { s with tag := some (tag ++ bytes, quote') } := by
  induction bytes generalizing s tag quote with
  | nil =>
      cases after
      rw [List.append_nil, ← open_]
      rfl
  | cons b bytes ih =>
      have step : ∃ quote'', reader.step s b = some { s with tag := some (tag ++ [b], quote'') } ∧
          quoteAfter quote'' bytes = some quote' := by
        cases quote with
        | none =>
            rw [quoteAfter] at after
            split at after
            · cases after
            · rename_i inside
              refine ⟨_, ?_, after⟩
              show s.next b = _
              unfold Reader.next
              rw [open_]
              exact if_neg inside
        | some quote =>
            rw [quoteAfter] at after
            refine ⟨_, ?_, after⟩
            show s.next b = _
            unfold Reader.next
            rw [open_]
      obtain ⟨quote'', step, after⟩ := step
      rw [System.runFrom_cons, step, Option.bind_some, ih rfl after, List.append_assoc]
      rfl

/-- A whole tag. -/
theorem runFrom_tagged {tag : Bytes} (inside : quoteAfter none tag = some none)
    (before : List Node) (stack : List (Bytes × List Node)) :
    reader.runFrom ⟨before, stack, none⟩ (60 :: (tag ++ [62])) =
      Reader.tagged ⟨before, stack, some (tag, none)⟩ tag := by
  have start : reader.step ⟨before, stack, none⟩ 60 = some ⟨before, stack, some ([], none)⟩ := rfl
  have stop : reader.step ⟨before, stack, some (tag, none)⟩ 62 =
      Reader.tagged ⟨before, stack, some (tag, none)⟩ tag := rfl
  rw [System.runFrom_cons, start, Option.bind_some, System.runFrom_append,
    runFrom_tag rfl inside, Option.bind_some, List.nil_append, System.runFrom_cons, stop]
  exact Option.bind_fun_some _

/-- What a start tag must have. -/
structure StartTag (tag : Bytes) : Prop where
  inside : quoteAfter none tag = some none
  notEnd : tag.head? ≠ some 47
  notEmpty : tag.getLast? ≠ some 47
  named : quoteAfter none (47 :: name tag) = some none

/-- An element with its content. -/
theorem Reads.element {tag content : Bytes} {children : List Node} (start : StartTag tag)
    (inner : Reads content children) :
    Reads (enclosed tag content) [.element tag children] := by
  intro before stack
  have opened : Reader.tagged ⟨before, stack, some (tag, none)⟩ tag =
      some ⟨[], (tag, before) :: stack, none⟩ := by
    unfold Reader.tagged
    rw [if_neg start.notEnd, if_neg start.notEmpty]
  have closed : Reader.tagged ⟨children, (tag, before) :: stack, some (47 :: name tag, none)⟩
      (47 :: name tag) = some ⟨before ++ [.element tag children], stack, none⟩ := by
    have isEnd : (47 :: name tag).head? = some 47 := rfl
    unfold Reader.tagged
    rw [if_pos isEnd]
    exact if_pos rfl
  unfold enclosed
  rw [System.runFrom_append, System.runFrom_append, runFrom_tagged start.inside, opened,
    Option.bind_some, inner [] _, Option.bind_some, List.nil_append,
    runFrom_tagged start.named, closed]

/-- An element without content. -/
theorem Reads.empty {tag : Bytes} (inside : quoteAfter none (tag ++ [47]) = some none)
    (notEnd : (tag ++ [47]).head? ≠ some 47) :
    Reads (60 :: (tag ++ [47] ++ [62])) [.element tag []] := by
  intro before stack
  rw [runFrom_tagged inside]
  unfold Reader.tagged
  rw [if_neg notEnd, if_pos List.getLast?_concat, List.dropLast_concat]

/-! ## Elements and characters -/

theorem elements_append (a b : List Node) : elements (a ++ b) = elements a ++ elements b := by
  induction a with
  | nil => rfl
  | cons node a ih =>
      cases node with
      | char b => exact ih
      | element tag children =>
          rw [List.cons_append, elements, elements, ih]
          rfl

theorem characters_text (text : Bytes) : characters (text.map .char) = text := by
  induction text with
  | nil => rfl
  | cons b text ih =>
      rw [List.map_cons, characters, ih]

end CppLab.Elements
