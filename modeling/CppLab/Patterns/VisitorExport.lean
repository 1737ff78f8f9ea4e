import CppLab.Lib.Elements
import CppLab.Patterns.JsonExport

/-!
# `HtmlExportConcreteVisitor` and `MarkdownExportConcreteVisitor`

Both put texts and paths into their output as they are, and write a table in two
nested loops of their own. Where no text has `<`, no path has `"` and neither has
`|`, the HTML of a document is balanced, one element at the top for each element of
the document, and both outputs have the same rows of cells.
-/

namespace CppLab.Patterns.VisitorExport

open JsonExport (IElement IVisitor clientCode lines)
open Elements (Node)

/-- `for (int i = 0; i < n; ++i)`, with what the body prints. -/
def forLoop (body : Bytes) (n : Int) (i : Int) : Bytes :=
  if i < n then body ++ forLoop body n (i + 1) else []
termination_by (n - i).toNat

def HtmlExportConcreteVisitor : IVisitor where
  visitText content := ascii "<p>" ++ content ++ ascii "</p>\n"
  visitImage path := ascii "<img src=\"" ++ path ++ ascii "\" />\n"
  visitTable rows cols :=
    ascii "<table>\n" ++
    forLoop (ascii "  <tr>" ++ forLoop (ascii "<td>cell</td>") cols 0 ++ ascii "</tr>\n") rows 0 ++
    ascii "</table>\n"

def MarkdownExportConcreteVisitor : IVisitor where
  visitText content := content ++ ascii "\n\n"
  visitImage path := ascii "![](" ++ path ++ ascii ")\n\n"
  visitTable rows cols :=
    forLoop (forLoop (ascii "| cell ") cols 0 ++ ascii "|\n") rows 0 ++ ascii "\n"

/-- None of `<`, `>`, `&`, `"` and `|`. -/
def Clean (text : Bytes) : Prop := 60 ∉ text ∧ 62 ∉ text ∧ 38 ∉ text ∧ 34 ∉ text ∧ 124 ∉ text

def CleanElement : IElement → Prop
  | .text content_ => Clean content_
  | .image path_ => Clean path_
  | .table _ _ => True

/-! ## What the outputs say -/

/-- The element that stands for an element of a document. -/
def element : IElement → Bytes × List Node
  | .text content_ => (ascii "p", content_.map .char)
  | .image path_ => (ascii "img src=\"" ++ path_ ++ ascii "\" ", [])
  | .table rows_ cols_ => (ascii "table", .char 10 :: (List.replicate rows_.toNat
      [.char 32, .char 32, .element (ascii "tr") (List.replicate cols_.toNat
        (.element (ascii "td") ((ascii "cell").map .char))), .char 10]).flatten)

/-- The rows of cells of an HTML table: the data of the `td` in its `tr`. -/
def htmlRows : Bytes × List Node → List (List Bytes)
  | (tag, children) =>
      if tag = ascii "table" then
        ((Elements.elements children).filter (·.1 = ascii "tr")).map fun row =>
          ((Elements.elements row.2).filter (·.1 = ascii "td")).map fun cell =>
            Elements.characters cell.2
      else []

/-- What ends at a `|`. -/
def segments (before : Bytes) : Bytes → List Bytes
  | [] => []
  | b :: line =>
      if b = 124 then before :: segments [] line else segments (before ++ [b]) line

/-- The cells between the bars of a line, without their blanks. -/
def cells (line : Bytes) : List Bytes :=
  (segments [] line).tail.map fun cell => cell.filter (· ≠ 32)

/-- The rows of cells of a Markdown text: the lines with bars. -/
def markdownRows (text : Bytes) : List (List Bytes) :=
  ((lines text).filter (124 ∈ ·)).map cells

/-- The rows and columns of an element. -/
def tableRows : IElement → List (List Bytes)
  | .text _ => []
  | .image _ => []
  | .table rows_ cols_ =>
      List.replicate (max rows_ 0).toNat (List.replicate (max cols_ 0).toNat (ascii "cell"))

/-! ## The loops -/

theorem forLoop_eq (body : Bytes) (n i : Int) :
    forLoop body n i = (List.replicate (n - i).toNat body).flatten := by
  fun_induction forLoop body n i with
  | case1 i more ih =>
      have count : (n - i).toNat = (n - (i + 1)).toNat + 1 := by omega
      rw [ih, count, List.replicate_succ, List.flatten_cons]
  | case2 i done =>
      have count : (n - i).toNat = 0 := by omega
      rw [count]
      rfl

theorem forLoop_zero (body : Bytes) (n : Int) :
    forLoop body n 0 = (List.replicate n.toNat body).flatten := by
  rw [forLoop_eq, Int.sub_zero]

/-! ## HTML -/

/-- The line end behind an element. -/
theorem reads_line {markup : Bytes} {nodes : List Node} (reads : Elements.Reads markup nodes) :
    Elements.Reads (markup ++ [10]) (nodes ++ [.char 10]) := by
  have feed : Elements.Reads [10] [.char 10] := Elements.Reads.text (by decide)
  exact reads.append feed

theorem reads_text {content_ : Bytes} (clean : Clean content_) :
    Elements.Reads (HtmlExportConcreteVisitor.visitText content_)
      [.element (ascii "p") (content_.map .char), .char 10] := by
  have start : Elements.StartTag (ascii "p") := ⟨by decide, by decide, by decide, by decide⟩
  have inner := reads_line (Elements.Reads.element start (Elements.Reads.text clean.1))
  have same : HtmlExportConcreteVisitor.visitText content_ =
      Elements.enclosed (ascii "p") content_ ++ [10] :=
    (List.append_assoc (ascii "<p>" ++ content_) (ascii "</p>") [10]).symm
  rw [same]
  exact inner

theorem reads_image {path_ : Bytes} (clean : Clean path_) :
    Elements.Reads (HtmlExportConcreteVisitor.visitImage path_)
      [.element (ascii "img src=\"" ++ path_ ++ ascii "\" ") [], .char 10] := by
  obtain ⟨-, -, -, quote, -⟩ := clean
  have inside : Elements.quoteAfter none (ascii "img src=\"" ++ path_ ++ ascii "\" " ++ [47]) =
      some none := by
    have before : Elements.quoteAfter none (ascii "img src=\"") = some (some 34) := by decide
    have after : Elements.quoteAfter (some 34) (ascii "\" " ++ [47]) = some none := by decide
    rw [List.append_assoc, List.append_assoc, Elements.quoteAfter_append, before,
      Option.bind_some, Elements.quoteAfter_append, Elements.quoteAfter_quoted quote,
      Option.bind_some, after]
  have same : HtmlExportConcreteVisitor.visitImage path_ =
      60 :: (ascii "img src=\"" ++ path_ ++ ascii "\" " ++ [47] ++ [62]) ++ [10] := by
    show ascii "<img src=\"" ++ path_ ++ ascii "\" />\n" = _
    simp only [List.cons_append, List.append_assoc]
    rfl
  rw [same]
  exact reads_line (Elements.Reads.empty inside (by simp [ascii]))

/-- A row with its cells. -/
theorem reads_row (cols : Int) :
    Elements.Reads (ascii "  <tr>" ++ forLoop (ascii "<td>cell</td>") cols 0 ++ ascii "</tr>\n")
      [.char 32, .char 32, .element (ascii "tr") (List.replicate cols.toNat
        (.element (ascii "td") ((ascii "cell").map .char))), .char 10] := by
  have cell : Elements.StartTag (ascii "td") := ⟨by decide, by decide, by decide, by decide⟩
  have row : Elements.StartTag (ascii "tr") := ⟨by decide, by decide, by decide, by decide⟩
  have data : Elements.Reads (ascii "cell") ((ascii "cell").map .char) :=
    Elements.Reads.text (by decide)
  have all := (Elements.Reads.element cell data).replicate cols.toNat
  rw [List.flatten_replicate_singleton] at all
  have blanks : Elements.Reads (ascii "  ") [.char 32, .char 32] :=
    Elements.Reads.text (by decide)
  have whole := reads_line (blanks.append (Elements.Reads.element row all))
  rw [forLoop_zero]
  have same : ascii "  <tr>" ++ (List.replicate cols.toNat (ascii "<td>cell</td>")).flatten ++
        ascii "</tr>\n" =
      ascii "  " ++ Elements.enclosed (ascii "tr") (List.replicate cols.toNat
        (Elements.enclosed (ascii "td") (ascii "cell"))).flatten ++ [10] := by
    have cell : Elements.enclosed (ascii "td") (ascii "cell") = ascii "<td>cell</td>" := by decide
    rw [cell, Elements.enclosed]
    simp only [List.append_assoc]
    rfl
  rw [same]
  exact whole

theorem reads_table (rows cols : Int) :
    Elements.Reads (HtmlExportConcreteVisitor.visitTable rows cols)
      [.element (element (.table rows cols)).1 (element (.table rows cols)).2, .char 10] := by
  have table : Elements.StartTag (ascii "table") := ⟨by decide, by decide, by decide, by decide⟩
  have feed : Elements.Reads [10] [.char 10] := Elements.Reads.text (by decide)
  have inner := feed.append ((reads_row cols).replicate rows.toNat)
  have whole := reads_line (Elements.Reads.element table inner)
  have same : HtmlExportConcreteVisitor.visitTable rows cols =
      Elements.enclosed (ascii "table") ([10] ++ (List.replicate rows.toNat
        (ascii "  <tr>" ++ forLoop (ascii "<td>cell</td>") cols 0 ++ ascii "</tr>\n")).flatten) ++
          [10] := by
    show ascii "<table>\n" ++ forLoop _ rows 0 ++ ascii "</table>\n" = _
    rw [forLoop_zero, Elements.enclosed]
    simp only [List.append_assoc]
    rfl
  rw [same]
  exact whole

/-- What an element prints is its element and a line end. -/
theorem reads_accept {ele : IElement} (clean : CleanElement ele) :
    Elements.Reads (ele.accept HtmlExportConcreteVisitor)
      [.element (element ele).1 (element ele).2, .char 10] := by
  cases ele with
  | text content_ => exact reads_text clean
  | image path_ => exact reads_image clean
  | table rows_ cols_ => exact reads_table rows_ cols_

/-- The rows of a table as they are read back from HTML. -/
theorem htmlRows_element (ele : IElement) : htmlRows (element ele) = tableRows ele := by
  cases ele with
  | text content_ =>
      have other : ¬ ascii "p" = ascii "table" := by decide
      rw [element, htmlRows, if_neg other]
      rfl
  | image path_ =>
      have other : ¬ ascii "img src=\"" ++ path_ ++ ascii "\" " = ascii "table" := by
        intro same
        have first := congrArg List.head? same
        exact absurd first (by simp [ascii])
      rw [element, htmlRows, if_neg other]
      rfl
  | table rows_ cols_ =>
      have rows : (max rows_ 0).toNat = rows_.toNat := by omega
      have cols : (max cols_ 0).toNat = cols_.toNat := by omega
      have cellElements : Elements.elements (List.replicate cols_.toNat
          (.element (ascii "td") ((ascii "cell").map .char))) =
          List.replicate cols_.toNat (ascii "td", (ascii "cell").map .char) := by
        induction cols_.toNat with
        | zero => rfl
        | succ n ih => rw [List.replicate_succ, Elements.elements, ih, List.replicate_succ]
      have rowElements : ∀ row : List Node, Elements.elements (.char 10 ::
          (List.replicate rows_.toNat
            [.char 32, .char 32, .element (ascii "tr") row, .char 10]).flatten) =
          List.replicate rows_.toNat (ascii "tr", row) := by
        intro row
        rw [Elements.elements]
        induction rows_.toNat with
        | zero => rfl
        | succ n ih =>
            rw [List.replicate_succ, List.flatten_cons, Elements.elements_append, ih,
              List.replicate_succ]
            rfl
      have data : Elements.characters ((ascii "cell").map .char) = ascii "cell" :=
        Elements.characters_text _
      show htmlRows (ascii "table", _) = _
      rw [htmlRows, if_pos rfl, rowElements, tableRows, rows, cols]
      simp only [List.filter_replicate, decide_true, if_true, List.map_replicate, cellElements,
        data]

theorem elements_document (doc : List IElement) :
    Elements.elements (doc.flatMap fun ele =>
      [.element (element ele).1 (element ele).2, .char 10]) = doc.map element := by
  induction doc with
  | nil => rfl
  | cons ele doc ih =>
      rw [List.flatMap_cons, Elements.elements_append, ih]
      rfl

/-! ## Markdown -/

theorem segments_text {text : Bytes} (clean : 124 ∉ text) (before line : Bytes) :
    segments before (text ++ line) = segments (before ++ text) line := by
  induction text generalizing before with
  | nil => rw [List.append_nil, List.nil_append]
  | cons b text ih =>
      rw [List.mem_cons, not_or] at clean
      rw [List.cons_append, segments, if_neg (Ne.symm clean.1), ih clean.2, List.append_assoc]
      rfl

/-- A line with `n` cells. -/
theorem segments_row (before : Bytes) (n : Nat) :
    segments before ((List.replicate n (ascii "| cell ")).flatten ++ ascii "|") =
      before :: List.replicate n (ascii " cell ") := by
  induction n generalizing before with
  | zero => rfl
  | succ n ih =>
      have first : segments before
            ((List.replicate (n + 1) (ascii "| cell ")).flatten ++ ascii "|") =
          before :: segments [] (ascii " cell " ++
            ((List.replicate n (ascii "| cell ")).flatten ++ ascii "|")) := by
        rw [List.replicate_succ, List.flatten_cons, List.append_assoc]
        rfl
      rw [first, segments_text (by decide), ih, List.replicate_succ]
      rfl

theorem cells_row (n : Nat) :
    cells ((List.replicate n (ascii "| cell ")).flatten ++ ascii "|") =
      List.replicate n (ascii "cell") := by
  have blanks : (ascii " cell ").filter (· ≠ 32) = ascii "cell" := by decide
  rw [cells, segments_row, List.tail_cons, List.map_replicate, blanks]

/-- Lines without bars are no rows. -/
theorem markdownRows_text {text : Bytes} (clean : 124 ∉ text) (rest : Bytes) :
    markdownRows (text ++ 10 :: rest) = markdownRows rest := by
  have front : ∃ line others, lines (text ++ 10 :: rest) = line :: others ++ lines rest ∧
      ∀ l ∈ line :: others, 124 ∉ l := by
    induction text with
    | nil => exact ⟨[], [], rfl, by simp⟩
    | cons b text ih =>
        rw [List.mem_cons, not_or] at clean
        obtain ⟨line, others, split, barless⟩ := ih clean.2
        rw [List.cons_append, lines, split]
        by_cases feed : b = 10
        · rw [if_pos feed]
          refine ⟨[], line :: others, rfl, ?_⟩
          rw [List.forall_mem_cons]
          exact ⟨List.not_mem_nil, barless⟩
        · rw [if_neg feed]
          refine ⟨b :: line, others, rfl, ?_⟩
          rw [List.forall_mem_cons] at barless ⊢
          refine ⟨?_, barless.2⟩
          rw [List.mem_cons, not_or]
          exact ⟨clean.1, barless.1⟩
  obtain ⟨line, others, split, barless⟩ := front
  have none : (line :: others).filter (124 ∈ ·) = [] := by
    rw [List.filter_eq_nil_iff]
    intro l member
    simpa using barless l member
  rw [markdownRows, split, List.filter_append, none, List.nil_append]
  rfl

/-- The rows of a table as they are read back from Markdown. -/
theorem markdownRows_table (rows cols : Int) (rest : Bytes) :
    markdownRows (MarkdownExportConcreteVisitor.visitTable rows cols ++ rest) =
      tableRows (.table rows cols) ++ markdownRows rest := by
  have notNegative : (max rows 0).toNat = rows.toNat := by omega
  have notNegative' : (max cols 0).toNat = cols.toNat := by omega
  show markdownRows (forLoop (forLoop (ascii "| cell ") cols 0 ++ ascii "|\n") rows 0 ++
    ascii "\n" ++ rest) = _
  rw [forLoop_zero, forLoop_zero, tableRows, notNegative, notNegative', List.append_assoc]
  induction rows.toNat with
  | zero => exact markdownRows_text List.not_mem_nil rest
  | succ n ih =>
      have row : List.flatten (List.replicate (n + 1)
            ((List.replicate cols.toNat (ascii "| cell ")).flatten ++ ascii "|\n")) ++
          (ascii "\n" ++ rest) =
          ((List.replicate cols.toNat (ascii "| cell ")).flatten ++ ascii "|") ++ 10 ::
            (List.flatten (List.replicate n
              ((List.replicate cols.toNat (ascii "| cell ")).flatten ++ ascii "|\n")) ++
                (ascii "\n" ++ rest)) := by
        rw [List.replicate_succ, List.flatten_cons]
        simp only [List.append_assoc]
        rfl
      have whole : 10 ∉ (List.replicate cols.toNat (ascii "| cell ")).flatten ++ ascii "|" := by
        simp [ascii]
      have bar : 124 ∈ (List.replicate cols.toNat (ascii "| cell ")).flatten ++ ascii "|" :=
        List.mem_append_right _ (by decide)
      rw [row, markdownRows, JsonExport.lines_line whole,
        List.filter_cons_of_pos (by simpa using bar), List.map_cons, cells_row,
        List.replicate_succ, List.cons_append]
      exact congrArg _ ih

/-- The rows of a document in Markdown are those of its tables. -/
theorem markdownRows_document {doc : List IElement} (clean : ∀ ele ∈ doc, CleanElement ele) :
    markdownRows (clientCode doc MarkdownExportConcreteVisitor) = doc.flatMap tableRows := by
  induction doc with
  | nil => rfl
  | cons ele doc ih =>
      rw [List.forall_mem_cons] at clean
      rw [List.flatMap_cons, ← ih clean.2]
      show markdownRows (ele.accept MarkdownExportConcreteVisitor ++ clientCode doc _) = _
      cases ele with
      | text content_ =>
          obtain ⟨-, -, -, -, bar⟩ := clean.1
          show markdownRows (content_ ++ ascii "\n\n" ++ clientCode doc _) = _
          rw [List.append_assoc]
          exact (markdownRows_text bar _).trans (markdownRows_text List.not_mem_nil _)
      | image path_ =>
          obtain ⟨-, -, -, -, bar⟩ := clean.1
          have barless : 124 ∉ ascii "![](" ++ path_ ++ ascii ")" := by simp [ascii, bar]
          have same : ∀ rest, MarkdownExportConcreteVisitor.visitImage path_ ++ rest =
              (ascii "![](" ++ path_ ++ ascii ")") ++ 10 :: ([] ++ 10 :: rest) := by
            intro rest
            show ascii "![](" ++ path_ ++ ascii ")\n\n" ++ rest = _
            simp only [List.append_assoc]
            rfl
          show markdownRows (MarkdownExportConcreteVisitor.visitImage path_ ++ clientCode doc _) = _
          rw [same]
          exact (markdownRows_text barless _).trans (markdownRows_text List.not_mem_nil _)
      | table rows_ cols_ => exact markdownRows_table rows_ cols_ _

/-! ## The main result -/

/-- **HTML and Markdown export.** For a document of clean texts and paths the HTML
is balanced, with one element at the top for each element of the document, in
order, and both outputs have the rows of its tables. What either visitor prints
for a table has as many rows and columns as the table, none where they are
negative. -/
theorem html_markdown {doc : List IElement} (clean : ∀ ele ∈ doc, CleanElement ele) :
    (∃ nodes, Elements.read (clientCode doc HtmlExportConcreteVisitor) = some nodes ∧
      Elements.elements nodes = doc.map element ∧
      (Elements.elements nodes).flatMap htmlRows = doc.flatMap tableRows) ∧
    markdownRows (clientCode doc MarkdownExportConcreteVisitor) = doc.flatMap tableRows ∧
    ∀ rows cols,
      (∃ table, Elements.read (HtmlExportConcreteVisitor.visitTable rows cols) = some table ∧
        (Elements.elements table).flatMap htmlRows =
          List.replicate (max rows 0).toNat (List.replicate (max cols 0).toNat (ascii "cell"))) ∧
      markdownRows (MarkdownExportConcreteVisitor.visitTable rows cols) =
        List.replicate (max rows 0).toNat (List.replicate (max cols 0).toNat (ascii "cell")) := by
  have rowsOf : (doc.map element).flatMap htmlRows = doc.flatMap tableRows := by
    rw [List.flatMap_map]
    exact congrArg (doc.flatMap ·) (funext htmlRows_element)
  refine ⟨?_, markdownRows_document clean, ?_⟩
  · have reads : Elements.Reads (clientCode doc HtmlExportConcreteVisitor) _ :=
      Elements.Reads.flatMap fun ele member => reads_accept (clean ele member)
    refine ⟨_, Elements.read_of_reads reads, elements_document doc, ?_⟩
    rw [elements_document, rowsOf]
  · intro rows cols
    constructor
    · refine ⟨_, Elements.read_of_reads (reads_table rows cols), ?_⟩
      show [element (.table rows cols)].flatMap htmlRows = _
      rw [List.flatMap_singleton, htmlRows_element]
      rfl
    · have alone := markdownRows_table rows cols []
      rw [List.append_nil] at alone
      exact alone.trans (List.append_nil _)

/-- A text with a line end and a table without columns. -/
theorem html_markdown_sample : ∃ nodes,
    Elements.read (clientCode [.text (ascii "a\nb"), .table 2 (-1), .image (ascii "it's.png")]
      HtmlExportConcreteVisitor) = some nodes ∧
    (Elements.elements nodes).map (·.1) =
      [ascii "p", ascii "table", ascii "img src=\"it's.png\" "] := by
  have clean : ∀ ele ∈ [IElement.text (ascii "a\nb"), .table 2 (-1), .image (ascii "it's.png")],
      CleanElement ele := by
    simp only [List.forall_mem_cons]
    refine ⟨?_, trivial, ?_, nofun⟩
    · unfold CleanElement Clean
      decide
    · unfold CleanElement Clean
      decide
  obtain ⟨⟨nodes, read, same, -⟩, -⟩ := html_markdown clean
  refine ⟨nodes, read, ?_⟩
  rw [same]
  rfl

end CppLab.Patterns.VisitorExport
