import CppLab.Lib.JsonText
import CppLab.Patterns.Flyweight

/-!
# `JsonExportConcreteVisitor` and `JsonExportStrategy`

Both write JSON by putting the bytes of a string between quotes as they are. The lines
that are printed for a document can be decoded, one for each element, precisely when
every string in it is UTF-8 without quotes, backslashes and control characters:
another string breaks out of its quotes, or stands for something shorter, or is no
text.
-/

namespace CppLab.Patterns.JsonExport

open Json
open Flyweight (toDecimal)

/-- The elements of a document. -/
inductive IElement
  | text (content_ : Bytes)
  | image (path_ : Bytes)
  | table (rows_ cols_ : Int)

/-- What the methods of a visitor print. -/
structure IVisitor where
  visitText : Bytes → Bytes
  visitImage : Bytes → Bytes
  visitTable : Int → Int → Bytes

def IElement.accept (visitor : IVisitor) : IElement → Bytes
  | .text content_ => visitor.visitText content_
  | .image path_ => visitor.visitImage path_
  | .table rows_ cols_ => visitor.visitTable rows_ cols_

/-- `<<` prints an `int` as `std::to_string` does; `\x7b` and `\x7d` are braces. -/
def JsonExportConcreteVisitor : IVisitor where
  visitText content :=
    ascii "\x7b \"type\": \"text\", \"content\": \"" ++ content ++ ascii "\" \x7d\n"
  visitImage path :=
    ascii "\x7b \"type\": \"image\", \"path\": \"" ++ path ++ ascii "\" \x7d\n"
  visitTable rows cols :=
    ascii "\x7b \"type\": \"table\", \"rows\": " ++ toDecimal rows ++
      ascii ", \"cols\": " ++ toDecimal cols ++ ascii " \x7d\n"

/-- `client::clientCode`. -/
def clientCode (doc : List IElement) (visitor : IVisitor) : Bytes :=
  doc.flatMap fun ele => ele.accept visitor

/-- `JsonExportStrategy::executeExportData`. -/
def executeExportData (content : Bytes) : Bytes :=
  ascii "\x7b\"content\": \"" ++ content ++ ascii "\" \x7d"

/-! ## What decoding should give back -/

/-- The lines of an output. -/
def lines : Bytes → List Bytes
  | [] => []
  | b :: rest =>
      if b = 10 then [] :: lines rest
      else
        match lines rest with
        | [] => [[b]]
        | line :: others => (b :: line) :: others

/-- A member is the string of these bytes. -/
def HasString (v : Value) (name : String) (bytes : Bytes) : Prop :=
  ∃ s, v.field name.toList = some (.string s) ∧ Utf8.encode s = bytes

/-- A value is what an element decodes back to. -/
def IElement.Back (v : Value) : IElement → Prop
  | .text content_ => HasString v "type" (ascii "text") ∧ HasString v "content" content_
  | .image path_ => HasString v "type" (ascii "image") ∧ HasString v "path" path_
  | .table rows_ cols_ => HasString v "type" (ascii "table") ∧
      v.field "rows".toList = some (.number rows_) ∧ v.field "cols".toList = some (.number cols_)

/-- The lines that are printed decode back to the elements, in order. -/
def Decodable (doc : List IElement) : Prop :=
  List.Forall₂ (fun line ele => ∃ v, decode line = some v ∧ ele.Back v)
    (lines (clientCode doc JsonExportConcreteVisitor)) doc

/-- What the strategy returns decodes back to the content. -/
def StrategyDecodable (content : Bytes) : Prop :=
  ∃ v, decode (executeExportData content) = some v ∧ HasString v "content" content

/-- Bytes that are a text without quotes, backslashes and control characters. -/
def Plain (bytes : Bytes) : Prop :=
  ∃ t, Utf8.decode bytes = some t ∧ ∀ c ∈ t, plain c = true

def IElement.Plain : IElement → Prop
  | .text content_ => JsonExport.Plain content_
  | .image path_ => JsonExport.Plain path_
  | .table _ _ => True

/-! ## Strings between quotes -/

def isAscii (s : String) : Bool := s.toList.all (·.toNat < 128)

theorem isAscii_iff {s : String} : isAscii s = true ↔ ∀ c ∈ s.toList, c.toNat < 128 := by
  simp [isAscii]

theorem encode_toList {s : String} (small : isAscii s = true) : Utf8.encode s.toList = ascii s :=
  Utf8.encode_of_ascii (isAscii_iff.mp small)

/-- Bytes between two ASCII texts. -/
theorem decode_between {front back : String} {bytes : Bytes} {v : Value}
    (small : isAscii front = true) (small' : isAscii back = true) :
    decode (ascii front ++ bytes ++ ascii back) = some v ↔
      ∃ t, Utf8.encode t = bytes ∧ parse (front.toList ++ t ++ back.toList) = some v := by
  rw [← encode_toList small, ← encode_toList small', decode, Option.bind_eq_some_iff]
  constructor
  · rintro ⟨whole, decoded, read⟩
    -- the characters are cut at the front, then at the back
    rw [Utf8.decode_eq_some, List.append_assoc] at decoded
    obtain ⟨u, rfl, tail⟩ := Utf8.eq_append decoded
    obtain ⟨t, rfl, middle⟩ := Utf8.eq_append_ascii (isAscii_iff.mp small') tail
    refine ⟨t, middle, ?_⟩
    rw [List.append_assoc]
    exact read
  · rintro ⟨t, rfl, read⟩
    refine ⟨front.toList ++ t ++ back.toList, ?_, read⟩
    rw [Utf8.decode_eq_some, Utf8.encode_append, Utf8.encode_append]

/-- An object with one string, as the strategy writes it. -/
def single (name text : List Char) : List Char :=
  '{' :: '"' :: (name ++ '"' :: ':' :: ' ' :: '"' :: (text ++ ['"', ' ', '}']))

/-- An object with a type and a string, as the visitor writes it. -/
def typed (kind name text : List Char) : List Char :=
  '{' :: ' ' :: '"' :: ("type".toList ++ '"' :: ':' :: ' ' :: '"' :: (kind ++ '"' :: ',' :: ' ' ::
    '"' :: (name ++ '"' :: ':' :: ' ' :: '"' :: (text ++ ['"', ' ', '}']))))

theorem value_single (n : Nat) (name text : List Char) :
    value (n + 1) (single name text) =
      (members n ('"' :: (name ++ '"' :: ':' :: ' ' :: '"' :: (text ++ ['"', ' ', '}'])))).map
        fun r => (.object r.1, r.2) :=
  value_brace n (token_other (by decide) (by decide) _)

theorem value_typed (n : Nat) {kind : List Char} (clean : ∀ c ∈ kind, plain c = true)
    (name text : List Char) :
    value (n + 3) (typed kind name text) =
      (members (n + 1)
        ('"' :: (name ++ '"' :: ':' :: ' ' :: '"' :: (text ++ ['"', ' ', '}'])))).map
          fun r => (.object (("type".toList, .string kind) :: r.1), r.2) := by
  have opened : ∀ t, token '}' (' ' :: '"' :: t) = none := by
    intro t
    rw [token_space, token_other (by decide) (by decide)]
  have first : ∀ t, value (n + 1) ('"' :: (kind ++ '"' :: t)) = some (.string kind, t) := by
    intro t
    rw [value_quote, string_append clean]
    rfl
  rw [typed, value_brace (n + 2) (opened _), members_space,
    members_member (List.all_eq_true.mp (by decide)) (first _), more_comma _ (by decide),
    members_space, Option.map_map]
  rfl

/-- A clean string is read back, with what is written before it. -/
theorem members_plain (n : Nat) {name text : List Char} (cleanName : ∀ c ∈ name, plain c = true)
    (clean : ∀ c ∈ text, plain c = true) :
    members (n + 2) ('"' :: (name ++ '"' :: ':' :: ' ' :: '"' :: (text ++ ['"', ' ', '}']))) =
      some ([(name, .string text)], []) := by
  have read : value (n + 1) ('"' :: (text ++ ['"', ' ', '}'])) =
      some (.string text, [' ', '}']) := by
    rw [value_quote, string_append clean]
    rfl
  rw [members_member cleanName read, more_brace]

theorem mem_of_field {ms : List (List Char × Value)} {name : List Char} {v : Value}
    (found : (Value.object ms).field name = some v) : (name, v) ∈ ms := by
  obtain ⟨later, earlier, split, -⟩ := List.lookup_eq_some_iff.mp found
  rw [← List.mem_reverse, split]
  exact List.mem_append_right later List.mem_cons_self

/-- The strategy's object reads back what stands between the quotes if and only if it
is clean. -/
theorem single_iff {name text : List Char} (cleanName : ∀ c ∈ name, plain c = true) :
    (∃ v, parse (single name text) = some v ∧ v.field name = some (.string text)) ↔
      ∀ c ∈ text, plain c = true := by
  constructor
  · rintro ⟨v, read, found⟩
    obtain ⟨rest, read⟩ := parse_eq_some read
    rw [value_single] at read
    obtain ⟨⟨ms, rest⟩, inner, same⟩ := Option.map_eq_some_iff.mp read
    cases same
    exact plain_of_members cleanName inner (mem_of_field found)
  · intro clean
    refine ⟨.object [(name, .string text)], ?_, ?_⟩
    · have read : value 3 (single name text) = some (.object [(name, .string text)], []) := by
        rw [value_single, members_plain 0 cleanName clean]
        rfl
      exact parse_of_value read rfl
    · simp [Value.field]

/-- The visitor's object likewise. -/
theorem typed_iff {kind name text : List Char} (cleanKind : ∀ c ∈ kind, plain c = true)
    (cleanName : ∀ c ∈ name, plain c = true) (other : name ≠ "type".toList) :
    (∃ v, parse (typed kind name text) = some v ∧
      v.field "type".toList = some (.string kind) ∧ v.field name = some (.string text)) ↔
      ∀ c ∈ text, plain c = true := by
  constructor
  · rintro ⟨v, read, -, found⟩
    obtain ⟨rest, read⟩ := parse_eq_some read
    -- the fuel is enough for the braces and the first member
    have long : 2 ≤ 2 * (typed kind name text).length := by
      rw [typed, List.length_cons]
      omega
    obtain ⟨n, fuel⟩ := Nat.exists_eq_add_of_le long
    rw [fuel, show 2 + n + 1 = n + 3 by omega, value_typed n cleanKind] at read
    obtain ⟨⟨ms, rest⟩, inner, same⟩ := Option.map_eq_some_iff.mp read
    cases same
    rcases List.mem_cons.mp (mem_of_field found) with same | member
    · exact absurd (Prod.mk.inj same).1 other
    · exact plain_of_members cleanName inner member
  · intro clean
    refine ⟨.object [("type".toList, .string kind), (name, .string text)], ?_, ?_, ?_⟩
    · have read : value 4 (typed kind name text) =
          some (.object [("type".toList, .string kind), (name, .string text)], []) := by
        rw [value_typed 1 cleanKind, members_plain 0 cleanName clean]
        rfl
      exact parse_of_value read rfl
    · refine List.lookup_eq_some_iff.mpr ⟨[(name, .string text)], [], rfl, ?_⟩
      intro p member
      cases List.mem_singleton.mp member
      exact bne_iff_ne.mpr other.symm
    · simp [Value.field]

/-! ## Elements -/

theorem plain_iff {bytes : Bytes} {t : List Char} (code : Utf8.encode t = bytes) :
    Plain bytes ↔ ∀ c ∈ t, plain c = true := by
  rw [← Utf8.decode_eq_some] at code
  simp [Plain, code]

/-- The strategy's output. -/
theorem strategyDecodable_iff (content : Bytes) : StrategyDecodable content ↔ Plain content := by
  have cleanName : ∀ c ∈ "content".toList, plain c = true := List.all_eq_true.mp (by decide)
  constructor
  · rintro ⟨v, decoded, s, found, rfl⟩
    obtain ⟨t, code, read⟩ := (decode_between rfl rfl).mp decoded
    rw [Utf8.encode_inj] at code
    subst code
    exact (plain_iff rfl).mpr ((single_iff cleanName).mp ⟨v, read, found⟩)
  · rintro ⟨t, decoded, clean⟩
    rw [Utf8.decode_eq_some] at decoded
    obtain ⟨v, read, found⟩ := (single_iff cleanName).mpr clean
    exact ⟨v, (decode_between rfl rfl).mpr ⟨t, decoded, read⟩, t, found, decoded⟩

/-- A string as the visitor prints it. -/
theorem typed_decodable_iff {front kind name : String} {bytes : Bytes}
    (small : isAscii front = true)
    (shape : ∀ t, front.toList ++ t ++ "\" \x7d".toList = typed kind.toList name.toList t)
    (smallKind : isAscii kind = true) (cleanKind : ∀ c ∈ kind.toList, plain c = true)
    (cleanName : ∀ c ∈ name.toList, plain c = true) (other : name.toList ≠ "type".toList) :
    (∃ v, decode (ascii front ++ bytes ++ ascii "\" \x7d") = some v ∧
      HasString v "type" (ascii kind) ∧ HasString v name bytes) ↔ Plain bytes := by
  constructor
  · rintro ⟨v, decoded, ⟨k, foundKind, codeKind⟩, s, found, rfl⟩
    obtain ⟨t, code, read⟩ := (decode_between small rfl).mp decoded
    rw [Utf8.encode_inj] at code
    subst code
    rw [← encode_toList smallKind, Utf8.encode_inj] at codeKind
    subst codeKind
    rw [shape] at read
    exact (plain_iff rfl).mpr ((typed_iff cleanKind cleanName other).mp ⟨v, read, foundKind, found⟩)
  · rintro ⟨t, decoded, clean⟩
    rw [Utf8.decode_eq_some] at decoded
    obtain ⟨v, read, foundKind, found⟩ := (typed_iff cleanKind cleanName other).mpr clean
    rw [← shape] at read
    exact ⟨v, (decode_between small rfl).mpr ⟨t, decoded, read⟩,
      ⟨_, foundKind, encode_toList smallKind⟩, t, found, decoded⟩

/-- The line of an element, without its end. -/
def IElement.line : IElement → Bytes
  | .text content_ =>
      ascii "\x7b \"type\": \"text\", \"content\": \"" ++ content_ ++ ascii "\" \x7d"
  | .image path_ =>
      ascii "\x7b \"type\": \"image\", \"path\": \"" ++ path_ ++ ascii "\" \x7d"
  | .table rows_ cols_ => ascii "\x7b \"type\": \"table\", \"rows\": " ++ toDecimal rows_ ++
      ascii ", \"cols\": " ++ toDecimal cols_ ++ ascii " \x7d"

theorem accept_eq (ele : IElement) :
    ele.accept JsonExportConcreteVisitor = ele.line ++ [10] := by
  have quoted : ascii "\" \x7d\n" = ascii "\" \x7d" ++ [10] := by decide
  have bare : ascii " \x7d\n" = ascii " \x7d" ++ [10] := by decide
  cases ele with
  | text content =>
      show _ ++ content ++ ascii "\" \x7d\n" = _
      rw [quoted, ← List.append_assoc]
      rfl
  | image path =>
      show _ ++ path ++ ascii "\" \x7d\n" = _
      rw [quoted, ← List.append_assoc]
      rfl
  | table rows cols =>
      show _ ++ toDecimal cols ++ ascii " \x7d\n" = _
      rw [bare, ← List.append_assoc]
      rfl

/-- Decimal digits and a minus sign are ASCII, and none of them ends a line. -/
theorem toNat_of_mem_toString {x : Int} {c : Char} (member : c ∈ (toString x).toList) :
    c.toNat < 128 ∧ c.toNat ≠ 10 := by
  rcases mem_toString member with rfl | digit
  · decide
  · have nine : '9'.toNat = 57 := rfl
    have zero : '0'.toNat = 48 := rfl
    rw [Char.isDigit_iff_toNat, nine, zero] at digit
    omega

theorem encode_toDecimal (x : Int) : Utf8.encode (toString x).toList = toDecimal x :=
  Utf8.encode_of_ascii fun _ member => (toNat_of_mem_toString member).1

/-- The characters of a table's line. -/
def tableText (rows cols : Int) : List Char :=
  '{' :: ' ' :: '"' :: ("type".toList ++ '"' :: ':' :: ' ' :: '"' :: ("table".toList ++ '"' ::
    ',' :: ' ' :: '"' :: ("rows".toList ++ '"' :: ':' :: ' ' :: ((toString rows).toList ++ ',' ::
      ' ' :: '"' :: ("cols".toList ++ '"' :: ':' :: ' ' :: ((toString cols).toList ++
        [' ', '}']))))))

/-- A table is always read back. -/
theorem parse_tableText (rows cols : Int) :
    parse (tableText rows cols) = some (.object [("type".toList, .string "table".toList),
      ("rows".toList, .number rows), ("cols".toList, .number cols)]) := by
  have opened : ∀ t, token '}' (' ' :: '"' :: t) = none := by
    intro t
    rw [token_space, token_other (by decide) (by decide)]
  have kind : ∀ t, value 4 ('"' :: ("table".toList ++ '"' :: t)) =
      some (.string "table".toList, t) := by
    intro t
    rw [value_quote, string_append (List.all_eq_true.mp (by decide))]
    rfl
  have stop : ∀ t, Stop (',' :: t) := by
    intro t c first
    cases first
    decide
  have stop' : Stop [' ', '}'] := by
    intro c first
    cases first
    decide
  have read : value 6 (tableText rows cols) =
      some (.object [("type".toList, .string "table".toList), ("rows".toList, .number rows),
        ("cols".toList, .number cols)], []) := by
    rw [tableText, value_brace 5 (opened _), members_space,
      members_member (List.all_eq_true.mp (by decide)) (kind _), more_comma _ (by decide),
      members_space,
      members_member (List.all_eq_true.mp (by decide)) (value_toString 2 rows (stop _)),
      more_comma _ (by decide), members_space,
      members_member (List.all_eq_true.mp (by decide)) (value_toString 1 cols stop'), more_brace]
    rfl
  exact parse_of_value read rfl

theorem decode_table (rows cols : Int) :
    decode (IElement.table rows cols).line = some (.object [("type".toList, .string "table".toList),
      ("rows".toList, .number rows), ("cols".toList, .number cols)]) := by
  have code : Utf8.encode (tableText rows cols) = (IElement.table rows cols).line := by
    rw [show tableText rows cols = "\x7b \"type\": \"table\", \"rows\": ".toList ++
        (toString rows).toList ++ ", \"cols\": ".toList ++ (toString cols).toList ++
          " \x7d".toList by simp [tableText]]
    rw [Utf8.encode_append, Utf8.encode_append, Utf8.encode_append, Utf8.encode_append,
      encode_toDecimal rows, encode_toDecimal cols, encode_toList rfl, encode_toList rfl,
      encode_toList rfl]
    rfl
  rw [decode, Utf8.decode_eq_some.mpr code, Option.bind_some, parse_tableText]

/-- An element is read back from its line if and only if its string is clean. -/
theorem line_decodable_iff (ele : IElement) :
    (∃ v, decode ele.line = some v ∧ ele.Back v) ↔ ele.Plain := by
  cases ele with
  | text content =>
      exact typed_decodable_iff rfl (fun t => rfl) rfl (List.all_eq_true.mp (by decide))
        (List.all_eq_true.mp (by decide)) (by decide)
  | image path =>
      exact typed_decodable_iff rfl (fun t => rfl) rfl (List.all_eq_true.mp (by decide))
        (List.all_eq_true.mp (by decide)) (by decide)
  | table rows cols =>
      refine iff_of_true ?_ trivial
      refine ⟨_, decode_table rows cols, ⟨_, rfl, encode_toList rfl⟩, rfl, rfl⟩

/-! ## Lines -/

theorem lines_line {line : Bytes} (whole : 10 ∉ line) (rest : Bytes) :
    lines (line ++ 10 :: rest) = line :: lines rest := by
  induction line with
  | nil => rfl
  | cons b line ih =>
      rw [List.mem_cons, not_or] at whole
      rw [List.cons_append, lines, if_neg (Ne.symm whole.1), ih whole.2]

/-- A line end makes a line. -/
theorem length_lines (bytes rest : Bytes) :
    (lines (bytes ++ 10 :: rest)).length = bytes.count 10 + 1 + (lines rest).length := by
  induction bytes with
  | nil =>
      show (lines rest).length + 1 = 0 + 1 + (lines rest).length
      omega
  | cons b bytes ih =>
      rw [List.cons_append, lines, List.count_cons]
      split
      · rename_i ends
        rw [List.length_cons, ih, ends, if_pos (beq_self_eq_true _)]
        omega
      · rename_i other
        rw [if_neg (by simpa using other)]
        split
        · rename_i empty
          rw [empty] at ih
          simp only [List.length_nil] at ih
          omega
        · rename_i line others more
          rw [more] at ih
          exact ih

theorem clientCode_cons (ele : IElement) (doc : List IElement) :
    clientCode (ele :: doc) JsonExportConcreteVisitor =
      ele.line ++ 10 :: clientCode doc JsonExportConcreteVisitor := by
  rw [clientCode, List.flatMap_cons, accept_eq, List.append_assoc]
  rfl

theorem lines_clientCode {doc : List IElement} (whole : ∀ ele ∈ doc, 10 ∉ ele.line) :
    lines (clientCode doc JsonExportConcreteVisitor) = doc.map IElement.line := by
  induction doc with
  | nil => rfl
  | cons ele doc ih =>
      obtain ⟨first, whole⟩ := List.forall_mem_cons.mp whole
      rw [clientCode_cons, lines_line first, ih whole, List.map_cons]

theorem length_le_lines (doc : List IElement) :
    doc.length ≤ (lines (clientCode doc JsonExportConcreteVisitor)).length := by
  induction doc with
  | nil => exact Nat.zero_le _
  | cons ele doc ih =>
      rw [clientCode_cons, length_lines, List.length_cons]
      omega

/-- As many lines as elements: no line is broken. -/
theorem whole_of_length {doc : List IElement}
    (same : (lines (clientCode doc JsonExportConcreteVisitor)).length = doc.length) :
    ∀ ele ∈ doc, 10 ∉ ele.line := by
  induction doc with
  | nil =>
      intro ele member
      cases member
  | cons ele doc ih =>
      have le := length_le_lines doc
      rw [clientCode_cons, length_lines, List.length_cons] at same
      -- a line end within the element would be a line too many
      have none : ele.line.count 10 = 0 := by omega
      have rest := ih (by omega)
      exact List.forall_mem_cons.mpr ⟨List.count_eq_zero.mp none, rest⟩

theorem not_mem_of_plain {bytes : Bytes} (clean : Plain bytes) : 10 ∉ bytes := by
  obtain ⟨t, decoded, clean⟩ := clean
  rw [Utf8.decode_eq_some] at decoded
  subst decoded
  intro member
  obtain ⟨c, there, code⟩ := Utf8.mem_of_mem_encode member (by decide)
  have newline : c = '\n' := Char.toNat_inj.mp code
  have bad := clean c there
  rw [newline] at bad
  exact absurd bad (by decide)

theorem not_mem_toDecimal (x : Int) : 10 ∉ toDecimal x := by
  rw [← encode_toDecimal]
  intro member
  obtain ⟨c, there, code⟩ := Utf8.mem_of_mem_encode member (by decide)
  exact (toNat_of_mem_toString there).2 code

theorem whole_of_plain {ele : IElement} (clean : ele.Plain) : 10 ∉ ele.line := by
  cases ele with
  | text content =>
      rw [IElement.line, List.mem_append, List.mem_append, not_or, not_or]
      exact ⟨⟨by decide, not_mem_of_plain clean⟩, by decide⟩
  | image path =>
      rw [IElement.line, List.mem_append, List.mem_append, not_or, not_or]
      exact ⟨⟨by decide, not_mem_of_plain clean⟩, by decide⟩
  | table rows cols =>
      simp only [IElement.line, List.mem_append, not_or]
      exact ⟨⟨⟨⟨by decide, not_mem_toDecimal rows⟩, by decide⟩, not_mem_toDecimal cols⟩, by decide⟩

/-! ## The main result -/

/-- The lines of a document. -/
theorem document_decodable_iff (doc : List IElement) :
    Decodable doc ↔ ∀ ele ∈ doc, ele.Plain := by
  constructor
  · intro decodable
    have whole := whole_of_length decodable.length_eq
    rw [Decodable, lines_clientCode whole, List.forall₂_map_left_iff, List.forall₂_same]
      at decodable
    intro ele member
    exact (line_decodable_iff ele).mp (decodable ele member)
  · intro clean
    rw [Decodable, lines_clientCode fun ele member => whole_of_plain (clean ele member),
      List.forall₂_map_left_iff, List.forall₂_same]
    intro ele member
    exact (line_decodable_iff ele).mpr (clean ele member)

/-- **JSON export.** The lines that are printed for a document decode back to its
elements if and only if all its strings are clean, and what the strategy returns
decodes back to the content if and only if that is. -/
theorem decodable_iff (doc : List IElement) (content : Bytes) :
    (Decodable doc ↔ ∀ ele ∈ doc, ele.Plain) ∧ (StrategyDecodable content ↔ Plain content) :=
  ⟨document_decodable_iff doc, strategyDecodable_iff content⟩

/-- A quote as the text of an element and as the content of a report. -/
theorem not_decodable_quote :
    ¬ Decodable [.text (ascii "\"")] ∧ ¬ StrategyDecodable (ascii "\"") := by
  have dirty : ¬ Plain (ascii "\"") := by
    rw [plain_iff (encode_toList (s := "\"") rfl)]
    intro clean
    exact absurd (clean '"' (by decide)) (by decide)
  constructor
  · intro decodable
    exact dirty ((document_decodable_iff _).mp decodable _ List.mem_cons_self)
  · intro decodable
    exact dirty ((strategyDecodable_iff _).mp decodable)

end CppLab.Patterns.JsonExport
