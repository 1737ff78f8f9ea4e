import Mathlib

/-!
# Markup and the text it stands for

The part of XML-like markup that decides which text is seen: tags leave nothing,
an entity leaves one character or less, and every other character leaves itself.
`Renders` says what a markup stands for if it is well formed; whether it is, that
is, which tags and entities there are and how tags nest, is left open.

`Renders.element` is the quoting law: text between a start tag and an end tag
stands for itself if it has neither `<` nor `&`, and otherwise for something
shorter.
-/

namespace CppLab.Markup

/-- What follows the `>` that ends a tag. Within quotes `>` does not end it. -/
def endOfTag : Option Char → List Char → Option (List Char)
  | _, [] => none
  | none, c :: m =>
      if c = '>' then some m
      else if c = '"' ∨ c = '\'' then endOfTag (some c) m
      else endOfTag none m
  | some quote, c :: m => endOfTag (if c = quote then none else some quote) m

/-- Line ends as a parser sees them: a carriage return is a line feed, or nothing
where one follows. -/
def lineEnds : List Char → List Char
  | [] => []
  | c :: m =>
      if c = '\r' then
        if m.head? = some '\n' then lineEnds m else '\n' :: lineEnds m
      else c :: lineEnds m

/-- Character data: no tag and no entity starts here. -/
def Data (text : List Char) : Prop := '<' ∉ text ∧ '&' ∉ text

instance (text : List Char) : Decidable (Data text) := inferInstanceAs (Decidable (_ ∧ _))

/-- What a well-formed markup stands for. Comments, declarations and processing
instructions are the tags that start with `!` or `?`; they may have `>` in
them. -/
inductive Renders : List Char → List Char → Prop
  | nil : Renders [] []
  | char {c : Char} {m p : List Char} (data : c ≠ '<' ∧ c ≠ '&') (rest : Renders m p) :
      Renders (c :: m) (c :: p)
  | tag {m after p : List Char} (closed : endOfTag none m = some after) (rest : Renders after p) :
      Renders ('<' :: m) p
  | special {c : Char} {body after p : List Char} (bang : c = '!' ∨ c = '?')
      (rest : Renders after p) : Renders ('<' :: c :: (body ++ '>' :: after)) p
  | entity {name after s p : List Char} (short : s.length ≤ 1) (rest : Renders after p) :
      Renders ('&' :: (name ++ ';' :: after)) (s ++ p)

/-- An end tag. -/
def endTag (name : List Char) : List Char := '<' :: '/' :: (name ++ ['>'])

/-! ## Line ends -/

theorem lineEnds_append {a b : List Char} (apart : b.head? ≠ some '\n') :
    lineEnds (a ++ b) = lineEnds a ++ lineEnds b := by
  induction a with
  | nil => rfl
  | cons c a ih =>
      have next : (a ++ b).head? = some '\n' ↔ a.head? = some '\n' := by
        cases a with
        | nil => simp [apart]
        | cons d a => rfl
      simp only [List.cons_append, lineEnds, next, ih]
      split
      · split
        · rfl
        · rfl
      · rfl

/-- Text without carriage returns comes through as it is. -/
theorem lineEnds_append_of_not_mem {a : List Char} (clean : '\r' ∉ a) (b : List Char) :
    lineEnds (a ++ b) = a ++ lineEnds b := by
  induction a with
  | nil => rfl
  | cons c a ih =>
      rw [List.mem_cons, not_or] at clean
      obtain ⟨other, clean⟩ := clean
      rw [List.cons_append, lineEnds, if_neg (Ne.symm other), ih clean, List.cons_append]

theorem lineEnds_of_not_mem {text : List Char} (clean : '\r' ∉ text) : lineEnds text = text := by
  have whole := lineEnds_append_of_not_mem clean []
  rwa [List.append_nil, lineEnds, List.append_nil] at whole

theorem not_mem_lineEnds (text : List Char) : '\r' ∉ lineEnds text := by
  induction text with
  | nil => exact List.not_mem_nil
  | cons c text ih =>
      simp only [lineEnds]
      split
      · split
        · exact ih
        · rw [List.mem_cons, not_or]
          exact ⟨by decide, ih⟩
      · rename_i other
        rw [List.mem_cons, not_or]
        exact ⟨Ne.symm other, ih⟩

theorem length_lineEnds_le (text : List Char) : (lineEnds text).length ≤ text.length := by
  induction text with
  | nil => exact Nat.le_refl 0
  | cons c text ih =>
      simp only [lineEnds]
      split
      · split
        · exact Nat.le_succ_of_le ih
        · exact Nat.succ_le_succ ih
      · exact Nat.succ_le_succ ih

/-- Other characters come through. -/
theorem mem_lineEnds {text : List Char} {c : Char} (notReturn : c ≠ '\r') (notFeed : c ≠ '\n') :
    c ∈ lineEnds text ↔ c ∈ text := by
  induction text with
  | nil => rfl
  | cons d text ih =>
      simp only [lineEnds]
      split
      · rename_i same
        subst same
        split
        · simp [ih, notReturn]
        · simp [ih, notReturn, notFeed]
      · simp [ih]

theorem data_lineEnds {text : List Char} : Data (lineEnds text) ↔ Data text := by
  rw [Data, Data, mem_lineEnds (by decide) (by decide), mem_lineEnds (by decide) (by decide)]

/-! ## Tags -/

theorem endOfTag_eq_some {quote : Option Char} {m after : List Char}
    (closed : endOfTag quote m = some after) : ∃ body, m = body ++ '>' :: after := by
  induction m generalizing quote with
  | nil => cases quote <;> cases closed
  | cons c m ih =>
      cases quote with
      | none =>
          simp only [endOfTag] at closed
          split at closed
          · rename_i same
            cases closed
            exact ⟨[], same ▸ rfl⟩
          · split at closed
            · obtain ⟨body, rfl⟩ := ih closed
              exact ⟨c :: body, rfl⟩
            · obtain ⟨body, rfl⟩ := ih closed
              exact ⟨c :: body, rfl⟩
      | some quote =>
          obtain ⟨body, rfl⟩ := ih closed
          exact ⟨c :: body, rfl⟩

/-- What starts in a text and ends at a `>` or `;` ends in the text, or it takes
the end tag behind the text with it. -/
theorem endsWithin {name t body after : List Char} {x : Char} (notStart : x ≠ '<')
    (notName : x ∉ '/' :: name) (split : t ++ endTag name = body ++ x :: after) :
    (∃ u, after = u ++ endTag name ∧ u.length < t.length) ∨ (after = [] ∧ x = '>') := by
  rcases List.append_eq_append_iff.mp split with ⟨c, -, inside⟩ | ⟨c, rfl, behind⟩
  · right
    have whole : ('<' :: '/' :: name) ++ ['>'] = c ++ x :: after := inside
    rcases List.append_eq_append_iff.mp whole with ⟨d, -, last⟩ | ⟨d, front, last⟩
    · cases d with
      | nil =>
          cases last
          exact ⟨rfl, rfl⟩
      | cons y d => simp at last
    · cases d with
      | nil =>
          cases last
          exact ⟨rfl, rfl⟩
      | cons y d =>
          -- the end tag has its only `>` at the end
          injection last with same
          subst same
          have early : x ∈ '<' :: '/' :: name := by simp [front]
          rcases List.mem_cons.mp early with start | inName
          · exact absurd start notStart
          · exact absurd inName notName
  · left
    cases c with
    | nil =>
        injection behind with same
        exact absurd same notStart
    | cons y c =>
        injection behind with same rest
        exact ⟨c, rest, by simp; omega⟩

/-! ## The quoting law -/

variable {tag name : List Char}

/-- A start tag leaves nothing. -/
theorem Renders.of_startTag {m p : List Char}
    (start : endOfTag none (tag ++ '>' :: m) = some m)
    (plain : ∀ c, tag.head? = some c → c ≠ '!' ∧ c ≠ '?')
    (renders : Renders ('<' :: (tag ++ '>' :: m)) p) : Renders m p := by
  generalize whole : '<' :: (tag ++ '>' :: m) = markup at renders
  cases renders with
  | nil => cases whole
  | char data rest =>
      injection whole with first
      exact absurd first.symm data.1
  | tag closed rest =>
      injection whole with _ same
      rw [← same, start] at closed
      cases closed
      exact rest
  | special bang rest =>
      injection whole with _ same
      cases tag with
      | nil =>
          injection same with first
          rw [← first] at bang
          exact absurd bang (by decide)
      | cons d tag =>
          injection same with first
          rw [← first] at bang
          have apart := plain d rfl
          exact absurd bang (not_or.mpr apart)
  | entity short rest =>
      injection whole with first
      exact absurd first (by decide)

theorem Renders.eq_nil {p : List Char} (renders : Renders [] p) : p = [] := by
  cases renders
  rfl

/-- What `endTag` needs of a name: it ends the tag, and has no `>` or `;`. -/
structure TagName (name : List Char) : Prop where
  closed : endOfTag none ('/' :: (name ++ ['>'])) = some []
  gt : '>' ∉ '/' :: name
  semicolon : ';' ∉ '/' :: name

theorem Renders.of_endTag (isName : TagName name) {p : List Char}
    (renders : Renders (endTag name) p) : p = [] := by
  have empty : Renders [] p := by
    have isTag : endOfTag none (('/' :: name) ++ '>' :: []) = some [] := isName.closed
    refine Renders.of_startTag isTag ?_ renders
    intro c head
    cases head
    decide
  exact empty.eq_nil

/-- Inversion: the first character of a text in front of an end tag stands for
itself, or it starts a tag or an entity, behind which a shorter text follows, or
nothing when the end tag went with it. -/
theorem Renders.cons_cases (isName : TagName name) {d : Char} {t p : List Char}
    (renders : Renders (d :: (t ++ endTag name)) p) :
    ((d ≠ '<' ∧ d ≠ '&') ∧ ∃ q, p = d :: q ∧ Renders (t ++ endTag name) q) ∨
    ((d = '<' ∨ d = '&') ∧ (p = [] ∨ ∃ u s q, p = s ++ q ∧ s.length ≤ 1 ∧ u.length < t.length ∧
      Renders (u ++ endTag name) q)) := by
  -- what is left when a tag has been read
  have tagged : ∀ {body after : List Char}, t ++ endTag name = body ++ '>' :: after →
      Renders after p → p = [] ∨ ∃ u s q, p = s ++ q ∧ s.length ≤ 1 ∧ u.length < t.length ∧
        Renders (u ++ endTag name) q := by
    intro body after split rest
    rcases endsWithin (by decide) isName.gt split with ⟨u, rfl, shorter⟩ | ⟨rfl, -⟩
    · exact .inr ⟨u, [], p, rfl, Nat.zero_le 1, shorter, rest⟩
    · exact .inl rest.eq_nil
  generalize whole : d :: (t ++ endTag name) = markup at renders
  cases renders with
  | nil => cases whole
  | char data rest =>
      injection whole with first same
      subst first same
      exact .inl ⟨data, _, rfl, rest⟩
  | tag closed rest =>
      injection whole with first same
      obtain ⟨body, split⟩ := endOfTag_eq_some closed
      exact .inr ⟨.inl first, tagged (same.trans split) rest⟩
  | special bang rest =>
      injection whole with first same
      rw [← List.cons_append] at same
      exact .inr ⟨.inl first, tagged same rest⟩
  | entity short rest =>
      injection whole with first same
      refine .inr ⟨.inr first, .inr ?_⟩
      rcases endsWithin (by decide) isName.semicolon same with ⟨u, rfl, shorter⟩ | ⟨-, wrong⟩
      · exact ⟨u, _, _, rfl, short, shorter, rest⟩
      · exact absurd wrong (by decide)

/-- Up to the end tag a text leaves at most itself, and less if it has markup. -/
theorem Renders.length_le (isName : TagName name) {t p : List Char}
    (renders : Renders (t ++ endTag name) p) :
    p.length ≤ t.length ∧ (¬ Data t → p.length < t.length) := by
  induction size : t.length using Nat.strong_induction_on generalizing t p with
  | _ n ih =>
      subst size
      cases t with
      | nil =>
          rw [renders.of_endTag isName]
          exact ⟨Nat.le_refl 0, fun markup => absurd (by decide) markup⟩
      | cons d t =>
          rcases renders.cons_cases isName with ⟨plain, q, rfl, rest⟩ | ⟨-, left⟩
          · obtain ⟨le, lt⟩ := ih t.length (Nat.lt_succ_self _) rest rfl
            refine ⟨Nat.succ_le_succ le, fun markup => Nat.succ_lt_succ (lt ?_)⟩
            intro clean
            apply markup
            simp only [Data, List.mem_cons, not_or]
            exact ⟨⟨Ne.symm plain.1, clean.1⟩, Ne.symm plain.2, clean.2⟩
          · have less : p.length < (d :: t).length := by
              rcases left with rfl | ⟨u, s, q, rfl, short, shorter, rest⟩
              · exact Nat.succ_pos t.length
              · have le := (ih u.length (Nat.lt_succ_of_lt shorter) rest rfl).1
                rw [List.length_append, List.length_cons]
                omega
            exact ⟨less.le, fun _ => less⟩

/-- Character data stands for itself. -/
theorem Renders.of_data (isName : TagName name) {t p : List Char} (data : Data t)
    (renders : Renders (t ++ endTag name) p) : p = t := by
  induction t generalizing p with
  | nil => exact renders.of_endTag isName
  | cons d t ih =>
      simp only [Data, List.mem_cons, not_or] at data
      obtain ⟨⟨notTag, cleanTag⟩, notEntity, cleanEntity⟩ := data
      rcases renders.cons_cases isName with ⟨-, q, rfl, rest⟩ | ⟨starts, -⟩
      · rw [ih ⟨cleanTag, cleanEntity⟩ rest]
      · exact absurd starts (not_or.mpr ⟨Ne.symm notTag, Ne.symm notEntity⟩)

theorem Renders.data {t m p : List Char} (data : Data t) (rest : Renders m p) :
    Renders (t ++ m) (t ++ p) := by
  induction t with
  | nil => exact rest
  | cons d t ih =>
      simp only [Data, List.mem_cons, not_or] at data
      obtain ⟨⟨notTag, cleanTag⟩, notEntity, cleanEntity⟩ := data
      exact .char ⟨Ne.symm notTag, Ne.symm notEntity⟩ (ih ⟨cleanTag, cleanEntity⟩)

/-- An end tag leaves nothing. -/
theorem Renders.close (isName : TagName name) : Renders (endTag name) [] :=
  .tag isName.closed .nil

/-- **The quoting law.** Within an element, character data stands for itself, and
any other text for something shorter. -/
theorem Renders.element (isName : TagName name) {t p : List Char}
    (start : endOfTag none (tag ++ '>' :: (t ++ endTag name)) = some (t ++ endTag name))
    (plain : ∀ c, tag.head? = some c → c ≠ '!' ∧ c ≠ '?')
    (renders : Renders ('<' :: (tag ++ '>' :: (t ++ endTag name))) p) :
    (Data t → p = t) ∧ (¬ Data t → p.length < t.length) := by
  have inside := renders.of_startTag start plain
  exact ⟨fun data => inside.of_data isName data, (inside.length_le isName).2⟩

end CppLab.Markup
