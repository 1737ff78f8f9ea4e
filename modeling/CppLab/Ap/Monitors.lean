import CppLab.Lib.Markup
import CppLab.Ap.SimpleAp
import CppLab.Ap.Mvc
import CppLab.Ap.Mvvm

/-!
# What the monitors show

The three windows put the same text into their labels. What a label then shows
is another matter: the text becomes part of a markup, without being escaped.
`IsPango` is what is used of the markup parser: it finds tags and entities, it
normalises line ends, and it accepts a span around character data.
-/

namespace CppLab.Ap

open Markup

/-- **The three architectures show the same.** After every sequence of actions
there is one screen, and it is what each of the three windows shows. -/
theorem architectures_agree (gtk : Gtk) (actions : List Action) :
    ∃ s : Screen, ∀ t : Screen,
      (((Simple.application gtk).run actions).Shows t ↔ t = s) ∧
      (((Mvc.application gtk).run actions).views.Shows t ↔ t = s) ∧
      (((Mvvm.application gtk).run actions).views.Shows t ↔ t = s) := by
  have views := (Views.shows_run gtk actions).2
  have apart := displayMarkup_injective blue
  refine ⟨screen.run actions, fun t => ⟨?_, ?_, ?_⟩⟩
  · exact (Simple.shows_run gtk actions).eq_iff Simple.markupA_injective t
  · rw [Mvc.views_run]
    exact views.eq_iff apart t
  · rw [Mvvm.views_run]
    exact views.eq_iff apart t

/-! ## Text in a markup -/

/-- The markup parser of Pango. White space in front of the first tag, which it
skips, does not occur here. -/
structure IsPango (parse : Text → Option Text) : Prop where
  renders {m p : Text} :
    m.head? = some '<' → '\x00' ∉ m → parse m = some p → Renders (lineEnds m) p
  span {color text : Text} :
    color ∈ [blue, red] → '\x00' ∉ text → Data text →
      ∃ p, parse (displayMarkup color text) = some p

/-- Text that a markup leaves as it is. -/
def Plain (text : Text) : Prop := Data text ∧ '\r' ∉ text

instance (text : Text) : Decidable (Plain text) := inferInstanceAs (Decidable (_ ∧ _))

theorem span_tagName : TagName "span".toList where
  closed := rfl
  gt := by decide
  semicolon := by decide

/-- The start tag of a monitor, without its brackets. -/
def startTag (color : Text) : Text :=
  "span foreground='".toList ++ color ++ "' size='x-large' weight='bold'".toList

theorem displayMarkup_eq (color text : Text) :
    displayMarkup color text =
      '<' :: (startTag color ++ '>' :: (text ++ endTag "span".toList)) := by
  have first : "<span foreground='".toList = '<' :: "span foreground='".toList := by decide
  have last : "' size='x-large' weight='bold'>".toList =
      "' size='x-large' weight='bold'".toList ++ ['>'] := by decide
  have close : "</span>".toList = endTag "span".toList := by decide
  unfold displayMarkup startTag
  rw [first, last, close]
  simp only [List.append_assoc, List.cons_append, List.nil_append]

/-- What a known colour makes of the start tag: it has no carriage return and no
NUL, it is closed, and it is no comment. -/
theorem startTag_of_known {color : Text} (known : color ∈ [blue, red]) :
    '\r' ∉ startTag color ∧ '\x00' ∉ startTag color ∧
      (∀ m, endOfTag none (startTag color ++ '>' :: m) = some m) ∧
      (∀ c, (startTag color).head? = some c → c ≠ '!' ∧ c ≠ '?') := by
  simp only [List.mem_cons, List.not_mem_nil, or_false] at known
  rcases known with rfl | rfl
  · refine ⟨by decide, by decide, fun m => rfl, ?_⟩
    intro c head
    cases head
    decide
  · refine ⟨by decide, by decide, fun m => rfl, ?_⟩
    intro c head
    cases head
    decide

theorem displayMarkup_split (color text : Text) :
    displayMarkup color text =
      ('<' :: (startTag color ++ ['>'])) ++ (text ++ endTag "span".toList) := by
  rw [displayMarkup_eq]
  simp only [List.cons_append, List.append_assoc, List.nil_append]

theorem lineEnds_displayMarkup {color : Text} (known : color ∈ [blue, red]) (text : Text) :
    lineEnds (displayMarkup color text) = displayMarkup color (lineEnds text) := by
  obtain ⟨clean, -⟩ := startTag_of_known known
  have front : '\r' ∉ '<' :: (startTag color ++ ['>']) := by
    simp [clean]
  have close : lineEnds (endTag "span".toList) = endTag "span".toList := by decide
  rw [displayMarkup_split, displayMarkup_split, lineEnds_append_of_not_mem front,
    lineEnds_append (by decide), close]

/-- The quoting law for a monitor's markup. -/
theorem IsPango.parse_eq_some {parse : Text → Option Text} (pango : IsPango parse)
    {color text p : Text} (known : color ∈ [blue, red]) (noNul : '\x00' ∉ text)
    (shown : parse (displayMarkup color text) = some p) :
    (Data text → p = lineEnds text) ∧ (¬ Data text → p.length < text.length) := by
  obtain ⟨-, noNulTag, start, plain⟩ := startTag_of_known known
  have noNulMarkup : '\x00' ∉ displayMarkup color text := by
    have noNulEnd : '\x00' ∉ endTag "span".toList := by decide
    rw [displayMarkup_eq]
    simp only [List.mem_cons, List.mem_append, not_or]
    exact ⟨by decide, noNulTag, by decide, noNul, noNulEnd⟩
  have renders := pango.renders (by rw [displayMarkup_eq]; rfl) noNulMarkup shown
  rw [lineEnds_displayMarkup known, displayMarkup_eq] at renders
  obtain ⟨same, shorter⟩ := renders.element span_tagName (start _) plain
  rw [data_lineEnds] at same shorter
  refine ⟨same, fun markup => ?_⟩
  exact lt_of_lt_of_le (shorter markup) (length_lineEnds_le text)

/-- The label takes a text as it is: the markup leaves it as it is, or is
malformed while the label shows the text already. -/
def Takes (gtk : Gtk) (color text : Text) (before : Label) : Prop :=
  Plain text ∨ (gtk.parse (displayMarkup color text) = none ∧ before.shown = text)

theorem IsPango.shown_iff {gtk : Gtk} (pango : IsPango gtk.parse) {color text : Text}
    (known : color ∈ [blue, red]) (noNul : '\x00' ∉ text) (l : Label) :
    (l.setMarkup gtk (displayMarkup color text)).shown = text ↔ Takes gtk color text l := by
  simp only [Label.setMarkup, Takes]
  cases result : gtk.parse (displayMarkup color text) with
  | none =>
      rw [Option.getD_none]
      constructor
      · intro shown
        exact .inr ⟨rfl, shown⟩
      · rintro (plain | ⟨-, shown⟩)
        · obtain ⟨p, parsed⟩ := pango.span known noNul plain.1
          rw [result] at parsed
          cases parsed
        · exact shown
  | some p =>
      obtain ⟨same, shorter⟩ := pango.parse_eq_some known noNul result
      rw [Option.getD_some]
      constructor
      · rintro rfl
        have data : Data p := by
          by_contra markup
          exact absurd (shorter markup) (Nat.lt_irrefl _)
        refine .inl ⟨data, ?_⟩
        rw [same data]
        exact not_mem_lineEnds p
      · rintro (plain | ⟨malformed, -⟩)
        · rw [same plain.1, lineEnds_of_not_mem plain.2]
        · cases malformed

/-! ## What is submitted -/

/-- The views before and after the button is pressed: each monitor shows the
submitted text precisely when its label takes it as it is. -/
def ShowsSubmitted (gtk : Gtk) (before after : Views) : Prop :=
  before.text ≠ [] →
    (after.displayViewLeft.labelData.shown = before.text ↔
      Takes gtk blue before.text before.displayViewLeft.labelData) ∧
    (after.displayViewRight.labelData.shown = before.text ↔
      Takes gtk red before.text before.displayViewRight.labelData)

theorem IsPango.showsSubmitted {gtk : Gtk} (pango : IsPango gtk.parse) (actions : List Action) :
    ShowsSubmitted gtk ((Views.application gtk).run actions)
      ((Views.application gtk).run (actions ++ [.press])) := by
  obtain ⟨coloured, shows⟩ := Views.shows_run gtk actions
  have noNul := noNul_run actions
  rw [← shows.text] at noNul
  intro typed
  rw [Application.run_concat, Views.press_of_ne gtk typed]
  constructor
  · simp only [Views.updateLabels, DisplayWidget.updateLabel, coloured.left]
    exact pango.shown_iff (by decide) noNul _
  · simp only [Views.updateLabels, DisplayWidget.updateLabel, coloured.right]
    exact pango.shown_iff (by decide) noNul _

/-- **Monitors display what was submitted**, precisely when it has no `<`, no `&`
and no carriage return, or is malformed as a markup and shown already. This holds
of each monitor, in the MVC and in the MVVM window, whenever the button is
pressed on a text. -/
theorem submitted_iff {gtk : Gtk} (pango : IsPango gtk.parse) (actions : List Action) :
    ShowsSubmitted gtk ((Mvc.application gtk).run actions).views
      ((Mvc.application gtk).run (actions ++ [.press])).views ∧
    ShowsSubmitted gtk ((Mvvm.application gtk).run actions).views
      ((Mvvm.application gtk).run (actions ++ [.press])).views := by
  rw [Mvc.views_run, Mvc.views_run, Mvvm.views_run, Mvvm.views_run]
  exact ⟨pango.showsSubmitted actions, pango.showsSubmitted actions⟩

/-! ## A parser -/

/-- A span of one colour around character data, and nothing else. -/
def parseSpan (color m : Text) : Option Text :=
  let text := (m.drop ('<' :: (startTag color ++ ['>'])).length).take
    (m.length - (displayMarkup color []).length)
  if displayMarkup color text = m ∧ Data text then some (lineEnds text) else none

/-- A GTK that knows the spans of both monitors. -/
def spanGtk : Gtk where
  parse m := (parseSpan blue m).or (parseSpan red m)
  equal a b := a == b

theorem parseSpan_displayMarkup {color text : Text} (data : Data text) :
    parseSpan color (displayMarkup color text) = some (lineEnds text) := by
  have size : (displayMarkup color text).length - (displayMarkup color []).length = text.length := by
    rw [displayMarkup_split, displayMarkup_split]
    simp only [List.length_append, List.length_nil]
    omega
  simp only [parseSpan, size]
  rw [displayMarkup_split color text, List.drop_left, List.take_left, ← displayMarkup_split]
  exact if_pos ⟨rfl, data⟩

theorem parseSpan_renders {color m p : Text} (known : color ∈ [blue, red])
    (parsed : parseSpan color m = some p) : Renders (lineEnds m) p := by
  simp only [parseSpan, Option.ite_none_right_eq_some, Option.some.injEq] at parsed
  obtain ⟨⟨markup, data⟩, rfl⟩ := parsed
  obtain ⟨-, -, start, -⟩ := startTag_of_known known
  generalize List.take _ _ = text at markup data
  subst markup
  rw [lineEnds_displayMarkup known, displayMarkup_eq]
  have inside := Renders.data (data_lineEnds.mpr data) (Renders.close span_tagName)
  rw [List.append_nil] at inside
  exact .tag (start _) inside

theorem spanGtk_isPango : IsPango spanGtk.parse where
  renders _ _ parsed := by
    simp only [spanGtk, Option.or_eq_some_iff] at parsed
    rcases parsed with parsed | ⟨-, parsed⟩
    · exact parseSpan_renders (by decide) parsed
    · exact parseSpan_renders (by decide) parsed
  span known _ data := by
    simp only [List.mem_cons, List.not_mem_nil, or_false] at known
    simp only [spanGtk]
    rcases known with rfl | rfl
    · rw [parseSpan_displayMarkup data]
      exact ⟨_, rfl⟩
    · rw [parseSpan_displayMarkup data]
      cases parseSpan blue _ with
      | none => exact ⟨_, rfl⟩
      | some p => exact ⟨p, rfl⟩

/-- Something to type. -/
def hello : EntryText := ⟨"Hello".toList, by decide⟩

/-- A greeting arrives in the left monitor of either window. -/
theorem submitted_iff_hello :
    ((Mvc.application spanGtk).run [.type hello, .press]).views.displayViewLeft.labelData.shown =
        "Hello".toList ∧
      ((Mvvm.application spanGtk).run [.type hello, .press]).views.displayViewLeft.labelData.shown =
        "Hello".toList := by
  obtain ⟨mvc, mvvm⟩ := submitted_iff spanGtk_isPango [.type hello]
  have plain : Plain hello.text := by decide
  exact ⟨(mvc (by decide)).1.mpr (.inl plain), (mvvm (by decide)).1.mpr (.inl plain)⟩

/-- Every text that is typed and submitted is what the monitors show. -/
def Displays (gtk : Gtk) : Prop :=
  ∀ t : EntryText, t.text ≠ [] →
    ∀ vs ∈ [((Mvc.application gtk).run [.type t, .press]).views,
        ((Mvvm.application gtk).run [.type t, .press]).views],
      vs.displayViewLeft.labelData.shown = t.text ∧ vs.displayViewRight.labelData.shown = t.text

/-- `a<b` is malformed as a markup, and the monitors stay at the initial text. -/
theorem not_displays_lessThan : ¬ Displays spanGtk := by
  intro displays
  have shown := (displays ⟨"a<b".toList, by decide⟩ (by decide) _ List.mem_cons_self).1
  revert shown
  decide +kernel

end CppLab.Ap
