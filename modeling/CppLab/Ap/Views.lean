import CppLab.Ap.Widgets

/-!
# The views of the MVC and the MVVM window

`EditorWidget` and `DisplayWidget` react to a change in the same words in both
directories; only how they are built and whom they call differs. Both windows
have one editor and two monitors, and `Views.application` is what either window is
as far as its views can tell.
-/

namespace CppLab.Ap

/-- The editor. -/
structure EditorWidget where
  entry : Entry
  deriving DecidableEq, Repr

/-- A monitor. -/
structure DisplayWidget where
  color : Text
  labelData : Label
  deriving DecidableEq, Repr

/-- The markup of a monitor. -/
def displayMarkup (color text : Text) : Text :=
  "<span foreground='".toList ++ color ++ "' size='x-large' weight='bold'>".toList ++ text ++
    "</span>".toList

def DisplayWidget.updateLabel (gtk : Gtk) (d : DisplayWidget) (text : Text) : DisplayWidget :=
  { d with labelData := d.labelData.setMarkup gtk (displayMarkup d.color text) }

/-- The constructor, from the text to start with. -/
def DisplayWidget.new (gtk : Gtk) (color startData : Text) : DisplayWidget :=
  DisplayWidget.updateLabel gtk ⟨color, Label.empty⟩ startData

def DisplayWidget.onDataChanged (gtk : Gtk) (d : DisplayWidget) (newData : Text) : DisplayWidget :=
  d.updateLabel gtk newData

/-- The constructor, from the text to start with. -/
def EditorWidget.new (initData : Text) : EditorWidget := ⟨Entry.setText ⟨[]⟩ initData⟩

def EditorWidget.onDataChanged (gtk : Gtk) (e : EditorWidget) (newData : Text) : EditorWidget :=
  if gtk.equal e.entry.text newData then e else ⟨e.entry.setText newData⟩

/-- An editor that hears its own text back keeps it, however strings compare. -/
@[simp] theorem EditorWidget.onDataChanged_self (gtk : Gtk) (e : EditorWidget) :
    e.onDataChanged gtk e.entry.text = e := by
  simp only [onDataChanged, Entry.setText]
  split
  · rfl
  · rfl

/-- The colours that the windows give to their monitors. -/
def blue : Text := "blue".toList

def red : Text := "red".toList

/-- The views of a window. -/
structure Views where
  editorView : EditorWidget
  displayViewLeft : DisplayWidget
  displayViewRight : DisplayWidget
  deriving DecidableEq, Repr

/-- An `IObserver` pointer to a view. -/
inductive View
  | editorView
  | displayViewLeft
  | displayViewRight
  deriving DecidableEq, Repr

namespace Views

/-- The virtual call `view->onDataChanged(newData)`. -/
def onDataChanged (gtk : Gtk) (vs : Views) (view : View) (newData : Text) : Views :=
  match view with
  | .editorView => { vs with editorView := vs.editorView.onDataChanged gtk newData }
  | .displayViewLeft => { vs with displayViewLeft := vs.displayViewLeft.onDataChanged gtk newData }
  | .displayViewRight =>
      { vs with displayViewRight := vs.displayViewRight.onDataChanged gtk newData }

/-- The user has typed. -/
def type (vs : Views) (t : EntryText) : Views := { vs with editorView := ⟨⟨t.text⟩⟩ }

/-- The text in the editor. -/
def text (vs : Views) : Text := vs.editorView.entry.text

/-- Both monitors get a text. -/
def updateLabels (gtk : Gtk) (vs : Views) (text : Text) : Views :=
  { vs with
    displayViewLeft := vs.displayViewLeft.updateLabel gtk text
    displayViewRight := vs.displayViewRight.updateLabel gtk text }

/-- The editor's text, sent to the three views in turn, reaches the monitors. -/
theorem onDataChanged_text (gtk : Gtk) (vs : Views) :
    ((vs.onDataChanged gtk .editorView vs.text).onDataChanged gtk .displayViewLeft
      vs.text).onDataChanged gtk .displayViewRight vs.text = vs.updateLabels gtk vs.text := by
  simp only [onDataChanged, text, EditorWidget.onDataChanged_self, DisplayWidget.onDataChanged,
    updateLabels]

/-- The views on their own: the button updates the monitors unless the editor is
empty. -/
def application (gtk : Gtk) : Application Views where
  start := ⟨EditorWidget.new initialData, DisplayWidget.new gtk blue initialData,
    DisplayWidget.new gtk red initialData⟩
  step vs
    | .type t => vs.type t
    | .press => if vs.text = [] then vs else vs.updateLabels gtk vs.text

theorem press_of_empty (gtk : Gtk) {vs : Views} (empty : vs.text = []) :
    (application gtk).step vs .press = vs := if_pos empty

theorem press_of_ne (gtk : Gtk) {vs : Views} (typed : vs.text ≠ []) :
    (application gtk).step vs .press = vs.updateLabels gtk vs.text := if_neg typed

/-- The colours stay as they are. -/
structure Coloured (vs : Views) : Prop where
  left : vs.displayViewLeft.color = blue
  right : vs.displayViewRight.color = red

/-- The views show a screen. -/
abbrev Shows (vs : Views) (s : Screen) : Prop :=
  Ap.Shows (displayMarkup blue) (displayMarkup red) vs.editorView.entry
    vs.displayViewLeft.labelData vs.displayViewRight.labelData s

theorem Shows.text {vs : Views} {s : Screen} (shows : vs.Shows s) : vs.text = s.entry :=
  shows.entry

/-- Monitors that get the editor's text show what the button is for. -/
theorem Shows.updateLabels {vs : Views} {s : Screen} (shows : vs.Shows s) (coloured : vs.Coloured)
    (gtk : Gtk) : (vs.updateLabels gtk vs.text).Shows { s with monitors := s.entry } := by
  refine ⟨shows.entry, ?_, ?_⟩
  · show displayMarkup vs.displayViewLeft.color vs.text = displayMarkup blue s.entry
    rw [coloured.left, shows.text]
  · show displayMarkup vs.displayViewRight.color vs.text = displayMarkup red s.entry
    rw [coloured.right, shows.text]

/-- Step lemma. -/
theorem shows_step (gtk : Gtk) (vs : Views) (s : Screen) (action : Action)
    (related : vs.Coloured ∧ vs.Shows s) :
    ((application gtk).step vs action).Coloured ∧
      ((application gtk).step vs action).Shows (screen.step s action) := by
  obtain ⟨coloured, shows⟩ := related
  cases action with
  | type t => exact ⟨⟨coloured.left, coloured.right⟩, rfl, shows.monitorA, shows.monitorB⟩
  | press =>
      by_cases empty : vs.text = []
      · rw [press_of_empty gtk empty, screen_press_of_empty (shows.text ▸ empty)]
        exact ⟨coloured, shows⟩
      · rw [press_of_ne gtk empty, screen_press_of_ne (shows.text ▸ empty)]
        exact ⟨⟨coloured.left, coloured.right⟩, shows.updateLabels coloured gtk⟩

/-- The views show the screen, whatever the user does. -/
theorem shows_run (gtk : Gtk) (actions : List Action) :
    ((application gtk).run actions).Coloured ∧
      ((application gtk).run actions).Shows (screen.run actions) := by
  refine Application.run_related (R := fun vs s => Coloured vs ∧ Shows vs s) ?_ (shows_step gtk)
    actions
  exact ⟨⟨rfl, rfl⟩, rfl, rfl, rfl⟩

end Views

theorem displayMarkup_injective (color : Text) : Function.Injective (displayMarkup color) :=
  append_append_injective _ _

end CppLab.Ap
