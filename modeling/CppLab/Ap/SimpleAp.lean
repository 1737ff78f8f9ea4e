import CppLab.Ap.Widgets

/-!
# The coupled window

`simple_ap.cpp` keeps everything in one class: the handler of the button reads
the entry and writes both labels.
-/

namespace CppLab.Ap.Simple

/-- The members of `MainWindow` that change. -/
structure MainWindow where
  entryInput : Entry
  labelMonitorA : Label
  labelMonitorB : Label
  deriving DecidableEq, Repr

/-- The markup of monitor A. -/
def markupA (text : Text) : Text :=
  "<span foreground='blue' size='x-large'>".toList ++ text ++ "</span>".toList

/-- The markup of monitor B. -/
def markupB (text : Text) : Text :=
  "<span foreground='red' size='x-large'>".toList ++ text ++ "</span>".toList

/-- The constructor. -/
def mainWindow (gtk : Gtk) : MainWindow where
  labelMonitorA := Label.empty.setMarkup gtk
    "<span foreground='blue' size='x-large'>Initial Data</span>".toList
  labelMonitorB := Label.empty.setMarkup gtk
    "<span foreground='red' size='x-large'>Initial Data</span>".toList
  entryInput := Entry.setText ⟨[]⟩ initialData

/-- The handler of `button_Update_`. -/
def MainWindow.clicked (gtk : Gtk) (w : MainWindow) : MainWindow :=
  let text := w.entryInput.text
  if text.isEmpty then w
  else
    { w with
      labelMonitorA := w.labelMonitorA.setMarkup gtk (markupA text)
      labelMonitorB := w.labelMonitorB.setMarkup gtk (markupB text) }

/-- The application. -/
def application (gtk : Gtk) : Application MainWindow where
  start := mainWindow gtk
  step w
    | .type t => { w with entryInput := ⟨t.text⟩ }
    | .press => w.clicked gtk

/-- The window shows a screen. -/
abbrev MainWindow.Shows (w : MainWindow) (s : Screen) : Prop :=
  Ap.Shows markupA markupB w.entryInput w.labelMonitorA w.labelMonitorB s

/-- Step lemma. -/
theorem shows_step (gtk : Gtk) (w : MainWindow) (s : Screen) (action : Action) (shows : w.Shows s) :
    MainWindow.Shows ((application gtk).step w action) (screen.step s action) := by
  cases action with
  | type t => exact ⟨rfl, shows.monitorA, shows.monitorB⟩
  | press =>
      by_cases empty : w.entryInput.text = []
      · rw [screen_press_of_empty (shows.entry ▸ empty)]
        simp only [application, MainWindow.clicked, empty, List.isEmpty_nil, if_true]
        exact shows
      · rw [screen_press_of_ne (shows.entry ▸ empty)]
        have nonempty : ¬ w.entryInput.text.isEmpty = true := by
          rwa [List.isEmpty_iff]
        simp only [application, MainWindow.clicked, if_neg nonempty]
        exact ⟨shows.entry, congrArg markupA shows.entry, congrArg markupB shows.entry⟩

/-- The coupled window shows the screen, whatever the user does. -/
theorem shows_run (gtk : Gtk) (actions : List Action) :
    ((application gtk).run actions).Shows (screen.run actions) := by
  refine Application.run_related (R := MainWindow.Shows) ⟨rfl, ?_, ?_⟩ (shows_step gtk) actions
  · show "<span foreground='blue' size='x-large'>Initial Data</span>".toList = markupA initialData
    decide
  · show "<span foreground='red' size='x-large'>Initial Data</span>".toList = markupB initialData
    decide

theorem markupA_injective : Function.Injective markupA := append_append_injective _ _

end CppLab.Ap.Simple
