import Mathlib

/-!
# Widgets, user actions and what a window shows

The three editions of one window: an entry with a button, and two monitors that
are labels. GTK is code outside the repository; what the windows use of it is the
field of an entry, the last markup of a label, and `Gtk`: the markup parser and
the comparison of strings, about which nothing is assumed here.

`Screen` is the window as its user sees it. `Application.run_related` carries a
relation between two windows over all sequences of actions.
-/

namespace CppLab.Ap

/-- A `Glib::ustring`, and the `std::string` that encodes it. -/
abbrev Text := List Char

/-- What GTK decides: the plain text of a markup, `none` when it is malformed,
and whether two strings compare as equal. -/
structure Gtk where
  parse : Text → Option Text
  equal : Text → Text → Bool

/-- A `Gtk::Entry`. -/
structure Entry where
  text : Text
  deriving DecidableEq, Repr

/-- `set_text`. -/
def Entry.setText (_ : Entry) (text : Text) : Entry := ⟨text⟩

/-- A `Gtk::Label`: the last markup set, and the text it shows. -/
structure Label where
  markup : Text
  shown : Text
  deriving DecidableEq, Repr

/-- A label before its first markup. -/
def Label.empty : Label := ⟨[], []⟩

/-- `set_markup`: malformed markup does not change what is shown. -/
def Label.setMarkup (gtk : Gtk) (l : Label) (markup : Text) : Label where
  markup := markup
  shown := (gtk.parse markup).getD l.shown

/-- What can be typed into an entry, whose text ends at the first NUL. -/
structure EntryText where
  text : Text
  noNul : '\x00' ∉ text

/-- What the user does: replace the text of the entry, press the button. -/
inductive Action
  | type (t : EntryText)
  | press

/-- A window and its reaction to the user. -/
structure Application (σ : Type*) where
  start : σ
  step : σ → Action → σ

namespace Application

variable {σ τ : Type*}

/-- The window after a sequence of actions. -/
def run (a : Application σ) (actions : List Action) : σ := actions.foldl a.step a.start

@[simp] theorem run_concat (a : Application σ) (actions : List Action) (action : Action) :
    a.run (actions ++ [action]) = a.step (a.run actions) action := by
  simp only [run, List.foldl_append, List.foldl_cons, List.foldl_nil]

/-- Windows that are related at the start and step by step are related after
every sequence of actions. -/
theorem run_related {a : Application σ} {b : Application τ} {R : σ → τ → Prop}
    (start : R a.start b.start)
    (step : ∀ s t action, R s t → R (a.step s action) (b.step t action)) (actions : List Action) :
    R (a.run actions) (b.run actions) := by
  induction actions using List.reverseRecOn with
  | nil => exact start
  | append_singleton actions action ih =>
      rw [run_concat, run_concat]
      exact step _ _ action ih

end Application

/-! ## The screen -/

/-- The text that every edition starts with. -/
def initialData : Text := "Initial Data".toList

/-- The text of the entry and the text in both monitors. -/
structure Screen where
  entry : Text
  monitors : Text
  deriving DecidableEq, Repr

/-- The button shows the entry's text in both monitors, unless it is empty. -/
def screen : Application Screen where
  start := ⟨initialData, initialData⟩
  step s
    | .type t => { s with entry := t.text }
    | .press => if s.entry.isEmpty then s else { s with monitors := s.entry }

theorem screen_press_of_empty {s : Screen} (empty : s.entry = []) : screen.step s .press = s := by
  simp only [screen, empty, List.isEmpty_nil, if_true]

theorem screen_press_of_ne {s : Screen} (typed : s.entry ≠ []) :
    screen.step s .press = { s with monitors := s.entry } := by
  have nonempty : ¬ s.entry.isEmpty = true := by
    rwa [List.isEmpty_iff]
  simp only [screen, if_neg nonempty]

/-- What an entry and two labels show: the labels have the text of the monitors
in their templates. -/
structure Shows (templateA templateB : Text → Text) (entry : Entry) (a b : Label) (s : Screen) :
    Prop where
  entry : entry.text = s.entry
  monitorA : a.markup = templateA s.monitors
  monitorB : b.markup = templateB s.monitors

/-- Windows whose templates do not confuse texts show one screen. -/
theorem Shows.eq_iff {templateA templateB : Text → Text} {entry : Entry} {a b : Label} {s : Screen}
    (shows : Shows templateA templateB entry a b s) (apart : Function.Injective templateA)
    (t : Screen) : Shows templateA templateB entry a b t ↔ t = s := by
  constructor
  · intro other
    have entries : t.entry = s.entry := other.entry.symm.trans shows.entry
    have monitors : t.monitors = s.monitors := apart (other.monitorA.symm.trans shows.monitorA)
    cases t
    cases s
    simp only [Screen.mk.injEq]
    exact ⟨entries, monitors⟩
  · rintro rfl
    exact shows

/-- Text between a fixed start and a fixed end can be read off. -/
theorem append_append_injective (start finish : Text) :
    Function.Injective fun text : Text => start ++ text ++ finish := by
  intro a b same
  exact List.append_cancel_left (List.append_cancel_right same)

/-- An entry never holds NUL. -/
theorem noNul_run (actions : List Action) : '\x00' ∉ (screen.run actions).entry := by
  induction actions using List.reverseRecOn with
  | nil => decide
  | append_singleton actions action ih =>
      rw [Application.run_concat]
      cases action with
      | type t => exact t.noNul
      | press =>
          by_cases empty : (screen.run actions).entry = []
          · rw [screen_press_of_empty empty]
            exact ih
          · rw [screen_press_of_ne empty]
            exact ih

end CppLab.Ap
