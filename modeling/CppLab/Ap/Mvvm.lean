import CppLab.Ap.Views

/-!
# The MVVM window

The view model observes the model, and the views observe the view model, with
which each registers itself while it is constructed.
-/

namespace CppLab.Ap.Mvvm

/-- `IObserver` pointers held by the model. -/
inductive Observer
  | viewModel
  | view (v : View)
  deriving DecidableEq, Repr

/-- `mvvm::SharedData`. -/
structure SharedData where
  data : Text
  observers : List Observer
  deriving DecidableEq, Repr

/-- `SharedDataVM`, but for the pointer to the model. -/
structure SharedDataVM where
  viewObservers : List View
  deriving DecidableEq, Repr

/-- `mvvm::ContainerWindow`. -/
structure ContainerWindow where
  dataModel : SharedData
  viewModel : SharedDataVM
  views : Views
  deriving DecidableEq, Repr

def SharedData.new : SharedData := ⟨initialData, []⟩

def SharedData.addObserver (m : SharedData) : Option Observer → SharedData
  | none => m
  | some obs => { m with observers := m.observers ++ [obs] }

def SharedDataVM.addObserver (vm : SharedDataVM) : Option View → SharedDataVM
  | none => vm
  | some obs => { vm with viewObservers := vm.viewObservers ++ [obs] }

namespace ContainerWindow

/-- The virtual call `obs->onDataChanged(data)` on a view. -/
def onViewChanged (gtk : Gtk) (w : ContainerWindow) (v : View) (newData : Text) :
    ContainerWindow :=
  { w with views := w.views.onDataChanged gtk v newData }

/-- `SharedDataVM::notifyObservers`. -/
def notifyViews (gtk : Gtk) (w : ContainerWindow) (data : Text) : ContainerWindow :=
  w.viewModel.viewObservers.foldl (fun w v => w.onViewChanged gtk v data) w

/-- The virtual call `o->onDataChanged(newData)`; that of the view model notifies
the views. -/
def onDataChanged (gtk : Gtk) (w : ContainerWindow) (o : Observer) (newData : Text) :
    ContainerWindow :=
  match o with
  | .viewModel => w.notifyViews gtk newData
  | .view v => w.onViewChanged gtk v newData

/-- `SharedData::notifyObservers`. -/
def notifyObservers (gtk : Gtk) (w : ContainerWindow) : ContainerWindow :=
  w.dataModel.observers.foldl (fun w o => w.onDataChanged gtk o w.dataModel.data) w

/-- `SharedData::setData`. -/
def setData (gtk : Gtk) (w : ContainerWindow) (data : Text) : ContainerWindow :=
  notifyObservers gtk { w with dataModel := { w.dataModel with data := data } }

/-- `SharedDataVM::submitText`. -/
def submitText (gtk : Gtk) (w : ContainerWindow) (text : Text) : ContainerWindow :=
  if text.isEmpty then w else w.setData gtk text

end ContainerWindow

/-- The constructor of the window: the view model subscribes to the model, then
each view reads `getCurrentText()` and registers. -/
def containerWindow (gtk : Gtk) : ContainerWindow :=
  let dataModel := SharedData.new.addObserver (some .viewModel)
  let editorView := EditorWidget.new dataModel.data
  let viewModel := SharedDataVM.addObserver ⟨[]⟩ (some .editorView)
  let displayViewLeft := DisplayWidget.new gtk blue dataModel.data
  let viewModel := viewModel.addObserver (some .displayViewLeft)
  let displayViewRight := DisplayWidget.new gtk red dataModel.data
  let viewModel := viewModel.addObserver (some .displayViewRight)
  ⟨dataModel, viewModel, editorView, displayViewLeft, displayViewRight⟩

/-- The application. -/
def application (gtk : Gtk) : Application ContainerWindow where
  start := containerWindow gtk
  step w
    | .type t => { w with views := w.views.type t }
    | .press => w.submitText gtk w.views.text

/-- Who observes whom. -/
structure Wired (w : ContainerWindow) : Prop where
  observers : w.dataModel.observers = [.viewModel]
  viewObservers :
    w.viewModel.viewObservers = [.editorView, .displayViewLeft, .displayViewRight]

/-- The update goes through both layers of observers: the model has the text, the
editor keeps it, and both monitors get it. -/
theorem setData_text (gtk : Gtk) {w : ContainerWindow} (wired : Wired w) :
    w.setData gtk w.views.text = { w with
      dataModel := { w.dataModel with data := w.views.text }
      views := w.views.updateLabels gtk w.views.text } := by
  simp only [ContainerWindow.setData, ContainerWindow.notifyObservers, wired.observers,
    List.foldl_cons, List.foldl_nil, ContainerWindow.onDataChanged, ContainerWindow.notifyViews,
    wired.viewObservers, ContainerWindow.onViewChanged, Views.onDataChanged_text]

/-- Step lemma: the views do not notice the view model and the model. -/
theorem views_step (gtk : Gtk) (w : ContainerWindow) (vs : Views) (action : Action)
    (related : Wired w ∧ w.views = vs) :
    Wired ((application gtk).step w action) ∧
      ((application gtk).step w action).views = (Views.application gtk).step vs action := by
  obtain ⟨wired, rfl⟩ := related
  cases action with
  | type t => exact ⟨⟨wired.observers, wired.viewObservers⟩, rfl⟩
  | press =>
      simp only [application, ContainerWindow.submitText, Views.application, List.isEmpty_iff]
      split
      · exact ⟨wired, rfl⟩
      · rw [setData_text gtk wired]
        exact ⟨⟨wired.observers, wired.viewObservers⟩, rfl⟩

/-- The views of the MVVM window, whatever the user does. -/
theorem views_run (gtk : Gtk) (actions : List Action) :
    ((application gtk).run actions).views = (Views.application gtk).run actions := by
  have related := Application.run_related (R := fun w vs => Wired w ∧ w.views = vs)
    (a := application gtk) (b := Views.application gtk) ⟨⟨rfl, rfl⟩, rfl⟩ (views_step gtk) actions
  exact related.2

end CppLab.Ap.Mvvm
