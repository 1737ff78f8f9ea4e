import CppLab.Ap.Views

/-!
# The MVC window

The editor calls the controller, the controller the model, and the model all
views that the window has registered with it, the editor among them.
-/

namespace CppLab.Ap.Mvc

/-- `SharedData`. -/
structure SharedData where
  data : Text
  observers : List View
  deriving DecidableEq, Repr

/-- `ContainerWindow`: the model and the views. -/
structure ContainerWindow where
  dataModel : SharedData
  views : Views
  deriving DecidableEq, Repr

def SharedData.new : SharedData := ⟨initialData, []⟩

def SharedData.addObserver (m : SharedData) : Option View → SharedData
  | none => m
  | some obs => { m with observers := m.observers ++ [obs] }

namespace ContainerWindow

/-- The virtual call `o->onDataChanged(newData)`. -/
def onDataChanged (gtk : Gtk) (w : ContainerWindow) (o : View) (newData : Text) :
    ContainerWindow :=
  { w with views := w.views.onDataChanged gtk o newData }

/-- `SharedData::notifyObservers`. -/
def notifyObservers (gtk : Gtk) (w : ContainerWindow) : ContainerWindow :=
  w.dataModel.observers.foldl (fun w o => w.onDataChanged gtk o w.dataModel.data) w

/-- `SharedData::setData`. -/
def setData (gtk : Gtk) (w : ContainerWindow) (data : Text) : ContainerWindow :=
  notifyObservers gtk { w with dataModel := { w.dataModel with data := data } }

/-- `Controller::updateRequest`. -/
def updateRequest (gtk : Gtk) (w : ContainerWindow) (text : Text) : ContainerWindow :=
  if text.isEmpty then w else w.setData gtk text

end ContainerWindow

/-- The constructor of the window. -/
def containerWindow (gtk : Gtk) : ContainerWindow :=
  let dataModel := SharedData.new
  let editorView := EditorWidget.new dataModel.data
  let displayViewLeft := DisplayWidget.new gtk blue dataModel.data
  let displayViewRight := DisplayWidget.new gtk red dataModel.data
  let dataModel := dataModel.addObserver (some .editorView)
  let dataModel := dataModel.addObserver (some .displayViewLeft)
  let dataModel := dataModel.addObserver (some .displayViewRight)
  ⟨dataModel, editorView, displayViewLeft, displayViewRight⟩

/-- The application. -/
def application (gtk : Gtk) : Application ContainerWindow where
  start := containerWindow gtk
  step w
    | .type t => { w with views := w.views.type t }
    | .press => w.updateRequest gtk w.views.text

/-- Who observes the model. -/
def Wired (w : ContainerWindow) : Prop :=
  w.dataModel.observers = [.editorView, .displayViewLeft, .displayViewRight]

/-- The update goes once around: the model has the text, the editor keeps it, and
both monitors get it. -/
theorem setData_text (gtk : Gtk) {w : ContainerWindow} (wired : Wired w) :
    w.setData gtk w.views.text =
      ⟨{ w.dataModel with data := w.views.text }, w.views.updateLabels gtk w.views.text⟩ := by
  unfold Wired at wired
  simp only [ContainerWindow.setData, ContainerWindow.notifyObservers, wired, List.foldl_cons,
    List.foldl_nil, ContainerWindow.onDataChanged, Views.onDataChanged_text]

/-- Step lemma: the views do not notice the controller and the model. -/
theorem views_step (gtk : Gtk) (w : ContainerWindow) (vs : Views) (action : Action)
    (related : Wired w ∧ w.views = vs) :
    Wired ((application gtk).step w action) ∧
      ((application gtk).step w action).views = (Views.application gtk).step vs action := by
  obtain ⟨wired, rfl⟩ := related
  cases action with
  | type t => exact ⟨wired, rfl⟩
  | press =>
      simp only [application, ContainerWindow.updateRequest, Views.application, List.isEmpty_iff]
      split
      · exact ⟨wired, rfl⟩
      · rw [setData_text gtk wired]
        exact ⟨wired, rfl⟩

/-- The views of the MVC window, whatever the user does. -/
theorem views_run (gtk : Gtk) (actions : List Action) :
    ((application gtk).run actions).views = (Views.application gtk).run actions := by
  have related := Application.run_related (R := fun w vs => Wired w ∧ w.views = vs)
    (a := application gtk) (b := Views.application gtk) ⟨rfl, rfl⟩ (views_step gtk) actions
  exact related.2

end CppLab.Ap.Mvc
