import CppLab.Ap.Views

/-!
# Views that come late

Nothing in the MVVM window says that all the views are there before the first
change: a view may be constructed on the `SharedDataVM` at any time. It reads the
current text, and from then on it is in the second of two lists of observers, that
of the view model, which is itself in the first, that of the model.

`State` has any number of views, and a record of the texts that monitors pass to
their labels. `hears_foldl` says what a notification does, `Synced` is the
invariant and `synced_run` the run lemma.
-/

namespace CppLab.Ap.LateViews

/-- A view on the view model. -/
inductive View
  | editor (e : EditorWidget)
  | display (d : DisplayWidget)
  deriving DecidableEq, Repr

/-- `IObserver` pointers held by the model. -/
inductive Observer
  | viewModel
  | view (v : Nat)
  deriving DecidableEq, Repr

/-- `mvvm::SharedData`. -/
structure SharedData where
  data : Text
  observers : List Observer
  deriving DecidableEq, Repr

/-- `SharedDataVM`, but for the pointer to the model. -/
structure SharedDataVM where
  viewObservers : List Nat
  deriving DecidableEq, Repr

/-- The model, its view model, the views in the order of their construction, and the
texts that monitors have passed to their labels. -/
structure State where
  dataModel : SharedData
  viewModel : SharedDataVM
  views : List View
  updates : List (Nat × Text)
  deriving DecidableEq, Repr

def SharedData.new : SharedData := ⟨initialData, []⟩

def SharedData.addObserver (m : SharedData) : Option Observer → SharedData
  | none => m
  | some obs => { m with observers := m.observers ++ [obs] }

def SharedData.getData (m : SharedData) : Text := m.data

def SharedDataVM.addObserver (vm : SharedDataVM) : Option Nat → SharedDataVM
  | none => vm
  | some obs => { vm with viewObservers := vm.viewObservers ++ [obs] }

/-- `onDataChanged` of the two classes of views. -/
def View.onDataChanged (gtk : Gtk) (newData : Text) : View → View
  | .editor e => .editor (e.onDataChanged gtk newData)
  | .display d => .display (d.onDataChanged gtk newData)

/-- The views with a label. -/
def View.isDisplay : View → Bool
  | .editor _ => false
  | .display _ => true

namespace State

/-- The constructor of the view model on a new model. -/
def start : State where
  dataModel := SharedData.new.addObserver (some .viewModel)
  viewModel := ⟨[]⟩
  views := []
  updates := []

/-- `SharedDataVM::getCurrentText`. -/
def getCurrentText (s : State) : Text := s.dataModel.getData

/-- The pointer `v` is to a monitor. -/
def isDisplay (s : State) (v : Nat) : Bool := s.views[v]?.any View.isDisplay

/-- The virtual call `obs->onDataChanged(data)` on a view. -/
def onViewChanged (gtk : Gtk) (s : State) (v : Nat) (newData : Text) : State where
  dataModel := s.dataModel
  viewModel := s.viewModel
  views := s.views.modify v (View.onDataChanged gtk newData)
  updates := if s.isDisplay v then s.updates ++ [(v, newData)] else s.updates

/-- `SharedDataVM::notifyObservers`. -/
def notifyViews (gtk : Gtk) (s : State) (data : Text) : State :=
  s.viewModel.viewObservers.foldl (fun s v => s.onViewChanged gtk v data) s

/-- The virtual call `o->onDataChanged(newData)`; that of the view model notifies
the views. -/
def onDataChanged (gtk : Gtk) (s : State) (o : Observer) (newData : Text) : State :=
  match o with
  | .viewModel => s.notifyViews gtk newData
  | .view v => s.onViewChanged gtk v newData

/-- `SharedData::notifyObservers`. -/
def notifyObservers (gtk : Gtk) (s : State) : State :=
  s.dataModel.observers.foldl (fun s o => s.onDataChanged gtk o s.dataModel.data) s

/-- `SharedData::setData`. -/
def setData (gtk : Gtk) (s : State) (data : Text) : State :=
  notifyObservers gtk { s with dataModel := { s.dataModel with data := data } }

/-- `SharedDataVM::submitText`. -/
def submitText (gtk : Gtk) (s : State) (text : Text) : State :=
  if text.isEmpty then s else s.setData gtk text

/-- The constructor of `EditorWidget`. -/
def editorWidget (s : State) : State where
  dataModel := s.dataModel
  viewModel := s.viewModel.addObserver (some s.views.length)
  views := s.views ++ [View.editor (EditorWidget.new s.getCurrentText)]
  updates := s.updates

/-- The constructor of `DisplayWidget`: the label gets the current text before the view
registers. -/
def displayWidget (gtk : Gtk) (s : State) (color : Text) : State where
  dataModel := s.dataModel
  viewModel := s.viewModel.addObserver (some s.views.length)
  views := s.views ++ [View.display (DisplayWidget.new gtk color s.getCurrentText)]
  updates := s.updates ++ [(s.views.length, s.getCurrentText)]

end State

/-- What happens to the window. -/
inductive Action
  | createEditor
  | createDisplay (color : Text)
  | submitText (text : Text)
  | setData (text : Text)
  deriving DecidableEq, Repr

def step (gtk : Gtk) (s : State) : Action → State
  | .createEditor => s.editorWidget
  | .createDisplay color => s.displayWidget gtk color
  | .submitText text => s.submitText gtk text
  | .setData text => s.setData gtk text

/-- Actions in turn, on a new model with its view model. -/
def run (gtk : Gtk) (actions : List Action) : State := actions.foldl (step gtk) .start

theorem run_concat (gtk : Gtk) (actions : List Action) (action : Action) :
    run gtk (actions ++ [action]) = step gtk (run gtk actions) action := by
  simp only [run, List.foldl_append, List.foldl_cons, List.foldl_nil]

/-! ## The record of updates -/

/-- The last text that a view passed to its label. -/
def lastText (updates : List (Nat × Text)) (v : Nat) : Option Text :=
  ((updates.filter (·.1 = v)).getLast?).map Prod.snd

/-- Some views get a text, each of them once. -/
theorem lastText_append (us : List (Nat × Text)) (vs : List Nat) (text : Text) (v : Nat) :
    lastText (us ++ vs.map (·, text)) v = if v ∈ vs then some text else lastText us v := by
  induction vs using List.reverseRecOn with
  | nil => simp
  | append_singleton vs w ih =>
      unfold lastText at ih ⊢
      rw [List.map_append, ← List.append_assoc, List.filter_append, List.map_singleton]
      by_cases here : w = v
      · subst here
        simp
      · have other : ¬ v = w := fun same => here same.symm
        have skip : [(w, text)].filter (·.1 = v) = [] := by simp [here]
        simp only [skip, List.append_nil, ih, List.mem_append, List.mem_singleton, other, or_false]

/-! ## One notification -/

/-- `t` is `s` after the views `vs` have heard a text. -/
structure Hears (gtk : Gtk) (vs : List Nat) (text : Text) (s t : State) : Prop where
  dataModel : t.dataModel = s.dataModel
  viewModel : t.viewModel = s.viewModel
  views : ∀ v, t.views[v]? =
    if v ∈ vs then s.views[v]?.map (View.onDataChanged gtk text) else s.views[v]?
  updates : t.updates = s.updates ++ (vs.filter s.isDisplay).map (·, text)

theorem isDisplay_onDataChanged (gtk : Gtk) (text : Text) (view : View) :
    (view.onDataChanged gtk text).isDisplay = view.isDisplay := by
  cases view with
  | editor e => rfl
  | display d => rfl

/-- One more view hears the text. -/
theorem Hears.onViewChanged {gtk : Gtk} {vs : List Nat} {text : Text} {s t : State}
    (hears : Hears gtk vs text s t) {v : Nat} (new : v ∉ vs) :
    Hears gtk (vs ++ [v]) text s (t.onViewChanged gtk v text) where
  dataModel := hears.dataModel
  viewModel := hears.viewModel
  views w := by
    show (t.views.modify v (View.onDataChanged gtk text))[w]? = _
    rw [List.getElem?_modify, hears.views]
    by_cases here : v = w
    · subst here
      simp [new]
    · have other : ¬ w = v := fun same => here same.symm
      simp [here, other]
  updates := by
    have kept : t.isDisplay v = s.isDisplay v := by
      unfold State.isDisplay
      rw [hears.views, if_neg new]
    show (if t.isDisplay v then t.updates ++ [(v, text)] else t.updates) = _
    rw [kept, hears.updates, List.filter_append, List.map_append]
    by_cases display : s.isDisplay v
    · simp [display]
    · simp [display]

/-- The loop over a list of views. -/
theorem hears_foldl (gtk : Gtk) (s : State) (text : Text) {vs : List Nat} (once : vs.Nodup) :
    Hears gtk vs text s (vs.foldl (fun s v => s.onViewChanged gtk v text) s) := by
  induction vs using List.reverseRecOn with
  | nil =>
      refine ⟨rfl, rfl, fun v => ?_, ?_⟩
      · simp
      · simp
  | append_singleton vs v ih =>
      obtain ⟨before, -, apart⟩ := List.nodup_append.mp once
      have new : v ∉ vs := fun member => apart v member v (List.mem_singleton.mpr rfl) rfl
      rw [List.foldl_append]
      exact (ih before).onViewChanged new

/-! ## Every run -/

/-- **Invariant.** The view model observes the model, the views observe the view
model, and the text that a label got last is the one in the model. -/
structure Synced (s : State) : Prop where
  observers : s.dataModel.observers = [.viewModel]
  viewObservers : s.viewModel.viewObservers = List.range s.views.length
  label : ∀ (v : Nat) d, s.views[v]? = some (View.display d) →
    d.labelData.markup = displayMarkup d.color s.dataModel.getData
  last : ∀ (v : Nat) d, s.views[v]? = some (View.display d) →
    lastText s.updates v = some s.dataModel.getData

theorem Synced.hears_setData {s : State} (synced : Synced s) (gtk : Gtk) (text : Text) :
    Hears gtk (List.range s.views.length) text
      { s with dataModel := { s.dataModel with data := text } } (s.setData gtk text) := by
  have once : s.viewModel.viewObservers.Nodup := by
    rw [synced.viewObservers]
    exact List.nodup_range
  have heard := hears_foldl gtk { s with dataModel := { s.dataModel with data := text } } text once
  rw [synced.viewObservers] at heard
  unfold State.setData State.notifyObservers
  rw [synced.observers]
  show Hears gtk _ text _ (State.notifyViews gtk _ text)
  unfold State.notifyViews
  rw [synced.viewObservers]
  exact heard

/-- The model gets the text. -/
theorem Synced.getData_setData {s : State} (synced : Synced s) (gtk : Gtk) (text : Text) :
    (s.setData gtk text).dataModel.getData = text :=
  congrArg SharedData.getData (synced.hears_setData gtk text).dataModel

theorem Synced.setData {s : State} (synced : Synced s) (gtk : Gtk) (text : Text) :
    Synced (s.setData gtk text) := by
  have heard := synced.hears_setData gtk text
  -- a view hears the text precisely when it exists
  have views : ∀ v : Nat, (s.setData gtk text).views[v]? =
      s.views[v]?.map (View.onDataChanged gtk text) := by
    intro v
    rw [heard.views]
    split
    · rfl
    · rename_i absent
      rw [List.mem_range, not_lt] at absent
      rw [List.getElem?_eq_none absent]
      rfl
  have text_eq := synced.getData_setData gtk text
  have sameLength : (s.setData gtk text).views.length = s.views.length := by
    refine Nat.le_antisymm ?_ ?_
    · rw [← List.getElem?_eq_none_iff, views, List.getElem?_eq_none (Nat.le_refl _)]
      rfl
    · rw [← List.getElem?_eq_none_iff, ← Option.map_eq_none_iff, ← views]
      exact List.getElem?_eq_none (Nat.le_refl _)
  constructor
  · rw [heard.dataModel]
    exact synced.observers
  · rw [heard.viewModel, sameLength]
    exact synced.viewObservers
  · intro v d there
    rw [views, Option.map_eq_some_iff] at there
    obtain ⟨view, old, changed⟩ := there
    cases view with
    | editor e => cases changed
    | display d' =>
        cases changed
        rw [text_eq]
        rfl
  · intro v d there
    rw [views, Option.map_eq_some_iff] at there
    obtain ⟨view, old, changed⟩ := there
    have display : s.isDisplay v = true := by
      unfold State.isDisplay
      rw [old, Option.any_some, ← isDisplay_onDataChanged gtk text view, changed]
      rfl
    have exists_ : v < s.views.length := (List.getElem?_eq_some_iff.mp old).1
    have heardIt : v ∈ (List.range s.views.length).filter s.isDisplay :=
      List.mem_filter.mpr ⟨List.mem_range.mpr exists_, display⟩
    rw [text_eq, heard.updates, lastText_append]
    exact if_pos heardIt

/-- A view that registers as it is constructed. -/
theorem getElem?_new {vs : List View} {view found : View} {v : Nat}
    (there : (vs ++ [view])[v]? = some found) :
    vs[v]? = some found ∨ (v = vs.length ∧ found = view) := by
  rcases Nat.lt_trichotomy v vs.length with before | rfl | past
  · rw [List.getElem?_append_left before] at there
    exact .inl there
  · rw [List.getElem?_concat_length] at there
    exact .inr ⟨rfl, (Option.some.inj there).symm⟩
  · rw [List.getElem?_eq_none (by simpa using past)] at there
    cases there

theorem Synced.viewObservers_new {s : State} (synced : Synced s) (view : View) :
    (s.viewModel.addObserver (some s.views.length)).viewObservers =
      List.range (s.views ++ [view]).length := by
  rw [List.length_append, List.length_singleton, List.range_succ, ← synced.viewObservers]
  rfl

/-- Step lemma. -/
theorem Synced.step {s : State} (synced : Synced s) (gtk : Gtk) (action : Action) :
    Synced (step gtk s action) := by
  cases action with
  | createEditor =>
      refine ⟨synced.observers, synced.viewObservers_new _, ?_, ?_⟩
      · intro v d there
        rcases getElem?_new there with old | ⟨-, new⟩
        · exact synced.label v d old
        · cases new
      · intro v d there
        rcases getElem?_new there with old | ⟨-, new⟩
        · exact synced.last v d old
        · cases new
  | createDisplay color =>
      refine ⟨synced.observers, synced.viewObservers_new _, ?_, ?_⟩
      · intro v d there
        rcases getElem?_new there with old | ⟨-, new⟩
        · exact synced.label v d old
        · cases new
          rfl
      · intro v d there
        show lastText (s.updates ++ [s.views.length].map (·, s.getCurrentText)) v = _
        rw [lastText_append]
        split
        · rfl
        · rename_i old
          rcases getElem?_new there with before | ⟨rfl, -⟩
          · exact synced.last v d before
          · exact absurd (List.mem_singleton.mpr rfl) old
  | submitText text =>
      show Synced (s.submitText gtk text)
      unfold State.submitText
      split
      · exact synced
      · exact synced.setData gtk text
  | setData text => exact synced.setData gtk text

end CppLab.Ap.LateViews
