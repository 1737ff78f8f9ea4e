import CppLab.Lib.System

/-!
# Two systems in lockstep

`Option.Rel R` relates two steps of which either both or neither can be made. A relation
that the steps of two systems keep in this sense is kept by their runs, so that the one
system has just the runs of the other.
-/

namespace CppLab

variable {α β γ δ : Type*} {R : α → β → Prop} {Q : γ → δ → Prop}

theorem rel_bind {x : Option α} {y : Option β} {f : α → Option γ} {g : β → Option δ}
    (now : Option.Rel R x y) (next : ∀ a b, R a b → Option.Rel Q (f a) (g b)) :
    Option.Rel Q (x.bind f) (y.bind g) := by
  cases now with
  | none => exact .none
  | some related => exact next _ _ related

theorem rel_map {x : Option α} {y : Option β} {f : α → γ} {g : β → δ}
    (now : Option.Rel R x y) (next : ∀ a b, R a b → Q (f a) (g b)) :
    Option.Rel Q (x.map f) (y.map g) := by
  cases now with
  | none => exact .none
  | some related => exact .some (next _ _ related)

/-- The second of two related steps, when it is given by the first. -/
theorem map_eq_of_rel {x : Option α} {y : Option β} {f : α → β}
    (related : Option.Rel R x y) (is : ∀ a b, R a b → f a = b) : x.map f = y := by
  cases related with
  | none => rfl
  | some related => exact congrArg some (is _ _ related)

namespace System

variable {σ τ ℓ : Type*} {T : System σ ℓ} {U : System τ ℓ} {R : σ → τ → Prop}

theorem rel_runFrom (step : ∀ s t l, R s t → Option.Rel R (T.step s l) (U.step t l))
    {s : σ} {t : τ} (related : R s t) (ls : List ℓ) :
    Option.Rel R (T.runFrom s ls) (U.runFrom t ls) := by
  induction ls generalizing s t with
  | nil => exact .some related
  | cons l ls ih =>
      rw [runFrom_cons, runFrom_cons]
      exact rel_bind (step s t l related) fun s' t' related' => ih related'

theorem rel_run (init : R T.init U.init)
    (step : ∀ s t l, R s t → Option.Rel R (T.step s l) (U.step t l)) (ls : List ℓ) :
    Option.Rel R (T.run ls) (U.run ls) :=
  rel_runFrom step init ls

end System

end CppLab
