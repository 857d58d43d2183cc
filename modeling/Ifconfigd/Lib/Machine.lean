import Mathlib.Data.List.Basic
import Mathlib.Tactic.Common

/-!
# Runs of a labelled transition system

A step relation takes one labelled transition. `Run` lists the labels of a
finite run, and `Run.invariant` is the induction every safety statement uses.
-/

namespace Machine

variable {S E : Type*} {step : S → E → S → Prop}

/-- A finite run and the labels of its steps, in order. -/
inductive Run (step : S → E → S → Prop) : S → List E → S → Prop
  | nil (s : S) : Run step s [] s
  | snoc {s t u : S} {es : List E} {e : E} :
      Run step s es t → step t e u → Run step s (es ++ [e]) u

/-- What holds initially and is kept by each step holds at the end of each run. -/
theorem Run.invariant {P : S → Prop} (hstep : ∀ s e t, P s → step s e t → P t)
    {s t : S} {es : List E} (hrun : Run step s es t) (hs : P s) : P t := by
  induction hrun with
  | nil => exact hs
  | snoc _ hlast ih => exact hstep _ _ _ ih hlast

end Machine
