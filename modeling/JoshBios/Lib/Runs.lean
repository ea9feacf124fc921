import Mathlib

/-!
# Runs of a machine with answers

`step : Op → S → R × S` is one call: it gets an operation and a state and leaves an answer and the
next state. `Reaches step s₀ hist s` says that some sequence of calls leads from `s₀` to `s`; `hist`
records them, newest first, each with the state it met. Properties of whole runs are proved with
`Reaches.invariant`, from one step lemma.
-/

namespace JoshBios.Lib

variable {Op S R : Type*}

/-- One call of a run. -/
structure Event (Op S R : Type*) where
  op : Op
  pre : S
  res : R
  post : S

/-- The call of `op` on `s`. -/
def Event.of (step : Op → S → R × S) (op : Op) (s : S) : Event Op S R :=
  ⟨op, s, (step op s).1, (step op s).2⟩

/-- The calls `hist` (newest first) lead from `s₀` to `s`. -/
inductive Reaches (step : Op → S → R × S) (s₀ : S) : List (Event Op S R) → S → Prop
  | start : Reaches step s₀ [] s₀
  | call {hist : List (Event Op S R)} {s : S} (op : Op) (h : Reaches step s₀ hist s) :
      Reaches step s₀ (Event.of step op s :: hist) (step op s).2

namespace Reaches
variable {step : Op → S → R × S} {s₀ s : S} {hist : List (Event Op S R)}

/-- What every call whose operation and state satisfy `ok` preserves holds at the end of a run of
such calls. -/
theorem invariant (ok : Event Op S R → Prop) (I : List (Event Op S R) → S → Prop) (h₀ : I [] s₀)
    (hstep : ∀ hist s op, Reaches step s₀ hist s → I hist s → ok (Event.of step op s) →
      I (Event.of step op s :: hist) (step op s).2)
    (h : Reaches step s₀ hist s) (hok : ∀ ev ∈ hist, ok ev) : I hist s := by
  induction h with
  | start => exact h₀
  | call op h ih =>
    exact hstep _ _ op h (ih fun ev hev => hok ev (List.mem_cons_of_mem _ hev)) (hok _ List.mem_cons_self)

/-- A call of a run is a step from the state the calls before it have reached. -/
theorem of_append {newer older : List (Event Op S R)} {ev : Event Op S R}
    (h : Reaches step s₀ (newer ++ ev :: older) s) :
    Reaches step s₀ older ev.pre ∧ ev = Event.of step ev.op ev.pre := by
  induction newer generalizing s with
  | nil => cases h with | call op h => exact ⟨h, rfl⟩
  | cons _ newer ih => cases h with | call op h => exact ih h

theorem split {newer older : List (Event Op S R)} (h : Reaches step s₀ (newer ++ older) s) :
    ∃ mid, Reaches step s₀ older mid ∧ Reaches step mid newer s := by
  induction newer generalizing s with
  | nil => exact ⟨s, h, .start⟩
  | cons _ newer ih =>
    cases h with
    | call op h =>
      obtain ⟨mid, hold, hnew⟩ := ih h
      exact ⟨mid, hold, hnew.call op⟩

end Reaches

/-- The state after a list of calls, first call first. -/
def runOps (step : Op → S → R × S) : List Op → S → S
  | [], s => s
  | op :: ops, s => runOps step ops (step op s).2

/-- Their history, newest first, put before `hist`. -/
def histOps (step : Op → S → R × S) : List Op → S → List (Event Op S R) → List (Event Op S R)
  | [], _, hist => hist
  | op :: ops, s, hist => histOps step ops (step op s).2 (Event.of step op s :: hist)

theorem Reaches.append_ops {step : Op → S → R × S} {s₀ : S} (ops : List Op) :
    ∀ {s : S} {hist : List (Event Op S R)}, Reaches step s₀ hist s →
      Reaches step s₀ (histOps step ops s hist) (runOps step ops s) := by
  induction ops with
  | nil => intro s hist h; exact h
  | cons op ops ih => intro s hist h; exact ih (h.call op)

theorem reaches_runOps (step : Op → S → R × S) (ops : List Op) (s₀ : S) :
    Reaches step s₀ (histOps step ops s₀ []) (runOps step ops s₀) :=
  Reaches.start.append_ops ops

end JoshBios.Lib
