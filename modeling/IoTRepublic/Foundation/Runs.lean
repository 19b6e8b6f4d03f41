import Mathlib.Data.List.Induction
import Mathlib.Tactic.Common

/-!
Runs of a system that takes one step after another. A property that holds at
the start and is preserved by every step holds wherever a run leads; a
restricted system takes only those steps that meet a condition.
-/

namespace Runs

variable {σ ε : Type*}

/-- The states of a run and the steps between them, the last step last. -/
inductive Run (step : σ → ε → σ → Prop) : σ → List ε → σ → Prop
  | nil (s : σ) : Run step s [] s
  | snoc {s t u : σ} {es : List ε} {e : ε} :
      Run step s es t → step t e u → Run step s (es ++ [e]) u

/-- The steps of a system that meet a condition on the state before and the step. -/
def Meeting (step : σ → ε → σ → Prop) (condition : σ → ε → Prop) : σ → ε → σ → Prop :=
  fun s e t => step s e t ∧ condition s e

theorem Run.invariant {step : σ → ε → σ → Prop} (inv : σ → Prop)
    (hstep : ∀ s e t, inv s → step s e t → inv t) {s t : σ} {es : List ε}
    (hrun : Run step s es t) (hs : inv s) : inv t := by
  induction hrun with
  | nil => exact hs
  | snoc _ hlast ih => exact hstep _ _ _ ih hlast

theorem Run.append {step : σ → ε → σ → Prop} {s t u : σ} {es es' : List ε}
    (hrun : Run step s es t) (hrest : Run step t es' u) : Run step s (es ++ es') u := by
  induction hrest with
  | nil =>
    rw [List.append_nil]
    exact hrun
  | snoc _ hlast ih =>
    rw [← List.append_assoc]
    exact ih.snoc hlast

theorem Run.single {step : σ → ε → σ → Prop} {s t : σ} {e : ε} (h : step s e t) :
    Run step s [e] t :=
  (Run.nil s).snoc h

/-- Every event of a run is a step from a state that the run passes. -/
theorem Run.exists_step {step : σ → ε → σ → Prop} {s t : σ} {es : List ε} {e : ε}
    (hrun : Run step s es t) (he : e ∈ es) :
    ∃ before u v, before <+: es ∧ Run step s before u ∧ step u e v := by
  induction hrun with
  | nil => exact absurd he List.not_mem_nil
  | snoc hfirst hlast ih =>
    rcases List.mem_append.mp he with hin | hin
    · obtain ⟨before, u, v, hbefore, hrun, hstep⟩ := ih hin
      exact ⟨before, u, v, hbefore.trans (List.prefix_append ..), hrun, hstep⟩
    · obtain rfl := List.mem_singleton.mp hin
      exact ⟨_, _, _, List.prefix_append .., hfirst, hlast⟩

/-- A computed step that is given up where the condition fails. -/
theorem meeting_of_ite {step : σ → ε → σ → Prop} {condition : σ → ε → Prop} {s t : σ} {e : ε}
    [Decidable (condition s e)] {f : σ → ε → Option σ} (hstep : f s e = some t → step s e t)
    (h : (if condition s e then f s e else none) = some t) : Meeting step condition s e t := by
  split at h
  · rename_i hcondition
    exact ⟨hstep h, hcondition⟩
  · cases h

/-- The run of a program that computes its steps. -/
theorem Run.of_foldlM {step : σ → ε → σ → Prop} {f : σ → ε → Option σ}
    (hstep : ∀ s e t, f s e = some t → step s e t) {es : List ε} {s t : σ}
    (hrun : es.foldlM f s = some t) : Run step s es t := by
  induction es using List.reverseRecOn generalizing t with
  | nil =>
    obtain rfl := Option.some.inj hrun
    exact Run.nil s
  | append_singleton es e ih =>
    rw [List.foldlM_append] at hrun
    rcases Option.bind_eq_some_iff.mp hrun with ⟨u, hu, hlast⟩
    have hlast' : f u e = some t := by simpa using hlast
    exact (ih hu).snoc (hstep u e t hlast')

end Runs
