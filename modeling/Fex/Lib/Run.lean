import Fex.Lib.CInt

/-!
# Runs

A system is a step function on states and events.  `Reachable` collects the
states of the runs whose steps meet a guard, and its induction rule turns a
step lemma into a statement about whole runs.
-/

namespace Fex.Lib

variable {σ ε : Type*}

/-- States reached from `s₀` by steps that meet `guard` and do not fault. -/
inductive Reachable (step : σ → ε → Exec σ) (guard : σ → ε → Prop) (s₀ : σ) : σ → Prop
  | init : Reachable step guard s₀ s₀
  | next {s t : σ} (e : ε) :
      Reachable step guard s₀ s → guard s e → step s e = .ok t → Reachable step guard s₀ t

/-- What one step preserves holds along every run. -/
theorem Reachable.invariant {step : σ → ε → Exec σ} {guard : σ → ε → Prop} {s₀ s : σ}
    {inv : σ → Prop} (h : Reachable step guard s₀ s) (hinit : inv s₀)
    (hstep : ∀ s t e, inv s → guard s e → step s e = .ok t → inv t) : inv s := by
  induction h with
  | init => exact hinit
  | next e _ hguard hnext ih => exact hstep _ _ e ih hguard hnext

end Fex.Lib
