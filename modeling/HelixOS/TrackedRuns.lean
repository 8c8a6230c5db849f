import Mathlib.Tactic

/-!
# Runs with a history

A transition system whose steps may fail, together with a history that every step
extends.  The history is not part of the system: it records what a property compares the
states with.  A run may be restricted to the steps that `allowed` permits in the state
before them.
-/

namespace TrackedRuns

variable {S E H : Type*}

/-- The states and histories that allowed steps reach from `s₀` and `h₀`. -/
inductive Reaches (step : S → E → Option S) (note : S → E → S → H → H)
    (allowed : S → E → Prop) (s₀ : S) (h₀ : H) : S → H → Prop
  | start : Reaches step note allowed s₀ h₀ s₀ h₀
  | step {s s' : S} {h : H} {e : E} (hreach : Reaches step note allowed s₀ h₀ s h)
      (hallowed : allowed s e) (hstep : step s e = some s') :
      Reaches step note allowed s₀ h₀ s' (note s e s' h)

variable {step : S → E → Option S} {note : S → E → S → H → H} {allowed : S → E → Prop}
  {s₀ s : S} {h₀ h : H}

/-- What holds at the start and is kept by every allowed step holds in every reached
state. -/
theorem Reaches.invariant (hreach : Reaches step note allowed s₀ h₀ s h) (inv : S → H → Prop)
    (hinit : inv s₀ h₀)
    (hkeep : ∀ s s' h e, inv s h → allowed s e → step s e = some s' → inv s' (note s e s' h)) :
    inv s h := by
  induction hreach with
  | start => exact hinit
  | step _ hallowed hstep ih => exact hkeep _ _ _ _ ih hallowed hstep

lemma Reaches.next {s' : S} (hreach : Reaches step note allowed s₀ h₀ s h) (e : E)
    (hallowed : allowed s e) (hstep : step s e = some s') :
    Reaches step note allowed s₀ h₀ s' (note s e s' h) :=
  .step hreach hallowed hstep

/-- The end of the run over a list of events, if every step succeeds. -/
def run (step : S → E → Option S) (note : S → E → S → H → H) : List E → S → H → Option (S × H)
  | [], s, h => some (s, h)
  | e :: es, s, h => (step s e).bind fun s' => run step note es s' (note s e s' h)

lemma Reaches.run {s' : S} {h' : H} (hreach : Reaches step note allowed s₀ h₀ s h) (es : List E)
    (hall : ∀ e ∈ es, ∀ s, allowed s e) (hrun : run step note es s h = some (s', h')) :
    Reaches step note allowed s₀ h₀ s' h' := by
  induction es generalizing s h with
  | nil =>
    simp only [TrackedRuns.run, Option.some.injEq, Prod.mk.injEq] at hrun
    obtain ⟨rfl, rfl⟩ := hrun
    exact hreach
  | cons e es ih =>
    obtain ⟨s₁, hstep, hrest⟩ := Option.bind_eq_some_iff.mp hrun
    exact ih (.step hreach (hall e (by simp) s) hstep)
      (fun e he => hall e (List.mem_cons_of_mem _ he)) hrest

end TrackedRuns
