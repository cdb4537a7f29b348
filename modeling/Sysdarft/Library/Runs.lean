import Mathlib.Tactic

/-! # Runs of a labelled system

A run is any sequence of steps, with their labels in order. What every step keeps holds at the end of a run. A system
that takes in items and gives them out in steps, and has none to start with, gives them out in order when each step
accounts for the items that are on their way.
-/

namespace Runs

variable {σ ℓ α : Type*} {step : σ → ℓ → σ → Prop}

inductive Run (step : σ → ℓ → σ → Prop) (first : σ) : List ℓ → σ → Prop where
  | start : Run step first [] first
  | next {trace : List ℓ} {state after : σ} {label : ℓ} (earlier : Run step first trace state)
      (done : step state label after) : Run step first (trace ++ [label]) after

variable {first last : σ} {trace : List ℓ} {allowed : ℓ → Prop}

/-- The induction over runs whose labels are allowed. -/
theorem Run.induct {P : List ℓ → σ → Prop} (run : Run step first trace last) (labels : ∀ label ∈ trace, allowed label)
    (start : P [] first)
    (next : ∀ trace state label after, P trace state → allowed label → step state label after → P (trace ++ [label]) after) :
    P trace last := by
  induction run with
  | start => exact start
  | next earlier done ih =>
    have before := ih fun label member => labels label (List.mem_append_left _ member)
    exact next _ _ _ _ before (labels _ (by simp)) done

/-- The items on their way, with those that came in, are those that went out and those on their way then. -/
theorem Run.conserved {P : σ → Prop} {pending : σ → List α} {sent received : ℓ → List α}
    (run : Run step first trace last) (labels : ∀ label ∈ trace, allowed label) (holds : P first)
    (kept : ∀ state label after, P state → allowed label → step state label after →
      P after ∧ pending state ++ sent label = received label ++ pending after) :
    P last ∧ pending first ++ trace.flatMap sent = trace.flatMap received ++ pending last := by
  refine run.induct (P := fun trace last =>
    P last ∧ pending first ++ trace.flatMap sent = trace.flatMap received ++ pending last) labels ⟨holds, by simp⟩ ?_
  rintro trace state label after ⟨before, balance⟩ permitted done
  obtain ⟨holds, step⟩ := kept state label after before permitted done
  refine ⟨holds, ?_⟩
  rw [List.flatMap_append, List.flatMap_append, ← List.append_assoc, balance, List.append_assoc, List.append_assoc]
  simp only [List.flatMap_singleton, step]

/-- What went out is what came in, in order and up to some point. -/
theorem Run.delivered {P : σ → Prop} {pending : σ → List α} {sent received : ℓ → List α}
    (run : Run step first trace last) (labels : ∀ label ∈ trace, allowed label) (holds : P first)
    (kept : ∀ state label after, P state → allowed label → step state label after →
      P after ∧ pending state ++ sent label = received label ++ pending after)
    (none : pending first = []) : trace.flatMap received <+: trace.flatMap sent := by
  have balance := (run.conserved labels holds kept).2
  rw [none, List.nil_append] at balance
  exact ⟨_, balance.symm⟩

end Runs
