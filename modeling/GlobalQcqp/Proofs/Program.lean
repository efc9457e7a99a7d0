import GlobalQcqp.Proofs.Box
import GlobalQcqp.Minimizer
/-!
# Minimizers of programs

A point is feasible for a program if every condition holds there and every variable is in its range.
A minimizer is exact on a job if it finds a feasible point with the least value whenever there is
one, and claims no success if no point is feasible.
-/

namespace GlobalQcqp

variable {m : ℕ} {ε σ : Type}

def Condition.Holds (k : Condition ℝ m) (x : Vector ℝ m) : Prop :=
  match k.relation with
  | .nonnegative => 0 ≤ k.function.value x
  | .zero => k.function.value x = 0

namespace Program

def feasibleSet (p : Program ℝ m) : Set (Vector ℝ m) :=
  {x | (∀ i : Fin m, ∀ range ∈ p.ranges[i], x[i] ∈ range) ∧ ∀ k ∈ p.conditions, k.Holds x}

def IsMinimizer (p : Program ℝ m) (x : Vector ℝ m) : Prop :=
  x ∈ p.feasibleSet ∧ IsMinOn p.objective.value p.feasibleSet x

end Program

/-- Every run of the minimizer on the job finishes with the truth about its program. -/
def Minimizer.IsExactOn (minimize : Minimizer ℝ EReal ε σ) (job : Job ℝ) : Prop :=
  ∀ s, ∃ found, (minimize job s).1 = .finished found ∧
    ((∃ x, job.program.IsMinimizer x) → found.success = .ok true ∧
      ∃ x, job.program.IsMinimizer x ∧ found.point = .ok (.ofVector x)) ∧
    (job.program.feasibleSet = ∅ → found.success = .ok false)

end GlobalQcqp
