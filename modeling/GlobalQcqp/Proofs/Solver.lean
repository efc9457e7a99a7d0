import GlobalQcqp.Proofs.Ranges
import GlobalQcqp.Proofs.Relaxation
import GlobalQcqp.Solver.Tangent
/-!
# Sound solvers

A convex solver is sound if the value it reports is nowhere above the objective on the feasible set,
and if it reports infeasibility for problems without a feasible point only.  A failure says nothing.

The solver that answers with ranges is sound, because a range encloses the values on the box.
-/

namespace GlobalQcqp

variable {n : Nat} {σ : Type}

/-- What a sound answer says about a convex problem. -/
structure ConvexAnswer.IsSoundFor (r : ConvexAnswer ℝ EReal) (c : ConvexProblem ℝ n) : Prop where
  value_le : r.status = .feasible → ∀ x ∈ c.feasibleSet, r.value ≤ (c.objective.eval x : ℝ)
  refuted : r.status = .infeasible → c.feasibleSet = ∅

/-- The value may be too large by a slack. -/
structure ConvexAnswer.IsSoundWithin (slack : ℝ) (r : ConvexAnswer ℝ EReal)
    (c : ConvexProblem ℝ n) : Prop where
  value_le : r.status = .feasible → ∀ x ∈ c.feasibleSet,
    r.value ≤ (c.objective.eval x + slack : ℝ)
  refuted : r.status = .infeasible → c.feasibleSet = ∅

theorem ConvexAnswer.IsSoundFor.within {r : ConvexAnswer ℝ EReal} {c : ConvexProblem ℝ n}
    (h : r.IsSoundFor c) {slack : ℝ} (hslack : 0 ≤ slack) : r.IsSoundWithin slack c where
  value_le hstatus x hx := (h.value_le hstatus x hx).trans (EReal.coe_le_coe_iff.mpr (by linarith))
  refuted := h.refuted

def ConvexSolver.IsSound (solver : ConvexSolver ℝ EReal n σ) : Prop :=
  ∀ c start s, (solver c start s).1.IsSoundFor c

theorem Tangent.rangeSolver_isSound : (Tangent.rangeSolver : ConvexSolver ℝ EReal n σ).IsSound := by
  intro c start s
  have hlo (q : Quadratic ℝ n) {x : Vector ℝ n} (hx : x ∈ c.box) :
      (q.interval c.box.sides).lo ≤ q.eval x :=
    (q.eval_mem_interval c.box.sides fun i ↦ by simpa using hx i).1
  unfold rangeSolver answer
  split
  · obtain ⟨g, hg, hpos⟩ := List.any_eq_true.mp ‹_›
    refine ⟨nofun, fun _ ↦ Set.eq_empty_iff_forall_notMem.mpr fun x hx ↦ ?_⟩
    have hpos : tolerance < (g.interval c.box.sides).lo := decide_eq_true_iff.mp hpos
    have htolerance : (0 : ℝ) < tolerance := by norm_num [tolerance]
    exact absurd (hx.2 g hg) (not_le.mpr ((htolerance.trans hpos).trans_le (hlo g hx.1)))
  · exact ⟨fun _ x hx ↦ EReal.coe_le_coe_iff.mpr (hlo c.objective hx.1), nofun⟩

end GlobalQcqp
