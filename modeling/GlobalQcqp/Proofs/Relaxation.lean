import GlobalQcqp.Proofs.Except
import GlobalQcqp.Proofs.Problem
/-!
# Soundness of relaxations

On its box a lowered quadratic is nowhere above the quadratic, because the product of the distances
to the ends is nowhere positive there.  A feasible point of the problem in the box is therefore
feasible for the relaxation, with an objective value that is no larger.
-/

namespace GlobalQcqp

variable {n : Nat}

def ConvexProblem.feasibleSet (c : ConvexProblem ℝ n) : Set (Vector ℝ n) :=
  {x | x ∈ c.box ∧ ∀ g ∈ c.constraints, g.eval x ≤ 0}

theorem SpectralBound.shift_nonneg (b : SpectralBound ℝ) : 0 ≤ b.shift := by
  rw [shift, Scalar.max_real]
  exact le_max_left _ _

namespace Quadratic

theorem lowered_le {box : Box ℝ n} {x : Vector ℝ n} (hx : x ∈ box) (q : Quadratic ℝ n) {shift : ℝ}
    (hshift : 0 ≤ shift) : (q.lowered box shift).eval x ≤ q.eval x := by
  have hterm (i : Fin n) : (box.lower[i] - x[i]) * (box.upper[i] - x[i]) ≤ 0 :=
    mul_nonpos_of_nonpos_of_nonneg (sub_nonpos.mpr (hx i).1) (sub_nonneg.mpr (hx i).2)
  have hproducts : ∑ i : Fin n, (box.lower[i] - x[i]) * (box.upper[i] - x[i]) ≤ 0 :=
    Finset.sum_nonpos fun i _ ↦ hterm i
  rw [eval_lowered]
  linarith [mul_nonpos_of_nonneg_of_nonpos hshift hproducts]

/-- The convex underestimator is nowhere above the quadratic on its box. -/
theorem convexUnder_le {box : Box ℝ n} {x : Vector ℝ n} (hx : x ∈ box) (routine : EigenRoutine ℝ)
    (q : Quadratic ℝ n) : (q.convexUnder routine box).eval x ≤ q.eval x :=
  q.lowered_le hx (SpectralBound.shift_nonneg _)

theorem convexUnder_of_convexShift_eq_zero {routine : EigenRoutine ℝ} {q : Quadratic ℝ n}
    (h : q.convexShift routine = 0) (box : Box ℝ n) : q.convexUnder routine box = q := by
  rw [convexUnder, h, lowered, if_pos (beq_self_eq_true _)]

end Quadratic

namespace Problem

variable {p : Problem ℝ}

theorem eval_le_of_mem_inequalities {x : Vector ℝ p.size} {tol : ℝ}
    (hg : ∀ g ∈ p.constraints, g.eval x ≤ tol) (hh : ∀ h ∈ p.equalities, |h.eval x| ≤ tol) :
    ∀ g ∈ p.inequalities, g.eval x ≤ tol := by
  intro g hmem
  rcases List.mem_append.mp hmem with hmem | hmem
  · exact hg g hmem
  · obtain ⟨h, heq, hmem⟩ := List.mem_flatMap.mp hmem
    have hbetween := abs_le.mp (hh h heq)
    simp only [List.mem_cons, List.not_mem_nil, or_false] at hmem
    rcases hmem with rfl | rfl
    · exact hbetween.2
    · rw [Quadratic.eval_neg]
      exact neg_le.mp hbetween.1

theorem eval_le_zero_of_mem_inequalities {x : Vector ℝ p.size}
    (hg : ∀ g ∈ p.constraints, g.eval x ≤ 0) (hh : ∀ h ∈ p.equalities, h.eval x = 0) :
    ∀ g ∈ p.inequalities, g.eval x ≤ 0 :=
  eval_le_of_mem_inequalities hg fun h heq ↦ (abs_eq_zero.mpr (hh h heq)).le

/-- Feasible points of the problem are feasible for every relaxation on a box they lie in. -/
theorem mem_relaxation_feasibleSet {x : Vector ℝ p.size} (hx : x ∈ p.feasibleSet)
    {box : Box ℝ p.size} (hbox : x ∈ box) (routine : EigenRoutine ℝ) :
    x ∈ (p.relaxation routine box).feasibleSet := by
  refine ⟨hbox, ?_⟩
  intro g hmem
  obtain ⟨q, hq, rfl⟩ := List.mem_map.mp hmem
  exact (q.convexUnder_le hbox routine).trans
    (eval_le_zero_of_mem_inequalities hx.2.1 hx.2.2 q hq)

/-- Over the real numbers no step of making a relaxation is refused. -/
@[simp] theorem relaxation?_eq_ok (p : Problem ℝ) (routine : EigenRoutine ℝ) (box : Box ℝ p.size) :
    p.relaxation? routine box = .ok (p.relaxation routine box) := by
  have happly (q : Quadratic ℝ p.size) :
      (Lowering.apply (·.lowered? box ·) routine q).result = .ok (q.convexUnder routine box) :=
    q.lowered?_eq_ok box _
  have hboth : Lowering.applyBoth (·.lowered? box ·) routine =
      fun h ↦ [h, h.neg].map (Lowering.apply (·.lowered? box ·) routine) := by
    funext h
    rw [Lowering.applyBoth, Quadratic.neg?_eq_ok]
    rfl
  have hsteps : p.constraintSteps routine (·.lowered? box ·) =
      p.inequalities.map (Lowering.apply (·.lowered? box ·) routine) := by
    rw [constraintSteps, inequalities, List.map_append, List.map_flatMap, hboth]
  rw [relaxation?, lowerAll, happly, hsteps, List.mapM_map,
    mapM_eq_ok (g := (·.convexUnder routine box)) happly]
  rfl

end Problem

end GlobalQcqp
