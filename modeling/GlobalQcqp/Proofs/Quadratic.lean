import GlobalQcqp.Proofs.Linear
import GlobalQcqp.Relaxation
/-!
# Values of quadratics

Taking the symmetric part of a matrix does not change the values of a quadratic, so each operation
on coefficients has the value it is named for.  Real coefficients are always finite, and no such
operation is refused.
-/

namespace GlobalQcqp

variable {n : Nat}

@[simp] theorem Coefficients.quadratic?_eq_ok (d : Coefficients ℝ n) :
    d.quadratic? = .ok d.quadratic := by
  have hentries : d.hasFiniteEntries = true := by
    simp [hasFiniteEntries]
  simp [quadratic?, hentries]

namespace Quadratic

@[simp] theorem neg?_eq_ok (q : Quadratic ℝ n) : q.neg? = .ok q.neg :=
  q.negCoefficients.quadratic?_eq_ok

@[simp] theorem subConst?_eq_ok (q : Quadratic ℝ n) (a : ℝ) : q.subConst? a = .ok (q.subConst a) :=
  (q.subCoefficients a).quadratic?_eq_ok

@[simp] theorem lowered?_eq_ok (q : Quadratic ℝ n) (box : Box ℝ n) (shift : ℝ) :
    q.lowered? box shift = .ok (q.lowered box shift) := by
  unfold lowered? lowered
  split
  · rfl
  · exact Coefficients.quadratic?_eq_ok _

/-! ## Values -/

theorem eval_eq (q : Quadratic ℝ n) (x : Vector ℝ n) :
    q.eval x = 1 / 2 * ∑ i : Fin n, ∑ j : Fin n, q.hessian[i][j] * (x[i] * x[j]) +
      ∑ i : Fin n, q.linear[i] * x[i] + q.constant := by
  rw [eval, dot_mulVec_eq_sum, dot_eq_sum]
  norm_num

theorem getElem_gradient_eq_sum (q : Quadratic ℝ n) (x : Vector ℝ n) (i : Fin n) :
    (q.gradient x)[i] = ∑ j : Fin n, q.hessian[i][j] * x[j] + q.linear[i] := by
  rw [← dot_eq_sum]
  simp only [gradient, getElem_fin, Vector.getElem_ofFn]

theorem hessian_ofMatrix (M : SquareMatrix ℝ n) (v : Vector ℝ n) (k : ℝ) (i j : Fin n) :
    (ofMatrix M v k).hessian[i][j] = 1 / 2 * (M[i][j] + M[j][i]) := by
  simp only [ofMatrix, meanEntry, getElem_fin, Vector.getElem_ofFn]
  split <;> norm_num
  ring

/-- The value of a quadratic does not depend on how its matrix is divided over the two triangles. -/
theorem eval_ofMatrix (M : SquareMatrix ℝ n) (v : Vector ℝ n) (k : ℝ) (x : Vector ℝ n) :
    (ofMatrix M v k).eval x = 1 / 2 * ∑ i : Fin n, ∑ j : Fin n, M[i][j] * (x[i] * x[j]) +
      ∑ i : Fin n, v[i] * x[i] + k := by
  have htranspose : ∑ i : Fin n, ∑ j : Fin n, M[j][i] * (x[i] * x[j]) =
      ∑ i : Fin n, ∑ j : Fin n, M[i][j] * (x[i] * x[j]) := by
    rw [Finset.sum_comm]
    exact Finset.sum_congr rfl fun i _ ↦ Finset.sum_congr rfl fun j _ ↦ by rw [mul_comm x[i]]
  have hsymm : ∑ i : Fin n, ∑ j : Fin n, (ofMatrix M v k).hessian[i][j] * (x[i] * x[j]) =
      ∑ i : Fin n, ∑ j : Fin n, M[i][j] * (x[i] * x[j]) := by
    calc
      _ = 1 / 2 * (∑ i : Fin n, ∑ j : Fin n, M[i][j] * (x[i] * x[j]) +
            ∑ i : Fin n, ∑ j : Fin n, M[j][i] * (x[i] * x[j])) := by
        rw [← Finset.sum_add_distrib, Finset.mul_sum]
        refine Finset.sum_congr rfl fun i _ ↦ ?_
        rw [← Finset.sum_add_distrib, Finset.mul_sum]
        refine Finset.sum_congr rfl fun j _ ↦ ?_
        rw [hessian_ofMatrix]
        ring
      _ = _ := by
        rw [htranspose]
        ring
  rw [eval_eq, hsymm]
  rfl

theorem eval_neg (q : Quadratic ℝ n) (x : Vector ℝ n) : q.neg.eval x = -q.eval x := by
  have hvalue := eval_ofMatrix q.negCoefficients.matrix q.negCoefficients.linear
    q.negCoefficients.constant x
  have hmatrix (i j : Fin n) : q.negCoefficients.matrix[i][j] = -q.hessian[i][j] := by
    simp [negCoefficients]
  have hlinear (i : Fin n) : q.negCoefficients.linear[i] = -q.linear[i] := by
    simp [negCoefficients]
  simp only [hmatrix, hlinear, neg_mul, Finset.sum_neg_distrib] at hvalue
  rw [neg, Coefficients.quadratic, hvalue, eval_eq, negCoefficients]
  ring

theorem eval_subConst (q : Quadratic ℝ n) (a : ℝ) (x : Vector ℝ n) :
    (q.subConst a).eval x = q.eval x - a := by
  rw [subConst, Coefficients.quadratic, eval_ofMatrix, eval_eq, subCoefficients]
  ring

theorem eval_coordinate (i : Fin n) (a : ℝ) (x : Vector ℝ n) :
    (coordinate i a).eval x = a * x[i] := by
  have haxis (j : Fin n) : (axis i a)[j] * x[j] = if j = i then a * x[j] else 0 := by
    simp only [axis, getElem_fin, Vector.getElem_ofFn]
    split <;> simp_all
  have hzero (j k : Fin n) : (zeroMatrix ℝ n)[j][k] = 0 := by
    simp [zeroMatrix]
  rw [coordinate, eval_ofMatrix]
  simp only [hzero, haxis, zero_mul, Finset.sum_const_zero, mul_zero, zero_add, add_zero,
    Finset.sum_ite_eq', Finset.mem_univ, if_true]

/-- Lowering adds the shift times the product of the distances to the ends. -/
theorem eval_lowered (q : Quadratic ℝ n) (box : Box ℝ n) (shift : ℝ) (x : Vector ℝ n) :
    (q.lowered box shift).eval x =
      q.eval x + shift * ∑ i : Fin n, (box.lower[i] - x[i]) * (box.upper[i] - x[i]) := by
  unfold lowered
  split
  · have hzero : shift = 0 := by simpa using ‹(shift == 0) = true›
    simp [hzero]
  · have hmatrix (i j : Fin n) : (q.loweredCoefficients box shift).matrix[i][j] =
        q.hessian[i][j] + if i = j then 2 * shift else 0 := by
      simp only [loweredCoefficients, shiftedMatrix, getElem_fin, Vector.getElem_ofFn, Fin.eta]
      split <;> norm_num
    have hlinear (i : Fin n) : (q.loweredCoefficients box shift).linear[i] =
        q.linear[i] - shift * (box.lower[i] + box.upper[i]) := by
      simp [loweredCoefficients]
    have hconstant : (q.loweredCoefficients box shift).constant =
        q.constant + shift * ∑ i : Fin n, box.lower[i] * box.upper[i] := by
      rw [loweredCoefficients, dot_eq_sum]
    have hdiagonal (i : Fin n) : ∑ j : Fin n, (if i = j then 2 * shift else 0) * (x[i] * x[j]) =
        2 * shift * (x[i] * x[i]) := by
      simp
    have hproducts : ∑ i : Fin n, (box.lower[i] - x[i]) * (box.upper[i] - x[i]) =
        ∑ i : Fin n, box.lower[i] * box.upper[i] -
          ∑ i : Fin n, (box.lower[i] + box.upper[i]) * x[i] + ∑ i : Fin n, x[i] * x[i] := by
      rw [← Finset.sum_sub_distrib, ← Finset.sum_add_distrib]
      exact Finset.sum_congr rfl fun i _ ↦ by ring
    rw [Coefficients.quadratic, eval_ofMatrix, hconstant, eval_eq, hproducts]
    simp only [hmatrix, hlinear, add_mul, sub_mul, Finset.sum_add_distrib, Finset.sum_sub_distrib,
      hdiagonal]
    simp only [mul_assoc, ← Finset.mul_sum, add_mul, Finset.sum_add_distrib]
    ring

end Quadratic

end GlobalQcqp
