import GlobalQcqp.Proofs.Relaxation
import GlobalQcqp.Proofs.Relaxation.Ends
import GlobalQcqp.Proofs.Spectrum
import GlobalQcqp.Proofs.Spectrum.Discs
/-!
# Convexity of relaxations

Along a segment a quadratic lies below its chord by half the product of the two weights times the
value of its form at the difference of the ends.  So it is convex if its matrix has no negative
eigenvalue.  The shift that goes with a bound below the spectrum gives the lowered quadratic such a
matrix, whether the bound is an answer of an eigenvalue routine or comes from the discs.
-/

namespace GlobalQcqp

variable {n : ℕ}

namespace Quadratic

/-! ## Chords -/

/-- The quadratic as a function on a vector space. -/
noncomputable def toFun (q : Quadratic ℝ n) (z : Fin n → ℝ) : ℝ :=
  q.eval (Vector.ofFn z)

theorem toFun_eq (q : Quadratic ℝ n) (z : Fin n → ℝ) : q.toFun z =
    1 / 2 * (z ⬝ᵥ q.hessian.toMatrix.mulVec z) + q.linear.get ⬝ᵥ z + q.constant := by
  have hget : (Vector.ofFn z).get = z := funext fun i ↦ Vector.get_ofFn z i
  rw [toFun, eval, SquareMatrix.dot_mulVec_eq_dotProduct, SquareMatrix.dot_eq_dotProduct, hget]
  norm_num

/-- How far a quadratic lies below its chord. -/
theorem chord_sub_toFun (q : Quadratic ℝ n) (x y : Fin n → ℝ) {a b : ℝ} (hab : a + b = 1) :
    a * q.toFun x + b * q.toFun y - q.toFun (a • x + b • y) =
      1 / 2 * (a * b) * ((x - y) ⬝ᵥ q.hessian.toMatrix.mulVec (x - y)) := by
  obtain rfl : b = 1 - a := by linarith
  simp only [toFun_eq, Matrix.mulVec_add, Matrix.mulVec_sub, Matrix.mulVec_smul, dotProduct_add,
    dotProduct_sub, add_dotProduct, sub_dotProduct, smul_dotProduct, dotProduct_smul, smul_eq_mul]
  ring

theorem convexOn_toFun {q : Quadratic ℝ n} (hq : q.hessian.toMatrix.PosSemidef) :
    ConvexOn ℝ Set.univ q.toFun := by
  refine ⟨convex_univ, fun x _ y _ a b ha hb hab ↦ ?_⟩
  have hform := hq.dotProduct_mulVec_nonneg (x - y)
  rw [star_trivial] at hform
  have hchord := q.chord_sub_toFun x y hab
  have hbelow : 0 ≤ 1 / 2 * (a * b) * ((x - y) ⬝ᵥ q.hessian.toMatrix.mulVec (x - y)) := by
    positivity
  rw [smul_eq_mul, smul_eq_mul]
  linarith

theorem toFun_neg (q : Quadratic ℝ n) : q.neg.toFun = -q.toFun :=
  funext fun _ ↦ q.eval_neg _

theorem concaveOn_toFun_neg {q : Quadratic ℝ n} (hq : ConvexOn ℝ Set.univ q.toFun) :
    ConcaveOn ℝ Set.univ q.neg.toFun := by
  rw [toFun_neg]
  exact hq.neg

/-! ## Lowered and raised quadratics -/

/-- A matrix that is symmetric already is kept as it is. -/
theorem meanEntry_of_isSymmetric {M : SquareMatrix ℝ n} (hM : M.IsSymmetric) (i j : Fin n) :
    meanEntry M i j = M[i][j] := by
  have hhalf (a : ℝ) : 0.5 * (a + a) = a := by norm_num; ring
  rw [meanEntry, hM j i, hhalf, ite_self]

theorem hessian_lowered (q : Quadratic ℝ n) (box : Box ℝ n) (shift : ℝ) :
    (q.lowered box shift).hessian.toMatrix = q.hessian.toMatrix + (2 * shift) • 1 := by
  unfold lowered
  split
  · have hzero : shift = 0 := by simpa using ‹(shift == 0) = true›
    rw [hzero, mul_zero, zero_smul, add_zero]
  · have hentry (i j : Fin n) : (q.shiftedMatrix shift)[i][j] =
        (q.hessian.toMatrix + (2 * shift) • 1) i j := by
      have htwo : (2.0 : ℝ) = 2 := by norm_num
      simp [shiftedMatrix, SquareMatrix.toMatrix, Matrix.one_apply, htwo]
    have hsymmetric : (q.shiftedMatrix shift).IsSymmetric := by
      intro i j
      have hhessian : q.hessian.toMatrix i j = q.hessian.toMatrix j i := q.symmetric i j
      simp only [hentry, Matrix.add_apply, hhessian, Matrix.smul_apply, Matrix.one_apply, eq_comm]
    ext i j
    rw [← hentry, ← meanEntry_of_isSymmetric hsymmetric]
    simp [SquareMatrix.toMatrix, Coefficients.quadratic, ofMatrix, loweredCoefficients]

theorem convexOn_convexUnder {routine : EigenRoutine ℝ} (hroutine : routine.IsSound)
    (q : Quadratic ℝ n) (box : Box ℝ n) :
    ConvexOn ℝ Set.univ (q.convexUnder routine box).toFun := by
  refine convexOn_toFun ?_
  rw [convexUnder, hessian_lowered]
  exact posSemidef_add_shift hroutine q.symmetric

theorem concaveOn_concaveOver {routine : EigenRoutine ℝ} (hroutine : routine.IsSound)
    (q : Quadratic ℝ n) (box : Box ℝ n) :
    ConcaveOn ℝ Set.univ (q.concaveOver routine box).toFun :=
  concaveOn_toFun_neg (q.neg.convexOn_convexUnder hroutine box)

variable {routine : EigenRoutine EReal} (hroutine : routine.finitePart.IsSound)

include hroutine

/-- The discs bound the form of every symmetric matrix and stand in for a routine that fails.
Whether it fails or not, the shift is a real number that leaves the matrix without negative
eigenvalues, and the quadratics it lowers and raises are convex and concave. -/
theorem relaxations_convex :
    (∀ {n} (M : SquareMatrix ℝ n), 0 < n → M.IsSymmetric → ∃ d shift : ℝ,
      (Tensor.ofMatrix M).discBound = .ok d ∧
      (∀ z : Vector ℝ n, d * dot z z ≤ dot z (mulVec M z)) ∧
      ((∀ a ∈ routine n M.extend, Scalar.isFinite a = false) →
        leastEigenvalue routine M.extend = ⟨ofNumber d, true⟩) ∧
      (leastEigenvalue routine M.extend).shift = ofNumber shift ∧ 0 ≤ shift ∧
      (M.toMatrix + (2 * shift) • 1).PosSemidef) ∧
    ∀ {n} (q : Quadratic ℝ n) (box : Box ℝ n), ∃ shift shift' under above,
      (leastEigenvalue routine q.hessian.extend).shift = ofNumber shift ∧
      q.loweredBetween? box.ends shift = .ok under ∧ ConvexOn ℝ Set.univ under.toFun ∧
      (leastEigenvalue routine q.neg.hessian.extend).shift = ofNumber shift' ∧
      q.raisedBetween? box.ends shift' = .ok above ∧ ConcaveOn ℝ Set.univ above.toFun := by
  refine ⟨fun {n} M hn hM ↦ ?_, fun {n} q box ↦ ?_⟩
  · obtain ⟨d, hd⟩ := exists_discBound? hn M
    have hbelow := isBelowSpectrum_of_discBound? hd
    have hextend : discBound? M.extend = some (ofNumber d) := by
      rw [discBound?_extend, hd, Option.map_some]
    exact ⟨d, _, Tensor.discBound_ofMatrix M hd, SquareMatrix.mul_dot_le_dot_mulVec hM hbelow,
      leastEigenvalue_eq_discs hextend, shift_extend routine M, SpectralBound.shift_nonneg _,
      posSemidef_add_shift hroutine hM⟩
  · have hconvex := q.convexOn_convexUnder hroutine box
    have hconcave := q.concaveOn_concaveOver hroutine box
    exact ⟨_, _, _, _, shift_extend routine _, q.loweredBetween?_ends_eq_ok box _, hconvex,
      shift_extend routine _, q.raisedBetween?_ends_eq_ok box _, hconcave⟩

omit hroutine

/-- With exact eigenvalues the product of two coordinates is lowered to a convex quadratic, also
where it is given by one entry of its matrix. -/
theorem exists_convexOn_lowered_product :
    let product : Quadratic ℝ 2 := ofMatrix #v[#v[0, 2], #v[0, 0]] #v[0, 0] 0
    let square : Box ℝ 2 := ⟨#v[-1, -1], #v[1, 1]⟩
    EigenRoutine.exact.finitePart.IsSound ∧ ∃ shift under,
      (leastEigenvalue .exact product.hessian.extend).shift = ofNumber shift ∧
      product.loweredBetween? square.ends shift = .ok under ∧
      ConvexOn ℝ Set.univ under.toFun := by
  intro product square
  obtain ⟨shift, _, under, _, hshift, hunder, hconvex, _⟩ :=
    (relaxations_convex EigenRoutine.exact_isSound).2 product square
  exact ⟨EigenRoutine.exact_isSound, shift, under, hshift, hunder, hconvex⟩

end Quadratic

end GlobalQcqp
