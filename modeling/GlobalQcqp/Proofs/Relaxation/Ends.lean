import GlobalQcqp.Proofs.Except
import GlobalQcqp.Proofs.Quadratic
import GlobalQcqp.Relaxation.Ends
/-!
# Relaxations over the ends of a box

Ends that are vectors as long as a quadratic has variables are a box, and the quadratic is lowered
between them as it is on that box.  This holds for numbers of any kind, so also for the faults that
machine numbers lead to.  Over the real numbers there are none, and the quadratic is also raised
between them as it is on the box.
-/

namespace GlobalQcqp

variable {α : Type} [Scalar α] {n : Nat}

theorem Tensor.toVector?_ofVector {ε : Type} (v : Vector ε n) :
    (Tensor.ofVector v).toVector? n = some v :=
  dif_pos ⟨rfl, v.size_toArray⟩

def Box.ends (box : Box α n) : Ends α :=
  ⟨.ofVector box.lower, .ofVector box.upper⟩

omit [Scalar α] in
theorem boxFits_ends (box : Box α n) : boxFits n box.ends.lower box.ends.upper = .ok () := by
  simp [boxFits, Box.ends, Tensor.ofVector]

theorem Quadratic.loweredBetween?_ends (q : Quadratic α n) (box : Box α n) (shift : α) :
    q.loweredBetween? box.ends shift = q.lowered? box shift := by
  have hscaled : (Tensor.ofVector (Vector.zipWith (· + ·) box.lower box.upper)).map (shift * ·) =
      .ofVector ((Vector.zipWith (· + ·) box.lower box.upper).map (shift * ·)) := by
    simp [Tensor.map, Tensor.ofVector]
  have hlinear : Vector.zipWith (· - ·) q.linear
      ((Vector.zipWith (· + ·) box.lower box.upper).map (shift * ·)) =
        (q.loweredCoefficients box shift).linear := by
    ext i hi
    simp [loweredCoefficients]
  have honly : (Tensor.single (dot box.lower box.upper)).only? =
      some (dot box.lower box.upper) := rfl
  unfold loweredBetween? lowered?
  rw [boxFits_ends]
  by_cases hzero : (shift == 0) = true
  · simp [hzero, bind, Except.bind, pure, Except.pure]
  · simp only [hzero, Box.ends, Tensor.zipWith_ofVector, Tensor.dot_ofVector, Except.mapError, bind,
      Except.bind, hscaled, honly, hlinear, Tensor.toVector?_ofVector]
    rfl

namespace Quadratic

variable (q : Quadratic ℝ n) (box : Box ℝ n) (shift : ℝ)

@[simp] theorem loweredBetween?_ends_eq_ok :
    q.loweredBetween? box.ends shift = .ok (q.lowered box shift) := by
  rw [loweredBetween?_ends, lowered?_eq_ok]

@[simp] theorem raisedBetween?_ends_eq_ok :
    q.raisedBetween? box.ends shift = .ok (q.raised box shift) := by
  simp [raisedBetween?, raised, bind, Except.bind]

/-- On a box the convex underestimator is made with the shift of the function itself. -/
theorem convexBetween?_ends (routine : EigenRoutine ℝ) : q.convexBetween? routine box.ends =
    .ok ⟨(q.spectralBound routine).fromDiscs, .ok (q.convexUnder routine box)⟩ := by
  rw [convexBetween?, boxFits_ends, ok_bind, pure_eq_ok, Lowering.apply,
    loweredBetween?_ends_eq_ok]
  rfl

/-- On a box the concave overestimator is made with the shift of the negative. -/
theorem concaveBetween?_ends (routine : EigenRoutine ℝ) : q.concaveBetween? routine box.ends =
    .ok ⟨(q.neg.spectralBound routine).fromDiscs, .ok (q.concaveOver routine box)⟩ := by
  rw [concaveBetween?, neg?_eq_ok, ok_bind, convexBetween?_ends, ok_bind, pure_eq_ok, ok_bind,
    neg?_eq_ok]
  rfl

end Quadratic

end GlobalQcqp
