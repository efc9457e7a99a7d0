import GlobalQcqp.Problem.Build
import GlobalQcqp.Relaxation
/-!
# Relaxations over ends of any shape

The ends of a box may come as tensors.  Only their first dimension is compared with the number of
variables; a shift of zero does not look at them any further, and any other shift needs ends that
are vectors.
-/

namespace GlobalQcqp

variable {α : Type} [Scalar α] {n : Nat}

structure Ends (α : Type) where
  lower : Tensor α
  upper : Tensor α

namespace Ends

def midpoint (e : Ends α) : Except Misfit (Tensor α) :=
  Tensor.zipWith (fun a b ↦ 0.5 * (a + b)) e.lower e.upper

end Ends

namespace Quadratic

/-- The underestimator over the ends that adds `shift` times the product of the distances to
them. -/
def loweredBetween? (q : Quadratic α n) (e : Ends α) (shift : α) :
    Except (Fault α) (Quadratic α n) := do
  boxFits n e.lower e.upper
  if shift == 0 then return q
  let misfit {ε : Type} (x : Except Misfit ε) : Except (Fault α) ε := x.mapError .misfit
  let sum ← misfit (Tensor.zipWith (· + ·) e.lower e.upper)
  let linear ← misfit (Tensor.zipWith (· - ·) (.ofVector q.linear) (sum.map (shift * ·)))
  match (← misfit (e.lower.dot e.upper)).only? with
  | none => .error (.misfit .kind)
  | some product =>
    match linear.toVector? n with
    | none => .error (.vectorShape n linear.shape)
    | some c =>
      let d : Coefficients α n := ⟨q.shiftedMatrix shift, c, q.constant + shift * product⟩
      d.quadratic?

/-- The overestimator over the ends, which is lowered between two changes of sign. -/
def raisedBetween? (q : Quadratic α n) (e : Ends α) (shift : α) :
    Except (Fault α) (Quadratic α n) := do
  (← (← q.neg?).loweredBetween? e shift).neg?

variable (routine : EigenRoutine α)

/-- The convex underestimator over the ends. They are compared with the number of variables before
the routine is called. -/
def convexBetween? (q : Quadratic α n) (e : Ends α) : Except (Fault α) (Underestimate α n) := do
  boxFits n e.lower e.upper
  return Lowering.apply (·.loweredBetween? e ·) routine q

/-- The concave overestimator over the ends: the negative of the convex underestimator of the
negative. -/
def concaveBetween? (q : Quadratic α n) (e : Ends α) : Except (Fault α) (Underestimate α n) := do
  let under ← (← q.neg?).convexBetween? routine e
  return { under with result := under.result >>= neg? }

end Quadratic

namespace Problem

def restrictEnds (p : Problem α) (e : Ends α) : Except Misfit (Ends α) := do
  return ⟨← p.restrictRows e.lower, ← p.restrictRows e.upper⟩

end Problem

end GlobalQcqp
