import GlobalQcqp.Fault
import GlobalQcqp.Quadratic
import GlobalQcqp.Tensor
/-!
# Quadratics from data

Reads a matrix, a vector and a constant of unknown shape into a quadratic, or names the first rule
they break.  `Coefficients.quadratic?` is the test on the numbers alone, for coefficients that
arithmetic may have driven out of range.  It looks at the coefficients as they are given; half the
sum of two large finite entries may still be infinite.

Values and gradients are taken at tensors of any shape, by the rules for their products.
-/

namespace GlobalQcqp

abbrev SizedQuadratic (α : Type) :=
  (n : Nat) × Quadratic α n

namespace Tensor

variable {α : Type} [Scalar α]

/-- The entry at a row and column of a square matrix. -/
def squareEntry (t : Tensor α) (n : Nat) (i j : Fin n) : α :=
  t.entries.getD (i * n + j) 0

def toSquare (t : Tensor α) (n : Nat) : SquareMatrix α n :=
  Vector.ofFn fun i ↦ Vector.ofFn fun j ↦ t.squareEntry n i j

def square (t : Tensor α) : Except (Fault α) ((n : Nat) × SquareMatrix α n) :=
  match t.shape with
  | [n, m] => if n = m then .ok ⟨n, t.toSquare n⟩ else .error (.spectrumShape t.shape)
  | shape => .error (.spectrumShape shape)

def toVector (t : Tensor α) (n : Nat) : Vector α n :=
  Vector.ofFn fun i : Fin n ↦ t.entries.getD i 0

end Tensor

/-- A box has the number of variables that is asked for. The lower ends are named if either do not
fit. -/
def boxFits {α : Type} (n : Nat) (lower upper : Tensor α) : Except (Fault α) Unit :=
  match lower.shape, upper.shape with
  | [], _ => .error (.misfit .position)
  | l :: _, [] => .error (if l = n then .misfit .position else .boxSize l n)
  | l :: _, u :: _ => if l = n ∧ u = n then .ok () else .error (.boxSize l n)

namespace Coefficients

variable {α : Type} [Scalar α] {n : Nat}

def quadratic? (d : Coefficients α n) : Except (Fault α) (Quadratic α n) :=
  if !d.hasFiniteEntries then .error .infiniteEntries
  else if !Scalar.isFinite d.constant then .error (.infiniteConstant d.constant)
  else .ok d.quadratic

end Coefficients

namespace Quadratic

variable {α : Type} [Scalar α] {n : Nat}

/-- Reads a quadratic. The constant is looked at last. -/
def build (matrix linear : Tensor α) (constant : Except Misfit α) :
    Except (Fault α) (SizedQuadratic α) :=
  match matrix.shape with
  | [n, m] =>
    if n != m then .error (.matrixShape matrix.shape)
    else if linear.shape != [n] then .error (.vectorShape n linear.shape)
    else do
      let d : Coefficients α n := ⟨matrix.toSquare n, linear.toVector n, 0⟩
      if !d.hasFiniteEntries then .error .infiniteEntries
      let k ← constant.mapError .misfit
      return ⟨n, ← { d with constant := k }.quadratic?⟩
  | shape => .error (.matrixShape shape)

def interval? (q : Quadratic α n) (side : Nat → Except Misfit (Interval α)) :
    Except Misfit (Interval α) := do
  let sides ← (Vector.ofFn fun i : Fin n ↦ i.val).mapM side
  return q.interval sides

def eval? (q : Quadratic α n) (x : Tensor α) : Except Misfit (Tensor α) :=
  match x.toVector? n with
  | some x => .ok (.single (q.eval x))
  | none => do
    let form ← x.dot (← (Tensor.ofMatrix q.hessian).dot x)
    let slope ← (Tensor.ofVector q.linear).dot x
    return (← Tensor.zipWith (· + ·) (form.map (0.5 * ·)) slope).map (· + q.constant)

def number? (q : Quadratic α n) (x : Tensor α) : Except Misfit α := do
  match (← q.eval? x).only? with
  | some a => return a
  | none => .error .kind

def gradient? (q : Quadratic α n) (x : Tensor α) : Except Misfit (Tensor α) :=
  match x.toVector? n with
  | some x => .ok (.ofVector (q.gradient x))
  | none => do
    Tensor.zipWith (· + ·) (← (Tensor.ofMatrix q.hessian).dot x) (.ofVector q.linear)

/-- The gradient with the shape of a tensor at which the value is a single number. -/
def derivative? (q : Quadratic α n) (x : Tensor α) : Except Misfit (Tensor α) := do
  match (← q.eval? x).only?, (Tensor.ofArray x.entries).toVector? n with
  | some _, some v => return ⟨x.shape, (q.gradient v).toArray⟩
  | _, _ => .error .kind

def neg? (q : Quadratic α n) : Except (Fault α) (Quadratic α n) :=
  q.negCoefficients.quadratic?

def subConst? (q : Quadratic α n) (a : α) : Except (Fault α) (Quadratic α n) :=
  (q.subCoefficients a).quadratic?

/-- A space with more variables has matrices too large to be kept. -/
def maxSize : Nat :=
  Nat.pow 2 30

/-- Embeds into a space of `size` variables at places that may count from the end. The number of
places is looked at first. -/
def embed? (q : Quadratic α n) (places : Tensor Int) (size : Except Misfit Int) :
    Except (Fault α) (SizedQuadratic α) :=
  match places.shape with
  | [] => .error (.misfit .position)
  | count :: rest => do
    if count ≠ n then .error (.placeCount n count)
    let m ← size.mapError .misfit
    if m < 0 ∨ maxSize < m ∨ rest ≠ [] then .error (.misfit .content)
    match (places.toVector? n).bind (·.mapM (position? m.toNat)) with
    | none => .error (.misfit .position)
    | some ps => return ⟨m.toNat, ← (q.embedCoefficients ps).quadratic?⟩

end Quadratic

end GlobalQcqp
