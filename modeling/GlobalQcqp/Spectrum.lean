import GlobalQcqp.Linear
/-!
# Least eigenvalues

The least eigenvalue of a symmetric matrix comes from an eigenvalue routine that may fail.  The
discs around the diagonal entries give a lower bound on it that needs no routine and takes its place
then.
-/

namespace GlobalQcqp

/-- A routine for the least eigenvalue of a symmetric matrix, which may have no answer. -/
abbrev EigenRoutine (α : Type) :=
  (n : Nat) → SquareMatrix α n → Option α

variable {α : Type} [Scalar α] {n : Nat}

def discEnd (M : SquareMatrix α n) (i : Fin n) : α :=
  let d := M[i][i]
  d - (total (fun j : Fin n ↦ Scalar.abs M[i][j]) - Scalar.abs d)

def discBound? (M : SquareMatrix α n) : Option α :=
  match (List.finRange n).map (discEnd M) with
  | [] => none
  | d :: ds => some (ds.foldl Scalar.lesser d)

/-- A lower bound on the spectrum, and whether the discs had to stand in for the routine. -/
structure SpectralBound (α : Type) where
  value : α
  fromDiscs : Bool

def leastEigenvalue (routine : EigenRoutine α) (M : SquareMatrix α n) : SpectralBound α :=
  match discBound? M with
  | none => ⟨0, false⟩
  | some disc =>
    match routine n M with
    | none => ⟨disc, true⟩
    | some value => if Scalar.isFinite value then ⟨value, false⟩ else ⟨disc, true⟩

/-- The least multiple of `2 I`, not below zero, whose sum with a matrix has no negative eigenvalue
by the bound on its spectrum. -/
def SpectralBound.shift (b : SpectralBound α) : α :=
  Scalar.max 0 (-b.value / 2.0)

end GlobalQcqp
