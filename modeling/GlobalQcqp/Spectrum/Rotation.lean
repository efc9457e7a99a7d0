import GlobalQcqp.Spectrum
/-!
# Eigenvalues by plane rotations

Each rotation makes one entry beside the diagonal zero.  Sweeps over all those entries shrink their
total quickly, and after the last one the diagonal holds the eigenvalues.  Only the lower triangle
is read.
-/

namespace GlobalQcqp.Rotation

variable {n : Nat}

/-- The symmetric matrix with the given lower triangle. -/
def ofLowerHalf (M : SquareMatrix Float n) : SquareMatrix Float n :=
  Vector.ofFn fun i ↦ Vector.ofFn fun j ↦ if j ≤ i then M[i][j] else M[j][i]

/-- Cosine and sine of the rotation that clears entry `(p, q)`. -/
def angle (M : SquareMatrix Float n) (p q : Fin n) : Float × Float :=
  let theta := (M[q][q] - M[p][p]) / (2.0 * M[p][q])
  let t := (if theta < 0.0 then -1.0 else 1.0) / (theta.abs + (theta * theta + 1.0).sqrt)
  let c := 1.0 / (t * t + 1.0).sqrt
  (c, t * c)

def rotate (M : SquareMatrix Float n) (p q : Fin n) : SquareMatrix Float n :=
  if M[p][q] == 0.0 then M
  else
    let (c, s) := angle M p q
    let rows : SquareMatrix Float n := Vector.ofFn fun i ↦ Vector.ofFn fun j ↦
      if i = p then c * M[p][j] - s * M[q][j]
      else if i = q then s * M[p][j] + c * M[q][j]
      else M[i][j]
    Vector.ofFn fun i : Fin n ↦ Vector.ofFn fun j : Fin n ↦
      if j = p then c * rows[i][p] - s * rows[i][q]
      else if j = q then s * rows[i][p] + c * rows[i][q]
      else rows[i][j]

def sweep (M : SquareMatrix Float n) : SquareMatrix Float n :=
  (List.finRange n).foldl
    (fun M p ↦ ((List.finRange n).filter (p < ·)).foldl (fun M q ↦ rotate M p q) M) M

def sweeps : Nat → SquareMatrix Float n → SquareMatrix Float n
  | 0, M => M
  | k + 1, M => sweeps k (sweep M)

/-- Entries above `2 ^ 500` in size are brought down by a factor of `2 ^ 512` before the sweeps. -/
def scale (M : SquareMatrix Float n) : Float :=
  if M.any (·.any fun a ↦ Float.scaleB 1.0 500 < a.abs) then Float.scaleB 1.0 512 else 1.0

/-- The least diagonal entry after the sweeps; no answer for a matrix with an entry that is not
finite. -/
def routine : EigenRoutine Float := fun n M ↦
  if M.all (·.all Float.isFinite) then
    let unit := scale M
    let D := sweeps 20 (ofLowerHalf (M.map (·.map (· / unit))))
    match (List.finRange n).map fun i ↦ D[i][i] with
    | [] => none
    | d :: ds => some (unit * ds.foldl Scalar.min d)
  else none

end GlobalQcqp.Rotation
