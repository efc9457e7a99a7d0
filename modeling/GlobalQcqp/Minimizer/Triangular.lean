import GlobalQcqp.Linear
/-!
# Triangular systems

A positive definite matrix is the product of a lower triangular matrix and its transpose; systems
with either factor are solved one entry at a time.  Orthonormal units are built up vector by vector,
each with the coefficients of its vector in the units so far.
-/

namespace GlobalQcqp

variable {m : Nat}

def addMul (x : Vector Float m) (a : Float) (y : Vector Float m) : Vector Float m :=
  Vector.ofFn fun i : Fin m ↦ x[i] + a * y[i]

def norm (x : Vector Float m) : Float :=
  (dot x x).sqrt

namespace Triangular

/-- The lower triangular factor of a positive definite matrix. -/
def factor? (M : SquareMatrix Float m) : Option (SquareMatrix Float m) :=
  (List.finRange m).foldlM row (zeroMatrix Float m)
where
  row (L : SquareMatrix Float m) (i : Fin m) : Option (SquareMatrix Float m) :=
    ((List.finRange m).filter (· ≤ i)).foldlM (fun L j ↦ entry L i j) L
  entry (L : SquareMatrix Float m) (i j : Fin m) : Option (SquareMatrix Float m) :=
    let rest := M[i][j] - total fun k : Fin m ↦ if k < j then L[i][k] * L[j][k] else 0.0
    if i = j then if 0.0 < rest then some (L.set i (L[i].set j rest.sqrt j.isLt) i.isLt) else none
    else some (L.set i (L[i].set j (rest / L[j][j]) j.isLt) i.isLt)

def solve (L : SquareMatrix Float m) (b : Vector Float m) : Vector Float m :=
  (List.finRange m).foldl
    (fun y i ↦
      let known := total fun k : Fin m ↦ if k < i then L[i][k] * y[k] else 0.0
      y.set i ((y[i] - known) / L[i][i]) i.isLt)
    b

def solveTransposed (L : SquareMatrix Float m) (y : Vector Float m) : Vector Float m :=
  (List.finRange m).reverse.foldl
    (fun x i ↦
      let known := total fun k : Fin m ↦ if i < k then L[k][i] * x[k] else 0.0
      x.set i ((x[i] - known) / L[i][i]) i.isLt)
    y

/-! ## Orthonormal units -/

/-- A unit with the coefficients of its vector in the units up to and including it. -/
structure Pivot (m : Nat) where
  unit : Vector Float m
  coefficients : Array Float

/-- The coefficients of a vector in orthonormal units, and what is left of it. -/
def project (pivots : Array (Pivot m)) (v : Vector Float m) : Array Float × Vector Float m :=
  pivots.foldl
    (fun (cs, v) p ↦
      let c := dot p.unit v
      (cs.push c, addMul v (-c) p.unit))
    (#[], v)

def extend (pivots : Array (Pivot m)) (v : Vector Float m) : Array (Pivot m) :=
  let (cs, rest) := project pivots v
  let length := norm rest
  pivots.push ⟨rest.map (· / length), cs.push length⟩

def pivotsOf (vs : List (Vector Float m)) : Array (Pivot m) :=
  vs.foldl extend #[]

/-- The multiples of the vectors behind the pivots that make up a combination of the units. -/
def combine (pivots : Array (Pivot m)) (cs : Array Float) : Array Float :=
  (List.range pivots.size).reverse.foldl
    (fun cs j ↦
      let column := (pivots[j]?.map (·.coefficients)).getD #[]
      let multiple := cs.getD j 0.0 / column.getD j 1.0
      cs.mapIdx fun i c ↦
        if i < j then c - multiple * column.getD i 0.0 else if i = j then multiple else c)
    cs

end Triangular

end GlobalQcqp
