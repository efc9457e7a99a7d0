import GlobalQcqp.Relaxation
import GlobalQcqp.Tightening
/-!
# Feasibility-based tightening

For one variable a quadratic reads `a * x_i^2 + b * x_i + r`, where `b` and `r` depend on the other
variables only.  Over the sides of a box they range in intervals `B` and `R`.  The values of `x_i`
at which some choice in `B` and `R` makes the quadratic at most `tol` lie in the hull of two
intervals, one on each side of zero, and the side of `x_i` shrinks to it.

Sweeps over all functions repeat until no end of a side moves by more than a minimum.
-/

namespace GlobalQcqp

variable {α β : Type} [Scalar α] {n : Nat}

/-- A quadratic in one variable, with intervals for the other two coefficients. -/
structure Split (α : Type) where
  square : α
  linear : Interval α
  rest : Interval α

namespace Quadratic

/-- The ranges of the terms in which variable `i` does not occur and variable `j` comes first. -/
def restRanges (q : Quadratic α n) (sides : Vector (Interval α) n) (i j : Fin n) :
    List (Interval α) :=
  (if q.hessian[j][j] == 0 then [] else [sides[j].square.scale (0.5 * q.hessian[j][j])]) ++
  (if q.linear[j] == 0 then [] else [sides[j].scale q.linear[j]]) ++
  ((List.finRange n).filter fun k ↦ decide (j < k) && k != i && q.hessian[j][k] != 0).map fun k ↦
    (sides[j].mul sides[k]).scale q.hessian[j][k]

/-- The quadratic as one in variable `i` over the sides of the others. -/
def splitAt (q : Quadratic α n) (sides : Vector (Interval α) n) (i : Fin n) : Split α :=
  let others := (List.finRange n).filter (· != i)
  { square := 0.5 * q.hessian[i][i]
    linear := Interval.sum (.singleton q.linear[i])
      ((others.filter fun j ↦ q.hessian[i][j] != 0).map fun j ↦ sides[j].scale q.hessian[i][j])
    rest := Interval.sum (.singleton q.constant) (others.flatMap (q.restRanges sides i)) }

end Quadratic

/-- The coefficients do not depend on the variable at all. -/
def Split.isConstant (s : Split α) : Bool :=
  s.square == 0 && s.linear.lo == 0 && s.linear.hi == 0

/-- The hull of the points of a side at which some choice of coefficients gives at most `tol`. -/
def Split.solve (s : Split α) (tol : α) (side : Interval α) : Option (Interval α) :=
  let r := s.rest.lo - tol
  let negative := Interval.solveLe s.square s.linear.hi r (side.below 0)
  let positive := Interval.solveLe s.square s.linear.lo r (side.above 0)
  Interval.hull (negative.toList ++ positive.toList)

namespace Feasibility

/-- Tightens one side; none if no point of it is left. -/
def tightenSide (q : Quadratic α n) (tol : α) (sides : Vector (Interval α) n) (i : Fin n) :
    Option (Vector (Interval α) n) :=
  let s := q.splitAt sides i
  if s.isConstant then some sides
  else (s.solve tol sides[i]).map fun hull ↦ sides.set i (sides[i].inter hull) i.isLt

/-- Tightens every side once, in order, for `q x ≤ tol`. -/
def tighten (q : Quadratic α n) (tol : α) (sides : Vector (Interval α) n) :
    Option (Vector (Interval α) n) :=
  (List.finRange n).foldlM (tightenSide q tol) sides

/-- The sides after each of several rounds for one function, up to a round that leaves no point. -/
def successive (q : Quadratic α n) (tol : α) :
    Nat → Vector (Interval α) n → List (Option (Vector (Interval α) n))
  | 0, _ => []
  | left + 1, sides =>
    match tighten q tol sides with
    | none => [none]
    | some next => some next :: successive q tol left next

def sweep (qs : List (Quadratic α n)) (tol : α) (sides : Vector (Interval α) n) :
    Option (Vector (Interval α) n) :=
  qs.foldlM (fun sides q ↦ tighten q tol sides) sides

/-- The largest move of an end; there is none without variables. -/
def largestMove? (before after : Vector (Interval α) n) : Option α :=
  match (List.finRange n).map fun i ↦
    Scalar.max (after[i].lo - before[i].lo) (before[i].hi - after[i].hi) with
  | [] => none
  | m :: ms => some (ms.foldl Scalar.max m)

structure Settings (α : Type) where
  maxPasses : Nat
  tol : α
  minImprovement : α
  usesCut : Bool

/-- Repeats sweeps; the inner `none` means that no point is left. -/
def passes (settings : Settings α) (qs : List (Quadratic α n)) :
    Nat → Vector (Interval α) n → Except (Fault α) (Option (Vector (Interval α) n))
  | 0, sides => .ok (some sides)
  | left + 1, sides =>
    match sweep qs settings.tol sides with
    | none => .ok none
    | some next =>
      match largestMove? sides next with
      | none => .error (.misfit .content)
      | some move =>
        if move ≤ settings.minImprovement then .ok (some next)
        else passes settings qs left next

variable [Scalar β] [Extended α β]

/-- The functions to keep at most zero, unless the numbers of one leave the finite range. -/
def functions? {π : Type} (settings : Settings α) (p : Problem α) (progress : Progress β π) :
    Except (Fault α) (List (Quadratic α p.size)) := do
  let both ← p.equalities.mapM fun h ↦ return [h, ← h.neg?]
  let cut ← if settings.usesCut then Problem.objectiveCut? p.objective progress else .ok []
  return p.constraints ++ both.flatten ++ cut

def propagator {π σ : Type} (settings : Settings α) (p : Problem α) :
    Propagator α β p.stored π σ := fun node progress s ↦ do
  let node ← p.tightenEpigraph node progress.incumbentValue
  let qs ← functions? settings p progress
  if qs.isEmpty then return ⟨node, true, [], s⟩
  match ← passes settings qs settings.maxPasses (p.restrictBox node.box).sides with
  | none => return ⟨node.markInfeasible, false, [.refutedByRanges node.id], s⟩
  | some sides =>
    match node.tighten? (p.scatterBox node.box (.ofSides sides)) with
    | some tightened => return ⟨tightened, true, [], s⟩
    | none => return ⟨node, true, [.rangesDiscarded node.id], s⟩

end Feasibility

end GlobalQcqp
