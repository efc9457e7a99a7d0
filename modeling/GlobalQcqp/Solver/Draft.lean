import GlobalQcqp.Solver.Descent
import GlobalQcqp.Solver.Staged
/-!
# Solves of drafts

A problem for a solver as it is given: its functions may be of any size, and its start and its ends
of any shape.  The start is first matched with the ends.  A start that goes with them but not with a
function breaks the minimizer down, since the function has no value there.
-/

namespace GlobalQcqp

variable {α β ε σ : Type} [Scalar α] [Scalar β] [Extended α β]

/-- A function that is to be evaluated at a vector of `n` entries. -/
def SizedQuadratic.ofSize (f : SizedQuadratic α) (n : Nat) :
    Except ShapeMismatch (Quadratic α n) :=
  if h : f.1 = n then .ok (h ▸ f.2) else .error (.unaligned [f.1, f.1] [n])

/-! ## Convex problems -/

structure ConvexDraft (α : Type) where
  objective : SizedQuadratic α
  constraints : List (SizedQuadratic α)
  lower : Tensor α
  upper : Tensor α

namespace ConvexDraft

/-- The ends as those of a box. Ends of different shapes may still go together, but then a position
of the one is missing in the other. -/
def box (d : ConvexDraft α) : Except Misfit ((n : Nat) × Box α n) := do
  let n := d.lower.entries.size
  match d.lower.toVector? n, d.upper.toVector? n with
  | some lower, some upper => return ⟨n, lower, upper⟩
  | _, _ =>
    let widths ← Tensor.zipWith (· - ·) d.upper d.lower
    .error (if widths.shape.isEmpty then .content else .position)

def posed (d : ConvexDraft α) {n : Nat} (box : Box α n) :
    Except ShapeMismatch (ConvexProblem α n) := do
  let objective ← d.objective.ofSize n
  let constraints ← d.constraints.mapM (·.ofSize n)
  return ⟨objective, constraints, box⟩

def solve (minimize : Minimizer α β ε σ) (stages : Staged α) (d : ConvexDraft α)
    (start : Option (Tensor α)) (s : σ) : Except (SolveError ε) (Staged.Report α β) × σ :=
  match d.box with
  | .error cause => (.error (.misfit cause), s)
  | .ok ⟨_, box⟩ =>
    match d.posed box with
    | .ok c => Staged.solve minimize stages c start s
    | .error mismatch =>
      let b := FrozenBox.ofBox Defaults.nearZero box
      if b.count = 0 then (.error (.misfit .content), s)
      else
        match Staged.reduce b (start.getD (.ofVector box.midpoint)) with
        | .error (.misfit cause) => (.error (.misfit cause), s)
        | .error (.mismatch cause) => (.ok (.brokeDown .main cause.message), s)
        | .ok _ => (.ok (.brokeDown .main mismatch.message), s)

end ConvexDraft

/-! ## Local problems -/

structure LocalDraft (α : Type) where
  objective : SizedQuadratic α
  constraints : List (SizedQuadratic α)
  equalities : List (SizedQuadratic α)
  sides : Array (Interval α)
  start : Tensor α

namespace LocalDraft

/-- The nearest point between the ends. A single side stands for all. -/
def clamped (d : LocalDraft α) : Except Misfit (Tensor α) := do
  let raised ← Tensor.zipWith Scalar.greater d.start (.ofArray (d.sides.map (·.lo)))
  Tensor.zipWith Scalar.lesser raised (.ofArray (d.sides.map (·.hi)))

def posed (d : LocalDraft α) : Except StartError ((n : Nat) × LocalProblem α n) := do
  let start ← d.clamped.mapError .misfit
  let n := start.entries.size
  match start.toVector? n, fit? n d.sides with
  | some x, some sides =>
    let sized (f : SizedQuadratic α) : Except StartError (Quadratic α n) :=
      (f.ofSize n).mapError .mismatch
    let objective ← sized d.objective
    let constraints ← d.constraints.mapM sized
    let equalities ← d.equalities.mapM sized
    return ⟨n, objective, constraints, equalities, .ofSides sides, x⟩
  | _, _ =>
    let size := d.objective.1
    if start.shape.getD (start.shape.length - 2) size == size then .error (.misfit .kind)
    else .error (.mismatch (.unaligned [size, size] start.shape))

def solve (minimize : Minimizer α β ε σ) (method : Method) (settings : List (String × Setting))
    (d : LocalDraft α) (s : σ) : Except (SolveError ε) (Descent.Report α β) × σ :=
  match d.posed with
  | .ok ⟨_, c⟩ => Descent.solve minimize method settings c s
  | .error (.misfit cause) => (.error (.misfit cause), s)
  | .error (.mismatch cause) => (.ok (.brokeDown cause.message), s)

end LocalDraft

end GlobalQcqp
