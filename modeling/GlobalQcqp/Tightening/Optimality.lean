import GlobalQcqp.Relaxation
import GlobalQcqp.Solver
import GlobalQcqp.Tightening
/-!
# Optimality-based tightening

Minimizes and maximizes each branchable variable over the relaxation of a node, cut at the
incumbent.  A solved probe moves an end of the side, less a margin for inexact solves; an infeasible
one shows that the node holds no point better than the incumbent; any other answer is ignored.
-/

namespace GlobalQcqp.Optimality

variable {α β σ : Type} [Scalar α] [Scalar β] [Extended α β] {n : Nat}

structure Settings (α : Type) where
  maxDepth : Int
  backoff : α
  minWidth : α

inductive End where
  | lower
  | upper
deriving DecidableEq, Repr

/-- The problem of moving one end of side `i`. -/
def probe (constraints : List (Quadratic α n)) (box : Box α n) (i : Fin n) (e : End) :
    ConvexProblem α n where
  objective := .coordinate i (match e with | .lower => 1 | .upper => -1)
  constraints := constraints
  box := box

/-- The side after a probe with the given value. A crossed side goes back to what it was at
first. -/
def moveEnd (backoff : α) (e : End) (value : β) (initial side : Interval α) : Interval α :=
  match e with
  | .lower =>
    let lo := Scalar.max (ofNumber side.lo) (value - ofNumber backoff)
    if ofNumber side.hi < lo then initial else ⟨toNumber lo, side.hi⟩
  | .upper =>
    let hi := Scalar.min (ofNumber side.hi) (-value + ofNumber backoff)
    if hi < ofNumber side.lo then initial else ⟨side.lo, toNumber hi⟩

/-- Runs one probe; none if it shows that no useful point is left. -/
def tightenEnd (solver : ConvexSolver α β n σ) (backoff : α) (constraints : List (Quadratic α n))
    (initial : Box α n) (i : Fin n) (e : End) (box : Box α n) (s : σ) : Option (Box α n) × σ :=
  let (answer, s) := solver (probe constraints box i e) none s
  match answer.status with
  | .infeasible => (none, s)
  | .feasible =>
    (some (box.setSide i (moveEnd backoff e answer.value (initial.side i) (box.side i))), s)
  | _ => (some box, s)

def tightenSide (solver : ConvexSolver α β n σ) (settings : Settings α)
    (constraints : List (Quadratic α n)) (initial : Box α n) (i : Fin n) (box : Box α n) (s : σ) :
    Option (Box α n) × σ :=
  if box.upper[i] - box.lower[i] ≤ settings.minWidth then (some box, s)
  else
    match tightenEnd solver settings.backoff constraints initial i .lower box s with
    | (none, s) => (none, s)
    | (some box, s) => tightenEnd solver settings.backoff constraints initial i .upper box s

def tightenSides (solver : ConvexSolver α β n σ) (settings : Settings α)
    (constraints : List (Quadratic α n)) (initial : Box α n) :
    List (Fin n) → Box α n → σ → Option (Box α n) × σ
  | [], box, s => (some box, s)
  | i :: rest, box, s =>
    match tightenSide solver settings constraints initial i box s with
    | (none, s) => (none, s)
    | (some box, s) => tightenSides solver settings constraints initial rest box s

/-- Probes the branchable sides of a node over its relaxation, cut at the incumbent. -/
def probeSides {π : Type} (settings : Settings α) (p : Problem α)
    (solver : ConvexSolver α β p.size σ) (node : Node α β p.stored) (progress : Progress β π)
    (relaxation : ConvexProblem α p.size) (s : σ) :
    Except (Fault α) (Propagated α β p.stored σ) := do
  let cut ← Problem.objectiveCut? relaxation.objective progress
  let probed := (List.finRange p.size).filter fun i ↦ p.branchable[p.places[i]]
  match tightenSides solver settings (relaxation.constraints ++ cut) relaxation.box probed
      relaxation.box s with
  | (none, s) => return ⟨node.markInfeasible, false, [.refutedByProbe node.id], s⟩
  | (some box, s) =>
    return ⟨(node.tighten? (p.scatterBox node.box box)).getD node, true, [], s⟩

def propagator {π : Type} (settings : Settings α) (routine : EigenRoutine α) (p : Problem α)
    (solver : ConvexSolver α β p.size σ) : Propagator α β p.stored π σ := fun node progress s ↦ do
  let node ← p.tightenEpigraph node progress.incumbentValue
  if settings.maxDepth < node.depth then return ⟨node, true, [], s⟩
  probeSides settings p solver node progress (← p.relaxation? routine (p.restrictBox node.box)) s

end GlobalQcqp.Optimality
