import GlobalQcqp.Notice
import GlobalQcqp.Solver
/-!
# Feasible candidates

Looks for a feasible point of the problem in the box of a node.  The relaxed point is tried as it
is, and a local solver is started from it.  Where there is no relaxed point the midpoint of the box
takes its place.
-/

namespace GlobalQcqp

structure Candidate (α : Type) (n : Nat) where
  point : Vector α n
  value : α
  source : Source

inductive UpperError where
  | noFeasiblePoint
  | misfit (cause : Misfit)
deriving DecidableEq, Repr

structure UpperOutcome (α β : Type) (n : Nat) (σ : Type) where
  result : Except UpperError (Candidate α n)
  notices : List (Notice β)
  solver : σ

namespace Candidate

variable {α β : Type} [Scalar α] {σ : Type}

/-- The best feasible candidate with a finite value, of equals the first. -/
def best (p : Problem α) (box : Box α p.size) (tol : α) (points : List (Vector α p.size × Source)) :
    Option (Candidate α p.size) :=
  points.foldl consider none
where
  consider (best : Option (Candidate α p.size)) (x : Vector α p.size × Source) :
      Option (Candidate α p.size) :=
    if p.isFeasibleIn box tol x.1 then
      let value := p.objective.eval x.1
      if Scalar.isFinite value then
        match best with
        | none => some ⟨x.1, value, x.2⟩
        | some b => if value < b.value then some ⟨x.1, value, x.2⟩ else some b
      else best
    else best

def seed {n : Nat} (box : Box α n) (relaxed : Option (Vector α n)) : Vector α n :=
  match relaxed with
  | some x => box.clamp x
  | none => box.midpoint

/-- A point as one of the box: a vector, or a single entry for every coordinate. Any other shape is
a misfit, which shows where a function is evaluated that is to have a single value. -/
def fit (n : Nat) (x : Tensor α) : Except Misfit (Vector α n) :=
  match (if x.shape.length ≤ 1 ∨ n = 1 then x.fillVector? n else none) with
  | some x => .ok x
  | none => .error (if x.shape = [n, n] then .kind else .content)

def search (p : Problem α) (solver : Option (LocalSolver α p.size σ)) (tol : α) (id : Int)
    (box : Box α p.size) (relaxed : Option (Vector α p.size)) (s : σ) :
    UpperOutcome α β p.size σ :=
  let start := seed box relaxed
  let close (points : List (Vector α p.size × Source)) (notices : List (Notice β)) (s : σ) :=
    ⟨(best p box tol points).elim (.error .noFeasiblePoint) .ok, notices, s⟩
  match solver with
  | none => close [(start, .relaxation)] [] s
  | some solver =>
    let (answer, s) := solver (p.localProblem box start) s
    match answer.point with
    | none => close [(start, .relaxation)] [.localFailed id answer.message] s
    | some x =>
      match fit p.size x with
      | .error cause => ⟨.error (.misfit cause), [], s⟩
      | .ok x => close [(start, .relaxation), (box.clamp x, .localSearch)] [] s

end Candidate

end GlobalQcqp
