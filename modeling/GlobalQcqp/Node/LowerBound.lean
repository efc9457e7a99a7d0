import GlobalQcqp.Node
import GlobalQcqp.Notice
import GlobalQcqp.Solver
/-!
# Lower bounds

Solves the relaxation of a node and records the outcome on it.  A failed solve is repeated from the
midpoint of the box.  A node whose relaxation cannot be bounded keeps its inherited bound.
-/

namespace GlobalQcqp

structure Lowered (α β : Type) (k : Nat) (σ : Type) where
  node : Node α β k
  notices : List (Notice β)
  solver : σ

namespace Lower

variable {α β : Type} [Scalar α] [Scalar β] [Extended α β] {k n : Nat} {σ : Type}

/-- The relaxed point a node has already, or else the midpoint of its box. -/
def warmStart (node : Node α β k) : Vector α k :=
  match node.relaxed with
  | some x => if h : x.size = k then ⟨x, h⟩ else node.box.midpoint
  | none => node.box.midpoint

/-- The stored vector of a node with a relaxed point written to it, moved into the box. Auxiliary
entries keep the value they had. -/
def writeBack (p : Problem α) (node : Node α β k) (x : Array α) :
    Except WriteBackError (Vector α k) :=
  if hx : x.size = p.size then
    if hk : k = p.stored then
      let base : Vector α p.stored := (warmStart node).cast hk
      .ok (node.box.clamp ((p.scatter base ⟨x, hx⟩).cast hk.symm))
    else .error (.nodeLength k p.stored)
  else .error (.pointLength x.size p.size)

/-- Repeats a failed solve from the midpoint, as often as is left. -/
def retry (solver : ConvexSolver α β n σ) (c : ConvexProblem α n) (id : Int) :
    Nat → ConvexAnswer α β → σ → List (Notice β) × ConvexAnswer α β × σ
  | 0, answer, s => ([], answer, s)
  | left + 1, answer, s =>
    if answer.status = .failed then
      let (next, s) := solver c (some c.midpoint) s
      let (notices, last, s) := retry solver c id left next s
      (.lowerRetried id answer.termination :: notices, last, s)
    else ([], answer, s)

def keepBound (node : Node α β k) : Node α β k :=
  { node with status := .failed, lowerBound := node.priority }

def record (p : Problem α) (node : Node α β k) (answer : ConvexAnswer α β) :
    Node α β k × List (Notice β) :=
  match answer.status, answer.point with
  | .infeasible, _ => (node.markInfeasible, [])
  | .feasible, some x =>
    if Scalar.isFinite answer.value then
      match writeBack p node x with
      | .error cause => (keepBound node, [.pointRefused node.id cause])
      | .ok y =>
        ({ node with
            relaxed := some y.toArray
            lowerBound := Scalar.max answer.value node.priority
            status := .feasible }, [])
    else (keepBound node, [])
  | _, _ => (keepBound node, [])

def solve (p : Problem α) (solver : ConvexSolver α β p.size σ) (retries : Nat)
    (node : Node α β k) (c : ConvexProblem α p.size) (s : σ) :
    Except (Fault α) (Lowered α β k σ) := do
  let start ← match node.relaxed with
    | none => pure none
    | some x =>
      match p.restrict? x with
      | none => .error (.misfit .position)
      | some x0 => pure (some x0)
  let (answer, s) := solver c start s
  let (retried, last, s) := retry solver c node.id retries answer s
  let (node, recorded) := record p node last
  return ⟨node, retried ++ recorded, s⟩

end Lower

end GlobalQcqp
