import GlobalQcqp.Candidate
import GlobalQcqp.Node.LowerBound
import GlobalQcqp.Node.Pool
import GlobalQcqp.Options
import GlobalQcqp.Record
import GlobalQcqp.Relaxation
import GlobalQcqp.Tightening.Feasibility
import GlobalQcqp.Tightening.Optimality
/-!
# Spatial search

The parts of a branch-and-bound search over boxes and the state it has between two nodes.

A node is discarded when it holds no useful point or when its bound reaches the prune threshold,
which lies below the incumbent value by the larger of the two gaps.  A node whose relaxation cannot
be solved keeps its inherited bound and is split.
-/

namespace GlobalQcqp

variable {α β σ : Type} [Scalar α] [Scalar β] [Extended α β]

structure Components (α β σ : Type) [Scalar α] (p : Problem α) where
  propagate : Propagator α β p.stored (Vector α p.stored) σ
  lower : Node α β p.stored → ConvexProblem α p.size → σ →
    Except (Fault α) (Lowered α β p.stored σ)
  upper : Node α β p.stored → σ → UpperOutcome α β p.size σ

/-- Everything a search is run with. The clock is read once per loop head and once at the end; the
cancel request is asked for in order. -/
structure Setup (α β σ : Type) [Scalar α] (p : Problem α) where
  options : Options α β
  routine : EigenRoutine α
  parts : Components α β σ p
  clock : Nat → β
  isCancelled : Nat → Bool

/-- What happened during a search, in order. -/
inductive Entry (α β : Type) (k n : Nat) where
  | notice (n : Notice β)
  | propagated (node : Node α β k) (isOpen : Bool)
  | lowered (node : Node α β k)
  | found (node : Int) (c : Candidate α n)
  | missed (node : Int)
  | record (r : Record β)

structure Search (α β σ : Type) [Scalar α] (p : Problem α) where
  progress : Progress β (Vector α p.stored)
  pool : Pool α β p.stored
  solver : σ
  readings : Nat
  polls : Nat
  trace : Array (Entry α β p.stored p.size)

namespace Setup

variable {p : Problem α}

def absGap (setup : Setup α β σ p) : β :=
  setup.options.absGap.getD (ofNumber p.absTol)

def relGap (setup : Setup α β σ p) : β :=
  setup.options.relGap.getD (ofNumber p.relTol)

/-- Bounds from here on need not be looked at: the incumbent value less the larger of the two
gaps. -/
def pruneThreshold (setup : Setup α β σ p) (progress : Progress β (Vector α p.stored)) : β :=
  if progress.hasIncumbent then
    let v := progress.incumbentValue
    v - Scalar.max setup.absGap (setup.relGap * Scalar.abs v)
  else posInf

def isGapClosed (setup : Setup α β σ p) (progress : Progress β (Vector α p.stored)) : Bool :=
  if progress.hasIncumbent && Scalar.isFinite progress.lowerBound then
    let gap := progress.absoluteGap
    decide (gap ≤ setup.absGap) ||
      decide (gap ≤ setup.relGap * Scalar.abs progress.incumbentValue)
  else false

/-- Upper bounding is due at the root, as long as there is no incumbent, and then at intervals. -/
def isUpperDue (setup : Setup α β σ p) (node : Node α β p.stored)
    (progress : Progress β (Vector α p.stored)) : Bool :=
  node.depth == 0 || !progress.hasIncumbent ||
    progress.iterations % setup.options.upperInterval == 0

end Setup

namespace Search

variable {p : Problem α}

def log (s : Search α β σ p) (e : Entry α β p.stored p.size) : Search α β σ p :=
  { s with trace := s.trace.push e }

def logAll (s : Search α β σ p) (notices : List (Notice β)) : Search α β σ p :=
  notices.foldl (fun s n ↦ s.log (.notice n)) s

def records (s : Search α β σ p) : List (Record β) :=
  s.trace.toList.filterMap fun
    | .record r => some r
    | _ => none

def notices (s : Search α β σ p) : List (Notice β) :=
  s.trace.toList.filterMap fun
    | .notice n => some n
    | _ => none

def report (setup : Setup α β σ p) (marker : String) (s : Search α β σ p) : Search α β σ p :=
  s.log (.record (s.progress.record s.pool.size setup.options.maxTime marker))

def countPruned (s : Search α β σ p) (count : Nat) : Search α β σ p :=
  { s with progress := { s.progress with nodesPruned := s.progress.nodesPruned + count } }

def countInfeasible (s : Search α β σ p) : Search α β σ p :=
  { s with progress := { s.progress with nodesInfeasible := s.progress.nodesInfeasible + 1 } }

def root (p : Problem α) : Node α β p.stored :=
  Node.fresh negInf 0 0 p.box none

def start (setup : Setup α β σ p) (s : σ) : Search α β σ p where
  progress := { Progress.start with nodesCreated := 1 }
  pool := (Pool.empty setup.options.selection setup.options.hybridInterval).push (root p)
  solver := s
  readings := 0
  polls := 0
  trace := #[.notice (.started p.size p.stored p.constraints.length p.equalities.length)]

end Search

end GlobalQcqp
