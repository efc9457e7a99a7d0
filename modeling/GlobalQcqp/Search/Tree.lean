import GlobalQcqp.Defaults
import GlobalQcqp.Search.Run
/-!
# Search trees

A search tree is a problem set up for one search.  Setting it up builds the relaxation of the root
once, so that malformed data is refused before the search starts.
-/

namespace GlobalQcqp

variable {α β σ : Type} [Scalar α] [Scalar β] [Extended α β]

namespace Components

def feasibilitySettings (options : Options α β) : Feasibility.Settings α where
  maxPasses := Defaults.maxPasses
  tol := options.feasibilityTol
  minImprovement := options.minWidth
  usesCut := true

def optimalitySettings (options : Options α β) : Optimality.Settings α where
  maxDepth := options.probeDepth
  backoff := Defaults.backoff
  minWidth := options.minWidth

def propagator (p : Problem α) (options : Options α β) (routine : EigenRoutine α)
    (convex : ConvexSolver α β p.size σ) : Propagator α β p.stored (Vector α p.stored) σ :=
  let feasibility := Feasibility.propagator (feasibilitySettings options) p
  let optimality := Optimality.propagator (optimalitySettings options) routine p convex
  match options.propagation with
  | .none => .none
  | .feasibility => feasibility
  | .optimality => optimality
  | .both => .sequence [feasibility, optimality]

/-- Upper bounding on a node, from its relaxed point. -/
def boundAbove (p : Problem α) (solver : Option (LocalSolver α p.size σ)) (tol : α)
    (node : Node α β p.stored) (s : σ) : UpperOutcome α β p.size σ :=
  let search (x : Option (Vector α p.size)) :=
    Candidate.search p solver tol node.id (p.restrictBox node.box) x s
  match node.relaxed with
  | none => search none
  | some x =>
    match p.restrict? x with
    | none => ⟨.error (.misfit .position), [], s⟩
    | some x => search (some x)

/-- The parts that options ask for, on a convex and a local solver. -/
def standard (p : Problem α) (options : Options α β) (routine : EigenRoutine α)
    (convex : ConvexSolver α β p.size σ) (localSolver : LocalSolver α p.size σ) :
    Components α β σ p where
  propagate := propagator p options routine convex
  lower := Lower.solve p convex options.lowerRetries
  upper := boundAbove p (some localSolver) options.feasibilityTol

end Components

inductive TreeError (α : Type) where
  | alreadySolved
  | fault (cause : Fault α)
deriving DecidableEq

structure SearchResult (α β : Type) [Scalar α] (p : Problem α) where
  state : RunState
  objectiveValue : Option β
  /-- The incumbent at the optimized variables. -/
  point : Option (Vector α p.size)
  /-- The incumbent at all stored variables. -/
  stored : Option (Vector α p.stored)
  lowerBound : β
  gap : β
  relativeGap : β
  elapsed : β

structure SearchTree (α β σ : Type) [Scalar α] (p : Problem α) where
  setup : Setup α β σ p
  state : RunState
  /-- The state the search ended in, once it has been run. -/
  search : Option (Search α β σ p)

namespace SearchTree

variable {p : Problem α}

def make (setup : Setup α β σ p) : Except (Fault α) (SearchTree α β σ p) := do
  let _ ← p.relaxation? setup.routine (p.restrictBox p.box)
  return ⟨setup, .initialized, none⟩

def alreadySolvedMessage : String :=
  "A BranchAndBoundTree can only be solved once"

def isFinished (t : SearchTree α β σ p) : Bool :=
  t.state.isTerminal

/-- Reads the result off the progress. An infeasible problem has no finite lower bound. -/
def resultOf (p : Problem α) (state : RunState) (s : Progress β (Vector α p.stored)) :
    SearchResult α β p where
  state := state
  objectiveValue := s.incumbent.map fun _ ↦ s.incumbentValue
  point := s.incumbent.map p.restrict
  stored := s.incumbent
  lowerBound := if state = .infeasible then negInf else s.lowerBound
  gap := s.absoluteGap
  relativeGap := s.relativeGap
  elapsed := s.elapsed

/-- Runs the search. A tree can be searched only once. -/
def solve (t : SearchTree α β σ p) (solver : σ) :
    Except (TreeError α) (SearchResult α β p × SearchTree α β σ p) :=
  if t.state != .initialized then .error .alreadySolved
  else
    match Search.run t.setup solver with
    | .error cause => .error (.fault cause)
    | .ok (state, s) => .ok (resultOf p state s.progress, ⟨t.setup, state, some s⟩)

end SearchTree

end GlobalQcqp
