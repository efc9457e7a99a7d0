import GlobalQcqp.Search
/-!
# Processing one node

A node taken from the pool is propagated, bounded from below, bounded from above if that is due, and
split. After each bound that may have changed it is compared with the prune threshold.
-/

namespace GlobalQcqp.Search

variable {α β σ : Type} [Scalar α] [Scalar β] [Extended α β] {p : Problem α}

/-- The stored vector of a feasible point: auxiliary entries are at the middle of the node's box,
and the epigraph entry is the value. -/
def storedPoint (p : Problem α) (node : Node α β p.stored) (c : Candidate α p.size) :
    Except (Fault α) (Vector α p.stored) :=
  let stored := p.scatter node.box.midpoint c.point
  match p.epigraph with
  | none => .ok stored
  | some place =>
    match position? p.stored place with
    | none => .error (.misfit .position)
    | some i => .ok (stored.set i c.value i.isLt)

/-- Takes a feasible point as the incumbent if it is better, and drops the open nodes it rules
out. -/
def improve (setup : Setup α β σ p) (id : Int) (c : Candidate α p.size) (stored : Vector α p.stored)
    (s : Search α β σ p) : Search α β σ p :=
  let (progress, offer) := s.progress.offer (ofNumber c.value) (some stored)
  if offer = .accepted then
    let (pool, removed) := s.pool.prune (setup.pruneThreshold progress)
    let s := countPruned { s with progress, pool } removed
    (s.log (.notice (.improved id (ofNumber c.value) c.source removed))).report setup "*"
  else { s with progress }

def boundAbove (setup : Setup α β σ p) (node : Node α β p.stored) (s : Search α β σ p) :
    Except (Fault α) (Search α β σ p) :=
  let outcome := setup.parts.upper node s.solver
  let s := logAll
    { s with
      solver := outcome.solver
      progress := { s.progress with upperSolves := s.progress.upperSolves + 1 } }
    outcome.notices
  match outcome.result with
  | .error (.misfit cause) => .error (.misfit cause)
  | .error .noFeasiblePoint =>
    .ok ((s.log (.missed node.id)).log (.notice (.noFeasiblePoint node.id)))
  | .ok c => do
    let stored ← storedPoint p node c
    return improve setup node.id c stored (s.log (.found node.id c))

/-- Splits the node, or sets its bound aside if it is too narrow to split. -/
def branch (setup : Setup α β σ p) (node : Node α β p.stored) (s : Search α β σ p) :
    Except (Fault α) (Search α β σ p) :=
  let options := setup.options
  match Branching.select options.branching p.branchable p.box.widths options.minWidth node with
  | .error cause => .error (.misfit cause)
  | .ok none =>
    .ok { s with
      progress := { s.progress with
        resolutionBound := Scalar.min s.progress.resolutionBound node.bound
        resolutionNodes := s.progress.resolutionNodes + 1 } }
  | .ok (some i) =>
    match Branching.point options.branchPoint node i with
    | .error cause => .error (.misfit cause)
    | .ok value =>
      match node.split? i value s.progress.nodesCreated with
      | .error cause => .error (.node cause)
      | .ok (left, right) =>
        .ok { s with
          progress := { s.progress with nodesCreated := s.progress.nodesCreated + 2 }
          pool := (s.pool.push left).push right }

def isPrunable (setup : Setup α β σ p) (bound : β) (s : Search α β σ p) : Bool :=
  decide (setup.pruneThreshold s.progress ≤ bound)

/-- Goes on with a node that its relaxation has not discarded. -/
def processBounded (setup : Setup α β σ p) (node : Node α β p.stored) (s : Search α β σ p) :
    Except (Fault α) (Search α β σ p) :=
  if s.isPrunable setup node.bound then .ok (s.countPruned 1)
  else if setup.isUpperDue node s.progress then do
    let s ← boundAbove setup node s
    if s.isPrunable setup node.bound then return s.countPruned 1
    else branch setup node s
  else branch setup node s

/-- Bounds a node whose box may hold a useful point from below. -/
def processOpen (setup : Setup α β σ p) (node : Node α β p.stored) (s : Search α β σ p) :
    Except (Fault α) (Search α β σ p) := do
  let relaxation ← p.relaxation? setup.routine (p.restrictBox node.box)
  let lowered ← setup.parts.lower node relaxation s.solver
  let node := lowered.node
  let s := logAll { s with solver := lowered.solver } lowered.notices
  let s := { s with progress := { s.progress with lowerSolves := s.progress.lowerSolves + 1 } }
  let s := s.log (.lowered node)
  match node.status with
  | .infeasible => return s.countInfeasible
  | .failed =>
    let s := { s with
      progress := { s.progress with lowerFailures := s.progress.lowerFailures + 1 } }
    processBounded setup node (s.log (.notice (.unbounded node.id)))
  | _ => processBounded setup node s

def process (setup : Setup α β σ p) (node : Node α β p.stored) (s : Search α β σ p) :
    Except (Fault α) (Search α β σ p) :=
  if s.isPrunable setup node.priority then .ok (s.countPruned 1)
  else do
    let r ← setup.parts.propagate node s.progress s.solver
    let s := (logAll { s with solver := r.solver } r.notices).log (.propagated r.node r.isOpen)
    if r.isOpen then processOpen setup r.node s else return s.countInfeasible

/-- The global lower bound after a node: the least bound still outstanding, or the incumbent value
if nothing is. It never falls and never passes the incumbent value. -/
def updateLowerBound (s : Search α β σ p) : Search α β σ p :=
  let least := Scalar.min s.pool.minBound s.progress.resolutionBound
  let outstanding := Scalar.isFinite least || !decide (0 < least)
  if !outstanding && !s.progress.hasIncumbent then s
  else
    let candidate := if outstanding then least else s.progress.incumbentValue
    let candidate := Scalar.min candidate s.progress.incumbentValue
    { s with progress := { s.progress with
        lowerBound := Scalar.max s.progress.lowerBound candidate } }

end GlobalQcqp.Search
