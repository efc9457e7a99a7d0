import GlobalQcqp.Search.Step
/-!
# Running a search

At each loop head the clock is read and the reasons to stop are tried in order.  If none applies,
the next node is processed.  Every node is taken from the pool at most once, so the limit on created
nodes bounds the number of turns.
-/

namespace GlobalQcqp.Search

variable {α β σ : Type} [Scalar α] [Scalar β] [Extended α β] {p : Problem α}

def tick (setup : Setup α β σ p) (s : Search α β σ p) : Search α β σ p :=
  { s with
    readings := s.readings + 1
    progress := { s.progress with elapsed := setup.clock s.readings } }

def exhausted (setup : Setup α β σ p) (s : Search α β σ p) : RunState :=
  if s.progress.resolutionNodes != 0 && !setup.isGapClosed s.progress then .resolutionLimit
  else if s.progress.hasIncumbent then .converged
  else .infeasible

def limit? (setup : Setup α β σ p) (s : Search α β σ p) : Option RunState :=
  if setup.options.maxTime ≤ s.progress.elapsed then some .timeLimit
  else if setup.options.maxNodes < s.progress.nodesCreated then some .nodeLimit
  else if setup.options.maxIterations.any (· ≤ s.progress.iterations) then some .iterationLimit
  else none

/-- The reason to stop at this loop head, if any. Cancel requests are asked for only while nodes are
open and the gap is not closed. -/
def verdict? (setup : Setup α β σ p) (s : Search α β σ p) : Option RunState × Search α β σ p :=
  if s.pool.isEmpty then (some (exhausted setup s), s)
  else if setup.isGapClosed s.progress then (some .converged, s)
  else
    let polled := { s with polls := s.polls + 1 }
    if setup.isCancelled s.polls then (some .interrupted, polled)
    else (limit? setup s, polled)

def advance (setup : Setup α β σ p) (s : Search α β σ p) :
    Except (Fault α) (Search α β σ p) :=
  match s.pool.pop? with
  | none => .ok s
  | some (node, pool) => do
    let s := { s with
      pool := pool
      progress := { s.progress with iterations := s.progress.iterations + 1 } }
    let s ← process setup node s
    let s := s.updateLowerBound
    let interval := setup.options.reportInterval
    if interval != 0 && s.progress.iterations % interval == 0 then return s.report setup ""
    else return s

/-- One turn from loop head to loop head: the search ends in a state, or goes on. -/
def turn (setup : Setup α β σ p) (s : Search α β σ p) :
    Except (Fault α) (Option RunState × Search α β σ p) :=
  match verdict? setup (tick setup s) with
  | (some state, s) => .ok (some state, s)
  | (none, s) => do return (none, ← advance setup s)

def turns (setup : Setup α β σ p) :
    Nat → Search α β σ p → Except (Fault α) (RunState × Search α β σ p)
  | 0, s => .ok (.nodeLimit, s)
  | left + 1, s => do
    match ← turn setup s with
    | (some state, s) => return (state, s)
    | (none, s) => turns setup left s

/-- More turns than a search can take before the node limit stops it. -/
def turnLimit (setup : Setup α β σ p) : Nat :=
  setup.options.maxNodes + 4

/-- The last record and notice of a search. -/
def finish (setup : Setup α β σ p) (state : RunState) (s : Search α β σ p) : Search α β σ p :=
  let s := (tick setup s).report setup state.text
  s.log (.notice (.finished state s.progress.iterations s.progress.nodesCreated s.progress.elapsed))

def run (setup : Setup α β σ p) (solver : σ) : Except (Fault α) (RunState × Search α β σ p) := do
  let (state, s) ← turns setup (turnLimit setup) (start setup solver)
  return (state, finish setup state s)

end GlobalQcqp.Search
