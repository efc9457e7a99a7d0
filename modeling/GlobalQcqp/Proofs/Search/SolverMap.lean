import GlobalQcqp.Proofs.Search.Stages
import GlobalQcqp.Search.Tree
/-!
# Searches on other states of the solvers

The parts of a search may run on states that say more than those of the solvers.  When a map leads
from the states of some parts to those of others, and the answers are the same there, it leads from
one search to the other, turn by turn.
-/

namespace GlobalQcqp

variable {α β π σ τ : Type}

/-! ## Parts -/

def Propagated.mapSolver {k : ℕ} (f : σ → τ) (r : Propagated α β k σ) : Propagated α β k τ where
  node := r.node
  isOpen := r.isOpen
  notices := r.notices
  solver := f r.solver

def Lowered.mapSolver {k : ℕ} (f : σ → τ) (r : Lowered α β k σ) : Lowered α β k τ where
  node := r.node
  notices := r.notices
  solver := f r.solver

def UpperOutcome.mapSolver {n : ℕ} (f : σ → τ) (r : UpperOutcome α β n σ) :
    UpperOutcome α β n τ where
  result := r.result
  notices := r.notices
  solver := f r.solver

namespace Propagator

variable {k : ℕ} {f : σ → τ}

/-- The second propagator answers as the first one does, and ends in the state it leads to. -/
def MapsTo (f : σ → τ) (propagate : Propagator α β k π σ) (propagate' : Propagator α β k π τ) :
    Prop :=
  ∀ node progress s,
    (propagate node progress s).map (·.mapSolver f) = propagate' node progress (f s)

theorem none_mapsTo : MapsTo f (none : Propagator α β k π σ) none :=
  fun _ _ _ ↦ rfl

theorem sequence_mapsTo {l : List (Propagator α β k π σ)} {l' : List (Propagator α β k π τ)}
    (hl : List.Forall₂ (MapsTo f) l l') : MapsTo f (sequence l) (sequence l') := by
  induction hl with
  | nil => exact none_mapsTo
  | cons hfirst _ ih =>
      intro node progress s
      rw [sequence, sequence]
      refine map_bind_eq (hfirst node progress s) fun r _ ↦ ?_
      rw [show (r.mapSolver f).isOpen = r.isOpen from rfl]
      split
      · exact map_bind_eq (ih r.node progress r.solver) fun _ _ ↦ rfl
      · rfl

end Propagator

variable [Scalar α] [Scalar β] [Extended α β] {p : Problem α}

structure Components.MapsTo (routine : EigenRoutine α) (f : σ → τ) (parts : Components α β σ p)
    (parts' : Components α β τ p) : Prop where
  propagate : parts.propagate.MapsTo f parts'.propagate
  lower {node : Node α β p.stored} {c : ConvexProblem α p.size}
    (hc : p.relaxation? routine (p.restrictBox node.box) = .ok c) (s : σ) :
    (parts.lower node c s).map (·.mapSolver f) = parts'.lower node c (f s)
  upper (node : Node α β p.stored) (s : σ) :
    (parts.upper node s).mapSolver f = parts'.upper node (f s)

/-- The search with other parts. -/
def Setup.withParts (setup : Setup α β σ p) (parts : Components α β τ p) : Setup α β τ p where
  options := setup.options
  routine := setup.routine
  parts := parts
  clock := setup.clock
  isCancelled := setup.isCancelled

def Search.mapSolver (f : σ → τ) (s : Search α β σ p) : Search α β τ p where
  progress := s.progress
  pool := s.pool
  solver := f s.solver
  readings := s.readings
  polls := s.polls
  trace := s.trace

/-! ## Processing a node -/

namespace Search

variable {f : σ → τ} {setup : Setup α β σ p} {parts : Components α β τ p} {s s' : Search α β σ p}
  {node : Node α β p.stored}

omit [Scalar β] [Extended α β] in
theorem mapSolver_logAll (s : Search α β σ p) (notices : List (Notice β)) :
    (logAll s notices).mapSolver f = logAll (s.mapSolver f) notices := by
  induction notices generalizing s with
  | nil => rfl
  | cons n notices ih => exact ih (s.log (.notice n))

omit [Scalar β] [Extended α β] in
theorem logAll_mapSolver (s : Search α β σ p) (u : σ) (notices : List (Notice β)) :
    logAll { s.mapSolver f with solver := f u } notices =
      (logAll { s with solver := u } notices).mapSolver f :=
  (mapSolver_logAll { s with solver := u } notices).symm

theorem mapSolver_improve (parts : Components α β τ p) (id : ℤ) (c : Candidate α p.size)
    (stored : Vector α p.stored) : (improve setup id c stored s).mapSolver f =
      improve (setup.withParts parts) id c stored (s.mapSolver f) := by
  unfold improve
  rw [show (s.mapSolver f).progress = s.progress from rfl]
  generalize s.progress.offer _ (some stored) = found
  obtain ⟨progress, offer⟩ := found
  simp only
  split
  · rfl
  · rfl

theorem mapSolver_branch : (branch setup node s).map (mapSolver f) =
    branch (setup.withParts parts) node (s.mapSolver f) := by
  have hoptions : (setup.withParts parts).options = setup.options := rfl
  have hcreated : (s.mapSolver f).progress.nodesCreated = s.progress.nodesCreated := rfl
  simp only [branch, hoptions, hcreated]
  cases Branching.select setup.options.branching p.branchable p.box.widths
    setup.options.minWidth node with
  | error cause => rfl
  | ok choice =>
      cases choice with
      | none => rfl
      | some i =>
          simp only
          cases Branching.point setup.options.branchPoint node i with
          | error cause => rfl
          | ok value =>
              simp only
              cases node.split? i value s.progress.nodesCreated with
              | error cause => rfl
              | ok halves => rfl

theorem mapSolver_updateLowerBound :
    s.updateLowerBound.mapSolver f = (s.mapSolver f).updateLowerBound := by
  simp only [updateLowerBound, show (s.mapSolver f).pool = s.pool from rfl,
    show (s.mapSolver f).progress = s.progress from rfl]
  split
  · rfl
  · rfl

theorem mapSolver_conclude : (conclude setup s).mapSolver f =
    conclude (setup.withParts parts) (s.mapSolver f) := by
  simp only [conclude, ← mapSolver_updateLowerBound,
    show (setup.withParts parts).options = setup.options from rfl]
  rw [apply_ite (mapSolver f)]
  rfl

theorem mapSolver_verdict? (f : σ → τ) (setup : Setup α β σ p) (parts : Components α β τ p)
    (s : Search α β σ p) : Prod.map id (mapSolver f) (verdict? setup s) =
      verdict? (setup.withParts parts) (s.mapSolver f) := by
  have hpool : (s.mapSolver f).pool = s.pool := rfl
  have hprogress : (s.mapSolver f).progress = s.progress := rfl
  have hgap : (setup.withParts parts).isGapClosed s.progress = setup.isGapClosed s.progress := rfl
  have hcancelled : (setup.withParts parts).isCancelled (s.mapSolver f).polls =
    setup.isCancelled s.polls := rfl
  simp only [verdict?, exhausted, hpool, hprogress, hgap, hcancelled]
  split
  · rfl
  · split
    · rfl
    · split
      · rfl
      · rfl

variable (h : setup.parts.MapsTo setup.routine f parts)
include h

theorem mapSolver_boundAbove : (boundAbove setup node s).map (mapSolver f) =
    boundAbove (setup.withParts parts) node (s.mapSolver f) := by
  have hupper : (setup.withParts parts).parts.upper node (s.mapSolver f).solver =
    (setup.parts.upper node s.solver).mapSolver f := (h.upper node s.solver).symm
  simp only [boundAbove, hupper]
  generalize setup.parts.upper node s.solver = outcome
  obtain ⟨result, notices, solver⟩ := outcome
  have hlogged := mapSolver_logAll (f := f) { s with
    solver := solver
    progress := { s.progress with upperSolves := s.progress.upperSolves + 1 } } notices
  cases result with
  | error cause =>
      cases cause with
      | misfit cause => rfl
      | noFeasiblePoint =>
          exact congrArg (fun s : Search α β τ p ↦ Except.ok
            ((s.log (.missed node.id)).log (.notice (.noFeasiblePoint node.id)))) hlogged
  | ok c =>
      refine map_bind_eq (congrFun Except.map_id _) fun stored _ ↦ congrArg Except.ok ?_
      refine (mapSolver_improve parts node.id c stored).trans ?_
      exact congrArg (fun s ↦ improve (setup.withParts parts) node.id c stored
        (s.log (.found node.id c))) hlogged

theorem mapSolver_processBounded : (processBounded setup node s).map (mapSolver f) =
    processBounded (setup.withParts parts) node (s.mapSolver f) := by
  have hprunable (s : Search α β σ p) (bound : β) :
      (s.mapSolver f).isPrunable (setup.withParts parts) bound = s.isPrunable setup bound := rfl
  have hdue : (setup.withParts parts).isUpperDue node (s.mapSolver f).progress =
    setup.isUpperDue node s.progress := rfl
  unfold processBounded
  rw [hprunable, hdue]
  split
  · rfl
  · split
    · refine map_bind_eq (mapSolver_boundAbove h) fun s' _ ↦ ?_
      rw [hprunable]
      split
      · rfl
      · exact mapSolver_branch
    · exact mapSolver_branch

theorem mapSolver_processOpen : (processOpen setup node s).map (mapSolver f) =
    processOpen (setup.withParts parts) node (s.mapSolver f) := by
  refine map_bind_eq (congrFun Except.map_id _) fun c hc ↦ ?_
  refine map_bind_eq (h.lower hc s.solver) fun r _ ↦ ?_
  simp only [Lowered.mapSolver, logAll_mapSolver]
  generalize logAll { s with solver := r.solver } r.notices = s₁
  cases r.node.status with
  | unsolved => exact mapSolver_processBounded h
  | feasible => exact mapSolver_processBounded h
  | infeasible => rfl
  | failed => exact mapSolver_processBounded h

theorem mapSolver_process : (process setup node s).map (mapSolver f) =
    process (setup.withParts parts) node (s.mapSolver f) := by
  have hprunable : (s.mapSolver f).isPrunable (setup.withParts parts) node.priority =
    s.isPrunable setup node.priority := rfl
  rw [process, process, hprunable]
  split
  · rfl
  · refine map_bind_eq (h.propagate node s.progress s.solver) fun r _ ↦ ?_
    simp only [Propagated.mapSolver, logAll_mapSolver]
    split
    · exact mapSolver_processOpen h
    · rfl

/-! ## From turn to turn -/

theorem mapSolver_advance : (advance setup s).map (mapSolver f) =
    advance (setup.withParts parts) (s.mapSolver f) := by
  have hpool : (s.mapSolver f).pool = s.pool := rfl
  cases hpop : s.pool.pop? with
  | none =>
      simp only [advance, hpool, hpop]
      rfl
  | some found =>
      obtain ⟨node, pool⟩ := found
      have htake : (s.take pool).mapSolver f = (s.mapSolver f).take pool := rfl
      rw [advance_eq hpop, advance_eq (hpool ▸ hpop), ← htake, ← mapSolver_process h]
      cases process setup node (s.take pool) with
      | error cause => rfl
      | ok s' => exact congrArg Except.ok mapSolver_conclude

theorem mapSolver_turn : (turn setup s).map (Prod.map id (mapSolver f)) =
    turn (setup.withParts parts) (s.mapSolver f) := by
  have hverdict := mapSolver_verdict? f setup parts (tick setup s)
  have htick : tick (setup.withParts parts) (s.mapSolver f) = (tick setup s).mapSolver f := rfl
  rw [turn, turn, htick, ← hverdict]
  cases verdict? setup (tick setup s) with
  | mk verdict polled =>
      cases verdict with
      | some state => rfl
      | none => exact map_bind_eq (mapSolver_advance h) fun _ _ ↦ rfl

/-! ## The whole search -/

variable {solver : σ}

theorem AtLoopHead.mapSolver (hs : AtLoopHead setup solver s) :
    AtLoopHead (setup.withParts parts) (f solver) (s.mapSolver f) := by
  induction hs with
  | start => exact .start
  | @next s s' _ hturn ih =>
      have hnext := mapSolver_turn h (s := s)
      rw [hturn] at hnext
      exact .next ih hnext.symm

/-- Every loop head of the other search comes from one of the search. -/
theorem AtLoopHead.exists_mapSolver {s : Search α β τ p}
    (hs : AtLoopHead (setup.withParts parts) (f solver) s) :
    ∃ s', AtLoopHead setup solver s' ∧ s'.mapSolver f = s := by
  induction hs with
  | start => exact ⟨_, .start, rfl⟩
  | next _ hturn ih =>
      obtain ⟨s', hs', rfl⟩ := ih
      rw [← mapSolver_turn h] at hturn
      obtain ⟨⟨found, s₁⟩, hturn', heq⟩ := map_eq_ok_iff.mp hturn
      cases heq
      exact ⟨s₁, .next hs' hturn', rfl⟩

theorem mapSolver_turns (count : ℕ) (s : Search α β σ p) :
    (turns setup count s).map (Prod.map id (mapSolver f)) =
      turns (setup.withParts parts) count (s.mapSolver f) := by
  induction count generalizing s with
  | zero => rfl
  | succ count ih =>
      rw [turns, turns]
      refine map_bind_eq (mapSolver_turn h) fun r _ ↦ ?_
      obtain ⟨found, s'⟩ := r
      cases found with
      | some state => rfl
      | none => exact ih s'

theorem mapSolver_run (solver : σ) : (run setup solver).map (Prod.map id (mapSolver f)) =
    run (setup.withParts parts) (f solver) :=
  map_bind_eq (mapSolver_turns h _ _) fun _ _ ↦ rfl

end Search

/-- Both searches are refused for the same fault, or return the same result. -/
theorem SearchTree.solve_withParts {f : σ → τ} {setup : Setup α β σ p} {parts : Components α β τ p}
    (h : setup.parts.MapsTo setup.routine f parts) (solver : σ) :
    (solve ⟨setup.withParts parts, .initialized, none⟩ (f solver)).map (·.1) =
      (solve ⟨setup, .initialized, none⟩ solver).map (·.1) := by
  simp only [solve, ← Search.mapSolver_run h]
  cases Search.run setup solver with
  | error cause => rfl
  | ok found => rfl

end GlobalQcqp
