import GlobalQcqp.Proofs.Node.Rank
import GlobalQcqp.Proofs.Search.Nodes
import GlobalQcqp.Proofs.Search.Refusals
/-!
# Exact searches that are not refused

Over the real numbers no function leaves the finite range, and a node is split inside of its box.
So with a place for the epigraph variable, a variable to range over and local answers that fit no
turn breaks off, whatever the solvers answer, and every search returns.
-/

namespace GlobalQcqp

variable {σ π : Type} {p : Problem ℝ}

theorem Problem.EpigraphIsAdded.isPlaced (hp : p.EpigraphIsAdded) : p.EpigraphIsPlaced := by
  intro place hplace
  obtain ⟨s, hs, -⟩ := hp.exists_position place hplace
  exact ⟨s, hs⟩

/-! ## Tightening -/

def Propagator.IsTotal {k : Nat} (propagate : Propagator ℝ EReal k π σ) : Prop :=
  ∀ node progress s, Succeeds (propagate node progress s)

theorem Feasibility.not_refuses (hp : p.EpigraphIsPlaced) (hsize : 0 < p.size)
    (settings : Settings ℝ) (progress : Progress EReal π) (fault : Fault ℝ) :
    ¬ Refuses settings p progress fault := by
  intro h
  cases h with
  | epigraph hnone => exact hnone hp
  | functions _ h => exact nomatch (functions?_eq_ok settings p progress).symm.trans h
  | noVariables _ _ hzero _ => exact hsize.ne' hzero

theorem Feasibility.propagator_isTotal (hp : p.EpigraphIsPlaced) (hsize : 0 < p.size)
    (settings : Settings ℝ) :
    (propagator settings p : Propagator ℝ EReal p.stored π σ).IsTotal := by
  intro node progress s
  refine succeeds_iff.mpr fun fault hrefused ↦ ?_
  exact not_refuses hp hsize settings progress fault (propagator_eq_error_iff.mp hrefused)

theorem Optimality.not_refuses (hp : p.EpigraphIsPlaced) (settings : Settings ℝ)
    (routine : EigenRoutine ℝ) (node : Node ℝ EReal p.stored) (progress : Progress EReal π)
    (fault : Fault ℝ) : ¬ Refuses settings routine p node progress fault := by
  intro h
  cases h with
  | epigraph hnone => exact hnone hp
  | relaxation _ _ h => exact nomatch (p.relaxation?_eq_ok routine _).symm.trans h
  | cut _ _ _ h => exact nomatch (Problem.objectiveCut?_eq_ok _ progress).symm.trans h

theorem Optimality.propagator_isTotal (hp : p.EpigraphIsPlaced) (settings : Settings ℝ)
    (routine : EigenRoutine ℝ) (solver : ConvexSolver ℝ EReal p.size σ) :
    (propagator settings routine p solver : Propagator ℝ EReal p.stored π σ).IsTotal := by
  intro node progress s
  refine succeeds_iff.mpr fun fault hrefused ↦ ?_
  exact not_refuses hp settings routine node progress fault (propagator_eq_error_iff.mp hrefused)

/-- Only a propagation by ranges asks for a variable. -/
theorem Components.not_refuses (hp : p.EpigraphIsPlaced) {options : Options ℝ EReal}
    (hsize : options.propagation.usesRanges = true → 0 < p.size) (routine : EigenRoutine ℝ)
    (node : Node ℝ EReal p.stored) (progress : Progress EReal (Vector ℝ p.stored)) (s : σ)
    (fault : Fault ℝ) : ¬ Refuses p options routine node progress s fault := by
  intro h
  cases h with
  | ranges hmode h => exact Feasibility.not_refuses hp (hsize hmode) _ progress fault h
  | probes _ h => exact Optimality.not_refuses hp _ routine node progress fault h
  | probesAfterRanges _ _ _ h => exact Optimality.not_refuses hp _ routine _ progress fault h

/-! ## The search -/

namespace Search

variable {setup : Setup ℝ EReal σ p} {convex : ConvexSolver ℝ EReal p.size σ}
  {localSolver : LocalSolver ℝ p.size σ} {solver : σ} {s s₃ : Search ℝ EReal σ p}
  {node : Node ℝ EReal p.stored}

theorem BoundsBelow.isInside (h : BoundsBelow setup s node s₃) (hstatus : node.status ≠ .infeasible)
    (hs : AtLoopHead setup solver s) (hstandard : setup.IsStandard convex localSolver) :
    node.IsInside := by
  have hpreserves := hstandard.preserves_isInside
  obtain ⟨taken, htaken, l, hrefines⟩ := h.exists_refines hstatus
  exact hpreserves.refine (hs.forall_open hpreserves taken htaken) hrefines

theorem AtLoopHead.not_aborts (hs : AtLoopHead setup solver s)
    (hstandard : setup.IsStandard convex localSolver) (hp : p.EpigraphIsPlaced)
    (hsize : setup.options.propagation.usesRanges = true → 0 < p.size)
    (hlocal : localSolver.AnswersFit) (fault : Fault ℝ) : ¬ Aborts setup s localSolver fault := by
  intro h
  cases h with
  | tightening _ _ h => exact Components.not_refuses hp hsize _ _ _ _ fault h
  | relaxation _ _ h => exact nomatch (p.relaxation?_eq_ok _ _).symm.trans h
  | answer _ hx hfit =>
      obtain ⟨v, hv⟩ := hlocal _ _ _ hx
      cases hv.symm.trans hfit
  | epigraph _ _ hnone => exact hnone hp
  | @crossed node s₄ i value hbranches _ hpoint hcrossed =>
      obtain ⟨s₃, hbounded, hstatus⟩ := hbranches.boundsBelow
      have hproper := (hbounded.isInside hstatus hs hstandard).isProper
      have hmem := Branching.point_mem_side (hproper i) hpoint
      have hsplit := Node.split?_succeeds s₄.progress.nodesCreated hproper hmem
      exact succeeds_iff.mp hsplit .crossed (Node.split?_eq_error_iff.mpr ⟨hcrossed, rfl⟩)

end Search

/-- A search returns whatever its solvers answer, as long as the answers of the local solver fit,
ranges have a variable to range over and the epigraph variable has its place. -/
theorem Setup.IsStandard.run_succeeds {setup : Setup ℝ EReal σ p}
    {convex : ConvexSolver ℝ EReal p.size σ} {localSolver : LocalSolver ℝ p.size σ}
    (h : setup.IsStandard convex localSolver) (hp : p.EpigraphIsPlaced)
    (hsize : setup.options.propagation.usesRanges = true → 0 < p.size)
    (hlocal : localSolver.AnswersFit) (solver : σ) : Succeeds (Search.run setup solver) := by
  refine succeeds_iff.mpr fun fault hrefused ↦ ?_
  obtain ⟨s, hs, hturn⟩ := Search.run_eq_error_iff.mp hrefused
  exact hs.not_aborts h hp hsize hlocal fault ((hs.turn_eq_error_iff h).mp hturn)

end GlobalQcqp
