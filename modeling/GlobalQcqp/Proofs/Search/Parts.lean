import GlobalQcqp.Proofs.Node.LowerBound
import GlobalQcqp.Proofs.Search.Cover
import GlobalQcqp.Proofs.Tightening.Feasibility
import GlobalQcqp.Proofs.Tightening.Optimality
import GlobalQcqp.Search.Tree
/-!
# The standard parts

Whatever the solvers answer, the standard parts never lower the bound of a node.  With a sound
convex solver and an epigraph variable that was added, if there is one, they do not lose a feasible
point worth keeping either.  Nothing is asked of the local solver.
-/

namespace GlobalQcqp

variable {σ : Type} {p : Problem ℝ}

def Setup.IsStandard (setup : Setup ℝ EReal σ p) (convex : ConvexSolver ℝ EReal p.size σ)
    (localSolver : LocalSolver ℝ p.size σ) : Prop :=
  setup.parts = Components.standard p setup.options setup.routine convex localSolver

namespace Components

variable {options : Options ℝ EReal} {routine : EigenRoutine ℝ}
  {convex : ConvexSolver ℝ EReal p.size σ}

theorem propagator_isNarrowing : (propagator p options routine convex).IsNarrowing := by
  unfold propagator
  cases options.propagation with
  | none => exact Propagator.none_isNarrowing
  | feasibility => exact Feasibility.propagator_isNarrowing
  | optimality => exact Optimality.propagator_isNarrowing
  | both =>
      refine Propagator.sequence_isNarrowing fun propagate hmem ↦ ?_
      simp only [List.mem_cons, List.not_mem_nil, or_false] at hmem
      rcases hmem with rfl | rfl
      · exact Feasibility.propagator_isNarrowing
      · exact Optimality.propagator_isNarrowing

theorem propagator_isConservative (hp : p.EpigraphIsAuxiliary)
    (htol : 0 ≤ options.feasibilityTol) (hconvex : convex.IsSound) :
    (propagator p options routine convex).IsConservative p := by
  have hfeasibility : (Feasibility.propagator (feasibilitySettings options) p :
      Propagator ℝ EReal p.stored (Vector ℝ p.stored) σ).IsConservative p :=
    Feasibility.propagator_isConservative hp htol
  have hoptimality : (Optimality.propagator (optimalitySettings options) routine p convex :
      Propagator ℝ EReal p.stored (Vector ℝ p.stored) σ).IsConservative p := by
    refine Optimality.propagator_isConservative hp fun constraints box i e s ↦ ?_
    refine (hconvex _ _ _).within ?_
    norm_num [optimalitySettings, Defaults.backoff]
  unfold propagator
  cases options.propagation with
  | none => exact Propagator.none_isConservative p
  | feasibility => exact hfeasibility
  | optimality => exact hoptimality
  | both =>
      refine Propagator.sequence_isConservative fun propagate hmem ↦ ?_
      simp only [List.mem_cons, List.not_mem_nil, or_false] at hmem
      rcases hmem with rfl | rfl
      · exact hfeasibility
      · exact hoptimality

end Components

namespace Setup.IsStandard

variable {setup : Setup ℝ EReal σ p} {convex : ConvexSolver ℝ EReal p.size σ}
  {localSolver : LocalSolver ℝ p.size σ}

theorem boundsBelow (h : setup.IsStandard convex localSolver) {node bounded : Node ℝ EReal p.stored}
    (hbelow : Ledger.BoundsBelow setup node bounded) : ∃ answer,
      Lower.IsAnswer convex (p.relaxation setup.routine (p.restrictBox node.box)) answer ∧
        Lower.Recorded node answer bounded := by
  obtain ⟨c, s, r, hc, hlower, rfl⟩ := hbelow
  rw [Problem.relaxation?_eq_ok] at hc
  cases hc
  rw [h] at hlower
  exact Lower.solve_eq_ok hlower

theorem narrowedFrom (h : setup.IsStandard convex localSolver) {l : Ledger EReal p}
    {node : Node ℝ EReal p.stored} {r : Propagated ℝ EReal p.stored σ}
    (hr : l.Tightens setup node r) : r.node.NarrowedFrom node := by
  obtain ⟨_, s, hr⟩ := hr
  rw [h] at hr
  exact Components.propagator_isNarrowing hr

theorem raisesBounds (h : setup.IsStandard convex localSolver) : setup.RaisesBounds where
  tighten hr := (h.narrowedFrom hr).priority_eq
  lower hbelow := by
    obtain ⟨answer, _, hrecorded⟩ := h.boundsBelow hbelow
    exact hrecorded.priority_le_bound

/-- A feasible point that a node holds is not lost when its relaxation is solved. -/
theorem holds_of_boundsBelow (h : setup.IsStandard convex localSolver) (hconvex : convex.IsSound)
    {node bounded : Node ℝ EReal p.stored} {y : Vector ℝ p.size}
    (hbelow : Ledger.BoundsBelow setup node bounded) (hy : y ∈ p.feasibleSet)
    (hholds : node.Holds y) : bounded.status ≠ .infeasible ∧ y ∈ p.restrictBox bounded.box ∧
      bounded.bound ≤ p.objective.eval y := by
  obtain ⟨answer, ⟨start, s, rfl⟩, hrecorded⟩ := h.boundsBelow hbelow
  have hfeasible := Problem.mem_relaxation_feasibleSet hy hholds.1 setup.routine
  have hobjective := p.objective.convexUnder_le hholds.1 setup.routine
  obtain ⟨hstatus, hbound⟩ := hrecorded.bound_le (hconvex _ start s) hfeasible hholds.2
    (EReal.coe_le_coe_iff.mpr hobjective)
  exact ⟨hstatus, hrecorded.box_eq ▸ hholds.1, hbound⟩

theorem keepsFeasible (h : setup.IsStandard convex localSolver) (hp : p.EpigraphIsAuxiliary)
    (htol : 0 ≤ setup.options.feasibilityTol) (hconvex : convex.IsSound) : setup.KeepsFeasible where
  tighten hr huseful hbox := by
    obtain ⟨_, s, hr⟩ := hr
    rw [h] at hr
    exact Components.propagator_isConservative hp htol hconvex hr huseful hbox
  lower hbelow hy hholds := h.holds_of_boundsBelow hconvex hbelow hy hholds

end Setup.IsStandard

end GlobalQcqp
