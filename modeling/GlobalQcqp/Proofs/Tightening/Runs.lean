import GlobalQcqp.Proofs.Search.Execution
import GlobalQcqp.Proofs.Search.Totality
/-!
# Runs of the propagators

A propagator leaves a proper part of a proper box.  Tightening by ranges keeps every point of it
that violates no constraint by more than the tolerance, whatever the sign of the tolerance.
Tightening by probes keeps every point without violations as long as the answers to the probes that
it runs are sound within the margin; what it leaves alone does not depend on the answers.

There is no objective cut at an incumbent whose value is not a number.  So a run that takes one is
only said to return if the value is a number.
-/

namespace GlobalQcqp

variable {π σ : Type} {p : Problem ℝ}

/-- The value of the incumbent, if there is one, is a number. -/
def Progress.HasNumberOrNone (progress : Progress EReal π) : Prop :=
  progress.hasIncumbent = true → ∃ v : ℝ, progress.incumbentValue = v

/-- A node that is closed by ranges holds no tolerated point, is marked and keeps its sides at the
optimized variables. -/
theorem Feasibility.ranges_keep_tolerated (hplaced : p.EpigraphIsPlaced)
    (hp : p.EpigraphIsAuxiliary) (hsize : 0 < p.size) (settings : Settings ℝ)
    (progress : Progress EReal π) (s : σ) {node : Node ℝ EReal p.stored}
    (hnode : node.box.IsProper) :
    ((settings.usesCut = true → progress.HasNumberOrNone) →
      ∃ r, propagator settings p node progress s = .ok r) ∧
    ∀ r, propagator settings p node progress s = .ok r →
      r.node.box ≤ node.box ∧ r.node.box.IsProper ∧
      (∀ x ∈ p.restrictBox node.box, x ∈ p.toleratedSet progress settings.usesCut settings.tol →
        r.isOpen = true ∧ x ∈ p.restrictBox r.node.box) ∧
      (r.isOpen = false → r.node.status = .infeasible ∧ r.node.lowerBound = ⊤ ∧
        p.restrictBox r.node.box = p.restrictBox node.box) := by
  refine ⟨fun _ ↦ propagator_isTotal hplaced hsize settings node progress s, fun r hr ↦ ?_⟩
  have hnarrow := propagator_isNarrowing hr
  refine ⟨hnarrow.box_le, hnarrow.isProper hnode, ?_, propagator_refuted hp hr⟩
  intro x hbox hx
  have hle : ∀ q ∈ functions settings p progress, q.eval x ≤ settings.tol :=
    eval_le_of_mem_toleratedSet hx
  exact mem_propagator hp hr hle hbox

/-- Whatever the answers are, sides without probes and the sides of a closed node stay as they are.
Sound answers keep the node open as long as it holds a point without violations. -/
theorem Optimality.probes_keep_feasible (hplaced : p.EpigraphIsPlaced)
    (hp : p.EpigraphIsAuxiliary) (settings : Settings ℝ) (routine : EigenRoutine ℝ)
    (solver : ConvexSolver ℝ EReal p.size σ) (progress : Progress EReal π) (s : σ)
    {node : Node ℝ EReal p.stored} (hnode : node.box.IsProper) :
    (progress.HasNumberOrNone →
      ∃ r, propagator settings routine p solver node progress s = .ok r) ∧
    ∀ r, propagator settings routine p solver node progress s = .ok r →
      r.node.box ≤ node.box ∧ r.node.box.IsProper ∧
      (r.isOpen = false ∨ settings.maxDepth < node.depth →
        p.restrictBox r.node.box = p.restrictBox node.box) ∧
      (∀ i : Fin p.size, p.branchable[p.places[i]] = false →
        (p.restrictBox r.node.box).side i = (p.restrictBox node.box).side i) ∧
      (ProbesAreSound settings routine p solver progress node s →
        ∀ x ∈ p.restrictBox node.box, x ∈ p.toleratedSet progress true 0 →
          r.isOpen = true ∧ x ∈ p.restrictBox r.node.box) := by
  refine ⟨fun _ ↦ propagator_isTotal hplaced settings routine solver node progress s,
    fun r hr ↦ ?_⟩
  have hnarrow := propagator_isNarrowing hr
  refine ⟨hnarrow.box_le, hnarrow.isProper hnode, restrictBox_propagator hp hr, ?_, ?_⟩
  · intro i hi
    exact side_propagator hp hr hi
  · intro hsound x hbox hx
    have hle : ∀ g ∈ probeConstraints routine p progress node, g.eval x ≤ 0 :=
      eval_le_zero_of_mem_toleratedSet hx hbox
    exact mem_propagator hp hr hsound hle hbox

/-! ## Runs on the line -/

namespace Line

/-- The middle of the unit interval is the incumbent. -/
noncomputable def halfway : Progress EReal (Vector ℝ 1) :=
  { (Progress.start : Progress EReal (Vector ℝ 1)) with
    incumbentValue := ofNumber (0.5 : ℝ)
    incumbent := some unit.midpoint }

theorem quarter_mem_unit : (#v[1 / 4] : Vector ℝ 1) ∈ unit :=
  mem_unit.mpr ⟨show (0 : ℝ) ≤ 1 / 4 by norm_num, show (1 / 4 : ℝ) ≤ 1 by norm_num⟩

theorem quarter_mem_toleratedSet {tol : ℝ} (htol : 0 ≤ tol) (usesCut : Bool) :
    (#v[1 / 4] : Vector ℝ 1) ∈ (problem []).toleratedSet halfway usesCut tol := by
  refine ⟨nofun, nofun, fun _ _ ↦ ⟨0.5, rfl, ?_⟩⟩
  have hquarter : (1 / 4 : ℝ) ≤ 0.5 := by norm_num
  rw [Quadratic.eval_coordinate, one_mul]
  exact hquarter.trans (le_add_of_nonneg_right htol)

theorem root_isProper : (Search.root (problem []) : Node ℝ EReal 1).box.IsProper :=
  (problem []).box_isProper

/-- A cut at the middle of the unit interval keeps a quarter. -/
theorem ranges_keep_quarter :
    let settings : Feasibility.Settings ℝ := ⟨5, 1e-6, 0, true⟩
    (problem []).EpigraphIsPlaced ∧ (problem []).EpigraphIsAuxiliary ∧ 0 < (problem []).size ∧
      (Search.root (problem []) : Node ℝ EReal 1).box.IsProper ∧
      ∃ r, Feasibility.propagator settings (problem []) (Search.root (problem [])) halfway () =
        .ok r ∧ r.isOpen = true ∧ r.node.box ≤ unit ∧ #v[1 / 4] ∈ r.node.box := by
  intro settings
  have hadded : (problem []).EpigraphIsAdded := problem_epigraphIsAdded
  obtain ⟨hreturns, hruns⟩ := Feasibility.ranges_keep_tolerated hadded.isPlaced hadded.isAuxiliary
    one_pos settings halfway () root_isProper
  obtain ⟨r, hr⟩ := hreturns fun _ _ ↦ ⟨0.5, rfl⟩
  obtain ⟨hle, -, hkept, -⟩ := hruns r hr
  rw [restrictBox_eq, restrictBox_eq] at hkept
  have htol : (0 : ℝ) ≤ 1e-6 := by norm_num
  obtain ⟨hopen, hmem⟩ := hkept #v[1 / 4] quarter_mem_unit (quarter_mem_toleratedSet htol true)
  exact ⟨hadded.isPlaced, hadded.isAuxiliary, one_pos, root_isProper, r, hr, hopen, hle, hmem⟩

/-- So do the probes of a solver that answers with ranges. -/
theorem probes_keep_quarter :
    let settings : Optimality.Settings ℝ := ⟨0, 1e-6, 0⟩
    (problem []).EpigraphIsPlaced ∧ (problem []).EpigraphIsAuxiliary ∧
      (Search.root (problem []) : Node ℝ EReal 1).box.IsProper ∧
      Optimality.ProbesAreSound settings routine (problem []) Tangent.rangeSolver halfway
        (Search.root (problem [])) () ∧
      ∃ r, Optimality.propagator settings routine (problem []) Tangent.rangeSolver
        (Search.root (problem [])) halfway () = .ok r ∧
        r.isOpen = true ∧ r.node.box ≤ unit ∧ #v[1 / 4] ∈ r.node.box := by
  intro settings
  have hadded : (problem []).EpigraphIsAdded := problem_epigraphIsAdded
  have hbackoff : 0 ≤ settings.backoff := by
    norm_num [settings]
  have hanswers (constraints : List (Quadratic ℝ 1)) : Optimality.AnswersWithin
      (Tangent.rangeSolver : ConvexSolver ℝ EReal 1 Unit) settings.backoff constraints :=
    fun _ _ _ _ ↦ (Tangent.rangeSolver_isSound _ _ _).within hbackoff
  have hsound : Optimality.ProbesAreSound settings routine (problem []) Tangent.rangeSolver halfway
      (Search.root (problem [])) () := fun _ ↦ (hanswers _).sidesAreSound _ _ _
  obtain ⟨hreturns, hruns⟩ := Optimality.probes_keep_feasible hadded.isPlaced hadded.isAuxiliary
    settings routine Tangent.rangeSolver halfway () root_isProper
  obtain ⟨r, hr⟩ := hreturns fun _ ↦ ⟨0.5, rfl⟩
  obtain ⟨hle, -, -, -, hkept⟩ := hruns r hr
  rw [restrictBox_eq, restrictBox_eq] at hkept
  obtain ⟨hopen, hmem⟩ := hkept hsound #v[1 / 4] quarter_mem_unit
    (quarter_mem_toleratedSet le_rfl true)
  exact ⟨hadded.isPlaced, hadded.isAuxiliary, root_isProper, hsound, r, hr, hopen, hle, hmem⟩

end Line

end GlobalQcqp
