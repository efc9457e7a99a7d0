import GlobalQcqp.Proofs.Epigraph
import GlobalQcqp.Proofs.Node.Rank
import GlobalQcqp.Proofs.Search.Nodes
/-!
# The range of the added variable

The range of an added epigraph variable starts at the range of the objective.  It is only ever
changed by a propagator, which cuts it off at the priority of the node and at the value of the
incumbent unless these cross.  Since the priority is below every feasible value in the box, the
values that are not worse than the incumbent stay in the range.
-/

namespace GlobalQcqp

variable {π σ : Type} {p : Problem ℝ} {i : Fin p.stored}

namespace Problem

/-- The variable stored at this position is an epigraph variable that was added. -/
structure IsEpigraphAt (p : Problem ℝ) (i : Fin p.stored) : Prop where
  exists_place : ∃ place ∈ p.epigraph, position? p.stored place = some i
  isAuxiliary : p.variableAt? i = none
  not_branchable : p.branchable[i] = false
  side_eq : p.box.side i = p.objectiveRange

theorem exists_isEpigraphAt {q : Problem ℝ} (hq : q.epigraph = none)
    (hadded : q.withEpigraph = .ok p) : ∃ i, p.IsEpigraphAt i := by
  obtain ⟨h, hq⟩ := withEpigraph_eq_ok hq
  cases hq.symm.trans hadded
  refine ⟨Fin.last q.stored, ⟨_, rfl, position?_last q.stored⟩,
    q.variableAt?_addEpigraph_last _ h, by simp, ?_⟩
  have hrange : (q.addEpigraph q.objectiveRange h).objectiveRange = q.objectiveRange := by
    rw [objectiveRange, restrictBox_addEpigraph, dropLast_box]
    rfl
  rw [side_last, hrange]

end Problem

namespace Node

variable {node node' clamped : Node ℝ EReal p.stored} {v w : EReal}

/-- The range is part of the range of the objective over the root box, and no value is missing from
it that the objective takes at a point of the box that satisfies all constraints, unless the value
is above `v`. -/
structure RangeIsSound (i : Fin p.stored) (v : EReal) (node : Node ℝ EReal p.stored) : Prop where
  lo_le_hi : (node.box.side i).lo ≤ (node.box.side i).hi
  le_objectiveRange : node.box.side i ≤ p.objective.interval (p.restrictBox p.box).sides
  eval_mem : ∀ y ∈ p.restrictBox node.box, (∀ g ∈ p.constraints, g.eval y ≤ 0) →
    (∀ h ∈ p.equalities, h.eval y = 0) → (p.objective.eval y : EReal) ≤ v →
      p.objective.eval y ∈ node.box.side i

/-- The box is part of the root box, and the priority is below every feasible value in it. -/
structure PriorityIsValid (node : Node ℝ EReal p.stored) : Prop where
  box_le : node.box ≤ p.box
  priority_le : ∀ y ∈ p.feasibleSet, y ∈ p.restrictBox node.box → node.priority ≤ p.objective.eval y

theorem IsValid.priorityIsValid (h : node.IsValid) : node.PriorityIsValid where
  box_le := h.box_le
  priority_le y hy hbox := node.priority_le_bound.trans (h.bound_le y hy hbox)

theorem PriorityIsValid.narrowedFrom (h : node.PriorityIsValid) (hnode' : node'.NarrowedFrom node) :
    node'.PriorityIsValid where
  box_le := hnode'.box_le.trans h.box_le
  priority_le y hy hbox := by
    rw [hnode'.priority_eq]
    exact h.priority_le y hy (Box.mem_of_le (Problem.restrictBox_le hnode'.box_le) hbox)

theorem rangeIsSound_root (hi : p.IsEpigraphAt i) (v : EReal) :
    (Search.root p : Node ℝ EReal p.stored).RangeIsSound i v where
  lo_le_hi := p.box_isProper i
  le_objectiveRange := hi.side_eq.le
  eval_mem y hy _ _ _ := by
    have hside : (Search.root p : Node ℝ EReal p.stored).box.side i = p.objectiveRange := hi.side_eq
    rw [hside]
    exact Problem.eval_mem_objectiveRange hy

namespace RangeIsSound

/-- As the incumbent improves there is less to ask for. -/
theorem anti (h : node.RangeIsSound i v) (hle : w ≤ v) : node.RangeIsSound i w where
  lo_le_hi := h.lo_le_hi
  le_objectiveRange := h.le_objectiveRange
  eval_mem y hy hg hh hw := h.eval_mem y hy hg hh (hw.trans hle)

theorem of_box_le (h : node.RangeIsSound i v) (hbox : node'.box ≤ node.box)
    (hside : node'.box.side i = node.box.side i) : node'.RangeIsSound i v where
  lo_le_hi := hside ▸ h.lo_le_hi
  le_objectiveRange := hside ▸ h.le_objectiveRange
  eval_mem y hy hg hh hv := by
    rw [hside]
    exact h.eval_mem y (Box.mem_of_le (Problem.restrictBox_le hbox) hy) hg hh hv

theorem tightenEpigraph (h : node.RangeIsSound i v) (hnode : node.PriorityIsValid)
    (hclamp : p.tightenEpigraph node v = .ok clamped) : clamped.RangeIsSound i v := by
  have hbox := (Problem.tightenEpigraph_narrows hclamp).box_le
  rcases clampAt_cases hclamp with rfl | ⟨-, -, j, -, side, rfl, hlo, hhi, hle, hproper⟩
  · exact h
  · by_cases hj : i = j
    · subst hj
      have hside : (node.box.setSide i side).side i = side := by
        rw [Box.side_setSide, if_pos rfl]
      refine ⟨?_, ?_, fun y hy hg hh hv ↦ ?_⟩
      · rwa [hside]
      · rw [hside]
        exact hle.trans h.le_objectiveRange
      · have hy := Box.mem_of_le (Problem.restrictBox_le hbox) hy
        have hroot := Box.mem_of_le (Problem.restrictBox_le hnode.box_le) hy
        have hpriority := hnode.priority_le y ⟨hroot, hg, hh⟩ hy
        have hmem := h.eval_mem y hy hg hh hv
        rw [hside]
        refine ⟨EReal.coe_le_coe_iff.mp ?_, EReal.coe_le_coe_iff.mp ?_⟩
        · rw [hlo]
          exact max_le (EReal.coe_le_coe_iff.mpr hmem.1) hpriority
        · rw [hhi]
          exact le_min (EReal.coe_le_coe_iff.mpr hmem.2) hv
    · refine h.of_box_le hbox ?_
      rw [Box.side_setSide, if_neg hj]

end RangeIsSound

end Node

/-! ## Propagators -/

namespace Propagator

/-- A sound range stays sound if the priority is valid. -/
def KeepsRange (i : Fin p.stored) (propagate : Propagator ℝ EReal p.stored π σ) : Prop :=
  ∀ ⦃node progress s r⦄, propagate node progress s = .ok r → node.PriorityIsValid →
    node.RangeIsSound i progress.incumbentValue → r.node.RangeIsSound i progress.incumbentValue

theorem none_keepsRange : (none : Propagator ℝ EReal p.stored π σ).KeepsRange i := by
  intro node progress s r hr _ h
  cases hr
  exact h

theorem sequence_keepsRange {l : List (Propagator ℝ EReal p.stored π σ)}
    (hl : ∀ propagate ∈ l, propagate.IsNarrowing ∧ propagate.KeepsRange i) :
    (sequence l).KeepsRange i := by
  induction l with
  | nil => exact none_keepsRange
  | cons first rest ih =>
      intro node progress s r hr hnode h
      obtain ⟨r₁, hfirst, hr⟩ := sequence_cons_eq_ok hr
      obtain ⟨hnarrowing, hkeeps⟩ := hl first List.mem_cons_self
      have h₁ := hkeeps hfirst hnode h
      rcases hr with ⟨-, rfl⟩ | ⟨r₂, -, hrest, hsame, -⟩
      · exact h₁
      · rw [hsame]
        have hnode₁ := hnode.narrowedFrom (hnarrowing hfirst)
        exact ih (fun q hq ↦ hl q (List.mem_cons_of_mem first hq)) hrest hnode₁ h₁

end Propagator

namespace Components

variable {options : Options ℝ EReal} {routine : EigenRoutine ℝ}
  {convex : ConvexSolver ℝ EReal p.size σ}

theorem propagator_keepsRange (hi : p.variableAt? i = none) :
    (propagator p options routine convex).KeepsRange i := by
  have hfeasibility : (Feasibility.propagator (feasibilitySettings options) p :
      Propagator ℝ EReal p.stored (Vector ℝ p.stored) σ).KeepsRange i := by
    intro node progress s r hr hnode h
    obtain ⟨clamped, hclamp, hout⟩ := Feasibility.propagator_outcome hr
    exact (h.tightenEpigraph hnode hclamp).of_box_le hout.narrowedFrom.box_le (hout.side_eq hi)
  have hoptimality : (Optimality.propagator (optimalitySettings options) routine p convex :
      Propagator ℝ EReal p.stored (Vector ℝ p.stored) σ).KeepsRange i := by
    intro node progress s r hr hnode h
    obtain ⟨clamped, hclamp, hout⟩ := Optimality.propagator_outcome hr
    exact (h.tightenEpigraph hnode hclamp).of_box_le hout.narrowedFrom.box_le (hout.side_eq hi)
  unfold propagator
  cases options.propagation with
  | none => exact Propagator.none_keepsRange
  | feasibility => exact hfeasibility
  | optimality => exact hoptimality
  | both =>
      refine Propagator.sequence_keepsRange fun propagate hmem ↦ ?_
      simp only [List.mem_cons, List.not_mem_nil, or_false] at hmem
      rcases hmem with rfl | rfl
      · exact ⟨Feasibility.propagator_isNarrowing, hfeasibility⟩
      · exact ⟨Optimality.propagator_isNarrowing, hoptimality⟩

end Components

/-! ## Halves -/

/-- The halves of a node have the sides of the node wherever it may not be branched on. -/
theorem Ledger.IsHalf.side_eq {setup : Setup ℝ EReal σ p} {node half : Node ℝ EReal p.stored}
    (h : IsHalf setup node half) (hi : p.branchable[i] = false) :
    half.box.side i = node.box.side i := by
  obtain ⟨j, value, id, left, right, hselect, -, hsplit, hhalf⟩ := h
  have hne : i ≠ j := by
    rintro rfl
    have heligible := (Branching.mem_eligible.mp (Branching.mem_eligible_of_select hselect)).1
    exact Bool.false_ne_true (hi.symm.trans heligible)
  obtain ⟨hleft, hright⟩ := Node.split?_box_eq hsplit
  rcases hhalf with rfl | rfl
  · rw [hleft, Box.side_setSide, if_neg hne]
  · rw [hright, Box.side_setSide, if_neg hne]

end GlobalQcqp
