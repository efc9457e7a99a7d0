import GlobalQcqp.Proofs.Solver
import GlobalQcqp.Proofs.Tightening
import GlobalQcqp.Tightening.Optimality
/-!
# Optimality-based tightening is conservative

A probe minimizes a coordinate or its negative.  The margin by which an end stays behind the value
of the probe makes up for a value that is too large by as much, so no point that is feasible for the
probes is cut off.  A side that would be crossed is what it was before the first probe.
-/

namespace GlobalQcqp.Optimality

variable {n : Nat} {σ : Type}

/-! ## One probe -/

section Probe

variable {backoff x : ℝ} {value : EReal} {initial side : Interval ℝ}

/-- A probe moves the lower end to a real number, unless the side would be crossed. -/
theorem moveEnd_lower_eq (backoff : ℝ) (value : EReal) (initial side : Interval ℝ) :
    moveEnd backoff .lower value initial side = initial ∨
      ∃ lo : ℝ, max (side.lo : EReal) (value - backoff) = lo ∧
        moveEnd backoff .lower value initial side = ⟨lo, side.hi⟩ := by
  simp only [moveEnd, Scalar.max_ereal, ofNumber_eq_coe, toNumber_eq_toReal]
  split_ifs with hcrossed
  · exact Or.inl rfl
  · obtain ⟨lo, hlo, -, -⟩ := exists_coe_of_between (le_max_left _ _) (not_lt.mp hcrossed)
    rw [hlo, EReal.toReal_coe]
    exact Or.inr ⟨lo, rfl, rfl⟩

theorem moveEnd_upper_eq (backoff : ℝ) (value : EReal) (initial side : Interval ℝ) :
    moveEnd backoff .upper value initial side = initial ∨
      ∃ hi : ℝ, min (side.hi : EReal) (-value + backoff) = hi ∧
        moveEnd backoff .upper value initial side = ⟨side.lo, hi⟩ := by
  simp only [moveEnd, Scalar.min_ereal, ofNumber_eq_coe, toNumber_eq_toReal]
  split_ifs with hcrossed
  · exact Or.inl rfl
  · obtain ⟨hi, hhi, -, -⟩ := exists_coe_of_between (not_lt.mp hcrossed) (min_le_left _ _)
    rw [hhi, EReal.toReal_coe]
    exact Or.inr ⟨hi, rfl, rfl⟩

theorem mem_moveEnd_lower (hinitial : x ∈ initial) (hx : x ∈ side)
    (hvalue : value ≤ (x + backoff : ℝ)) : x ∈ moveEnd backoff .lower value initial side := by
  have hmoved : value - backoff ≤ x := by
    refine EReal.sub_le_of_le_add ?_
    exact_mod_cast hvalue
  rcases moveEnd_lower_eq backoff value initial side with hmove | ⟨lo, hlo, hmove⟩
  · rwa [hmove]
  · have hle : (lo : EReal) ≤ x := by
      rw [← hlo]
      exact max_le (EReal.coe_le_coe_iff.mpr hx.1) hmoved
    rw [hmove]
    exact ⟨EReal.coe_le_coe_iff.mp hle, hx.2⟩

theorem mem_moveEnd_upper (hinitial : x ∈ initial) (hx : x ∈ side)
    (hvalue : value ≤ (-x + backoff : ℝ)) : x ∈ moveEnd backoff .upper value initial side := by
  have hmoved : (x : EReal) ≤ -value + backoff := by
    have hneg : ((x - backoff : ℝ) : EReal) ≤ -value := by
      rw [EReal.le_neg, ← EReal.coe_neg]
      exact hvalue.trans (EReal.coe_le_coe_iff.mpr (by linarith))
    calc (x : EReal) = ((x - backoff : ℝ) : EReal) + backoff := by
          rw [← EReal.coe_add, sub_add_cancel]
      _ ≤ -value + backoff := add_le_add_left hneg _
  rcases moveEnd_upper_eq backoff value initial side with hmove | ⟨hi, hhi, hmove⟩
  · rwa [hmove]
  · have hle : (x : EReal) ≤ hi := by
      rw [← hhi]
      exact le_min (EReal.coe_le_coe_iff.mpr hx.2) hmoved
    rw [hmove]
    exact ⟨hx.1, EReal.coe_le_coe_iff.mp hle⟩

end Probe

section Box

variable {solver : ConvexSolver ℝ EReal n σ} {backoff : ℝ} {settings : Settings ℝ}
  {constraints : List (Quadratic ℝ n)} {initial box box' : Box ℝ n} {x : Vector ℝ n} {i : Fin n}
  {e : End} {s s' : σ}

theorem tightenEnd_side (h : tightenEnd solver backoff constraints initial i e box s =
    (some box', s')) {j : Fin n} (hj : j ≠ i) : box'.side j = box.side j := by
  simp only [tightenEnd] at h
  split at h
  · cases h
  · cases h
    rw [Box.side_setSide, if_neg hj]
  · cases h
    rfl

/-! ## Runs of probes -/

/-- What each probe of a side preserves is preserved when the side is tightened. -/
theorem tightenSide_preserves {P : Box ℝ n → Prop} (hend : ∀ e box s box' s', P box →
      tightenEnd solver settings.backoff constraints initial i e box s = (some box', s') → P box')
    (hbox : P box)
    (h : tightenSide solver settings constraints initial i box s = (some box', s')) : P box' := by
  simp only [tightenSide] at h
  split at h
  · cases h
    exact hbox
  · rcases hlower : tightenEnd solver settings.backoff constraints initial i .lower box s with
      ⟨_ | box₁, s₁⟩
    · simp only [hlower] at h
      cases h
    · simp only [hlower] at h
      have hbox₁ := hend .lower box s box₁ s₁ hbox hlower
      exact hend .upper box₁ s₁ box' s' hbox₁ h

theorem tightenSides_preserves {P : Box ℝ n → Prop} {l : List (Fin n)}
    (hend : ∀ i ∈ l, ∀ e box s box' s', P box →
      tightenEnd solver settings.backoff constraints initial i e box s = (some box', s') → P box')
    (hbox : P box)
    (h : tightenSides solver settings constraints initial l box s = (some box', s')) : P box' := by
  induction l generalizing box s with
  | nil =>
      cases h
      exact hbox
  | cons i rest ih =>
      simp only [tightenSides] at h
      split at h
      · cases h
      · have hfirst := tightenSide_preserves (hend i List.mem_cons_self) hbox ‹_›
        exact ih (fun j hj ↦ hend j (List.mem_cons_of_mem i hj)) hfirst h

/-- A side that is not probed stays as it is. -/
theorem tightenSides_side {l : List (Fin n)} {j : Fin n} (hj : j ∉ l)
    (h : tightenSides solver settings constraints initial l box s = (some box', s')) :
    box'.side j = box.side j := by
  refine tightenSides_preserves (P := fun b ↦ b.side j = box.side j) ?_ rfl h
  intro i hi e box₁ s₁ box₂ s₂ hside hend
  have hne : j ≠ i := fun hji ↦ hj (hji ▸ hi)
  rw [tightenEnd_side hend hne, hside]

/-! ## Points that are feasible for the probes -/

/-- The answer to a probe is sound within the margin. -/
def EndIsSound (solver : ConvexSolver ℝ EReal n σ) (backoff : ℝ)
    (constraints : List (Quadratic ℝ n)) (i : Fin n) (e : End) (box : Box ℝ n) (s : σ) : Prop :=
  (solver (probe constraints box i e) none s).1.IsSoundWithin backoff (probe constraints box i e)

/-- The answers to the probes that are run for a side are sound within the margin. -/
def SideIsSound (solver : ConvexSolver ℝ EReal n σ) (settings : Settings ℝ)
    (constraints : List (Quadratic ℝ n)) (initial : Box ℝ n) (i : Fin n) (box : Box ℝ n) (s : σ) :
    Prop :=
  ¬ box.upper[i] - box.lower[i] ≤ settings.minWidth →
    EndIsSound solver settings.backoff constraints i .lower box s ∧ ∀ box' s',
      tightenEnd solver settings.backoff constraints initial i .lower box s = (some box', s') →
        EndIsSound solver settings.backoff constraints i .upper box' s'

/-- The answers along a run of probes are sound within the margin. -/
def SidesAreSound (solver : ConvexSolver ℝ EReal n σ) (settings : Settings ℝ)
    (constraints : List (Quadratic ℝ n)) (initial : Box ℝ n) :
    List (Fin n) → Box ℝ n → σ → Prop
  | [], _, _ => True
  | i :: rest, box, s => SideIsSound solver settings constraints initial i box s ∧ ∀ box' s',
      tightenSide solver settings constraints initial i box s = (some box', s') →
        SidesAreSound solver settings constraints initial rest box' s'

/-- The answers to all probes with some constraints are sound within the margin. -/
def AnswersWithin (solver : ConvexSolver ℝ EReal n σ) (backoff : ℝ)
    (constraints : List (Quadratic ℝ n)) : Prop :=
  ∀ box i e s, EndIsSound solver backoff constraints i e box s

theorem AnswersWithin.sidesAreSound (h : AnswersWithin solver settings.backoff constraints)
    (l : List (Fin n)) (box : Box ℝ n) (s : σ) :
    SidesAreSound solver settings constraints initial l box s := by
  induction l generalizing box s with
  | nil => trivial
  | cons i rest ih => exact ⟨fun _ ↦ ⟨h _ _ _ _, fun _ _ _ ↦ h _ _ _ _⟩, fun _ _ _ ↦ ih _ _⟩

theorem mem_tightenEnd (hsound : EndIsSound solver backoff constraints i e box s)
    (hx : ∀ g ∈ constraints, g.eval x ≤ 0) (hinitial : x ∈ initial) (hbox : x ∈ box) : ∃ box' s',
      tightenEnd solver backoff constraints initial i e box s = (some box', s') ∧ x ∈ box' := by
  have hfeasible : x ∈ (probe constraints box i e).feasibleSet := ⟨hbox, hx⟩
  simp only [tightenEnd]
  cases hstatus : (solver (probe constraints box i e) none s).1.status with
  | infeasible =>
      have hempty := hsound.refuted hstatus
      rw [hempty] at hfeasible
      cases hfeasible
  | feasible =>
      have hvalue := hsound.value_le hstatus x hfeasible
      refine ⟨_, _, rfl, Box.mem_setSide hbox ?_⟩
      cases e with
      | lower =>
          rw [probe, Quadratic.eval_coordinate, one_mul] at hvalue
          exact mem_moveEnd_lower (hinitial i) (hbox i) hvalue
      | upper =>
          rw [probe, Quadratic.eval_coordinate, neg_one_mul] at hvalue
          exact mem_moveEnd_upper (hinitial i) (hbox i) hvalue
  | unsolved => exact ⟨box, _, rfl, hbox⟩
  | failed => exact ⟨box, _, rfl, hbox⟩

theorem mem_tightenSide (hsound : SideIsSound solver settings constraints initial i box s)
    (hx : ∀ g ∈ constraints, g.eval x ≤ 0) (hinitial : x ∈ initial) (hbox : x ∈ box) : ∃ box' s',
      tightenSide solver settings constraints initial i box s = (some box', s') ∧ x ∈ box' := by
  simp only [tightenSide]
  split
  · exact ⟨box, s, rfl, hbox⟩
  · obtain ⟨hfirst, hsecond⟩ := hsound ‹_›
    obtain ⟨box₁, s₁, hlower, hbox₁⟩ := mem_tightenEnd hfirst hx hinitial hbox
    rw [hlower]
    exact mem_tightenEnd (hsecond box₁ s₁ hlower) hx hinitial hbox₁

theorem mem_tightenSides {l : List (Fin n)}
    (hsound : SidesAreSound solver settings constraints initial l box s)
    (hx : ∀ g ∈ constraints, g.eval x ≤ 0) (hinitial : x ∈ initial) (hbox : x ∈ box) : ∃ box' s',
      tightenSides solver settings constraints initial l box s = (some box', s') ∧ x ∈ box' := by
  induction l generalizing box s with
  | nil => exact ⟨box, s, rfl, hbox⟩
  | cons i rest ih =>
      obtain ⟨box₁, s₁, hside, hbox₁⟩ := mem_tightenSide hsound.1 hx hinitial hbox
      simp only [tightenSides, hside]
      exact ih (hsound.2 box₁ s₁ hside) hbox₁

end Box

/-! ## The propagator -/

variable {π : Type} {p : Problem ℝ} {settings : Settings ℝ} {routine : EigenRoutine ℝ}
  {solver : ConvexSolver ℝ EReal p.size σ}

noncomputable def probeConstraints (routine : EigenRoutine ℝ) (p : Problem ℝ)
    (progress : Progress EReal π) (node : Node ℝ EReal p.stored) : List (Quadratic ℝ p.size) :=
  let relaxation := p.relaxation routine (p.restrictBox node.box)
  relaxation.constraints ++ Problem.objectiveCut relaxation.objective progress

def probed (p : Problem ℝ) : List (Fin p.size) :=
  (List.finRange p.size).filter fun i ↦ p.branchable[p.places[i]]

noncomputable def probeAll (settings : Settings ℝ) (routine : EigenRoutine ℝ) (p : Problem ℝ)
    (solver : ConvexSolver ℝ EReal p.size σ) (progress : Progress EReal π)
    (node : Node ℝ EReal p.stored) (s : σ) : Option (Box ℝ p.size) × σ :=
  tightenSides solver settings (probeConstraints routine p progress node) (p.restrictBox node.box)
    (probed p) (p.restrictBox node.box) s

/-- The answers to the probes of a run are sound within the margin; too deep there are none. -/
def ProbesAreSound (settings : Settings ℝ) (routine : EigenRoutine ℝ) (p : Problem ℝ)
    (solver : ConvexSolver ℝ EReal p.size σ) (progress : Progress EReal π)
    (node : Node ℝ EReal p.stored) (s : σ) : Prop :=
  node.depth ≤ settings.maxDepth →
    SidesAreSound solver settings (probeConstraints routine p progress node)
      (p.restrictBox node.box) (probed p) (p.restrictBox node.box) s

/-- What a run of the propagator comes to, once the epigraph range is clamped. -/
inductive Outcome (settings : Settings ℝ) (routine : EigenRoutine ℝ) (p : Problem ℝ)
    (solver : ConvexSolver ℝ EReal p.size σ) (progress : Progress EReal π)
    (node : Node ℝ EReal p.stored) (s : σ) : Propagated ℝ EReal p.stored σ → Prop where
  | tooDeep {r} (hdepth : settings.maxDepth < node.depth) (hnode : r.node = node)
      (hopen : r.isOpen = true) : Outcome settings routine p solver progress node s r
  | refuted {r s'} (hdepth : node.depth ≤ settings.maxDepth)
      (hprobes : probeAll settings routine p solver progress node s = (none, s'))
      (hnode : r.node = node.markInfeasible) (hopen : r.isOpen = false) :
      Outcome settings routine p solver progress node s r
  | tightened {r box s'} (hdepth : node.depth ≤ settings.maxDepth)
      (hprobes : probeAll settings routine p solver progress node s = (some box, s'))
      (hnode : r.node = (node.tighten? (p.scatterBox node.box box)).getD node)
      (hopen : r.isOpen = true) : Outcome settings routine p solver progress node s r

theorem propagator_outcome {node : Node ℝ EReal p.stored} {progress : Progress EReal π} {s : σ}
    {r : Propagated ℝ EReal p.stored σ}
    (hr : propagator settings routine p solver node progress s = .ok r) :
    ∃ clamped, p.tightenEpigraph node progress.incumbentValue = .ok clamped ∧
      Outcome settings routine p solver progress clamped s r := by
  obtain ⟨clamped, hclamp, hr⟩ := bind_eq_ok_iff.mp hr
  refine ⟨clamped, hclamp, ?_⟩
  split at hr
  · cases hr
    exact .tooDeep ‹_› rfl rfl
  · have hdepth : clamped.depth ≤ settings.maxDepth := not_lt.mp ‹_›
    simp only [Problem.relaxation?_eq_ok, probeSides, Problem.objectiveCut?_eq_ok, ok_bind] at hr
    split at hr
    · cases hr
      exact .refuted hdepth ‹_› rfl rfl
    · cases hr
      exact .tightened hdepth ‹_› rfl rfl

section

variable {progress : Progress EReal π} {node : Node ℝ EReal p.stored} {s : σ}
  {r : Propagated ℝ EReal p.stored σ}

theorem Outcome.narrowedFrom (h : Outcome settings routine p solver progress node s r) :
    r.node.NarrowedFrom node := by
  cases h with
  | tooDeep _ hnode _ => exact hnode ▸ .refl node
  | refuted _ _ hnode _ => exact hnode ▸ (Node.NarrowedFrom.refl node).markInfeasible
  | tightened _ _ hnode _ =>
      rw [hnode]
      cases htighten : node.tighten? _ with
      | none => exact .refl node
      | some node' => exact (Node.tighten?_eq_some htighten).2

/-- The side of an auxiliary variable is left alone. -/
theorem Outcome.side_eq (h : Outcome settings routine p solver progress node s r)
    {i : Fin p.stored} (hi : p.variableAt? i = none) : r.node.box.side i = node.box.side i := by
  cases h with
  | tooDeep _ hnode _ => rw [hnode]
  | refuted _ _ hnode _ => rw [hnode, Node.markInfeasible]
  | tightened _ _ hnode _ =>
      rw [hnode]
      cases htighten : node.tighten? _ with
      | none => rfl
      | some node' =>
          rw [Option.getD_some, (Node.tighten?_eq_some htighten).1, Box.side_inter,
            Problem.side_scatterBox, hi]
          exact Interval.inter_self _

end

theorem propagator_isNarrowing :
    (propagator settings routine p solver : Propagator ℝ EReal p.stored π σ).IsNarrowing := by
  intro node progress s r hr
  obtain ⟨clamped, hclamp, hout⟩ := propagator_outcome hr
  exact hout.narrowedFrom.trans (Problem.tightenEpigraph_narrows hclamp)

section

variable {progress : Progress EReal π} {node : Node ℝ EReal p.stored} {x : Vector ℝ p.size}

theorem eval_le_zero_of_mem_probeConstraints (hineq : ∀ q ∈ p.inequalities, q.eval x ≤ 0)
    (hcut : progress.hasIncumbent = true → p.objective.eval x ≤ progress.incumbentValue.toReal)
    (hbox : x ∈ p.restrictBox node.box) :
    ∀ g ∈ probeConstraints routine p progress node, g.eval x ≤ 0 := by
  intro g hg
  rcases List.mem_append.mp hg with hg | hg
  · obtain ⟨q, hq, rfl⟩ := List.mem_map.mp hg
    exact (q.convexUnder_le hbox routine).trans (hineq q hq)
  · refine Problem.eval_le_of_mem_objectiveCut (fun hinc ↦ ?_) g hg
    rw [add_zero]
    exact (p.objective.convexUnder_le hbox routine).trans (hcut hinc)

theorem eval_le_zero_of_isUseful (hx : p.IsUseful progress x) (hbox : x ∈ p.restrictBox node.box) :
    ∀ g ∈ probeConstraints routine p progress node, g.eval x ≤ 0 :=
  eval_le_zero_of_mem_probeConstraints
    (Problem.eval_le_zero_of_mem_inequalities hx.1.2.1 hx.1.2.2) hx.2 hbox

theorem eval_le_zero_of_mem_toleratedSet (hx : x ∈ p.toleratedSet progress true 0)
    (hbox : x ∈ p.restrictBox node.box) :
    ∀ g ∈ probeConstraints routine p progress node, g.eval x ≤ 0 := by
  obtain ⟨hg, hh, hcut⟩ := hx
  refine eval_le_zero_of_mem_probeConstraints (Problem.eval_le_of_mem_inequalities hg hh)
    (fun hinc ↦ ?_) hbox
  obtain ⟨v, hv, hle⟩ := hcut rfl hinc
  rwa [hv, EReal.toReal_coe, ← add_zero v]

end

section

variable {node : Node ℝ EReal p.stored} {progress : Progress EReal π} {s : σ}
  {r : Propagated ℝ EReal p.stored σ}

theorem probesAreSound_congr {node' : Node ℝ EReal p.stored}
    (hbox : p.restrictBox node'.box = p.restrictBox node.box) (hdepth : node'.depth = node.depth) :
    ProbesAreSound settings routine p solver progress node' s ↔
      ProbesAreSound settings routine p solver progress node s := by
  simp only [ProbesAreSound, probeConstraints, hbox, hdepth]

/-- A point that is feasible for the probes stays in the box, and the node open. -/
theorem mem_propagator (hp : p.EpigraphIsAuxiliary)
    (hr : propagator settings routine p solver node progress s = .ok r)
    (hsound : ProbesAreSound settings routine p solver progress node s) {x : Vector ℝ p.size}
    (hx : ∀ g ∈ probeConstraints routine p progress node, g.eval x ≤ 0)
    (hbox : x ∈ p.restrictBox node.box) : r.isOpen = true ∧ x ∈ p.restrictBox r.node.box := by
  obtain ⟨clamped, hclamp, hout⟩ := propagator_outcome hr
  have hsame := Problem.restrictBox_tightenEpigraph hp hclamp
  have hdepth := (Problem.tightenEpigraph_narrows hclamp).depth_eq
  rw [← probesAreSound_congr hsame hdepth] at hsound
  rw [← hsame] at hbox
  rw [probeConstraints, ← hsame] at hx
  cases hout with
  | tooDeep _ hnode hopen => exact ⟨hopen, hnode ▸ hbox⟩
  | refuted hdepth hprobes _ _ =>
      obtain ⟨box, s', hsome, _⟩ := mem_tightenSides (hsound hdepth) hx hbox hbox
      cases hsome.symm.trans hprobes
  | tightened hdepth hprobes hnode hopen =>
      obtain ⟨box, s', hsome, hmem⟩ := mem_tightenSides (hsound hdepth) hx hbox hbox
      cases hsome.symm.trans hprobes
      refine ⟨hopen, ?_⟩
      rw [hnode]
      cases htighten : clamped.tighten? _ with
      | none => exact hbox
      | some node' =>
          rw [Option.getD_some, (Node.tighten?_eq_some htighten).1]
          exact Problem.mem_restrictBox_inter.mpr
            ⟨hbox, Problem.mem_restrictBox_scatterBox.mpr hmem⟩

/-- The sides at the optimized variables are as they were if the node is closed or too deep. -/
theorem restrictBox_propagator (hp : p.EpigraphIsAuxiliary)
    (hr : propagator settings routine p solver node progress s = .ok r)
    (h : r.isOpen = false ∨ settings.maxDepth < node.depth) :
    p.restrictBox r.node.box = p.restrictBox node.box := by
  obtain ⟨clamped, hclamp, hout⟩ := propagator_outcome hr
  rw [← Problem.restrictBox_tightenEpigraph hp hclamp]
  cases hout with
  | tooDeep _ hnode _ => rw [hnode]
  | refuted _ _ hnode _ => rw [hnode, Node.markInfeasible]
  | tightened hdepth _ _ hopen =>
      rw [(Problem.tightenEpigraph_narrows hclamp).depth_eq] at hdepth
      rcases h with hclosed | hdeep
      · cases hopen.symm.trans hclosed
      · exact absurd hdeep (not_lt.mpr hdepth)

/-- The side at an optimized variable that is not branched on is as it was. -/
theorem side_propagator (hp : p.EpigraphIsAuxiliary)
    (hr : propagator settings routine p solver node progress s = .ok r) {i : Fin p.size}
    (hi : p.branchable[p.places[i]] = false) :
    (p.restrictBox r.node.box).side i = (p.restrictBox node.box).side i := by
  obtain ⟨clamped, hclamp, hout⟩ := propagator_outcome hr
  rw [← Problem.restrictBox_tightenEpigraph hp hclamp]
  cases hout with
  | tooDeep _ hnode _ => rw [hnode]
  | refuted _ _ hnode _ => rw [hnode, Node.markInfeasible]
  | tightened _ hprobes hnode _ =>
      have hprobed : i ∉ probed p := by
        rw [probed, List.mem_filter, hi]
        exact fun hmem ↦ Bool.false_ne_true hmem.2
      have hside := tightenSides_side hprobed hprobes
      rw [hnode]
      cases htighten : clamped.tighten? _ with
      | none => rfl
      | some node' =>
          rw [Option.getD_some, (Node.tighten?_eq_some htighten).1, Problem.side_restrictBox,
            Box.side_inter, Problem.side_scatterBox_places, hside, Problem.side_restrictBox,
            Interval.inter_self]

end

theorem propagator_isConservative (hp : p.EpigraphIsAuxiliary)
    (hsolver : ∀ constraints, AnswersWithin solver settings.backoff constraints) :
    (propagator settings routine p solver : Propagator ℝ EReal p.stored π σ).IsConservative p :=
  fun _ _ _ _ hr _ hx hbox ↦ mem_propagator hp hr
    (fun _ ↦ (hsolver _).sidesAreSound _ _ _) (eval_le_zero_of_isUseful hx hbox) hbox

end GlobalQcqp.Optimality
