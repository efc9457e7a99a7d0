import GlobalQcqp.Proofs.Candidate
import GlobalQcqp.Proofs.Search.Frames
import GlobalQcqp.Proofs.Search.Parts
/-!
# Nodes of a standard search

Whatever the solvers answer, a node stays inside the root box as it is tightened and split, and what
is found in it is a certified candidate of its box.  With a sound convex solver its bound is below
every feasible value in its box.
-/

namespace GlobalQcqp

variable {σ : Type} {p : Problem ℝ}

namespace Ledger.IsHalf

variable {setup : Setup ℝ EReal σ p} {node half : Node ℝ EReal p.stored}

theorem isProper (h : IsHalf setup node half) : half.box.IsProper := by
  obtain ⟨i, value, id, left, right, -, -, hsplit, rfl | rfl⟩ := h
  · exact (Node.split?_eq_ok_iff.mp hsplit).2.1
  · exact (Node.split?_eq_ok_iff.mp hsplit).2.2

theorem box_le (h : IsHalf setup node half) : half.box ≤ node.box := by
  obtain ⟨i, value, id, left, right, -, -, hsplit, rfl | rfl⟩ := h
  · exact (Node.split?_box_le hsplit).1
  · exact (Node.split?_box_le hsplit).2

theorem bound_eq (h : IsHalf setup node half) : half.bound = node.bound := by
  rw [h.frame, Node.bound_eq_max]
  exact max_eq_left bot_le

end Ledger.IsHalf

/-- The box of the node is part of the root box, and no side of it is crossed. -/
structure Node.IsInside (node : Node ℝ EReal p.stored) : Prop where
  isProper : node.box.IsProper
  box_le : node.box ≤ p.box

/-- The node is inside the root box, and a relaxed point that it has is a stored vector. -/
structure Node.IsWellFormed (node : Node ℝ EReal p.stored) : Prop extends node.IsInside where
  relaxed_size : ∀ x ∈ node.relaxed, x.size = p.stored

/-- The node is inside the root box and its bound is below every feasible value in its box. -/
structure Node.IsValid (node : Node ℝ EReal p.stored) : Prop extends node.IsInside where
  bound_le : ∀ y ∈ p.feasibleSet, y ∈ p.restrictBox node.box → node.bound ≤ p.objective.eval y

namespace Setup.IsStandard

variable {setup : Setup ℝ EReal σ p} {convex : ConvexSolver ℝ EReal p.size σ}
  {localSolver : LocalSolver ℝ p.size σ} {l : Ledger EReal p}
  {node bounded : Node ℝ EReal p.stored}

theorem depth_eq_of_refines (h : setup.IsStandard convex localSolver)
    (hrefines : l.Refines setup node bounded) : bounded.depth = node.depth :=
  hrefines.depth_eq (Setup.keepsDepths h)

/-- The box of a refined node is at most tightened. -/
theorem box_le_of_refines (h : setup.IsStandard convex localSolver)
    (hrefines : l.Refines setup node bounded) : bounded.box ≤ node.box := by
  obtain ⟨r, hr, -, hbelow, -⟩ := hrefines
  obtain ⟨answer, -, hrecorded⟩ := h.boundsBelow hbelow
  rw [hrecorded.box_eq]
  exact (h.narrowedFrom hr).box_le

theorem isInside_of_refines (h : setup.IsStandard convex localSolver)
    (hrefines : l.Refines setup node bounded) (hnode : node.IsInside) : bounded.IsInside := by
  refine ⟨?_, (h.box_le_of_refines hrefines).trans hnode.box_le⟩
  obtain ⟨r, hr, -, hbelow, -⟩ := hrefines
  obtain ⟨answer, -, hrecorded⟩ := h.boundsBelow hbelow
  rw [hrecorded.box_eq]
  exact (h.narrowedFrom hr).isProper hnode.isProper

theorem preserves_isInside (h : setup.IsStandard convex localSolver) :
    setup.Preserves Node.IsInside where
  root := ⟨p.box_isProper, le_refl p.box⟩
  refine hnode hrefines := h.isInside_of_refines hrefines hnode
  half hnode hhalf := ⟨hhalf.isProper, hhalf.box_le.trans hnode.box_le⟩

theorem isWellFormed_of_propagate (h : setup.IsStandard convex localSolver)
    (hnode : node.IsWellFormed) {progress : Progress EReal (Vector ℝ p.stored)} {s : σ}
    {r : Propagated ℝ EReal p.stored σ} (hr : setup.parts.propagate node progress s = .ok r) :
    r.node.IsWellFormed := by
  rw [h] at hr
  have hnarrowed := Components.propagator_isNarrowing hr
  have hrelaxed : r.node.relaxed = node.relaxed := by
    rw [hnarrowed.frame]
  exact ⟨⟨hnarrowed.isProper hnode.isProper, hnarrowed.box_le.trans hnode.box_le⟩,
    hrelaxed ▸ hnode.relaxed_size⟩

theorem isWellFormed_of_lower (h : setup.IsStandard convex localSolver)
    (hnode : node.IsWellFormed) {c : ConvexProblem ℝ p.size} {s : σ}
    {r : Lowered ℝ EReal p.stored σ} (hr : setup.parts.lower node c s = .ok r) :
    r.node.IsWellFormed := by
  rw [h] at hr
  obtain ⟨answer, -, hrecorded⟩ := Lower.solve_eq_ok hr
  have hbox := hrecorded.box_eq
  refine ⟨⟨hbox ▸ hnode.isProper, hbox ▸ hnode.box_le⟩, ?_⟩
  generalize r.node = bounded at hrecorded
  cases hrecorded with
  | refuted _ => exact hnode.relaxed_size
  | bounded _ _ x => simp
  | kept _ => exact hnode.relaxed_size

theorem preserves_isWellFormed (h : setup.IsStandard convex localSolver) :
    setup.Preserves Node.IsWellFormed where
  root := ⟨h.preserves_isInside.root, fun x hx ↦ absurd hx (Option.not_mem_none x)⟩
  refine hnode hrefines := by
    obtain ⟨r, ⟨-, s, hr⟩, -, ⟨c, s', lowered, -, hlower, rfl⟩, -⟩ := hrefines
    exact h.isWellFormed_of_lower (h.isWellFormed_of_propagate hnode hr) hlower
  half hnode hhalf := by
    refine ⟨h.preserves_isInside.half hnode.toIsInside hhalf, ?_⟩
    rw [hhalf.frame]
    exact hnode.relaxed_size

/-- The bound of a refined node is still below the feasible values that are left in its box. -/
theorem isValid_of_refines (h : setup.IsStandard convex localSolver) (hconvex : convex.IsSound)
    (hrefines : l.Refines setup node bounded) (hnode : node.IsValid) : bounded.IsValid := by
  refine ⟨h.isInside_of_refines hrefines hnode.toIsInside, fun y hy hbox ↦ ?_⟩
  obtain ⟨r, hr, -, hbelow, -⟩ := hrefines
  obtain ⟨answer, -, hrecorded⟩ := h.boundsBelow hbelow
  have hnarrowed := h.narrowedFrom hr
  rw [hrecorded.box_eq] at hbox
  have hpriority : r.node.priority ≤ p.objective.eval y :=
    calc r.node.priority = node.priority := hnarrowed.priority_eq
      _ ≤ node.bound := node.priority_le_bound
      _ ≤ p.objective.eval y := by
        refine hnode.bound_le y hy ?_
        exact Box.mem_of_le (Problem.restrictBox_le hnarrowed.box_le) hbox
  exact (h.holds_of_boundsBelow hconvex hbelow hy ⟨hbox, hpriority⟩).2.2

theorem preserves_isValid (h : setup.IsStandard convex localSolver) (hconvex : convex.IsSound) :
    setup.Preserves Node.IsValid where
  root := by
    refine ⟨h.preserves_isInside.root, fun y _ _ ↦ ?_⟩
    rw [Node.bound_eq_max]
    exact max_le bot_le bot_le
  refine hnode hrefines := h.isValid_of_refines hconvex hrefines hnode
  half hnode hhalf := by
    refine ⟨h.preserves_isInside.half hnode.toIsInside hhalf, fun y hy hbox ↦ ?_⟩
    rw [hhalf.bound_eq]
    exact hnode.bound_le y hy (Box.mem_of_le (Problem.restrictBox_le hhalf.box_le) hbox)

/-- What is found in a node is a certified candidate of its box. -/
theorem isCertified (h : setup.IsStandard convex localSolver) (hbox : node.box.IsProper) {s : σ}
    {c : Candidate ℝ p.size} (hfound : (setup.parts.upper node s).result = .ok c) :
    c.IsCertified p (p.restrictBox node.box) setup.options.feasibilityTol := by
  have hbox := Problem.restrictBox_isProper hbox
  rw [h] at hfound
  simp only [Components.standard, Components.boundAbove] at hfound
  split at hfound
  · exact Candidate.search_isCertified hbox hfound
  · split at hfound
    · cases hfound
    · exact Candidate.search_isCertified hbox hfound

end Setup.IsStandard

end GlobalQcqp
