import GlobalQcqp.Proofs.Epigraph.Range
import GlobalQcqp.Proofs.Epigraph.Search
import GlobalQcqp.Proofs.Search.Execution
import GlobalQcqp.Proofs.Search.Incumbent
import GlobalQcqp.Proofs.Search.Lifetime
/-!
# The range of the added variable in a search

With a sound convex solver every node has a valid priority, so its propagation keeps a sound range.
The relaxation leaves the box alone, a half has the range of its parent, and the value of the
incumbent only falls.  The range is therefore sound in every form that a node has during the search,
and it is part of the range that its parent had in the end.
-/

namespace GlobalQcqp

variable {σ : Type} {p : Problem ℝ} {i : Fin p.stored}

theorem Problem.Updates.incumbentValue_le {tol : ℝ} {a b : Progress EReal (Vector ℝ p.stored)}
    (h : p.Updates tol a b) : b.incumbentValue ≤ a.incumbentValue := by
  cases h with
  | kept h => exact h.value_eq.le
  | improved _ _ hlt _ => exact hlt.le

namespace Search

variable {setup : Setup ℝ EReal σ p} {convex : ConvexSolver ℝ EReal p.size σ}
  {localSolver : LocalSolver ℝ p.size σ} {solver : σ} {s s₁ s₂ s₃ s' : Search ℝ EReal σ p}
  {node form : Node ℝ EReal p.stored} {r : Propagated ℝ EReal p.stored σ}

/-! ## One turn -/

theorem Tightens.narrowedFrom (h : Tightens setup s r s₂) (htakes : Takes setup s node s₁)
    (hstandard : setup.IsStandard convex localSolver) : r.node.NarrowedFrom node := by
  obtain ⟨taken, s₁', htakes', htightens⟩ := h.exists_takes
  cases htakes.node_eq htakes'
  exact hstandard.narrowedFrom htightens

theorem Tightens.rangeIsSound (h : Tightens setup s r s₂) (htakes : Takes setup s node s₁)
    (hstandard : setup.IsStandard convex localSolver) (hi : p.variableAt? i = none)
    (hpriority : node.PriorityIsValid)
    (hnode : node.RangeIsSound i s.progress.incumbentValue) :
    r.node.RangeIsSound i s.progress.incumbentValue := by
  obtain ⟨taken, s₁', htakes', -, _, hr⟩ := h.exists_takes
  cases htakes.node_eq htakes'
  rw [hstandard] at hr
  rw [← htakes'.keeps.value_eq] at hnode ⊢
  exact Components.propagator_keepsRange hi hr hpriority hnode

theorem BoundsBelow.box_eq (h : BoundsBelow setup s form s₃)
    (hstandard : setup.IsStandard convex localSolver) :
    ∃ r s₂, Tightens setup s r s₂ ∧ form.box = r.node.box := by
  obtain ⟨htightens, -, hc, hlower⟩ := h
  obtain ⟨answer, -, hrecorded⟩ := hstandard.boundsBelow ⟨_, _, _, hc, hlower, rfl⟩
  exact ⟨_, _, htightens, hrecorded.box_eq⟩

/-- After its propagation the box of a node stays as it is. -/
theorem Handles.box_eq (h : Handles setup s form s') (htakes : Takes setup s node s₁)
    (hstandard : setup.IsStandard convex localSolver) :
    form.box = node.box ∨ ∃ r s₂, Tightens setup s r s₂ ∧ form.box = r.node.box := by
  cases h with
  | taken h =>
      cases htakes.node_eq h
      exact Or.inl rfl
  | tightened h => exact Or.inr ⟨_, _, h, rfl⟩
  | bounded h => exact Or.inr (h.box_eq hstandard)
  | searched h => exact Or.inr (h.boundsBelow.box_eq hstandard)

theorem Handles.box_le (h : Handles setup s form s') (htakes : Takes setup s node s₁)
    (hstandard : setup.IsStandard convex localSolver) : form.box ≤ node.box := by
  rcases h.box_eq htakes hstandard with hbox | ⟨r, s₂, htightens, hbox⟩
  · exact hbox.le
  · exact hbox.le.trans (htightens.narrowedFrom htakes hstandard).box_le

theorem Handles.rangeIsSound (h : Handles setup s form s') (htakes : Takes setup s node s₁)
    (hstandard : setup.IsStandard convex localSolver) (hi : p.variableAt? i = none)
    (hpriority : node.PriorityIsValid)
    (hnode : node.RangeIsSound i s.progress.incumbentValue) :
    form.RangeIsSound i s.progress.incumbentValue := by
  rcases h.box_eq htakes hstandard with hbox | ⟨r, s₂, htightens, hbox⟩
  · exact hnode.of_box_le hbox.le (congrArg (·.side i) hbox)
  · have hr := htightens.rangeIsSound htakes hstandard hi hpriority hnode
    exact hr.of_box_le hbox.le (congrArg (·.side i) hbox)

/-- The value of the incumbent does not rise within a turn. -/
theorem Visits.incumbentValue_le (h : Visits setup s s') (hs : AtLoopHead setup solver s)
    (hstandard : setup.IsStandard convex localSolver) (hp : p.EpigraphIsAdded) :
    s'.progress.incumbentValue ≤ s.progress.incumbentValue :=
  (h.updates hstandard hp (hs.forall_open hstandard.preserves_isInside)).incumbentValue_le

/-! ## A run -/

/-- Along the life of a node its range stays sound, and part of the range that its parent had. -/
theorem Lives.rangeIsSound {parent : Option (Node ℝ EReal p.stored)}
    (h : Lives setup solver parent node s) (hstandard : setup.IsStandard convex localSolver)
    (hconvex : convex.IsSound) (hp : p.EpigraphIsAdded) (hi : p.IsEpigraphAt i) :
    node.RangeIsSound i s.progress.incumbentValue ∧
      ∀ q ∈ parent, node.box.side i ≤ q.box.side i := by
  induction h with
  | root => exact ⟨Node.rangeIsSound_root hi _, nofun⟩
  | waits _ hs hvisits _ ih =>
      exact ⟨ih.1.anti (hvisits.incumbentValue_le hs hstandard hp), ih.2⟩
  | handled _ hs htakes hhandles ih =>
      have hvalid := hs.forall_open (hstandard.preserves_isValid hconvex) _ htakes.mem_pool
      have hpriority := hvalid.priorityIsValid
      have hform := hhandles.rangeIsSound htakes hstandard hi.isAuxiliary hpriority ih.1
      refine ⟨hform.anti (hhandles.visits.incumbentValue_le hs hstandard hp), fun q hq ↦ ?_⟩
      exact (hhandles.box_le htakes hstandard i).trans (ih.2 q hq)
  | born _ hs hbounded hhalf hvisits _ ih =>
      have hside := hhalf.side_eq hi.not_branchable
      have hrange := ih.1.of_box_le hhalf.box_le hside
      rw [hbounded.keeps.value_eq] at hrange
      refine ⟨hrange.anti (hvisits.incumbentValue_le hs hstandard hp), fun q hq ↦ ?_⟩
      cases hq
      exact hside.le

/-- Every node that is open or handled in a state of the search is alive there.  While it lives, its
range of an added epigraph variable is sound and part of the range of its parent. -/
theorem epigraph_range_stays_sound {q : Problem ℝ} (hq : q.epigraph = none)
    (hadded : q.withEpigraph = .ok p) (hstandard : setup.IsStandard convex localSolver)
    (hconvex : convex.IsSound) (solver : σ) : ∃ i, p.IsEpigraphAt i ∧
      (∀ s s' node, AtLoopHead setup solver s → Visits setup s s' → node ∈ s'.pool.nodes →
        ∃ parent, Lives setup solver parent node s') ∧
      (∀ s s' node, AtLoopHead setup solver s → Handles setup s node s' →
        ∃ parent, Lives setup solver parent node s') ∧
      ∀ parent node s, Lives setup solver parent node s →
        node.RangeIsSound i s.progress.incumbentValue ∧
          ∀ q ∈ parent, node.box.side i ≤ q.box.side i := by
  obtain ⟨i, hi⟩ := Problem.exists_isEpigraphAt hq hadded
  refine ⟨i, hi, fun s s' node hs hvisits hopen ↦ ?_, fun s s' node hs hhandles ↦ ?_,
    fun parent node s hlives ↦ ?_⟩
  · exact hvisits.exists_lives hs hs.exists_lives hopen
  · exact hhandles.exists_lives hs
  · exact hlives.rangeIsSound hstandard hconvex (Or.inr ⟨q, hq, hadded⟩) hi

/-- On the line the range of every open node holds the values that are not worse than the
incumbent. -/
theorem line_epigraph_range : ∃ h, (Line.problem []).withEpigraph =
      .ok ((Line.problem []).addEpigraph (Line.problem []).objectiveRange h) ∧
    let setup := (Line.setup [] 1).addEpigraph Tangent.rangeSolver Line.noAnswer _ h
    (start setup ()).pool.nodes ≠ [] ∧ ∃ i, ∀ s, AtLoopHead setup () s →
      ∀ node ∈ s.pool.nodes, node.RangeIsSound i s.progress.incumbentValue := by
  obtain ⟨h, hadded⟩ := Problem.withEpigraph_eq_ok (p := Line.problem []) rfl
  have hstandard : ((Line.setup [] 1).addEpigraph Tangent.rangeSolver Line.noAnswer _ h).IsStandard
      Tangent.rangeSolver Line.noAnswer := rfl
  obtain ⟨i, -, hopen, -, hsound⟩ :=
    epigraph_range_stays_sound rfl hadded hstandard Tangent.rangeSolver_isSound ()
  refine ⟨h, hadded, List.cons_ne_nil _ _, i, fun s hs node hnode ↦ ?_⟩
  obtain ⟨parent, hlives⟩ := hopen s s node hs .head hnode
  exact (hsound parent node s hlives).1

end Search

end GlobalQcqp
