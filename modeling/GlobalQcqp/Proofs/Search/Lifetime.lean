import GlobalQcqp.Proofs.Search.Stages
/-!
# The life of a node

A node waits in the pool until a turn takes it.  The turn changes it as it tightens its box and
solves its relaxation, and may end by splitting what it has become into two new nodes.  Here these
forms of a node are followed from state to state, together with the last form of the node it is a
half of.
-/

namespace GlobalQcqp.Search

variable {α β σ : Type} [Scalar α] [Scalar β] [Extended α β] {p : Problem α} (setup : Setup α β σ p)

/-- The node that the turn from `s` has taken, in the form it has in a state within the turn. -/
inductive Handles (s : Search α β σ p) : Node α β p.stored → Search α β σ p → Prop
  | taken {node s₁} (h : Takes setup s node s₁) : Handles s node s₁
  | tightened {r s₂} (h : Tightens setup s r s₂) : Handles s r.node s₂
  | bounded {node s₃} (h : BoundsBelow setup s node s₃) : Handles s node s₃
  | searched {node s₃ s₄} (h : BoundsAbove setup s node s₃ s₄) : Handles s node s₄

/-- The forms that a node has in the states of the search from its creation on, with the last form
of its parent.  The root has no parent. -/
inductive Lives (solver : σ) :
    Option (Node α β p.stored) → Node α β p.stored → Search α β σ p → Prop
  | root : Lives solver none (root p) (start setup solver)
  | waits {parent node s s'} (h : Lives solver parent node s) (hs : AtLoopHead setup solver s)
      (hvisits : Visits setup s s') (hopen : node ∈ s'.pool.nodes) : Lives solver parent node s'
  | handled {parent node form s s₁ s'} (h : Lives solver parent node s)
      (hs : AtLoopHead setup solver s) (htakes : Takes setup s node s₁)
      (hhandles : Handles setup s form s') : Lives solver parent form s'
  | born {grandparent parent half s s₃ s'} (h : Lives solver grandparent parent s₃)
      (hs : AtLoopHead setup solver s) (hbounded : BoundsBelow setup s parent s₃)
      (hhalf : Ledger.IsHalf setup parent half) (hvisits : Visits setup s s')
      (hopen : half ∈ s'.pool.nodes) : Lives solver (some parent) half s'

variable {setup} {solver : σ} {s s₁ s₂ s₃ s₄ s₅ s' : Search α β σ p}
  {node n form : Node α β p.stored} {r : Propagated α β p.stored σ}

/-! ## Nodes taken and handled -/

theorem Handles.exists_takes (h : Handles setup s form s') :
    ∃ taken s₁, Takes setup s taken s₁ := by
  cases h with
  | taken h => exact ⟨_, _, h⟩
  | tightened h =>
      obtain ⟨taken, s₁, htakes, -⟩ := h.exists_takes
      exact ⟨taken, s₁, htakes⟩
  | bounded h => exact h.exists_takes
  | searched h => exact h.boundsBelow.exists_takes

theorem Handles.visits (h : Handles setup s form s') : Visits setup s s' := by
  cases h with
  | taken h => exact .taken h
  | tightened h => exact .tightened h
  | bounded h => exact .bounded h
  | searched h => exact .searched h

/-! ## Nodes in the pool -/

theorem Tightens.mem_of_mem_pool (h : Tightens setup s r s₂) (hn : n ∈ s₂.pool.nodes) :
    n ∈ s.pool.nodes := by
  obtain ⟨htakes, -, -⟩ := h
  rw [← ledger_pool, recordTightened_ledger] at hn
  exact htakes.mem_of_mem_pool hn

theorem BoundsBelow.mem_of_mem_pool (h : BoundsBelow setup s node s₃) (hn : n ∈ s₃.pool.nodes) :
    n ∈ s.pool.nodes := by
  obtain ⟨htightens, -, -, -⟩ := h
  rw [← ledger_pool, recordLowered_ledger] at hn
  exact htightens.mem_of_mem_pool hn

theorem BoundsAbove.mem_of_mem_pool (h : BoundsAbove setup s node s₃ s₄)
    (hn : n ∈ s₄.pool.nodes) : n ∈ s.pool.nodes := by
  obtain ⟨hasks, habove⟩ := h
  exact hasks.bounded.mem_of_mem_pool ((boundAbove_ledger habove).mem_of_mem_pool hn)

theorem processBounded_mem_pool (h : processBounded setup node s = .ok s')
    (hn : n ∈ s'.pool.nodes) : n ∈ s.pool.nodes ∨ Ledger.IsHalf setup node n := by
  obtain ⟨l, habove, hend⟩ := processBounded_ledger h
  rcases hend.mem_pool hn with hn | ⟨-, hhalf⟩
  · rcases habove with rfl | ⟨-, habove⟩
    · exact Or.inl hn
    · exact Or.inl (habove.mem_of_mem_pool hn)
  · exact Or.inr hhalf

theorem Tightens.mem_pool_of_processOpen (h : Tightens setup s r s₂) (hopen : r.isOpen = true)
    (hprocess : processOpen setup r.node s₂ = .ok s₅) (hn : n ∈ s₅.pool.nodes) :
    n ∈ s.pool.nodes ∨
      ∃ parent s₃, BoundsBelow setup s parent s₃ ∧ Ledger.IsHalf setup parent n := by
  obtain ⟨c, hc, hrest⟩ := bind_eq_ok_iff.mp hprocess
  obtain ⟨lowered, hlower, -⟩ := bind_eq_ok_iff.mp hrest
  have hbounded := BoundsBelow.mk h hopen hc hlower
  rw [processOpen_eq hc hlower] at hprocess
  split at hprocess
  · cases hprocess
    exact Or.inl (hbounded.mem_of_mem_pool hn)
  · rcases processBounded_mem_pool hprocess hn with hn | hhalf
    · exact Or.inl (hbounded.mem_of_mem_pool hn)
    · exact Or.inr ⟨_, _, hbounded, hhalf⟩

/-- What is open once a node is processed was open before or is a half of its last form. -/
theorem Takes.mem_pool_of_process (h : Takes setup s node s₁)
    (hprocess : process setup node s₁ = .ok s₅) (hn : n ∈ s₅.pool.nodes) : n ∈ s.pool.nodes ∨
      ∃ parent s₃, BoundsBelow setup s parent s₃ ∧ Ledger.IsHalf setup parent n := by
  unfold process at hprocess
  split at hprocess
  · cases hprocess
    exact Or.inl (h.mem_of_mem_pool hn)
  · have hfresh := Bool.eq_false_iff.mpr ‹¬ s₁.isPrunable setup node.priority = true›
    obtain ⟨r, hr, hprocess⟩ := bind_eq_ok_iff.mp hprocess
    have htightens : Tightens setup s r (s₁.recordTightened r) := .mk h hfresh hr
    split at hprocess
    · exact htightens.mem_pool_of_processOpen ‹r.isOpen = true› hprocess hn
    · cases hprocess
      exact Or.inl (htightens.mem_of_mem_pool hn)

/-- What is open in a state of a turn was open at its start, or is a half of the node it takes. -/
theorem Visits.mem_pool (h : Visits setup s s') (hn : n ∈ s'.pool.nodes) : n ∈ s.pool.nodes ∨
    ∃ parent s₃, BoundsBelow setup s parent s₃ ∧ Ledger.IsHalf setup parent n := by
  cases h with
  | head => exact Or.inl hn
  | taken h => exact Or.inl (h.mem_of_mem_pool hn)
  | tightened h => exact Or.inl (h.mem_of_mem_pool hn)
  | bounded h => exact Or.inl (h.mem_of_mem_pool hn)
  | searched h => exact Or.inl (h.mem_of_mem_pool hn)
  | processed h hprocess => exact h.mem_pool_of_process hprocess hn
  | next h =>
      obtain ⟨node, s₁, s₅, htakes, hprocess, rfl⟩ := exists_takes h
      rw [← ledger_pool, conclude_ledger] at hn
      exact htakes.mem_pool_of_process hprocess hn

/-! ## Every node -/

theorem Visits.exists_lives (h : Visits setup s s') (hs : AtLoopHead setup solver s)
    (hlives : ∀ node ∈ s.pool.nodes, ∃ parent, Lives setup solver parent node s)
    (hn : n ∈ s'.pool.nodes) : ∃ parent, Lives setup solver parent n s' := by
  rcases h.mem_pool hn with hopen | ⟨parent, s₃, hbounded, hhalf⟩
  · obtain ⟨parent, hlive⟩ := hlives n hopen
    exact ⟨parent, hlive.waits hs h hn⟩
  · obtain ⟨taken, s₁, htakes⟩ := hbounded.exists_takes
    obtain ⟨grandparent, hlive⟩ := hlives taken htakes.mem_pool
    have hparent := hlive.handled hs htakes (.bounded hbounded)
    exact ⟨some parent, hparent.born hs hbounded hhalf h hn⟩

theorem AtLoopHead.exists_lives (hs : AtLoopHead setup solver s) :
    ∀ node ∈ s.pool.nodes, ∃ parent, Lives setup solver parent node s := by
  induction hs with
  | start =>
      intro node hnode
      rw [List.mem_singleton.mp hnode]
      exact ⟨none, .root⟩
  | next hs hturn ih => exact fun node hnode ↦ (Visits.next hturn).exists_lives hs ih hnode

theorem Handles.exists_lives (h : Handles setup s form s') (hs : AtLoopHead setup solver s) :
    ∃ parent, Lives setup solver parent form s' := by
  obtain ⟨taken, s₁, htakes⟩ := h.exists_takes
  obtain ⟨parent, hlive⟩ := hs.exists_lives taken htakes.mem_pool
  exact ⟨parent, hlive.handled hs htakes h⟩

end GlobalQcqp.Search
