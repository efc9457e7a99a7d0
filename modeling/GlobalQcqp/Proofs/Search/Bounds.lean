import GlobalQcqp.Proofs.Search.Run
import GlobalQcqp.Proofs.Search.Threshold
/-!
# Bounds at loop heads

At every loop head the open nodes lie below the prune threshold and not below the global lower
bound, and neither do the bounds that were set aside.  This asks nothing of the solvers, only that
the bound of a node is never below the priority it was taken with.
-/

namespace GlobalQcqp

variable {σ : Type} {p : Problem ℝ}

/-- Tightening a node leaves its priority alone, and its new bound does not lie below it. -/
structure Setup.RaisesBounds (setup : Setup ℝ EReal σ p) : Prop where
  tighten : ∀ {l : Ledger EReal p} {node r}, l.Tightens setup node r →
    r.node.priority = node.priority
  lower : ∀ {node bounded}, Ledger.BoundsBelow setup node bounded → node.priority ≤ bounded.bound

namespace Ledger

variable {setup : Setup ℝ EReal σ p} {l l' : Ledger EReal p}
  {node bounded half : Node ℝ EReal p.stored}

/-- What is known of the bounds in a ledger. -/
structure BoundsHold (setup : Setup ℝ EReal σ p) (l : Ledger EReal p) : Prop where
  measured : l.progress.IsMeasured
  open_lt : ∀ node ∈ l.pool.nodes, node.priority < setup.pruneThreshold l.progress
  le_open : ∀ node ∈ l.pool.nodes, l.progress.lowerBound ≤ node.priority
  le_resolution : l.progress.lowerBound ≤ l.progress.resolutionBound
  resolution : l.progress.resolutionNodes = 0 → l.progress.resolutionBound = ⊤

theorem start_boundsHold (setup : Setup ℝ EReal σ p) : (start setup).BoundsHold setup where
  measured := ⟨fun _ ↦ rfl, nofun⟩
  open_lt node hnode := by
    rw [List.mem_singleton.mp hnode, Setup.pruneThreshold_eq_top rfl]
    exact bot_lt_top
  le_open node hnode := bot_le
  le_resolution := bot_le
  resolution _ := rfl

theorem BoundsHold.take (h : l.BoundsHold setup) (time : EReal) {pool : Pool ℝ EReal p.stored}
    (hpool : ∀ node ∈ pool.nodes, node ∈ l.pool.nodes) : (l.take time pool).BoundsHold setup where
  measured := h.measured
  open_lt node hnode := h.open_lt node (hpool node hnode)
  le_open node hnode := h.le_open node (hpool node hnode)
  le_resolution := h.le_resolution
  resolution := h.resolution

theorem BoundAbove.boundsHold (h : l.BoundAbove setup node l') (hl : l.BoundsHold setup) :
    l'.BoundsHold setup := by
  cases h with
  | missed => exact ⟨hl.measured, hl.open_lt, hl.le_open, hl.le_resolution, hl.resolution⟩
  | @improved _ c _ _ _ _ =>
      refine ⟨⟨nofun, fun _ ↦ ⟨c.value, rfl⟩⟩, ?_, ?_, hl.le_resolution, hl.resolution⟩
      · intro node hnode
        exact (Pool.mem_prune.mp hnode).2
      · intro node hnode
        exact hl.le_open node (Pool.mem_prune.mp hnode).1

theorem Refines.priority_le (h : l.Refines setup node bounded) (hraises : setup.RaisesBounds) :
    node.priority ≤ bounded.bound := by
  obtain ⟨r, hr, -, hlower, -⟩ := h
  rw [← hraises.tighten hr]
  exact hraises.lower hlower

theorem IsHalf.priority_eq (h : IsHalf setup node half) : half.priority = node.bound := by
  obtain ⟨i, value, id, left, right, -, -, hsplit, rfl | rfl⟩ := h
  · exact (Node.split_priority (Node.split?_eq_ok hsplit)).1
  · exact (Node.split_priority (Node.split?_eq_ok hsplit)).2

theorem Ending.pruneThreshold_eq (h : l.Ending setup node l') :
    setup.pruneThreshold l'.progress = setup.pruneThreshold l.progress := by
  cases h <;> rfl

theorem Ending.le_resolution {a : EReal} (h : l.Ending setup node l')
    (hl : a ≤ l.progress.resolutionBound) (hnode : a ≤ node.bound) :
    a ≤ l'.progress.resolutionBound := by
  cases h with
  | pruned _ => exact hl
  | tooNarrow _ _ =>
      simp only [setAside, Scalar.min_ereal]
      exact le_min hl hnode
  | split _ _ _ _ => exact hl

theorem Ending.boundsHold (h : l.Ending setup node l') (hl : l.BoundsHold setup)
    (hnode : l.progress.lowerBound ≤ node.bound) : l'.BoundsHold setup := by
  have hresolution := h.le_resolution hl.le_resolution hnode
  refine ⟨?_, ?_, ?_, h.agrees.lowerBound_eq ▸ hresolution, ?_⟩
  · cases h <;> exact hl.measured
  · intro n hn
    rw [h.pruneThreshold_eq]
    rcases h.mem_pool hn with hn | ⟨hbound, hhalf⟩
    · exact hl.open_lt n hn
    · rw [hhalf.priority_eq]
      exact not_le.mp hbound
  · intro n hn
    rw [h.agrees.lowerBound_eq]
    rcases h.mem_pool hn with hn | ⟨_, hhalf⟩
    · exact hl.le_open n hn
    · rw [hhalf.priority_eq]
      exact hnode
  · cases h with
    | pruned _ => exact hl.resolution
    | tooNarrow _ _ => exact nofun
    | split _ _ _ _ => exact hl.resolution

theorem Process.boundsHold (h : l.Process setup node l') (hraises : setup.RaisesBounds)
    (hl : l.BoundsHold setup) (hnode : l.progress.lowerBound ≤ node.priority) :
    l'.BoundsHold setup := by
  have same {l' : Ledger EReal p} (hpool : l'.pool = l.pool)
      (hprogress : ∃ a b c d, l'.progress = { l.progress with
        nodesPruned := a, nodesInfeasible := b, lowerSolves := c, lowerFailures := d }) :
      l'.BoundsHold setup := by
    obtain ⟨a, b, c, d, hprogress⟩ := hprogress
    cases l'
    cases hpool
    cases hprogress
    exact ⟨hl.measured, hl.open_lt, hl.le_open, hl.le_resolution, hl.resolution⟩
  cases h with
  | stale _ => exact same rfl ⟨_, _, _, _, rfl⟩
  | closed _ _ => exact same rfl ⟨_, _, _, _, rfl⟩
  | refuted _ _ _ _ => exact same rfl ⟨_, _, _, _, rfl⟩
  | @bounded r bounded l₁ _ hr _ hlower _ habove hend =>
      have hcounted : (l.countLower bounded.status).BoundsHold setup := same rfl ⟨_, _, _, _, rfl⟩
      have hbound : l.progress.lowerBound ≤ bounded.bound :=
        hnode.trans (hraises.tighten hr ▸ hraises.lower hlower)
      rcases habove with rfl | ⟨_, habove⟩
      · exact hend.boundsHold hcounted hbound
      · exact hend.boundsHold (habove.boundsHold hcounted) (habove.agrees.lowerBound_eq ▸ hbound)

/-! ## The global lower bound -/

/-- The least bound still outstanding. -/
noncomputable def outstanding (l : Ledger EReal p) : EReal :=
  min l.pool.minBound l.progress.resolutionBound

theorem raisedBound_eq (l : Ledger EReal p) : l.raisedBound =
    if l.outstanding = ⊤ ∧ l.progress.hasIncumbent = false then l.progress.lowerBound
    else max l.progress.lowerBound (min l.outstanding l.progress.incumbentValue) := by
  have hwaits (a : EReal) : (Scalar.isFinite a || !decide (0 < a)) = decide (a ≠ ⊤) := by
    rw [Bool.eq_iff_iff]
    simp only [Bool.or_eq_true, Scalar.isFinite_ereal, Bool.not_eq_true', decide_eq_false_iff_not,
      decide_eq_true_iff, not_lt]
    constructor
    · rintro (⟨_, h⟩ | h)
      · exact h
      · exact (h.trans_lt EReal.zero_lt_top).ne
    · intro h
      by_cases hbot : a = ⊥
      · exact Or.inr (hbot ▸ bot_le)
      · exact Or.inl ⟨hbot, h⟩
  simp only [raisedBound, Scalar.min_ereal, Scalar.max_ereal, hwaits, outstanding]
  by_cases htop : min l.pool.minBound l.progress.resolutionBound = ⊤
  · simp [htop]
  · simp [htop]

theorem raisedBound_of_hasIncumbent (h : l.progress.hasIncumbent = true) : l.raisedBound =
    max l.progress.lowerBound (min l.outstanding l.progress.incumbentValue) := by
  rw [raisedBound_eq, if_neg]
  rintro ⟨-, hnone⟩
  exact absurd (h.symm.trans hnone) (by decide)

theorem le_outstanding (h : l.BoundsHold setup) : l.progress.lowerBound ≤ l.outstanding :=
  le_min (Pool.le_minBound_iff.mpr h.le_open) h.le_resolution

theorem raisedBound_le_outstanding (h : l.BoundsHold setup) : l.raisedBound ≤ l.outstanding := by
  rw [raisedBound_eq]
  split
  · exact le_outstanding h
  · exact max_le (le_outstanding h) (min_le_left _ _)

theorem BoundsHold.updateLowerBound (h : l.BoundsHold setup) :
    l.updateLowerBound.BoundsHold setup where
  measured := h.measured
  open_lt := h.open_lt
  le_open := Pool.le_minBound_iff.mp ((raisedBound_le_outstanding h).trans (min_le_left _ _))
  le_resolution := (raisedBound_le_outstanding h).trans (min_le_right _ _)
  resolution := h.resolution

theorem Turn.boundsHold (h : l.Turn setup l') (hraises : setup.RaisesBounds)
    (hl : l.BoundsHold setup) : l'.BoundsHold setup := by
  cases h with
  | @mk time node pool _ _ _ hpop hprocess =>
      have hperm := Pool.pop?_perm hpop
      have htaken : (l.take time pool).BoundsHold setup :=
        hl.take time fun node hnode ↦ hperm.mem_iff.mpr (List.mem_cons_of_mem _ hnode)
      have hnode := hl.le_open node (hperm.mem_iff.mpr List.mem_cons_self)
      exact (hprocess.boundsHold hraises htaken hnode).updateLowerBound

/-- A turn raises the lower bound to the least bound outstanding, clipped to the incumbent value. -/
theorem Turn.lowerBound_eq (h : l.Turn setup l')
    (hknown : ¬ (l'.outstanding = ⊤ ∧ l'.progress.hasIncumbent = false)) :
    l'.progress.lowerBound =
      max l.progress.lowerBound (min l'.outstanding l'.progress.incumbentValue) := by
  cases h with
  | @mk _ _ _ l₁ _ _ _ hprocess =>
      -- only the bound itself differs from the ledger it is read off
      have hraised : l₁.raisedBound =
          max l₁.progress.lowerBound (min l₁.outstanding l₁.progress.incumbentValue) :=
        (raisedBound_eq l₁).trans (if_neg hknown)
      rw [hprocess.agrees.lowerBound_eq] at hraised
      exact hraised

theorem Turn.lowerBound_eq_of_hasIncumbent (h : l.Turn setup l')
    (hinc : l'.progress.hasIncumbent = true) : l'.progress.lowerBound =
      max l.progress.lowerBound (min l'.outstanding l'.progress.incumbentValue) := by
  refine h.lowerBound_eq ?_
  rintro ⟨-, hnone⟩
  exact absurd (hinc.symm.trans hnone) (by decide)

end Ledger

theorem Search.AtLoopHead.boundsHold {setup : Setup ℝ EReal σ p} {solver : σ}
    {s : Search ℝ EReal σ p} (hs : AtLoopHead setup solver s) (hraises : setup.RaisesBounds) :
    s.ledger.BoundsHold setup :=
  hs.ledger_induction (Ledger.start_boundsHold setup) fun _ _ hl h ↦ h.boundsHold hraises hl

end GlobalQcqp
