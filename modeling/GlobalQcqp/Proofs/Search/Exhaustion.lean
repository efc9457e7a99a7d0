import GlobalQcqp.Proofs.Search.Results
/-!
# Verdicts at exhaustion

A search that runs out of open nodes decides by the gap between the incumbent and the global lower
bound, a running maximum that is clipped to the incumbents.  That comes to comparing the least bound
that was set aside with the final prune threshold: the bound kept from before was below the nodes
open then, and the last turn raised it to all that is still outstanding.
-/

namespace GlobalQcqp

variable {σ : Type} {p : Problem ℝ}

namespace Setup

variable {setup : Setup ℝ EReal σ p} {s : Progress EReal (Vector ℝ p.stored)}

/-- With finite gaps an incumbent puts the threshold at a finite place. -/
theorem bot_lt_pruneThreshold (hgaps : setup.HasFiniteGaps) (hs : s.IsMeasured) :
    ⊥ < setup.pruneThreshold s := by
  obtain ⟨a, r, -, -, -, -, hgap⟩ := hgaps.exists_real
  cases hinc : s.hasIncumbent with
  | false =>
      rw [pruneThreshold_eq_top hinc]
      exact bot_lt_top
  | true =>
      obtain ⟨v, hv⟩ := hs.2 hinc
      rw [pruneThreshold_eq hinc hv, hgap, ← EReal.coe_sub]
      exact EReal.bot_lt_coe _

end Setup

namespace Search

variable {setup : Setup ℝ EReal σ p} {solver : σ} {s : Search ℝ EReal σ p}

theorem AtLoopHead.lowerBound_lt_top_of_empty (hs : AtLoopHead setup solver s)
    (hraises : setup.RaisesBounds) (hpool : s.pool.nodes = [])
    (hinc : s.progress.hasIncumbent = true) : s.progress.lowerBound < ⊤ := by
  obtain ⟨before, hbefore, hopen, hraised⟩ := hs.exists_before_of_empty hpool hinc
  obtain ⟨v, hv⟩ := (hs.boundsHold hraises).measured.2 hinc
  obtain ⟨node, hnode⟩ := List.exists_mem_of_ne_nil _ hopen
  rw [hraised]
  refine max_lt ?_ ?_
  · have hbounds := hbefore.boundsHold hraises
    exact (hbounds.le_open node hnode).trans_lt ((hbounds.open_lt node hnode).trans_le le_top)
  · rw [← ledger_progress, hv]
    exact (min_le_right _ _).trans_lt (EReal.coe_lt_top v)

/-- Once no node is open, the gap is closed exactly if all that was set aside lies at or above the
threshold. -/
theorem AtLoopHead.isGapClosed_iff_of_empty (hs : AtLoopHead setup solver s)
    (hraises : setup.RaisesBounds) (hgaps : setup.HasFiniteGaps) (hpool : s.pool.nodes = [])
    (hinc : s.progress.hasIncumbent = true) : setup.isGapClosed s.progress = true ↔
      setup.pruneThreshold s.progress ≤ s.progress.resolutionBound := by
  have hbounds := hs.boundsHold hraises
  refine (Setup.isGapClosed_iff hbounds.measured).trans ?_
  constructor
  · rintro ⟨-, -, hle⟩
    exact hle.trans hbounds.le_resolution
  · intro hle
    obtain ⟨before, -, -, hraised⟩ := hs.exists_before_of_empty hpool hinc
    have hvalue : setup.pruneThreshold s.progress ≤ s.progress.incumbentValue :=
      Setup.pruneThreshold_le_value hgaps hbounds.measured
    have hlower : setup.pruneThreshold s.progress ≤ s.progress.lowerBound := by
      rw [hraised]
      exact (le_min hle hvalue).trans (le_max_right _ _)
    have hbot : ⊥ < s.progress.lowerBound :=
      (Setup.bot_lt_pruneThreshold hgaps hbounds.measured).trans_le hlower
    have htop := hs.lowerBound_lt_top_of_empty hraises hpool hinc
    exact ⟨hinc, (Scalar.isFinite_ereal _).mpr ⟨hbot.ne', htop.ne⟩, hlower⟩

/-! ## The three verdicts -/

theorem exhausted_eq_infeasible_iff : exhausted setup s = .infeasible ↔
    s.progress.hasIncumbent = false ∧ s.progress.resolutionNodes = 0 := by
  refine ⟨exhausted_eq_infeasible, ?_⟩
  rintro ⟨hnone, hnodes⟩
  simp [exhausted, hnone, hnodes]

theorem exhausted_eq_converged_iff : exhausted setup s = .converged ↔
    s.progress.hasIncumbent = true ∧
      (s.progress.resolutionNodes = 0 ∨ setup.isGapClosed s.progress = true) := by
  refine ⟨exhausted_eq_converged, ?_⟩
  rintro ⟨hinc, hnodes | hgap⟩
  · simp [exhausted, hinc, hnodes]
  · exact exhausted_of_isGapClosed hgap

theorem exhausted_cases (setup : Setup ℝ EReal σ p) (s : Search ℝ EReal σ p) :
    exhausted setup s = .infeasible ∨ exhausted setup s = .converged ∨
      exhausted setup s = .resolutionLimit := by
  unfold exhausted
  split
  · exact Or.inr (Or.inr rfl)
  · split
    · exact Or.inr (Or.inl rfl)
    · exact Or.inl rfl

end Search

/-! ## A search that sets its root aside -/

namespace Line

/-- The unit interval itself is too narrow to be split. -/
noncomputable def narrowSetup : Setup ℝ EReal Unit (problem []) :=
  { setup [] 0 with options := { options 0 with minWidth := 1 } }

noncomputable def narrowTree : SearchTree ℝ EReal Unit (problem []) :=
  ⟨narrowSetup, .initialized, none⟩

theorem narrowSetup_isStandard : narrowSetup.IsStandard Tangent.rangeSolver noAnswer :=
  rfl

theorem narrowSetup_hasFiniteGaps : narrowSetup.HasFiniteGaps where
  abs_nonneg := le_rfl
  abs_ne_top := EReal.zero_ne_top
  rel_nonneg := le_rfl
  rel_ne_top := EReal.zero_ne_top

theorem narrowSetup_pruneThreshold_found :
    narrowSetup.pruneThreshold (found 0).progress = (0.5 : ℝ) := by
  have h : narrowSetup.pruneThreshold (found 0).progress = ((0.5 : ℝ) : EReal) - max 0 0 :=
    pruneThreshold_found
  rw [h, max_self, sub_zero]

theorem exists_process_narrow {s : Search ℝ EReal Unit (problem [])}
    (hs : s.ledger = taken [] 0) :
    ∃ s', Search.process narrowSetup (Search.root (problem [])) s = .ok s' ∧
      s'.ledger = (found 0).setAside 0 := by
  have hnone : s.progress.hasIncumbent = false := by
    rw [← Search.ledger_progress, hs]
    rfl
  have hfresh : ¬ narrowSetup.pruneThreshold s.progress ≤
      (Search.root (problem []) : Node ℝ EReal 1).priority := by
    rw [Setup.pruneThreshold_eq_top hnone]
    exact bot_lt_top.not_ge
  obtain ⟨s₁, -, hs₁, hprocess⟩ := Search.exists_process hfresh rfl rfl
  have hrelaxation : (problem []).relaxation? narrowSetup.routine _ = _ := relaxation?_root
  have hlower : narrowSetup.parts.lower (Search.root (problem []))
      ⟨.coordinate 0 1, [], unit⟩ s₁.solver = .ok ⟨bounded, [], ()⟩ := lower_root
  obtain ⟨s₂, -, hs₂, hopen⟩ := Search.exists_processOpen hrelaxation hlower
  rw [hs₁, hs] at hs₂
  have hbound : ¬ narrowSetup.pruneThreshold s₂.progress ≤ bounded.bound :=
    not_isPrunable_bounded hs₂
  obtain ⟨s₃, habove, hs₃⟩ := exists_boundAbove_root hs₂
  have hdue : narrowSetup.isUpperDue bounded s₂.progress = true := rfl
  have hbounded := Search.processBounded_of_due hbound hdue habove
  have hthreshold : ¬ narrowSetup.pruneThreshold s₃.progress ≤ bounded.bound := by
    rw [← Search.ledger_progress, hs₃, narrowSetup_pruneThreshold_found, bound_bounded, not_le]
    exact EReal.coe_pos.mpr (by norm_num)
  rw [if_neg hthreshold] at hbounded
  have hselect : Branching.select narrowSetup.options.branching (problem []).branchable
      (problem []).box.widths narrowSetup.options.minWidth bounded = .ok none := by
    simp [Branching.select, Branching.eligible, List.finRange_succ, Box.widths, Branching.widest?,
      firstLargest?, narrowSetup, setup, options, Search.root, Node.fresh]
  have hbranch : Search.branch narrowSetup bounded s₃ = .ok { s₃ with
      progress := { s₃.progress with
        resolutionBound := Scalar.min s₃.progress.resolutionBound bounded.bound
        resolutionNodes := s₃.progress.resolutionNodes + 1 } } := by
    simp only [Search.branch, hselect]
  refine ⟨_, hprocess.trans (hopen.trans (hbounded.trans hbranch)), ?_⟩
  rw [← hs₃, ← bound_bounded]
  rfl

/-- The root is bounded by zero, the incumbent has value one half, and the gap stays open. -/
theorem solve_narrow : ∃ result t' s, narrowTree.solve () = .ok (result, t') ∧
    t'.search = some s ∧ s.pool.nodes = [] ∧ s.progress.hasIncumbent = true ∧
    s.progress.resolutionNodes = 1 ∧ s.progress.resolutionBound = 0 ∧
    narrowSetup.pruneThreshold s.progress = (0.5 : ℝ) := by
  obtain ⟨s', hprocess, hs'⟩ := exists_process_narrow (s := { polled [] 0 with
    pool := (taken [] 0).pool
    progress := (taken [] 0).progress }) rfl
  have hverdict : Search.verdict? narrowSetup
      (Search.tick narrowSetup (Search.start narrowSetup ())) = (none, polled [] 0) :=
    verdict?_start
  obtain ⟨s, hturn, hs⟩ := Search.exists_turn hverdict pop?_polled hprocess
  rw [hs'] at hs
  have hpool : s.pool.nodes = [] := congrArg (·.pool.nodes) hs
  have hprogress : s.progress = ((found 0).setAside 0).updateLowerBound.progress :=
    congrArg Ledger.progress hs
  refine ⟨_, _, _, SearchTree.solve_of_pool_eq_nil (t := narrowTree) rfl hturn hpool rfl, rfl,
    hpool, ?_, ?_, ?_, ?_⟩
  · exact congrArg Progress.hasIncumbent hprogress
  · exact congrArg Progress.resolutionNodes hprogress
  · have hmin : Scalar.min (⊤ : EReal) 0 = 0 := (Scalar.min_ereal _ _).trans (min_eq_right le_top)
    exact (congrArg Progress.resolutionBound hprogress).trans hmin
  · have hthreshold : narrowSetup.pruneThreshold s.progress = (0.5 : ℝ) := by
      rw [hprogress]
      exact narrowSetup_pruneThreshold_found
    exact hthreshold

end Line

namespace SearchTree

variable {t t' : SearchTree ℝ EReal σ p} {solver : σ} {result : SearchResult ℝ EReal p}
  {convex : ConvexSolver ℝ EReal p.size σ} {localSolver : LocalSolver ℝ p.size σ}

/-- A search that runs out of nodes is infeasible if it has neither an incumbent nor a bound set
aside, converged if it has an incumbent and no bound set aside is below the final threshold, and at
its resolution limit otherwise. -/
theorem solve_state_of_empty_pool (hstandard : t.setup.IsStandard convex localSolver)
    (hgaps : t.setup.HasFiniteGaps) (hsolve : t.solve solver = .ok (result, t'))
    {s : Search ℝ EReal σ p} (hsearch : t'.search = some s) (hpool : s.pool.nodes = []) :
    (result.state = .infeasible ↔
      s.progress.hasIncumbent = false ∧ s.progress.resolutionNodes = 0) ∧
    (result.state = .converged ↔ s.progress.hasIncumbent = true ∧
      (s.progress.resolutionNodes = 0 ∨
        t.setup.pruneThreshold s.progress ≤ s.progress.resolutionBound)) ∧
    (result.state ≠ .infeasible → result.state ≠ .converged →
      result.state = .resolutionLimit) := by
  obtain ⟨head, time, hhead, hstops, -, s', hs', hledger⟩ := solve_eq_ok hsolve
  cases hsearch.symm.trans hs'
  have hprogress : s.progress = { head.progress with elapsed := time } :=
    congrArg Ledger.progress hledger
  have hempty : head.pool.nodes = [] := (congrArg (·.pool.nodes) hledger).symm.trans hpool
  have hstate : result.state = Search.exhausted t.setup (Search.tick t.setup head) :=
    hstops.eq_exhausted hempty
  rw [hstate, hprogress]
  refine ⟨Search.exhausted_eq_infeasible_iff, ?_, ?_⟩
  · rw [Search.exhausted_eq_converged_iff]
    refine and_congr_right fun hinc ↦ or_congr_right ?_
    exact hhead.isGapClosed_iff_of_empty hstandard.raisesBounds hgaps hempty hinc
  · intro hfeasible hopen
    rcases Search.exhausted_cases t.setup (Search.tick t.setup head) with h | h | h
    · exact absurd h hfeasible
    · exact absurd h hopen
    · exact h

/-- On the line a root that is set aside below the threshold ends the search at its resolution
limit. -/
theorem line_state_of_empty_pool : ∃ result t' s, Line.narrowTree.solve () = .ok (result, t') ∧
    t'.search = some s ∧ s.pool.nodes = [] ∧ s.progress.hasIncumbent = true ∧
    s.progress.resolutionBound < Line.narrowSetup.pruneThreshold s.progress ∧
    result.state = .resolutionLimit := by
  obtain ⟨result, t', s, hsolve, hsearch, hpool, hinc, hnodes, hbound, hthreshold⟩ :=
    Line.solve_narrow
  have hlt : s.progress.resolutionBound < Line.narrowSetup.pruneThreshold s.progress := by
    rw [hbound, hthreshold]
    exact EReal.coe_pos.mpr (by norm_num)
  obtain ⟨hinfeasible, hconverged, hother⟩ := solve_state_of_empty_pool (t := Line.narrowTree)
    Line.narrowSetup_isStandard Line.narrowSetup_hasFiniteGaps hsolve hsearch hpool
  refine ⟨result, t', s, hsolve, hsearch, hpool, hinc, hlt, hother ?_ ?_⟩
  · intro h
    exact absurd (hinc.symm.trans (hinfeasible.mp h).1) (by decide)
  · intro h
    rcases (hconverged.mp h).2 with hzero | hle
    · rw [hnodes] at hzero
      cases hzero
    · exact hlt.not_ge hle

end SearchTree

end GlobalQcqp
