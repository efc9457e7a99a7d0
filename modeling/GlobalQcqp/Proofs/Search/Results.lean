import GlobalQcqp.Proofs.Search.Execution
/-!
# What the result of a search certifies

A converged search has a value that no feasible point undercuts by more than the gap, and a search
that ends as infeasible has seen the whole box.  As long as a node is open the global lower bound is
below every feasible value.  Once the pool is empty the incumbent value takes the place of the
bounds of the nodes that were pruned within the gap, and the bound is only as good as that value.
-/

namespace GlobalQcqp

variable {σ : Type} {p : Problem ℝ}

namespace Search

variable {setup : Setup ℝ EReal σ p} {solver : σ} {s : Search ℝ EReal σ p} {y : Vector ℝ p.size}

/-- An open node keeps the bound below the threshold, so that no feasible point is below it. -/
theorem AtLoopHead.lowerBound_le_of_open (hs : AtLoopHead setup solver s)
    (hraises : setup.RaisesBounds) (hkeeps : setup.KeepsFeasible) (hgaps : setup.HasFiniteGaps)
    (hrel : setup.relGap ≤ 1) (hpool : s.pool.nodes ≠ []) (hy : y ∈ p.feasibleSet) :
    s.progress.lowerBound ≤ p.objective.eval y := by
  have hbounds := hs.boundsHold hraises
  rcases hs.covers hraises hkeeps hgaps hrel hy with hy | ⟨node, hnode, hholds⟩ | hy
  · -- The point was cut off, yet the open nodes that are left are below the threshold.
    obtain ⟨node, hnode⟩ := List.exists_mem_of_ne_nil _ hpool
    calc s.progress.lowerBound ≤ node.priority := hbounds.le_open node hnode
      _ ≤ setup.pruneThreshold s.progress := (hbounds.open_lt node hnode).le
      _ ≤ p.objective.eval y := hy
  · exact (hbounds.le_open node hnode).trans hholds.2
  · exact hbounds.le_resolution.trans hy

/-- A search that may stop as converged has a threshold that no feasible point is below. -/
theorem AtLoopHead.pruneThreshold_le_of_converged (hs : AtLoopHead setup solver s)
    (hraises : setup.RaisesBounds) (hkeeps : setup.KeepsFeasible) (hgaps : setup.HasFiniteGaps)
    (hrel : setup.relGap ≤ 1) (hstops : Stops setup (tick setup s) .converged)
    (hy : y ∈ p.feasibleSet) :
    setup.pruneThreshold s.progress ≤ p.objective.eval y := by
  have hbounds := hs.boundsHold hraises
  have hcovers := hs.covers hraises hkeeps hgaps hrel hy
  rcases hstops.converged with hgap | ⟨hpool, _, hnodes⟩
  · have hle := ((Setup.isGapClosed_iff hbounds.measured).mp hgap).2.2
    rcases hcovers with hy | ⟨node, hnode, hholds⟩ | hy
    · exact hy
    · exact (hle.trans (hbounds.le_open node hnode)).trans hholds.2
    · exact (hle.trans hbounds.le_resolution).trans hy
  · rcases hcovers.of_empty hpool with ⟨_, hy⟩ | hy
    · exact hy
    · rw [hbounds.resolution hnodes] at hy
      exact absurd hy (EReal.coe_lt_top _).not_ge

/-- Nodes are open at the start, so a loop head without one comes after another one with some. -/
theorem AtLoopHead.exists_turn_of_empty (hs : AtLoopHead setup solver s)
    (hpool : s.pool.nodes = []) :
    ∃ before : Search ℝ EReal σ p, AtLoopHead setup solver before ∧ before.pool.nodes ≠ [] ∧
      before.ledger.Turn setup s.ledger := by
  cases hs with
  | start => cases hpool
  | @next before _ hbefore hturn =>
      have hledger := turn_eq_none hturn
      exact ⟨before, hbefore, hledger.pool_ne_nil, hledger⟩

/-- Once nothing is open, the bound is the larger of the bound before the last node and of the
bounds set aside, clipped to the incumbent value. -/
theorem AtLoopHead.exists_before_of_empty (hs : AtLoopHead setup solver s)
    (hpool : s.pool.nodes = []) (hinc : s.progress.hasIncumbent = true) :
    ∃ before : Search ℝ EReal σ p, AtLoopHead setup solver before ∧ before.pool.nodes ≠ [] ∧
      s.progress.lowerBound = max before.progress.lowerBound
        (min s.progress.resolutionBound s.progress.incumbentValue) := by
  obtain ⟨before, hbefore, hopen, hturn⟩ := hs.exists_turn_of_empty hpool
  have hleast : s.ledger.outstanding = s.progress.resolutionBound := by
    rw [Ledger.outstanding, ledger_pool, Pool.minBound_eq_top hpool]
    exact min_eq_right le_top
  have hraised := hturn.lowerBound_eq_of_hasIncumbent hinc
  rw [hleast] at hraised
  exact ⟨before, hbefore, hopen, hraised⟩

/-- The bound before the last node is below every feasible value. -/
theorem AtLoopHead.exists_lowerBound_eq_of_empty (hs : AtLoopHead setup solver s)
    (hraises : setup.RaisesBounds) (hkeeps : setup.KeepsFeasible) (hgaps : setup.HasFiniteGaps)
    (hrel : setup.relGap ≤ 1) (hpool : s.pool.nodes = [])
    (hinc : s.progress.hasIncumbent = true) : ∃ before : EReal,
      (∀ y ∈ p.feasibleSet, before ≤ p.objective.eval y) ∧ s.progress.lowerBound =
        max before (min s.progress.resolutionBound s.progress.incumbentValue) := by
  obtain ⟨before, hbefore, hopen, hraised⟩ := hs.exists_before_of_empty hpool hinc
  refine ⟨before.progress.lowerBound, fun y hy ↦ ?_, hraised⟩
  exact hbefore.lowerBound_le_of_open hraises hkeeps hgaps hrel hopen hy

/-- An open gap keeps the bound below the threshold, too. -/
theorem AtLoopHead.lowerBound_le_of_resolutionLimit (hs : AtLoopHead setup solver s)
    (hraises : setup.RaisesBounds) (hkeeps : setup.KeepsFeasible) (hgaps : setup.HasFiniteGaps)
    (hrel : setup.relGap ≤ 1) (hstops : Stops setup (tick setup s) .resolutionLimit)
    (hy : y ∈ p.feasibleSet) : s.progress.lowerBound ≤ p.objective.eval y := by
  have hbounds := hs.boundsHold hraises
  obtain ⟨hpool, hgap⟩ : s.pool.nodes = [] ∧ setup.isGapClosed s.progress = false :=
    hstops.resolutionLimit
  rcases (hs.covers hraises hkeeps hgaps hrel hy).of_empty hpool with ⟨hinc, hthreshold⟩ | hy
  · obtain ⟨before, hbefore, hraised⟩ :=
      hs.exists_lowerBound_eq_of_empty hraises hkeeps hgaps hrel hpool hinc
    obtain ⟨v, hv⟩ := hbounds.measured.2 hinc
    have htop : s.progress.lowerBound < ⊤ := by
      rw [hraised]
      refine max_lt ((hbefore y hy).trans_lt (EReal.coe_lt_top _)) ?_
      rw [← ledger_progress, hv]
      exact (min_le_right _ _).trans_lt (EReal.coe_lt_top v)
    by_cases hbot : s.progress.lowerBound = ⊥
    · rw [hbot]
      exact bot_le
    · -- At or above the threshold a finite bound would have closed the gap.
      have hlt : s.progress.lowerBound < setup.pruneThreshold s.progress := by
        by_contra hge
        have hclosed := (Setup.isGapClosed_iff hbounds.measured).mpr
          ⟨hinc, (Scalar.isFinite_ereal _).mpr ⟨hbot, htop.ne⟩, not_lt.mp hge⟩
        exact absurd (hclosed.symm.trans hgap) (by decide)
      exact hlt.le.trans hthreshold
  · exact hbounds.le_resolution.trans hy

end Search

namespace SearchTree

section Ends

variable {α β σ : Type} [Scalar α] [Scalar β] [Extended α β] {p : Problem α}
  {t t' : SearchTree α β σ p} {solver : σ} {result : SearchResult α β p}

/-- A search that returns has stopped at a loop head for a reason.  The last record is written
there, and the result is read off. -/
theorem solve_eq_finish (h : t.solve solver = .ok (result, t')) :
    ∃ head last time, Search.AtLoopHead t.setup solver head ∧
      Search.Stops t.setup (Search.tick t.setup head) result.state ∧
      last.ledger = (Search.tick t.setup head).ledger ∧ last.trace = head.trace ∧
      t'.search = some (Search.finish t.setup result.state last) ∧
      (Search.finish t.setup result.state last).ledger =
        ⟨{ head.progress with elapsed := time }, head.pool⟩ ∧
      result = resultOf p result.state { head.progress with elapsed := time } := by
  unfold solve at h
  split at h
  · cases h
  · split at h
    · cases h
    · rename_i state s hrun
      cases h
      obtain ⟨head, last, hhead, hstops, hledger, htrace, rfl⟩ := Search.run_eq_finish hrun
      have hpool : last.pool = head.pool := congrArg Ledger.pool hledger
      have hprogress : last.progress =
          { head.progress with elapsed := t.setup.clock head.readings } :=
        congrArg Ledger.progress hledger
      have hfinish : (Search.finish t.setup state last).progress =
          { head.progress with elapsed := t.setup.clock last.readings } := by
        calc _ = { last.progress with elapsed := t.setup.clock last.readings } := rfl
          _ = _ := by rw [hprogress]
      refine ⟨head, last, t.setup.clock last.readings, hhead, hstops, hledger, htrace, rfl, ?_, ?_⟩
      · exact congrArg₂ Ledger.mk hfinish hpool
      · rw [hfinish]
        rfl

theorem solve_eq_ok (h : t.solve solver = .ok (result, t')) :
    ∃ head time, Search.AtLoopHead t.setup solver head ∧
      Search.Stops t.setup (Search.tick t.setup head) result.state ∧
      result = resultOf p result.state { head.progress with elapsed := time } ∧
      ∃ s, t'.search = some s ∧ s.ledger = ⟨{ head.progress with elapsed := time }, head.pool⟩ := by
  obtain ⟨head, last, time, hhead, hstops, -, -, hsearch, hfinish, hresult⟩ := solve_eq_finish h
  exact ⟨head, time, hhead, hstops, hresult, _, hsearch, hfinish⟩

end Ends

variable {t t' : SearchTree ℝ EReal σ p} {solver : σ} {result : SearchResult ℝ EReal p}
  {convex : ConvexSolver ℝ EReal p.size σ} {localSolver : LocalSolver ℝ p.size σ}

theorem objectiveValue_eq {progress : Progress EReal (Vector ℝ p.stored)}
    (hresult : result = resultOf p result.state progress) (hinc : progress.hasIncumbent = true)
    {v : ℝ} (hv : progress.incumbentValue = v) : result.objectiveValue = some (v : EReal) := by
  obtain ⟨x, hx⟩ := Option.isSome_iff_exists.mp hinc
  rw [hresult]
  simp only [resultOf, hx, hv, Option.map_some]

/-- Without an incumbent there is no objective value, and the incumbent value is infinite. -/
theorem objectiveValue_getD_eq {progress : Progress EReal (Vector ℝ p.stored)}
    (hresult : result = resultOf p result.state progress) (hmeasured : progress.IsMeasured) :
    result.objectiveValue.getD ⊤ = progress.incumbentValue := by
  cases hinc : progress.hasIncumbent with
  | false =>
      have hnone : progress.incumbent = none := Option.not_isSome_iff_eq_none.mp
        (Bool.eq_false_iff.mp hinc)
      rw [hmeasured.1 hinc, hresult]
      simp only [resultOf, hnone, Option.map_none, Option.getD_none]
  | true =>
      obtain ⟨v, hv⟩ := hmeasured.2 hinc
      rw [objectiveValue_eq hresult hinc hv, hv]
      rfl

theorem lowerBound_le {progress : Progress EReal (Vector ℝ p.stored)}
    (hresult : result = resultOf p result.state progress) :
    result.lowerBound ≤ progress.lowerBound := by
  rw [hresult]
  simp only [resultOf]
  split
  · exact bot_le
  · exact le_rfl

theorem lowerBound_eq {progress : Progress EReal (Vector ℝ p.stored)}
    (hresult : result = resultOf p result.state progress) (hstate : result.state ≠ .infeasible) :
    result.lowerBound = progress.lowerBound := by
  rw [hresult]
  exact if_neg hstate

/-! ## Near optimality -/

/-- A converged search has an objective value, and no feasible point is better by more than the
larger of the two gaps. -/
theorem solve_converged_near_optimal (hstandard : t.setup.IsStandard convex localSolver)
    (hp : p.EpigraphIsAdded) (htol : 0 ≤ t.setup.options.feasibilityTol)
    (hconvex : convex.IsSound) (hgaps : t.setup.HasFiniteGaps) (hrel : t.setup.relGap ≤ 1)
    (hsolve : t.solve solver = .ok (result, t')) (hstate : result.state = .converged) :
    ∃ v : ℝ, result.objectiveValue = some (v : EReal) ∧
      ∀ y ∈ p.feasibleSet, v - t.setup.gapAt v ≤ p.objective.eval y := by
  obtain ⟨head, time, hhead, hstops, hresult, -⟩ := solve_eq_ok hsolve
  rw [hstate] at hstops
  have hraises := hstandard.raisesBounds
  have hkeeps := hstandard.keepsFeasible hp.isAuxiliary htol hconvex
  have hinc : head.progress.hasIncumbent = true :=
    hstops.converged.elim Search.hasIncumbent_of_isGapClosed fun h ↦ h.2.1
  obtain ⟨v, hv⟩ := (hhead.boundsHold hraises).measured.2 hinc
  refine ⟨v, ?_, fun y hy ↦ ?_⟩
  · exact objectiveValue_eq hresult hinc hv
  · have hle := hhead.pruneThreshold_le_of_converged hraises hkeeps hgaps hrel hstops hy
    rwa [Setup.pruneThreshold_eq hinc hv] at hle

theorem solve_line_near_optimal : ∃ result t', (Line.tree [] 1).solve () = .ok (result, t') ∧
    result.state = .converged ∧ ∃ v : ℝ, result.objectiveValue = some (v : EReal) ∧
      ∀ y ∈ (Line.problem []).feasibleSet,
        v - (Line.setup [] 1).gapAt v ≤ (Line.problem []).objective.eval y := by
  obtain ⟨result, t', s, hsolve, hstate, -, -, -⟩ := Line.solve_converged
  refine ⟨result, t', hsolve, hstate, ?_⟩
  exact solve_converged_near_optimal (t := Line.tree [] 1) Line.setup_isStandard
    Line.problem_epigraphIsAdded le_rfl Tangent.rangeSolver_isSound
    (Line.setup_hasFiniteGaps zero_le_one (EReal.coe_ne_top 1)) Line.setup_relGap_le_one hsolve
    hstate

/-- A search that ends as infeasible has shown that there is no feasible point. -/
theorem solve_infeasible_feasibleSet_eq_empty
    (hstandard : t.setup.IsStandard convex localSolver) (hp : p.EpigraphIsAdded)
    (htol : 0 ≤ t.setup.options.feasibilityTol) (hconvex : convex.IsSound)
    (hsolve : t.solve solver = .ok (result, t')) (hstate : result.state = .infeasible) :
    p.feasibleSet = ∅ := by
  obtain ⟨head, time, hhead, hstops, -, -⟩ := solve_eq_ok hsolve
  rw [hstate] at hstops
  obtain ⟨hpool, hnone, hnodes⟩ : head.pool.nodes = [] ∧ head.progress.hasIncumbent = false ∧
    head.progress.resolutionNodes = 0 := hstops.infeasible
  have hraises := hstandard.raisesBounds
  have hbounds := hhead.boundsHold hraises
  refine Set.eq_empty_iff_forall_notMem.mpr fun y hy ↦ ?_
  have hcovers := hhead.covers_of_no_incumbent hraises
    (hstandard.keepsFeasible hp.isAuxiliary htol hconvex) hy hnone
  rcases hcovers.of_empty hpool with ⟨hinc, _⟩ | hle
  · exact absurd (hinc.symm.trans hnone) (by decide)
  · rw [hbounds.resolution hnodes] at hle
    exact absurd hle (EReal.coe_lt_top _).not_ge

theorem solve_line_beyond_feasibleSet_eq_empty : ∃ result t',
    (Line.tree [Line.beyond] 0).solve () = .ok (result, t') ∧ result.state = .infeasible ∧
      (Line.problem [Line.beyond]).feasibleSet = ∅ := by
  obtain ⟨result, t', hsolve, hstate⟩ := Line.solve_infeasible
  refine ⟨result, t', hsolve, hstate, ?_⟩
  exact solve_infeasible_feasibleSet_eq_empty (t := Line.tree [Line.beyond] 0)
    Line.setup_isStandard Line.problem_epigraphIsAdded le_rfl Tangent.rangeSolver_isSound hsolve
    hstate

/-! ## Lower bounds -/

/-- As long as nodes are open no feasible point is below the global lower bound, also when a search
stops there. -/
theorem lowerBound_le_of_open_nodes (hstandard : t.setup.IsStandard convex localSolver)
    (hp : p.EpigraphIsAdded) (htol : 0 ≤ t.setup.options.feasibilityTol)
    (hconvex : convex.IsSound) (hgaps : t.setup.HasFiniteGaps) (hrel : t.setup.relGap ≤ 1) :
    (∀ s, Search.AtLoopHead t.setup solver s → s.pool.nodes ≠ [] →
      ∀ y ∈ p.feasibleSet, s.progress.lowerBound ≤ p.objective.eval y) ∧
    ∀ result t', t.solve solver = .ok (result, t') →
      (result.state = .interrupted ∨ result.state = .timeLimit ∨ result.state = .nodeLimit ∨
        result.state = .iterationLimit) →
      ∀ y ∈ p.feasibleSet, result.lowerBound ≤ p.objective.eval y := by
  have hhead {s y} (hs : Search.AtLoopHead t.setup solver s) (hpool : s.pool.nodes ≠ [])
      (hy : y ∈ p.feasibleSet) : s.progress.lowerBound ≤ p.objective.eval y :=
    hs.lowerBound_le_of_open hstandard.raisesBounds
      (hstandard.keepsFeasible hp.isAuxiliary htol hconvex) hgaps hrel hpool hy
  refine ⟨fun s hs hpool y hy ↦ hhead hs hpool hy, fun result t' hsolve hstate y hy ↦ ?_⟩
  obtain ⟨head, time, hs, hstops, hresult, -⟩ := solve_eq_ok hsolve
  have hne : result.state ≠ .infeasible := by
    rcases hstate with h | h | h | h <;> rw [h] <;> decide
  rw [lowerBound_eq hresult hne]
  exact hhead hs (hstops.pool_ne_nil hstate) hy

theorem line_lowerBound_of_open_nodes : ∃ s result t',
    (Search.AtLoopHead (Line.setup [] 0) () s ∧ s.pool.nodes ≠ [] ∧ s.progress.lowerBound = 0 ∧
      ∀ y ∈ (Line.problem []).feasibleSet,
        s.progress.lowerBound ≤ (Line.problem []).objective.eval y) ∧
    (Line.tree [] 0).solve () = .ok (result, t') ∧ result.state = .iterationLimit ∧
      result.lowerBound = 0 ∧
      ∀ y ∈ (Line.problem []).feasibleSet,
        result.lowerBound ≤ (Line.problem []).objective.eval y := by
  obtain ⟨s, result, t', hs, hopen, hlower, hsolve, hstate, hreported⟩ := Line.solve_iterationLimit
  obtain ⟨hheads, hresults⟩ : (∀ s, Search.AtLoopHead (Line.setup [] 0) () s → _) ∧ _ :=
    lowerBound_le_of_open_nodes (t := Line.tree [] 0) Line.setup_isStandard
      Line.problem_epigraphIsAdded le_rfl Tangent.rangeSolver_isSound
      (Line.setup_hasFiniteGaps le_rfl EReal.zero_ne_top) Line.setup_relGap_le_one
  exact ⟨s, result, t', ⟨hs, hopen, hlower, hheads s hs hopen⟩, hsolve, hstate, hreported,
    hresults result t' hsolve (Or.inr (Or.inr (Or.inr hstate)))⟩

/-- Once no node is open, the bound reported at the resolution limit is below every feasible value.
The one reported at convergence is so exactly where the incumbent value or a bound that was set
aside is, and it exceeds no feasible value by more than the gap. -/
theorem lowerBound_of_empty_pool (hstandard : t.setup.IsStandard convex localSolver)
    (hp : p.EpigraphIsAdded) (htol : 0 ≤ t.setup.options.feasibilityTol)
    (hconvex : convex.IsSound) (hgaps : t.setup.HasFiniteGaps) (hrel : t.setup.relGap ≤ 1)
    (hsolve : t.solve solver = .ok (result, t')) {s : Search ℝ EReal σ p}
    (hsearch : t'.search = some s) (hpool : s.pool.nodes = []) :
    (result.state = .resolutionLimit →
      ∀ y ∈ p.feasibleSet, result.lowerBound ≤ p.objective.eval y) ∧
    (result.state = .converged → ∃ v : ℝ, result.objectiveValue = some (v : EReal) ∧
      ∀ y ∈ p.feasibleSet,
        (result.lowerBound ≤ p.objective.eval y ↔
          min (v : EReal) s.progress.resolutionBound ≤ p.objective.eval y) ∧
        result.lowerBound - t.setup.gapAt v ≤ p.objective.eval y) := by
  obtain ⟨head, time, hhead, hstops, hresult, s', hs', hledger⟩ := solve_eq_ok hsolve
  cases hsearch.symm.trans hs'
  have hpool : head.pool.nodes = [] := by
    rw [← hpool]
    exact congrArg (·.pool.nodes) hledger.symm
  have hraises := hstandard.raisesBounds
  have hkeeps := hstandard.keepsFeasible hp.isAuxiliary htol hconvex
  have hbounds := hhead.boundsHold hraises
  refine ⟨fun hstate y hy ↦ ?_, fun hstate ↦ ?_⟩
  · rw [lowerBound_eq hresult (by rw [hstate]; decide)]
    exact hhead.lowerBound_le_of_resolutionLimit hraises hkeeps hgaps hrel (hstate ▸ hstops) hy
  · have hstops : Search.Stops t.setup (Search.tick t.setup head) .converged := hstate ▸ hstops
    have hinc : head.progress.hasIncumbent = true :=
      hstops.converged.elim Search.hasIncumbent_of_isGapClosed fun h ↦ h.2.1
    obtain ⟨v, hv⟩ := hbounds.measured.2 hinc
    obtain ⟨before, hbefore, hraised⟩ :=
      hhead.exists_lowerBound_eq_of_empty hraises hkeeps hgaps hrel hpool hinc
    have hresolution : s.progress.resolutionBound = head.progress.resolutionBound :=
      congrArg (·.progress.resolutionBound) hledger
    rw [← Search.ledger_progress, hv, Search.ledger_progress, min_comm, ← hresolution] at hraised
    rw [lowerBound_eq hresult (by rw [hstate]; decide), hraised]
    refine ⟨v, objectiveValue_eq hresult hinc hv, fun y hy ↦ ⟨?_, ?_⟩⟩
    · rw [max_le_iff]
      exact ⟨fun h ↦ h.2, fun h ↦ ⟨hbefore y hy, h⟩⟩
    · have hthreshold := hhead.pruneThreshold_le_of_converged hraises hkeeps hgaps hrel hstops hy
      rw [Setup.pruneThreshold_eq hinc hv] at hthreshold
      have hgap : 0 ≤ t.setup.gapAt v := le_max_of_le_left hgaps.abs_nonneg
      rcases max_choice before (min (v : EReal) s.progress.resolutionBound) with hmax | hmax
      · rw [hmax]
        calc before - t.setup.gapAt v ≤ before - 0 := EReal.sub_le_sub le_rfl hgap
          _ = before := sub_zero before
          _ ≤ p.objective.eval y := hbefore y hy
      · rw [hmax]
        exact (EReal.sub_le_sub (min_le_left _ _) le_rfl).trans hthreshold

/-- On the line the bound reported at convergence exceeds the least value, zero, by half the gap. -/
theorem line_lowerBound_of_empty_pool : ∃ result t' s,
    (Line.tree [] 1).solve () = .ok (result, t') ∧
    result.state = .converged ∧ t'.search = some s ∧ s.pool.nodes = [] ∧
    (∃ y ∈ (Line.problem []).feasibleSet,
      (Line.problem []).objective.eval y < result.lowerBound) ∧
    ∃ v : ℝ, result.objectiveValue = some (v : EReal) ∧
      ∀ y ∈ (Line.problem []).feasibleSet,
        (result.lowerBound ≤ (Line.problem []).objective.eval y ↔
          min (v : EReal) s.progress.resolutionBound ≤ (Line.problem []).objective.eval y) ∧
        result.lowerBound - (Line.setup [] 1).gapAt v ≤ (Line.problem []).objective.eval y := by
  obtain ⟨result, t', s, hsolve, hstate, hlower, hsearch, hpool⟩ := Line.solve_converged
  have hbound := lowerBound_of_empty_pool (t := Line.tree [] 1) Line.setup_isStandard
    Line.problem_epigraphIsAdded le_rfl Tangent.rangeSolver_isSound
    (Line.setup_hasFiniteGaps zero_le_one (EReal.coe_ne_top 1)) Line.setup_relGap_le_one hsolve
    hsearch hpool
  refine ⟨result, t', s, hsolve, hstate, hsearch, hpool, ⟨#v[0], ?_, ?_⟩, hbound.2 hstate⟩
  · refine ⟨?_, by simp, by simp⟩
    rw [Line.restrictBox_eq]
    exact Line.mem_unit.mpr ⟨le_rfl, zero_le_one⟩
  · rw [hlower, Quadratic.eval_coordinate]
    refine EReal.coe_lt_coe_iff.mpr ?_
    norm_num

end SearchTree

end GlobalQcqp
