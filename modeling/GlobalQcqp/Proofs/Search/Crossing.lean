import GlobalQcqp.Proofs.Search.Nodes
import GlobalQcqp.Proofs.Search.Records
import GlobalQcqp.Proofs.Search.Results
/-!
# Bounds that cross

Along the records of a search the lower bound never falls and the incumbent value never rises.  The
lower bound is clipped to the incumbent of the moment, so a later incumbent may lie below it, but
with a sound convex solver only at a point that is feasible within the tolerance and no further.
Then nothing is left open, the bounds stay as they are, and the search ends as converged.
-/

namespace GlobalQcqp

variable {σ : Type} {p : Problem ℝ}

/-- The point is in the box and feasible within the tolerance, but not feasible. -/
structure Problem.IsTolerated (p : Problem ℝ) (tol : ℝ) (x : Vector ℝ p.size) : Prop where
  mem : x ∈ p.restrictBox p.box
  violation_pos : 0 < p.violation x
  violation_le : p.violation x ≤ tol

theorem Problem.IsTolerated.tol_pos {tol : ℝ} {x : Vector ℝ p.size} (hx : p.IsTolerated tol x) :
    0 < tol :=
  hx.violation_pos.trans_le hx.violation_le

namespace Progress

variable {π : Type} {s : Progress EReal π}

structure IsOrdered (s : Progress EReal π) : Prop where
  lowerBound_le : s.lowerBound ≤ s.incumbentValue
  gap_nonneg : 0 ≤ s.absoluteGap

theorem IsMeasured.value_ne_bot (hs : s.IsMeasured) : s.incumbentValue ≠ ⊥ := by
  cases hinc : s.hasIncumbent with
  | false =>
      rw [hs.1 hinc]
      exact top_ne_bot
  | true =>
      obtain ⟨v, hv⟩ := hs.2 hinc
      rw [hv]
      exact EReal.coe_ne_bot v

theorem IsMeasured.isOrdered (hs : s.IsMeasured) (htop : s.lowerBound ≠ ⊤)
    (hle : s.lowerBound ≤ s.incumbentValue) : s.IsOrdered where
  lowerBound_le := hle
  gap_nonneg := (EReal.sub_nonneg (Or.inr htop) (Or.inl hs.value_ne_bot)).mpr hle

end Progress

namespace Ledger

variable {setup : Setup ℝ EReal σ p} {l l' : Ledger EReal p} {node : Node ℝ EReal p.stored}

/-- Nothing is open, and the incumbent value is below the lower bound, at a point that is feasible
within the tolerance only. -/
structure IsUndercut (setup : Setup ℝ EReal σ p) (l : Ledger EReal p) : Prop where
  pool_eq : l.pool.nodes = []
  value_lt : l.progress.incumbentValue < l.progress.lowerBound
  exists_point : ∃ x, p.IsTolerated setup.options.feasibilityTol x ∧
    l.progress.incumbentValue = (p.objective.eval x : ℝ)

structure BoundsMeet (setup : Setup ℝ EReal σ p) (l : Ledger EReal p) : Prop where
  lowerBound_ne_top : l.progress.lowerBound ≠ ⊤
  isOrdered : l.progress.IsOrdered ∨ l.IsUndercut setup

variable {convex : ConvexSolver ℝ EReal p.size σ} {localSolver : LocalSolver ℝ p.size σ}

/-- A candidate below the bound of a valid node is not feasible. -/
theorem BoundAbove.exists_isTolerated (h : l.BoundAbove setup node l')
    (hstandard : setup.IsStandard convex localSolver) (hvalid : node.IsValid)
    (hlt : l'.progress.incumbentValue < l.progress.incumbentValue)
    (hbound : l'.progress.incumbentValue < node.bound) :
    ∃ x, p.IsTolerated setup.options.feasibilityTol x ∧
      l'.progress.incumbentValue = (p.objective.eval x : ℝ) := by
  cases h with
  | missed => exact absurd hlt (lt_irrefl _)
  | @improved _ c _ hfound _ _ =>
      have hcertified := hstandard.isCertified hvalid.isProper hfound
      have hvalue : (c.value : EReal) = (p.objective.eval c.point : ℝ) := by
        rw [hcertified.value_eq]
      have hmem : c.point ∈ p.restrictBox p.box :=
        Box.mem_of_le (Problem.restrictBox_le hvalid.box_le) hcertified.mem
      refine ⟨c.point, ⟨hmem, ?_, hcertified.violation_le⟩, hvalue⟩
      by_contra hviolation
      have hfeasible := Problem.mem_feasibleSet_of_violation_le hmem (not_lt.mp hviolation)
      have hle := hvalid.bound_le c.point hfeasible hcertified.mem
      exact absurd (hvalue ▸ hbound) hle.not_gt

/-- A threshold below every bound leaves nothing open. -/
theorem Ending.pool_eq_nil (h : l.Ending setup node l') {a : EReal}
    (hthreshold : setup.pruneThreshold l.progress < a) (hnode : a ≤ node.bound)
    (hopen : ∀ n ∈ l.pool.nodes, a ≤ n.priority ∧ n.priority < setup.pruneThreshold l.progress) :
    l'.pool.nodes = [] := by
  refine List.eq_nil_iff_forall_not_mem.mpr fun n hn ↦ ?_
  rcases h.mem_pool hn with hn | ⟨hnot, _⟩
  · obtain ⟨hle, hlt⟩ := hopen n hn
    exact absurd hlt (hthreshold.trans_le hle).not_gt
  · exact hnot (hthreshold.le.trans hnode)

/-- An incumbent that takes its value below the lower bound is not feasible, and ends the search. -/
theorem Process.isUndercut (h : l.Process setup node l')
    (hstandard : setup.IsStandard convex localSolver) (hconvex : convex.IsSound)
    (hgaps : setup.HasFiniteGaps) (hl : l.BoundsHold setup) (hvalid : node.IsValid)
    (hnode : l.progress.lowerBound ≤ node.priority)
    (hbefore : l.progress.lowerBound ≤ l.progress.incumbentValue)
    (hafter : l'.progress.incumbentValue < l'.progress.lowerBound) : l'.IsUndercut setup := by
  have hbelow : l'.progress.incumbentValue < l.progress.lowerBound :=
    hafter.trans_eq h.agrees.lowerBound_eq
  have hchanged : l'.progress.incumbentValue < l.progress.incumbentValue :=
    hbelow.trans_le hbefore
  cases h with
  | stale _ => exact absurd hchanged (lt_irrefl _)
  | closed _ _ => exact absurd hchanged (lt_irrefl _)
  | refuted _ _ _ _ => exact absurd hchanged (lt_irrefl _)
  | @bounded r bounded l₁ _ hr hopen hlower hstatus habove hend =>
      have hrefines : l.Refines setup node bounded := ⟨r, hr, hopen, hlower, hstatus⟩
      have hbound : l.progress.lowerBound ≤ bounded.bound :=
        hnode.trans (hrefines.priority_le hstandard.raisesBounds)
      have hvalue : l'.progress.incumbentValue = l₁.progress.incumbentValue := hend.incumbent_eq.2
      rw [hvalue] at hchanged hbelow
      rcases habove with rfl | ⟨_, habove⟩
      · exact absurd hchanged (lt_irrefl _)
      · have hcounted : (l.countLower bounded.status).BoundsHold setup :=
          ⟨hl.measured, hl.open_lt, hl.le_open, hl.le_resolution, hl.resolution⟩
        have hl₁ := habove.boundsHold hcounted
        have hthreshold : setup.pruneThreshold l₁.progress < l.progress.lowerBound :=
          (Setup.pruneThreshold_le_value hgaps hl₁.measured).trans_lt hbelow
        have hbounded := hstandard.isValid_of_refines hconvex hrefines hvalid
        refine ⟨?_, hafter, ?_⟩
        · refine hend.pool_eq_nil hthreshold hbound fun n hn ↦ ?_
          exact ⟨hl.le_open n (habove.mem_of_mem_pool hn), hl₁.open_lt n hn⟩
        · rw [hvalue]
          exact habove.exists_isTolerated hstandard hbounded hchanged (hbelow.trans_le hbound)

theorem IsUndercut.hasIncumbent (h : l.IsUndercut setup) (hl : l.progress.IsMeasured) :
    l.progress.hasIncumbent = true := by
  by_contra hnone
  have hvalue := hl.1 (Bool.eq_false_iff.mpr hnone)
  exact absurd (h.value_lt.trans_le le_top) (hvalue ▸ lt_irrefl _)

/-- Bounds that have crossed close every gap. -/
theorem IsUndercut.isGapClosed (h : l.IsUndercut setup) (hgaps : setup.HasFiniteGaps)
    (hl : l.progress.IsMeasured) (htop : l.progress.lowerBound ≠ ⊤) :
    setup.isGapClosed l.progress = true := by
  have hbot : l.progress.lowerBound ≠ ⊥ := (bot_le.trans_lt h.value_lt).ne'
  refine (Setup.isGapClosed_iff hl).mpr ⟨h.hasIncumbent hl, ?_, ?_⟩
  · exact (Scalar.isFinite_ereal _).mpr ⟨hbot, htop⟩
  · exact (Setup.pruneThreshold_le_value hgaps hl).trans h.value_lt.le

/-! ## The lower bound over a turn -/

theorem lowerBound_le_raisedBound (l : Ledger EReal p) :
    l.progress.lowerBound ≤ l.raisedBound := by
  rw [raisedBound_eq]
  split
  · exact le_rfl
  · exact le_max_left _ _

theorem raisedBound_le_value (h : l.progress.lowerBound ≤ l.progress.incumbentValue) :
    l.raisedBound ≤ l.progress.incumbentValue := by
  rw [raisedBound_eq]
  split
  · exact h
  · exact max_le h (min_le_right _ _)

theorem raisedBound_ne_top (hl : l.progress.IsMeasured) (h : l.progress.lowerBound ≠ ⊤) :
    l.raisedBound ≠ ⊤ := by
  rw [raisedBound_eq]
  split
  · exact h
  · have hclip : min l.outstanding l.progress.incumbentValue < ⊤ := by
      cases hinc : l.progress.hasIncumbent with
      | false =>
          have hnot : ¬ (l.outstanding = ⊤ ∧ l.progress.hasIncumbent = false) := ‹_›
          have houtstanding : l.outstanding ≠ ⊤ := fun htop ↦ hnot ⟨htop, hinc⟩
          exact (min_le_left _ _).trans_lt houtstanding.lt_top
      | true =>
          obtain ⟨v, hv⟩ := hl.2 hinc
          rw [hv]
          exact (min_le_right _ _).trans_lt (EReal.coe_lt_top v)
    exact (max_lt h.lt_top hclip).ne

/-- A bound that has been undercut is not raised any more. -/
theorem IsUndercut.raisedBound_eq (h : l.IsUndercut setup) (hl : l.progress.IsMeasured) :
    l.raisedBound = l.progress.lowerBound := by
  rw [raisedBound_of_hasIncumbent (h.hasIncumbent hl)]
  exact max_eq_left ((min_le_right _ _).trans h.value_lt.le)

theorem IsUndercut.updateLowerBound (h : l.IsUndercut setup) (hl : l.progress.IsMeasured) :
    l.updateLowerBound.IsUndercut setup where
  pool_eq := h.pool_eq
  value_lt := h.value_lt.trans_eq (h.raisedBound_eq hl).symm
  exists_point := h.exists_point

theorem BoundsMeet.updateLowerBound (h : l.BoundsMeet setup) (hl : l.progress.IsMeasured) :
    l.updateLowerBound.BoundsMeet setup where
  lowerBound_ne_top := raisedBound_ne_top hl h.lowerBound_ne_top
  isOrdered := by
    rcases h.isOrdered with hordered | hundercut
    · refine Or.inl (Progress.IsMeasured.isOrdered hl ?_ ?_)
      · exact raisedBound_ne_top hl h.lowerBound_ne_top
      · exact raisedBound_le_value hordered.lowerBound_le
    · exact Or.inr (hundercut.updateLowerBound hl)

theorem BoundsMeet.isOrdered_of_open (h : l.BoundsMeet setup) (hpool : l.pool.nodes ≠ []) :
    l.progress.IsOrdered :=
  h.isOrdered.resolve_right fun hundercut ↦ hpool hundercut.pool_eq

/-- Processing a node keeps the bounds in order unless it undercuts them. -/
theorem Process.boundsMeet (h : l.Process setup node l')
    (hstandard : setup.IsStandard convex localSolver) (hconvex : convex.IsSound)
    (hgaps : setup.HasFiniteGaps) (hl : l.BoundsHold setup) (hl' : l'.BoundsHold setup)
    (hvalid : node.IsValid) (hnode : l.progress.lowerBound ≤ node.priority)
    (htop : l.progress.lowerBound ≠ ⊤) (hordered : l.progress.IsOrdered) :
    l'.BoundsMeet setup := by
  have htop' : l'.progress.lowerBound ≠ ⊤ := h.agrees.lowerBound_eq ▸ htop
  refine ⟨htop', ?_⟩
  rcases le_or_gt l'.progress.lowerBound l'.progress.incumbentValue with hle | hgt
  · exact Or.inl (hl'.measured.isOrdered htop' hle)
  · exact Or.inr (h.isUndercut hstandard hconvex hgaps hl hvalid hnode hordered.lowerBound_le hgt)

end Ledger

/-! ## Records in order -/

namespace Record

/-- The lower bound has not fallen since, and the incumbent value has not risen. -/
structure IsFollowedBy (r r' : Record EReal) : Prop where
  lowerBound_le : r.lowerBound ≤ r'.lowerBound
  upperBound_le : r'.upperBound ≤ r.upperBound

structure IsOrdered (r : Record EReal) : Prop where
  lowerBound_le : r.lowerBound ≤ r.upperBound
  gap_nonneg : 0 ≤ r.gap

variable {r : Record EReal} {l : Ledger EReal p}

theorem Shows.isOrdered (hr : r.Shows l) (hl : l.progress.IsOrdered) : r.IsOrdered where
  lowerBound_le := by
    rw [hr.lowerBound_eq, hr.upperBound_eq]
    exact hl.lowerBound_le
  gap_nonneg := hl.gap_nonneg.trans_eq hr.gap_eq.symm

theorem Shows.openNodes_eq_zero (hr : r.Shows l) (hpool : l.pool.nodes = []) : r.openNodes = 0 := by
  obtain ⟨count, hcount, hle⟩ := hr.openNodes_le
  have hsize : l.pool.size = 0 := congrArg List.length hpool
  omega

end Record

/-- The records are in order and show bounds that the ledger has not passed.  Those whose bounds
cross show the ledger itself. -/
structure RecordsHold (setup : Setup ℝ EReal σ p) (records : List (Record EReal))
    (l : Ledger EReal p) : Prop where
  pairwise : records.Pairwise Record.IsFollowedBy
  past : ∀ r ∈ records, r.lowerBound ≤ l.progress.lowerBound ∧
    l.progress.incumbentValue ≤ r.upperBound
  ordered : ∀ r ∈ records, r.IsOrdered ∨ l.IsUndercut setup ∧ r.Shows l

namespace RecordsHold

variable {setup : Setup ℝ EReal σ p} {records : List (Record EReal)} {l l' : Ledger EReal p}
  {r : Record EReal} {s s' : Search ℝ EReal σ p}

theorem move (h : RecordsHold setup records l)
    (hlower : l.progress.lowerBound ≤ l'.progress.lowerBound)
    (hvalue : l'.progress.incumbentValue ≤ l.progress.incumbentValue)
    (hundercut : l.IsUndercut setup →
      l'.IsUndercut setup ∧ ∀ r : Record EReal, r.Shows l → r.Shows l') :
    RecordsHold setup records l' where
  pairwise := h.pairwise
  past r hr := ⟨(h.past r hr).1.trans hlower, hvalue.trans (h.past r hr).2⟩
  ordered r hr := by
    rcases h.ordered r hr with hordered | ⟨hl, hshows⟩
    · exact Or.inl hordered
    · obtain ⟨hl', hkeeps⟩ := hundercut hl
      exact Or.inr ⟨hl', hkeeps r hshows⟩

theorem append (h : RecordsHold setup records l) (hr : r.Shows l) (hl : l.BoundsMeet setup) :
    RecordsHold setup (records ++ [r]) l where
  pairwise := by
    refine List.pairwise_append.mpr ⟨h.pairwise, List.pairwise_singleton _ _, ?_⟩
    intro a ha b hb
    obtain ⟨hlower, hupper⟩ := h.past a ha
    rw [List.mem_singleton.mp hb]
    exact ⟨hlower.trans_eq hr.lowerBound_eq.symm, hr.upperBound_eq.trans_le hupper⟩
  past := by
    rw [List.forall_mem_append, List.forall_mem_singleton]
    exact ⟨h.past, hr.lowerBound_eq.le, hr.upperBound_eq.ge⟩
  ordered := by
    rw [List.forall_mem_append, List.forall_mem_singleton]
    refine ⟨h.ordered, ?_⟩
    rcases hl.isOrdered with hordered | hundercut
    · exact Or.inl (hr.isOrdered hordered)
    · exact Or.inr ⟨hundercut, hr⟩

theorem of_reports (h : RecordsHold setup s.records s'.ledger) (hreports : s.Reports s')
    (hl : s'.ledger.BoundsMeet setup) : RecordsHold setup s'.records s'.ledger := by
  cases hreports with
  | silent hrecords => exact hrecords ▸ h
  | shown hrecords hr =>
      rw [hrecords]
      exact h.append hr hl

theorem updateLowerBound (h : RecordsHold setup records l) (hl : l.progress.IsMeasured) :
    RecordsHold setup records l.updateLowerBound := by
  refine h.move l.lowerBound_le_raisedBound le_rfl fun hundercut ↦ ?_
  have hsame : l.updateLowerBound.progress = l.progress := by
    rw [Ledger.updateLowerBound, hundercut.raisedBound_eq hl]
  refine ⟨hundercut.updateLowerBound hl, fun r hr ↦ ⟨?_, ?_, ?_, hr.openNodes_le⟩⟩
  · rw [hsame, hr.lowerBound_eq]
  · rw [hsame, hr.upperBound_eq]
  · rw [hsame, hr.gap_eq]

end RecordsHold

namespace Search

variable {setup : Setup ℝ EReal σ p} {solver : σ} {s : Search ℝ EReal σ p}
  {convex : ConvexSolver ℝ EReal p.size σ} {localSolver : LocalSolver ℝ p.size σ}

theorem start_recordsHold (setup : Setup ℝ EReal σ p) (solver : σ) :
    RecordsHold setup (start setup solver).records (start setup solver).ledger ∧
      (start setup solver).ledger.BoundsMeet setup := by
  have hrecords : (start setup solver).records = [] := by
    simp [records, start]
  have hmeasured : (start setup solver).progress.IsMeasured :=
    (Ledger.start_boundsHold setup).measured
  rw [hrecords]
  refine ⟨⟨List.Pairwise.nil, ?_, ?_⟩, bot_ne_top, Or.inl ?_⟩
  · exact fun _ hr ↦ absurd hr List.not_mem_nil
  · exact fun _ hr ↦ absurd hr List.not_mem_nil
  · exact hmeasured.isOrdered bot_ne_top bot_le

/-- At every loop head the records are in order, and bounds that cross leave nothing open. -/
theorem AtLoopHead.recordsHold (hs : AtLoopHead setup solver s)
    (hstandard : setup.IsStandard convex localSolver) (hconvex : convex.IsSound)
    (hgaps : setup.HasFiniteGaps) :
    RecordsHold setup s.records s.ledger ∧ s.ledger.BoundsMeet setup := by
  induction hs with
  | start => exact start_recordsHold setup solver
  | @next s s' hs hturn ih =>
      obtain ⟨hrecords, hmeet⟩ := ih
      obtain ⟨time, node, pool, s₁, s₂, hpop, hsame, htake, hprocess, hledger, hreports⟩ :=
        exists_process_of_turn hturn
      have hpool := (turn_eq_none hturn).pool_ne_nil
      have hperm := Pool.pop?_perm hpop
      have hnode : node ∈ s.pool.nodes := hperm.mem_iff.mpr List.mem_cons_self
      have hvalid := hs.forall_open (hstandard.preserves_isValid hconvex) node hnode
      have hraises := hstandard.raisesBounds
      have hl := hs.boundsHold hraises
      have hl₁ := hl.take time fun n hn ↦ hperm.mem_iff.mpr (List.mem_cons_of_mem node hn)
      have hstep := htake ▸ process_ledger hprocess
      have hl₂ := hstep.boundsHold hraises hl₁ (hl.le_open node hnode)
      have hordered := hmeet.isOrdered_of_open hpool
      -- the node itself, then the update of the lower bound, then the record that may be due
      have hmeet₂ := hstep.boundsMeet hstandard hconvex hgaps hl₁ hl₂ hvalid
        (hl.le_open node hnode) hmeet.lowerBound_ne_top
        ⟨hordered.lowerBound_le, hordered.gap_nonneg⟩
      have hrecords₂ : RecordsHold setup s₁.records s₂.ledger := by
        rw [hsame]
        have hlower := hstep.agrees.lowerBound_eq.ge
        refine hrecords.move hlower hstep.isNoWorse.value_le fun hundercut ↦ ?_
        exact absurd hundercut.pool_eq hpool
      have hupdated := (hrecords₂.of_reports (process_reports hprocess) hmeet₂).updateLowerBound
        hl₂.measured
      have hmeet' := hmeet₂.updateLowerBound hl₂.measured
      rw [← hledger] at hupdated hmeet'
      refine ⟨?_, hmeet'⟩
      rw [← records_updateLowerBound s₂] at hupdated
      exact hupdated.of_reports hreports hmeet'

end Search

/-- The bounds have crossed at the end of a converged search, at a point that is feasible within the
tolerance only. -/
structure SearchResult.IsUndercut (result : SearchResult ℝ EReal p) (tol : ℝ)
    (lower upper : EReal) : Prop where
  state_eq : result.state = .converged
  lowerBound_eq : result.lowerBound = lower
  objectiveValue_eq : result.objectiveValue = some upper
  upper_lt : upper < lower
  exists_point : ∃ x, p.IsTolerated tol x ∧ upper = (p.objective.eval x : ℝ)

namespace SearchTree

variable {t t' : SearchTree ℝ EReal σ p} {solver : σ} {result : SearchResult ℝ EReal p}
  {s : Search ℝ EReal σ p} {convex : ConvexSolver ℝ EReal p.size σ}
  {localSolver : LocalSolver ℝ p.size σ}

/-- Along the records of a search, and up to its result, the lower bound never falls and the
incumbent value never rises.  They cross only once nothing is left open, in a search that has
converged to a point that is feasible within the tolerance and not feasible. -/
theorem records_ordered_or_undercut (hstandard : t.setup.IsStandard convex localSolver)
    (hconvex : convex.IsSound) (hgaps : t.setup.HasFiniteGaps)
    (hsolve : t.solve solver = .ok (result, t')) (hsearch : t'.search = some s) :
    s.records.Pairwise Record.IsFollowedBy ∧
    (∀ r ∈ s.records, r.IsOrdered ∨ r.openNodes = 0 ∧
      result.IsUndercut t.setup.options.feasibilityTol r.lowerBound r.upperBound) ∧
    (result.lowerBound ≤ result.objectiveValue.getD ⊤ ∧ 0 ≤ result.gap ∨
      result.IsUndercut t.setup.options.feasibilityTol result.lowerBound
        (result.objectiveValue.getD ⊤)) := by
  obtain ⟨head, last, time, hhead, hstops, hlast, htrace, hs, -, hresult⟩ :=
    solve_eq_finish hsolve
  cases hsearch.symm.trans hs
  obtain ⟨hrecords, hmeet⟩ := hhead.recordsHold hstandard hconvex hgaps
  have hundercut (h : head.ledger.IsUndercut t.setup) :
      result.IsUndercut t.setup.options.feasibilityTol head.progress.lowerBound
        head.progress.incumbentValue := by
    have hmeasured := (hhead.boundsHold hstandard.raisesBounds).measured
    have hinc := h.hasIncumbent hmeasured
    obtain ⟨v, hv⟩ := hmeasured.2 hinc
    have hstate : result.state = .converged := by
      rw [hstops.eq_exhausted h.pool_eq]
      refine Search.exhausted_of_isGapClosed ?_
      exact h.isGapClosed hgaps hmeasured hmeet.lowerBound_ne_top
    have hlower : result.lowerBound = head.progress.lowerBound := by
      rw [lowerBound_eq hresult (by rw [hstate]; decide)]
    have hvalue : result.objectiveValue = some head.progress.incumbentValue := by
      rw [objectiveValue_eq hresult hinc hv, ← Search.ledger_progress, hv]
    exact ⟨hstate, hlower, hvalue, h.value_lt, h.exists_point⟩
  have hall : RecordsHold t.setup (Search.finish t.setup result.state last).records
      head.ledger := by
    obtain ⟨r, hr, hshows⟩ := Search.exists_finish_record t.setup result.state last
    have hsame : last.records = head.records :=
      congrArg (fun trace ↦ List.filterMap _ (Array.toList trace)) htrace
    rw [hlast] at hshows
    rw [hr, hsame]
    refine hrecords.append ?_ hmeet
    exact ⟨hshows.lowerBound_eq, hshows.upperBound_eq, hshows.gap_eq, hshows.openNodes_le⟩
  refine ⟨hall.pairwise, fun r hr ↦ ?_, ?_⟩
  · rcases hall.ordered r hr with hordered | ⟨h, hshows⟩
    · exact Or.inl hordered
    · refine Or.inr ⟨hshows.openNodes_eq_zero h.pool_eq, ?_⟩
      rw [hshows.lowerBound_eq, hshows.upperBound_eq]
      exact hundercut h
  · have hvalue : result.objectiveValue.getD ⊤ = head.progress.incumbentValue := by
      rw [objectiveValue_getD_eq hresult (hhead.boundsHold hstandard.raisesBounds).measured]
    have hgap : result.gap = head.progress.absoluteGap := by
      rw [hresult]
      rfl
    rw [hvalue, hgap]
    rcases hmeet.isOrdered with hordered | h
    · exact Or.inl ⟨(lowerBound_le hresult).trans hordered.lowerBound_le, hordered.gap_nonneg⟩
    · exact Or.inr ((hundercut h).lowerBound_eq ▸ hundercut h)

/-- On the line there is no tolerance, and the bounds of every record are in order. -/
theorem line_records_ordered : ∃ result t' s, (Line.tree [] 1).solve () = .ok (result, t') ∧
    result.state = .converged ∧ t'.search = some s ∧ s.records.Pairwise Record.IsFollowedBy ∧
    (∀ r ∈ s.records, r.IsOrdered) ∧
    result.lowerBound ≤ result.objectiveValue.getD ⊤ ∧ 0 ≤ result.gap := by
  obtain ⟨result, t', s, hsolve, hstate, -, hsearch, -⟩ := Line.solve_converged
  have hnone {lower upper : EReal} :
      ¬ result.IsUndercut (Line.setup [] 1).options.feasibilityTol lower upper := by
    rintro ⟨-, -, -, -, x, hx, -⟩
    exact lt_irrefl _ hx.tol_pos
  obtain ⟨hpairwise, hrecords, hresult⟩ := records_ordered_or_undercut (t := Line.tree [] 1)
    Line.setup_isStandard Tangent.rangeSolver_isSound
    (Line.setup_hasFiniteGaps zero_le_one (EReal.coe_ne_top 1)) hsolve hsearch
  refine ⟨result, t', s, hsolve, hstate, hsearch, hpairwise, fun r hr ↦ ?_, ?_⟩
  · exact (hrecords r hr).resolve_right fun h ↦ hnone h.2
  · exact hresult.resolve_right hnone

end SearchTree

end GlobalQcqp
