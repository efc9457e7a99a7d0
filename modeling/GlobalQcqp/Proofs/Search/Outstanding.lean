import GlobalQcqp.Proofs.Search.Results
/-!
# The outstanding bound

The least priority of an open node, or a bound that was set aside if that is less, is what a search
still has to account for.  A turn never lowers it.  As long as nodes are open it lies below the
prune threshold, and there it is the global lower bound itself: neither the bound reported before
nor the incumbent value comes into play.

The threshold also decides when a search may stop.  Open nodes lie strictly below it, so the gap is
open until there are none.
-/

namespace GlobalQcqp

variable {σ : Type} {p : Problem ℝ}

namespace Ledger

variable {setup : Setup ℝ EReal σ p} {l l' : Ledger EReal p} {node : Node ℝ EReal p.stored}
  {a : EReal}

/-! ## What a turn does to the bounds outstanding -/

theorem Process.le_open (h : l.Process setup node l') (hraises : setup.RaisesBounds)
    (hl : ∀ n ∈ l.pool.nodes, a ≤ n.priority) (hnode : a ≤ node.priority) :
    ∀ n ∈ l'.pool.nodes, a ≤ n.priority := by
  intro n hn
  rcases h.mem_pool hn with hn | ⟨bounded, hrefines, hhalf⟩
  · exact hl n hn
  · calc a ≤ node.priority := hnode
      _ ≤ bounded.bound := hrefines.priority_le hraises
      _ = n.priority := hhalf.priority_eq.symm

theorem BoundAbove.resolutionBound_eq (h : l.BoundAbove setup node l') :
    l'.progress.resolutionBound = l.progress.resolutionBound := by
  cases h <;> rfl

theorem Process.le_resolution (h : l.Process setup node l') (hraises : setup.RaisesBounds)
    (hl : a ≤ l.progress.resolutionBound) (hnode : a ≤ node.priority) :
    a ≤ l'.progress.resolutionBound := by
  cases h with
  | stale _ => exact hl
  | closed _ _ => exact hl
  | refuted _ _ _ _ => exact hl
  | bounded hr hopen hlower hstatus habove hend =>
      have hrefines : l.Refines setup node _ := ⟨_, hr, hopen, hlower, hstatus⟩
      refine hend.le_resolution ?_ (hnode.trans (hrefines.priority_le hraises))
      rcases habove with rfl | ⟨_, habove⟩
      · exact hl
      · rw [habove.resolutionBound_eq]
        exact hl

theorem Turn.le_open (h : l.Turn setup l') (hraises : setup.RaisesBounds)
    (hl : ∀ n ∈ l.pool.nodes, a ≤ n.priority) : ∀ n ∈ l'.pool.nodes, a ≤ n.priority := by
  obtain ⟨-, -, hpop, hprocess⟩ := h
  have hperm := Pool.pop?_perm hpop
  refine hprocess.le_open hraises ?_ (hl _ (hperm.mem_iff.mpr List.mem_cons_self))
  intro n hn
  exact hl n (hperm.mem_iff.mpr (List.mem_cons_of_mem _ hn))

/-- The node taken is not below what is outstanding, and neither is anything it leaves behind. -/
theorem Turn.outstanding_le (h : l.Turn setup l') (hraises : setup.RaisesBounds) :
    l.outstanding ≤ l'.outstanding := by
  have hopen : ∀ n ∈ l.pool.nodes, l.outstanding ≤ n.priority := by
    intro n hn
    exact (min_le_left _ _).trans (Pool.minBound_le hn)
  refine le_min (Pool.le_minBound_iff.mpr (h.le_open hraises hopen)) ?_
  obtain ⟨-, -, hpop, hprocess⟩ := h
  have htaken := (Pool.pop?_perm hpop).mem_iff.mpr List.mem_cons_self
  exact hprocess.le_resolution hraises (min_le_right _ _) (hopen _ htaken)

/-! ## While nodes are open -/

theorem BoundsHold.outstanding_lt (h : l.BoundsHold setup) (hpool : l.pool.nodes ≠ []) :
    l.outstanding < setup.pruneThreshold l.progress := by
  obtain ⟨n, hn⟩ := List.exists_mem_of_ne_nil _ hpool
  calc l.outstanding ≤ l.pool.minBound := min_le_left _ _
    _ ≤ n.priority := Pool.minBound_le hn
    _ < setup.pruneThreshold l.progress := h.open_lt n hn

/-- An open node keeps the gap open, whatever the gaps are. -/
theorem BoundsHold.isGapClosed_eq_false (h : l.BoundsHold setup) (hpool : l.pool.nodes ≠ []) :
    setup.isGapClosed l.progress = false := by
  by_contra hclosed
  have hle := ((Setup.isGapClosed_iff h.measured).mp (Bool.eq_true_of_not_eq_false hclosed)).2.2
  exact absurd (h.outstanding_lt hpool) (hle.trans (le_outstanding h)).not_gt

/-- With open nodes the bound is raised all the way to what is outstanding. -/
theorem Turn.outstanding_le_lowerBound (h : l.Turn setup l') (hl' : l'.BoundsHold setup)
    (hgaps : setup.HasFiniteGaps) (hpool : l'.pool.nodes ≠ []) :
    l'.outstanding ≤ l'.progress.lowerBound := by
  have hlt := hl'.outstanding_lt hpool
  have hvalue : l'.outstanding ≤ l'.progress.incumbentValue :=
    hlt.le.trans (Setup.pruneThreshold_le_value hgaps hl'.measured)
  have hknown : ¬ (l'.outstanding = ⊤ ∧ l'.progress.hasIncumbent = false) :=
    fun hwaits ↦ (hlt.trans_le le_top).ne hwaits.1
  rw [h.lowerBound_eq hknown]
  exact (le_min le_rfl hvalue).trans (le_max_right _ _)

end Ledger

namespace Search

variable {setup : Setup ℝ EReal σ p} {solver : σ} {s s' : Search ℝ EReal σ p} {a : EReal}

theorem AtLoopHead.lowerBound_eq_outstanding (hs : AtLoopHead setup solver s)
    (hraises : setup.RaisesBounds) (hgaps : setup.HasFiniteGaps) (hpool : s.pool.nodes ≠ []) :
    s.progress.lowerBound = s.ledger.outstanding := by
  have hboth : s.ledger.BoundsHold setup ∧
      (s.pool.nodes ≠ [] → s.ledger.outstanding ≤ s.progress.lowerBound) := by
    refine hs.ledger_induction (I := fun l ↦ l.BoundsHold setup ∧
      (l.pool.nodes ≠ [] → l.outstanding ≤ l.progress.lowerBound)) ⟨?_, fun _ ↦ ?_⟩ ?_
    · exact Ledger.start_boundsHold setup
    · have hroot : Search.root p ∈ (Ledger.start setup).pool.nodes := List.mem_cons_self
      exact (min_le_left _ _).trans (Pool.minBound_le hroot)
    · rintro l l' ⟨hl, -⟩ hturn
      have hl' := hturn.boundsHold hraises hl
      exact ⟨hl', hturn.outstanding_le_lowerBound hl' hgaps⟩
  exact le_antisymm (Ledger.le_outstanding hboth.1) (hboth.2 hpool)

/-- The search takes one loop head to another one in some number of turns. -/
def LeadsTo (setup : Setup ℝ EReal σ p) : Search ℝ EReal σ p → Search ℝ EReal σ p → Prop :=
  Relation.ReflTransGen fun s s' ↦ turn setup s = .ok (none, s')

theorem AtLoopHead.leadsTo (hs : AtLoopHead setup solver s) :
    LeadsTo setup (Search.start setup solver) s := by
  induction hs with
  | start => exact .refl
  | next _ hturn ih => exact ih.tail hturn

theorem LeadsTo.outstanding_le (h : LeadsTo setup s s') (hraises : setup.RaisesBounds) :
    s.ledger.outstanding ≤ s'.ledger.outstanding := by
  induction h with
  | refl => exact le_rfl
  | tail _ hturn ih => exact ih.trans ((turn_eq_none hturn).outstanding_le hraises)

theorem LeadsTo.le_open (h : LeadsTo setup s s') (hraises : setup.RaisesBounds)
    (hs : ∀ n ∈ s.pool.nodes, a ≤ n.priority) : ∀ n ∈ s'.pool.nodes, a ≤ n.priority := by
  induction h with
  | refl => exact hs
  | tail _ hturn ih => exact (turn_eq_none hturn).le_open hraises ih

variable {convex : ConvexSolver ℝ EReal p.size σ} {localSolver : LocalSolver ℝ p.size σ}

/-- From loop head to loop head the outstanding bound never falls, and while nodes are open it is
the global lower bound.  Best first, the priorities of the nodes taken never fall either. -/
theorem outstanding_rises_and_is_reported (hstandard : setup.IsStandard convex localSolver)
    (hgaps : setup.HasFiniteGaps) :
    (∀ s s', AtLoopHead setup solver s → LeadsTo setup s s' →
      min s.pool.minBound s.progress.resolutionBound ≤
        min s'.pool.minBound s'.progress.resolutionBound) ∧
    (∀ s, AtLoopHead setup solver s → s.pool.nodes ≠ [] →
      s.progress.lowerBound = min s.pool.minBound s.progress.resolutionBound) ∧
    (setup.options.selection = .bestFirst → ∀ s s', AtLoopHead setup solver s →
      LeadsTo setup s s' → ∀ node pool node' pool', s.pool.pop? = some (node, pool) →
        s'.pool.pop? = some (node', pool') → node.priority ≤ node'.priority) := by
  have hraises := hstandard.raisesBounds
  refine ⟨?_, ?_, ?_⟩
  · intro s s' _ hleads
    exact hleads.outstanding_le hraises
  · intro s hs hpool
    exact hs.lowerBound_eq_outstanding hraises hgaps hpool
  · intro hbest s s' hs hleads node pool node' pool' hpop hpop'
    -- every node that is open later lies above the one taken, the next one taken among them
    have hleast := Pool.priority_le_of_pop? (hs.selection_eq.trans hbest) hpop
    have hlater := hleads.le_open hraises hleast
    exact hlater node' ((Pool.pop?_perm hpop').mem_iff.mpr List.mem_cons_self)

/-- On the line the search takes the root, at minus infinity, to an outstanding bound of zero. -/
theorem line_outstanding_rises : ∃ s, AtLoopHead (Line.setup [] 0) () s ∧ s.pool.nodes ≠ [] ∧
    min (Search.start (Line.setup [] 0) ()).pool.minBound ⊤ ≤
      min s.pool.minBound s.progress.resolutionBound ∧
    min s.pool.minBound s.progress.resolutionBound = 0 ∧
    ∀ node pool node' pool',
      (Search.start (Line.setup [] 0) ()).pool.pop? = some (node, pool) →
        s.pool.pop? = some (node', pool') → node.priority ≤ node'.priority := by
  obtain ⟨s, _, _, hs, hopen, hlower, -⟩ := Line.solve_iterationLimit
  obtain ⟨hrises, hreported, hpriorities⟩ := @outstanding_rises_and_is_reported _ _ _ () _ _
    Line.setup_isStandard (Line.setup_hasFiniteGaps le_rfl EReal.zero_ne_top)
  exact ⟨s, hs, hopen, hrises _ s .start hs.leadsTo, (hreported s hs hopen).symm.trans hlower,
    hpriorities rfl _ s .start hs.leadsTo⟩

end Search

namespace SearchTree

variable {t : SearchTree ℝ EReal σ p} {solver : σ} {convex : ConvexSolver ℝ EReal p.size σ}
  {localSolver : LocalSolver ℝ p.size σ}

/-- At every loop head the open nodes are strictly below the prune threshold.  The node taken next
is therefore processed, the gap is open as long as a node is, and a converged search has none
left. -/
theorem open_nodes_lt_pruneThreshold (hstandard : t.setup.IsStandard convex localSolver) :
    (∀ s, Search.AtLoopHead t.setup solver s →
      (∀ node ∈ s.pool.nodes, node.priority < t.setup.pruneThreshold s.progress) ∧
      (∀ polled node pool, Search.verdict? t.setup (Search.tick t.setup s) = (none, polled) →
        polled.pool.pop? = some (node, pool) →
          Search.isPrunable t.setup node.priority { polled with
            pool := pool
            progress := { polled.progress with
              iterations := polled.progress.iterations + 1 } } = false) ∧
      (s.pool.nodes ≠ [] → t.setup.isGapClosed s.progress = false)) ∧
    ∀ result t', t.solve solver = .ok (result, t') → result.state = .converged →
      ∃ s, t'.search = some s ∧ s.pool.nodes = [] := by
  have hbounds {s} (hs : Search.AtLoopHead t.setup solver s) : s.ledger.BoundsHold t.setup :=
    hs.boundsHold hstandard.raisesBounds
  refine ⟨fun s hs ↦ ⟨(hbounds hs).open_lt, ?_, (hbounds hs).isGapClosed_eq_false⟩, ?_⟩
  · intro polled node pool hverdict hpop
    have hledger : polled.ledger = (Search.tick t.setup s).ledger :=
      (Search.verdict?_eq_none hverdict).2.2.2
    have hpool : polled.pool = s.pool := congrArg Ledger.pool hledger
    have hprogress : t.setup.pruneThreshold polled.progress =
        t.setup.pruneThreshold s.progress :=
      congrArg (t.setup.pruneThreshold ·.progress) hledger
    rw [hpool] at hpop
    have hnode := (Pool.pop?_perm hpop).mem_iff.mpr List.mem_cons_self
    have hlt := (hbounds hs).open_lt node hnode
    refine decide_eq_false (not_le.mpr ?_)
    exact hlt.trans_eq hprogress.symm
  · intro result t' hsolve hstate
    obtain ⟨head, time, hhead, hstops, -, s, hsearch, hledger⟩ := solve_eq_ok hsolve
    refine ⟨s, hsearch, ?_⟩
    have hpool : s.pool = head.pool := congrArg Ledger.pool hledger
    rw [hpool]
    by_contra hopen
    have hgap := (hbounds hhead).isGapClosed_eq_false hopen
    rw [hstate] at hstops
    rcases hstops.converged with hclosed | ⟨hempty, -⟩
    · exact absurd (hclosed.symm.trans hgap) (by decide)
    · exact hopen hempty

theorem line_open_nodes_lt_pruneThreshold :
    (∃ s, Search.AtLoopHead (Line.setup [] 0) () s ∧ s.pool.nodes ≠ [] ∧
      (∀ node ∈ s.pool.nodes, node.priority < (Line.setup [] 0).pruneThreshold s.progress) ∧
      (Line.setup [] 0).isGapClosed s.progress = false) ∧
    ∃ result t' s, (Line.tree [] 1).solve () = .ok (result, t') ∧ result.state = .converged ∧
      t'.search = some s ∧ s.pool.nodes = [] := by
  refine ⟨?_, ?_⟩
  · obtain ⟨s, _, _, hs, hopen, -⟩ := Line.solve_iterationLimit
    obtain ⟨hbelow, -, hgap⟩ := (open_nodes_lt_pruneThreshold (t := Line.tree [] 0)
      Line.setup_isStandard).1 s hs
    exact ⟨s, hs, hopen, hbelow, hgap hopen⟩
  · obtain ⟨result, t', _, hsolve, hstate, -⟩ := Line.solve_converged
    obtain ⟨s, hsearch, hpool⟩ := (open_nodes_lt_pruneThreshold (t := Line.tree [] 1)
      Line.setup_isStandard).2 result t' hsolve hstate
    exact ⟨result, t', s, hsolve, hstate, hsearch, hpool⟩

end SearchTree

end GlobalQcqp
