import GlobalQcqp.Proofs.Search.Outstanding
import GlobalQcqp.Proofs.Search.Stages
/-!
# Discarded nodes

A node is discarded by its bound where it is taken, before or after the search for a feasible point
in it, or while it is open and a better incumbent is found elsewhere.  Each time the bound lies at
or above the threshold of the moment, which is the one at the end of the turn as well.  A later
incumbent lowers the threshold, unless the gap is relative by a factor above one.
-/

namespace GlobalQcqp

variable {σ : Type} {p : Problem ℝ}

namespace Search

/-- The turn from `s` discards a node with this bound. -/
inductive Discards (setup : Setup ℝ EReal σ p) (s : Search ℝ EReal σ p) : EReal → Prop
  | stale {node s₁} (h : Takes setup s node s₁)
      (hprunable : s₁.isPrunable setup node.priority = true) : Discards setup s node.priority
  | bounded {node s₃} (h : BoundsBelow setup s node s₃) (hstatus : node.status ≠ .infeasible)
      (hprunable : s₃.isPrunable setup node.bound = true) : Discards setup s node.bound
  | searched {node s₃ s₄} (h : BoundsAbove setup s node s₃ s₄)
      (hprunable : s₄.isPrunable setup node.bound = true) : Discards setup s node.bound
  | filtered {node s₃ s₄ n} (h : BoundsAbove setup s node s₃ s₄) (hopen : n ∈ s₃.pool.nodes)
      (hdropped : n ∉ s₄.pool.nodes) : Discards setup s n.priority

variable {setup : Setup ℝ EReal σ p} {solver : σ} {s s' s₃ s₄ : Search ℝ EReal σ p} {bound : EReal}
  {node n : Node ℝ EReal p.stored}

/-- A better incumbent drops open nodes at or above its threshold only. -/
theorem pruneThreshold_le_of_dropped (habove : boundAbove setup node s₃ = .ok s₄)
    (hopen : n ∈ s₃.pool.nodes) (hdropped : n ∉ s₄.pool.nodes) :
    setup.pruneThreshold s₄.progress ≤ n.priority := by
  have hledger := boundAbove_ledger habove
  rw [← ledger_pool] at hopen hdropped
  rw [← ledger_progress]
  generalize s₄.ledger = l at hledger hdropped
  cases hledger with
  | missed => exact absurd hopen hdropped
  | improved _ _ _ => exact not_lt.mp fun hlt ↦ hdropped (Pool.mem_prune.mpr ⟨hopen, hlt⟩)

/-- What is left of a turn after the search for a feasible point keeps the incumbent. -/
theorem BoundsAbove.keeps (h : BoundsAbove setup s node s₃ s₄)
    (hturn : turn setup s = .ok (none, s')) : s'.progress.KeepsIncumbent s₄.progress := by
  rw [h.turn_eq] at hturn
  by_cases hprunable : s₄.isPrunable setup node.bound = true
  · rw [if_pos hprunable] at hturn
    cases hturn
    exact (conclude_keeps setup _).trans ⟨rfl, rfl, rfl⟩
  · rw [if_neg hprunable] at hturn
    cases hbranch : branch setup node s₄ with
    | error cause =>
        rw [hbranch] at hturn
        cases hturn
    | ok s₅ =>
        rw [hbranch] at hturn
        cases hturn
        have hend := branch_ledger (fun hle ↦ hprunable (isPrunable_iff.mpr hle)) hbranch
        exact (conclude_keeps setup s₅).trans hend.keeps

/-- Within its turn a discard is justified by the incumbent that the turn ends with. -/
theorem Discards.pruneThreshold_le (h : Discards setup s bound)
    (hturn : turn setup s = .ok (none, s')) : setup.pruneThreshold s'.progress ≤ bound := by
  cases h with
  | @stale node s₁ h hprunable =>
      rw [h.turn_eq, process, if_pos hprunable] at hturn
      cases hturn
      have hkeeps := (conclude_keeps setup (s₁.countPruned 1)).trans ⟨rfl, rfl, rfl⟩
      rw [Setup.pruneThreshold_eq_of_keeps hkeeps]
      exact isPrunable_iff.mp hprunable
  | @bounded node s₃ h hstatus hprunable =>
      rw [h.turn_eq hstatus, processBounded, if_pos hprunable] at hturn
      cases hturn
      have hkeeps := (conclude_keeps setup (s₃.countPruned 1)).trans ⟨rfl, rfl, rfl⟩
      rw [Setup.pruneThreshold_eq_of_keeps hkeeps]
      exact isPrunable_iff.mp hprunable
  | searched h hprunable =>
      rw [Setup.pruneThreshold_eq_of_keeps (h.keeps hturn)]
      exact isPrunable_iff.mp hprunable
  | filtered h hopen hdropped =>
      rw [Setup.pruneThreshold_eq_of_keeps (h.keeps hturn)]
      obtain ⟨-, habove⟩ := h
      exact pruneThreshold_le_of_dropped habove hopen hdropped

/-! ## From a turn to the end of the search -/

theorem LeadsTo.isNoWorse (h : LeadsTo setup s s') :
    s'.progress.IsNoWorseThan s.progress := by
  induction h with
  | refl => exact ⟨fun hinc ↦ hinc, le_rfl⟩
  | tail _ hturn ih =>
      have hnext := (turn_eq_none hturn).isNoWorse
      exact ⟨fun hinc ↦ hnext.keeps (ih.keeps hinc), hnext.value_le.trans ih.value_le⟩

/-- A search goes through its loop heads in one order. -/
theorem AtLoopHead.leadsTo_or (hs : AtLoopHead setup solver s)
    (hs' : AtLoopHead setup solver s') : LeadsTo setup s s' ∨ LeadsTo setup s' s := by
  refine Relation.ReflTransGen.total_of_right_unique ?_ hs.leadsTo hs'.leadsTo
  intro a b c hb hc
  cases hb.symm.trans hc
  rfl

theorem Stops.verdict_ne_none {state : RunState} (h : Stops setup s state)
    (s' : Search ℝ EReal σ p) : verdict? setup s ≠ (none, s') := by
  intro hverdict
  unfold verdict? at hverdict
  split at hverdict
  · cases hverdict
  · have hopen := ‹¬ s.pool.isEmpty = true›
    split at hverdict
    · cases hverdict
    · have hgap := ‹¬ setup.isGapClosed s.progress = true›
      simp only at hverdict
      split at hverdict
      · cases hverdict
      · have hcancelled := ‹¬ setup.isCancelled s.polls = true›
        cases h with
        | exhausted hpool => exact hopen (Pool.isEmpty_iff.mpr hpool)
        | gapClosed _ hclosed => exact hgap hclosed
        | interrupted _ _ h => exact hcancelled h
        | limited _ _ hlimit =>
            have hnone := congrArg Prod.fst hverdict
            simp only at hnone
            cases hlimit.symm.trans hnone

/-- A turn before the end of the search leads to another loop head, and from there to the end. -/
theorem Takes.exists_next {head s₁ : Search ℝ EReal σ p} {state : RunState}
    (h : Takes setup s node s₁) (hs : AtLoopHead setup solver s)
    (hhead : AtLoopHead setup solver head) (hstops : Stops setup (tick setup head) state) :
    ∃ s', turn setup s = .ok (none, s') ∧ LeadsTo setup s' head := by
  have hlast (s' : Search ℝ EReal σ p) : turn setup head ≠ .ok (none, s') := by
    intro hturn
    obtain ⟨_, _, _, ⟨hverdict, -⟩, -, -⟩ := exists_takes hturn
    exact hstops.verdict_ne_none _ hverdict
  have hne : s ≠ head := by
    rintro rfl
    obtain ⟨hverdict, -⟩ := h
    exact hstops.verdict_ne_none _ hverdict
  rcases hs.leadsTo_or hhead with hleads | hleads
  · rcases hleads.cases_head with heq | ⟨s', hturn, hleads⟩
    · exact absurd heq hne
    · exact ⟨s', hturn, hleads⟩
  · rcases hleads.cases_head with heq | ⟨s', hturn, -⟩
    · exact absurd heq.symm hne
    · exact absurd hturn (hlast s')

theorem Discards.exists_takes (h : Discards setup s bound) : ∃ node s₁, Takes setup s node s₁ := by
  cases h with
  | stale h _ => exact ⟨_, _, h⟩
  | bounded h _ _ => exact h.exists_takes
  | searched h _ => exact h.boundsBelow.exists_takes
  | filtered h _ _ => exact h.boundsBelow.exists_takes

end Search

/-- The root is discarded once the middle of the interval is the incumbent. -/
theorem Line.discards_root :
    Search.Discards (setup [] 1) (Search.start (setup [] 1) ()) 0 := by
  have htakes : Search.Takes (setup [] 1) (Search.start (setup [] 1) ()) (Search.root (problem []))
      ((polled [] 1).take (taken [] 1).pool) := .mk verdict?_start pop?_polled
  have hfresh : ((polled [] 1).take (taken [] 1).pool).isPrunable (setup [] 1)
      (Search.root (problem []) : Node ℝ EReal 1).priority = false :=
    decide_eq_false (not_pruneThreshold_le rfl bot_lt_top)
  obtain ⟨s₃, hbelow, hs₃⟩ : ∃ s₃,
      Search.BoundsBelow (setup [] 1) (Search.start (setup [] 1) ()) bounded s₃ ∧
        s₃.ledger = (taken [] 1).countLower .feasible := by
    refine ⟨_, .mk (.mk htakes hfresh rfl) rfl relaxation?_root lower_root, ?_⟩
    rw [Search.recordLowered_ledger, Search.recordTightened_ledger]
    rfl
  obtain ⟨s₄, habove, hs₄⟩ := exists_boundAbove_root hs₃
  have hsearched :
      Search.BoundsAbove (setup [] 1) (Search.start (setup [] 1) ()) bounded s₃ s₄ := by
    refine .mk ⟨hbelow, by decide, ?_, rfl⟩ habove
    exact decide_eq_false (not_isPrunable_bounded hs₃)
  have hprunable : s₄.isPrunable (setup [] 1) bounded.bound = true := by
    rw [bound_bounded, Search.isPrunable_iff, hs₄]
    exact pruneThreshold_found_le
  have hdiscards := Search.Discards.searched hsearched hprunable
  rwa [bound_bounded] at hdiscards

namespace SearchTree

variable {t t' : SearchTree ℝ EReal σ p} {solver : σ} {result : SearchResult ℝ EReal p}
  {s last : Search ℝ EReal σ p} {bound : EReal} {convex : ConvexSolver ℝ EReal p.size σ}
  {localSolver : LocalSolver ℝ p.size σ}

/-- The bound of a discarded node is at or above the threshold at the end of its turn.  It is at or
above the threshold of the last incumbent too, unless the gap is relative by a factor above one, was
the larger gap then, and a better incumbent came later. -/
theorem discard_stays_justified (hstandard : t.setup.IsStandard convex localSolver)
    (hgaps : t.setup.HasFiniteGaps) (hsolve : t.solve solver = .ok (result, t'))
    (hlast : t'.search = some last) (hs : Search.AtLoopHead t.setup solver s)
    (hdiscards : Search.Discards t.setup s bound) :
    ∃ s', Search.turn t.setup s = .ok (none, s') ∧
      t.setup.pruneThreshold s'.progress ≤ bound ∧
      (t.setup.pruneThreshold last.progress ≤ bound ∨
        1 < t.setup.relGap ∧ t.setup.absGap < t.setup.relGap * s'.progress.incumbentValue ∧
        last.progress.incumbentValue < s'.progress.incumbentValue) := by
  obtain ⟨head, time, hhead, hstops, -, s₀, hsearch, hledger⟩ := solve_eq_ok hsolve
  cases hlast.symm.trans hsearch
  have hkeeps : last.progress.KeepsIncumbent head.progress := by
    rw [← Search.ledger_progress, hledger]
    exact ⟨rfl, rfl, rfl⟩
  obtain ⟨node, s₁, htakes⟩ := hdiscards.exists_takes
  obtain ⟨s', hturn, hleads⟩ := htakes.exists_next hs hhead hstops
  have hle := hdiscards.pruneThreshold_le hturn
  refine ⟨s', hturn, hle, ?_⟩
  rw [Setup.pruneThreshold_eq_of_keeps hkeeps, hkeeps.value_eq]
  have hmeasured' := ((hs.next hturn).boundsHold hstandard.raisesBounds).measured
  have hmeasured := (hhead.boundsHold hstandard.raisesBounds).measured
  have hworse := hleads.isNoWorse
  by_cases hrel : t.setup.relGap ≤ 1 ∨
      t.setup.relGap * s'.progress.incumbentValue ≤ t.setup.absGap
  · left
    exact (Setup.pruneThreshold_mono hgaps hrel hmeasured' hmeasured hworse).trans hle
  · obtain ⟨hfactor, hlarge⟩ := not_or.mp hrel
    rcases hworse.value_le.lt_or_eq with hlt | heq
    · exact Or.inr ⟨not_le.mp hfactor, not_le.mp hlarge, hlt⟩
    · left
      exact (Setup.pruneThreshold_le_of_value_eq hmeasured' hworse heq).trans hle

/-- With a gap of one the search on the line discards the root once it has found the middle of the
interval, and the threshold stays at or below its bound. -/
theorem line_discard_stays_justified : ∃ result t' last, (Line.tree [] 1).solve () =
      .ok (result, t') ∧ t'.search = some last ∧
    Search.Discards (Line.setup [] 1) (Search.start (Line.setup [] 1) ()) 0 ∧
    (Line.setup [] 1).pruneThreshold last.progress ≤ 0 := by
  obtain ⟨result, t', last, hsolve, -, -, hlast, -⟩ := Line.solve_converged
  have hgaps : (Line.setup [] 1).HasFiniteGaps :=
    Line.setup_hasFiniteGaps zero_le_one (EReal.coe_ne_top 1)
  obtain ⟨s', -, -, hjustified⟩ := discard_stays_justified (t := Line.tree [] 1)
    Line.setup_isStandard hgaps hsolve hlast .start Line.discards_root
  refine ⟨result, t', last, hsolve, hlast, Line.discards_root, ?_⟩
  exact hjustified.resolve_right fun h ↦ absurd h.1 Line.setup_relGap_le_one.not_gt

end SearchTree

end GlobalQcqp
