import GlobalQcqp.Proofs.Search.Bounds
import GlobalQcqp.Proofs.Tightening
/-!
# Covered points

A feasible point is covered by a ledger if it cannot improve on the incumbent by more than the gap,
or lies in an open node whose priority does not exceed its objective value, or is not better than a
bound that was set aside.  A turn keeps points covered as long as the threshold does not rise.
-/

namespace GlobalQcqp

variable {σ : Type} {p : Problem ℝ}

/-- The point lies in the box, and its value is not below the priority. -/
def Node.Holds (node : Node ℝ EReal p.stored) (y : Vector ℝ p.size) : Prop :=
  y ∈ p.restrictBox node.box ∧ node.priority ≤ p.objective.eval y

/-- Tightening and bounding a node do not lose a feasible point worth keeping. -/
structure Setup.KeepsFeasible (setup : Setup ℝ EReal σ p) : Prop where
  tighten : ∀ {l : Ledger EReal p} {node r y}, l.Tightens setup node r →
    p.IsUseful l.progress y → y ∈ p.restrictBox node.box →
      r.isOpen = true ∧ y ∈ p.restrictBox r.node.box
  lower : ∀ {node bounded y}, Ledger.BoundsBelow setup node bounded → y ∈ p.feasibleSet →
    node.Holds y → bounded.status ≠ .infeasible ∧ y ∈ p.restrictBox bounded.box ∧
      bounded.bound ≤ p.objective.eval y

namespace Ledger

variable {setup : Setup ℝ EReal σ p} {l l' : Ledger EReal p} {node : Node ℝ EReal p.stored}
  {y : Vector ℝ p.size}

def Covers (setup : Setup ℝ EReal σ p) (l : Ledger EReal p) (y : Vector ℝ p.size) : Prop :=
  setup.pruneThreshold l.progress ≤ p.objective.eval y ∨
    (∃ node ∈ l.pool.nodes, node.Holds y) ∨ l.progress.resolutionBound ≤ p.objective.eval y

/-- Without open nodes and without an incumbent only a bound that was set aside covers a point. -/
theorem Covers.of_empty (hy : l.Covers setup y) (hpool : l.pool.nodes = []) :
    l.progress.hasIncumbent = true ∧ setup.pruneThreshold l.progress ≤ p.objective.eval y ∨
      l.progress.resolutionBound ≤ p.objective.eval y := by
  rcases hy with hy | ⟨node, hnode, _⟩ | hy
  · cases hinc : l.progress.hasIncumbent with
    | false =>
        rw [Setup.pruneThreshold_eq_top hinc] at hy
        exact absurd hy (EReal.coe_lt_top _).not_ge
    | true => exact Or.inl ⟨rfl, hy⟩
  · rw [hpool] at hnode
    cases hnode
  · exact Or.inr hy

theorem start_covers (setup : Setup ℝ EReal σ p) (hy : y ∈ p.feasibleSet) :
    (start setup).Covers setup y :=
  Or.inr (Or.inl ⟨Search.root p, List.mem_singleton_self _, hy.1, bot_le⟩)

theorem mem_improve_pool {value : EReal} {stored : Vector ℝ p.stored} :
    node ∈ (l.improve setup value stored).pool.nodes ↔ node ∈ l.pool.nodes ∧
      node.priority < setup.pruneThreshold (l.improve setup value stored).progress :=
  Pool.mem_prune

/-- A better incumbent drops only nodes that the lower threshold rules out. -/
theorem BoundAbove.covers (h : l.BoundAbove setup node l')
    (hle : setup.pruneThreshold l'.progress ≤ setup.pruneThreshold l.progress)
    (hy : l.Covers setup y) : l'.Covers setup y := by
  cases h with
  | missed => exact hy
  | improved _ _ _ =>
      rcases hy with hy | ⟨node', hnode', hholds⟩ | hy
      · exact Or.inl (hle.trans hy)
      · -- a node dropped by the new threshold has its points above that threshold
        rcases lt_or_ge node'.priority (setup.pruneThreshold _) with hlt | hge
        · exact Or.inr (Or.inl ⟨node', mem_improve_pool.mpr ⟨hnode', hlt⟩, hholds⟩)
        · exact Or.inl (hge.trans hholds.2)
      · exact Or.inr (Or.inr hy)

/-- A point of a bounded node passes to a half, to the bounds set aside, or below the threshold. -/
theorem Ending.covers (h : l.Ending setup node l') (hy : l.Covers setup y ∨
    y ∈ p.restrictBox node.box ∧ node.bound ≤ p.objective.eval y) : l'.Covers setup y := by
  cases h with
  | pruned hbound =>
      rcases hy with hy | ⟨_, hy⟩
      · exact hy
      · exact Or.inl (hbound.trans hy)
  | tooNarrow _ _ =>
      rcases hy with (hy | hy | hy) | ⟨_, hy⟩
      · exact Or.inl hy
      · exact Or.inr (Or.inl hy)
      · refine Or.inr (Or.inr ?_)
        simp only [setAside, Scalar.min_ereal]
        exact (min_le_left _ _).trans hy
      · refine Or.inr (Or.inr ?_)
        simp only [setAside, Scalar.min_ereal]
        exact (min_le_right _ _).trans hy
  | @split i value left right _ _ _ hsplit =>
      rcases hy with (hy | ⟨node', hnode', hholds⟩ | hy) | ⟨hbox, hy⟩
      · exact Or.inl hy
      · have hmem := List.mem_cons_of_mem right (List.mem_cons_of_mem left hnode')
        exact Or.inr (Or.inl ⟨node', hmem, hholds⟩)
      · exact Or.inr (Or.inr hy)
      · have hhalves := Node.split?_eq_ok hsplit
        obtain ⟨hleft, hright⟩ := Node.split_priority hhalves
        have hcovers := node.split_covers i value l.progress.nodesCreated hbox
        rw [hhalves] at hcovers
        rcases hcovers with hbox | hbox
        · exact Or.inr (Or.inl ⟨left, List.mem_cons_of_mem _ List.mem_cons_self, hbox, hleft ▸ hy⟩)
        · exact Or.inr (Or.inl ⟨right, List.mem_cons_self, hbox, hright ▸ hy⟩)

/-- A point that tightening may cut off is not better than the incumbent. -/
theorem Tightens.covers {r : Propagated ℝ EReal p.stored σ} (hr : l.Tightens setup node r)
    (hkeeps : setup.KeepsFeasible) (hraises : setup.RaisesBounds) (hfeasible : y ∈ p.feasibleSet)
    (hvalue : l.progress.hasIncumbent = true →
      setup.pruneThreshold l.progress ≤ (l.progress.incumbentValue.toReal : ℝ))
    (hholds : node.Holds y) :
    l.Covers setup y ∨ r.isOpen = true ∧ r.node.Holds y := by
  by_cases huseful : p.IsUseful l.progress y
  · obtain ⟨hopen, hbox⟩ := hkeeps.tighten hr huseful hholds.1
    exact Or.inr ⟨hopen, hbox, (hraises.tighten hr).trans_le hholds.2⟩
  · left
    left
    simp only [Problem.IsUseful, hfeasible, true_and, Classical.not_imp, not_le] at huseful
    exact (hvalue huseful.1).trans (EReal.coe_le_coe_iff.mpr huseful.2.le)

theorem Process.covers (h : l.Process setup node l') (hkeeps : setup.KeepsFeasible)
    (hraises : setup.RaisesBounds) (hfeasible : y ∈ p.feasibleSet)
    (hle : setup.pruneThreshold l'.progress ≤ setup.pruneThreshold l.progress)
    (hvalue : l.progress.hasIncumbent = true →
      setup.pruneThreshold l.progress ≤ (l.progress.incumbentValue.toReal : ℝ))
    (hy : l.Covers setup y ∨ node.Holds y) : l'.Covers setup y := by
  -- where a point of the node is once the node has been tightened
  have tightened {r} (hr : l.Tightens setup node r) :
      l.Covers setup y ∨ r.isOpen = true ∧ r.node.Holds y :=
    hy.elim Or.inl fun hholds ↦ hr.covers hkeeps hraises hfeasible hvalue hholds
  cases h with
  | stale hstale => exact hy.elim id fun hholds ↦ Or.inl (hstale.trans hholds.2)
  | closed hr hclosed =>
      rcases tightened hr with hy | ⟨hopen, _⟩
      · exact hy
      · exact absurd (hopen.symm.trans hclosed) (by decide)
  | refuted hr _ hlower hstatus =>
      rcases tightened hr with hy | ⟨_, hholds⟩
      · exact hy
      · exact absurd hstatus (hkeeps.lower hlower hfeasible hholds).1
  | @bounded r bounded l₁ _ hr _ hlower _ habove hend =>
      have hbounded : (l.countLower bounded.status).Covers setup y ∨
          y ∈ p.restrictBox bounded.box ∧ bounded.bound ≤ p.objective.eval y :=
        (tightened hr).imp_right fun ⟨_, hholds⟩ ↦ (hkeeps.lower hlower hfeasible hholds).2
      refine hend.covers (hbounded.imp_left fun hy ↦ ?_)
      rcases habove with rfl | ⟨_, habove⟩
      · exact hy
      · exact habove.covers (hend.pruneThreshold_eq ▸ hle) hy

/-- What processing a node does to the threshold, a whole turn does. -/
theorem Turn.covers (h : l.Turn setup l') (hkeeps : setup.KeepsFeasible)
    (hraises : setup.RaisesBounds) (hfeasible : y ∈ p.feasibleSet)
    (hle : setup.pruneThreshold l'.progress ≤ setup.pruneThreshold l.progress)
    (hvalue : l.progress.hasIncumbent = true →
      setup.pruneThreshold l.progress ≤ (l.progress.incumbentValue.toReal : ℝ))
    (hy : l.Covers setup y) : l'.Covers setup y := by
  cases h with
  | @mk time node pool _ _ _ hpop hprocess =>
      have hperm := Pool.pop?_perm hpop
      refine hprocess.covers hkeeps hraises hfeasible hle hvalue ?_
      rcases hy with hy | ⟨node', hnode', hholds⟩ | hy
      · exact Or.inl (Or.inl hy)
      · rcases List.mem_cons.mp (hperm.mem_iff.mp hnode') with rfl | hnode'
        · exact Or.inr hholds
        · exact Or.inl (Or.inr (Or.inl ⟨node', hnode', hholds⟩))
      · exact Or.inl (Or.inr (Or.inr hy))

/-! ## The incumbent over a turn -/

theorem BoundAbove.isNoWorse (h : l.BoundAbove setup node l') :
    l'.progress.IsNoWorseThan l.progress := by
  cases h with
  | missed => exact ⟨fun h ↦ h, le_rfl⟩
  | improved _ _ hlt => exact ⟨fun _ ↦ rfl, hlt.le⟩

theorem Ending.incumbent_eq (h : l.Ending setup node l') :
    l'.progress.hasIncumbent = l.progress.hasIncumbent ∧
      l'.progress.incumbentValue = l.progress.incumbentValue := by
  cases h <;> exact ⟨rfl, rfl⟩

/-- The incumbent is never lost, and its value never rises. -/
theorem Process.isNoWorse (h : l.Process setup node l') :
    l'.progress.IsNoWorseThan l.progress := by
  cases h with
  | stale _ => exact ⟨fun h ↦ h, le_rfl⟩
  | closed _ _ => exact ⟨fun h ↦ h, le_rfl⟩
  | refuted _ _ _ _ => exact ⟨fun h ↦ h, le_rfl⟩
  | bounded _ _ _ _ habove hend =>
      obtain ⟨hinc, hvalue⟩ := hend.incumbent_eq
      rcases habove with rfl | ⟨_, habove⟩
      · exact ⟨fun h ↦ hinc.trans h, hvalue.le⟩
      · exact ⟨fun h ↦ hinc.trans (habove.isNoWorse.keeps h),
          hvalue.trans_le habove.isNoWorse.value_le⟩

theorem Turn.isNoWorse (h : l.Turn setup l') : l'.progress.IsNoWorseThan l.progress := by
  cases h with
  | mk _ _ _ hprocess => exact ⟨hprocess.isNoWorse.keeps, hprocess.isNoWorse.value_le⟩

end Ledger

/-! ## Loop heads -/

namespace Search

variable {setup : Setup ℝ EReal σ p} {solver : σ} {s : Search ℝ EReal σ p} {y : Vector ℝ p.size}

/-- With gaps that let the threshold only fall, every feasible point is covered at every loop
head. -/
theorem AtLoopHead.covers (hs : AtLoopHead setup solver s) (hraises : setup.RaisesBounds)
    (hkeeps : setup.KeepsFeasible) (hgaps : setup.HasFiniteGaps) (hrel : setup.relGap ≤ 1)
    (hy : y ∈ p.feasibleSet) : s.ledger.Covers setup y := by
  -- the cover alone is no invariant: the threshold falls because the bounds hold as well
  have hboth : s.ledger.BoundsHold setup ∧ s.ledger.Covers setup y := by
    refine hs.ledger_induction (I := fun l ↦ l.BoundsHold setup ∧ l.Covers setup y)
      ⟨Ledger.start_boundsHold setup, Ledger.start_covers setup hy⟩ ?_
    rintro l l' ⟨hl, hcovers⟩ hturn
    have hl' := hturn.boundsHold hraises hl
    have hle : setup.pruneThreshold l'.progress ≤ setup.pruneThreshold l.progress :=
      Setup.pruneThreshold_mono hgaps (Or.inl hrel) hl.measured hl'.measured hturn.isNoWorse
    refine ⟨hl', hturn.covers hkeeps hraises hy hle (fun hinc ↦ ?_) hcovers⟩
    obtain ⟨v, hv⟩ := hl.measured.2 hinc
    have hvalue := Setup.pruneThreshold_le_value hgaps hl.measured
    rwa [hv] at hvalue ⊢
  exact hboth.2

/-- Without an incumbent the threshold is infinite, whatever the gaps. -/
theorem AtLoopHead.covers_of_no_incumbent (hs : AtLoopHead setup solver s)
    (hraises : setup.RaisesBounds) (hkeeps : setup.KeepsFeasible) (hy : y ∈ p.feasibleSet)
    (hnone : s.ledger.progress.hasIncumbent = false) : s.ledger.Covers setup y := by
  refine hs.ledger_induction
    (I := fun l ↦ l.progress.hasIncumbent = false → l.Covers setup y)
    (fun _ ↦ Ledger.start_covers setup hy) ?_ hnone
  intro l l' hcovers hturn hnone'
  have hnone : l.progress.hasIncumbent = false := by
    by_contra hinc
    have hinc' := hturn.isNoWorse.keeps (Bool.eq_true_of_not_eq_false hinc)
    exact absurd (hinc'.symm.trans hnone') (by decide)
  refine hturn.covers hkeeps hraises hy ?_ (fun hinc ↦ ?_) (hcovers hnone)
  · rw [Setup.pruneThreshold_eq_top hnone]
    exact le_top
  · exact absurd (hinc.symm.trans hnone) (by decide)

end Search

end GlobalQcqp
