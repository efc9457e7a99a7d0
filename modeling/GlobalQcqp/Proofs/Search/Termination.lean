import GlobalQcqp.Proofs.Search.Outstanding
import GlobalQcqp.Proofs.Search.Totality
/-!
# Termination

The depth of a node and the rank of its box never add up to more than the rank of the root box.  A
search therefore creates no more nodes than a full binary tree of that depth has, whatever the
solvers answer and without any limit.  Every node is taken at most once, and open nodes keep the gap
open, so a search that meets no limit ends with no nodes left.
-/

namespace GlobalQcqp

variable {σ : Type} {p : Problem ℝ}

/-! ## Limits that depend on the root box alone -/

/-- The number of nodes below the root of a full binary tree of the given depth. -/
def descendantLimit (depth : ℕ) : ℕ :=
  2 ^ (depth + 1) - 2

theorem descendantLimit_mono {a b : ℕ} (hab : a ≤ b) : descendantLimit a ≤ descendantLimit b :=
  Nat.sub_le_sub_right (Nat.pow_le_pow_right two_pos (Nat.succ_le_succ hab)) 2

theorem descendantLimit_add_le {a b c : ℕ} (ha : a < c) (hb : b < c) :
    descendantLimit a + descendantLimit b + 2 ≤ descendantLimit c := by
  have hleft : 2 ^ (a + 1) ≤ 2 ^ c := Nat.pow_le_pow_right two_pos ha
  have hright : 2 ^ (b + 1) ≤ 2 ^ c := Nat.pow_le_pow_right two_pos hb
  have htwo : 2 ≤ 2 ^ (a + 1) := Nat.le_self_pow a.succ_ne_zero 2
  have htwo' : 2 ≤ 2 ^ (b + 1) := Nat.le_self_pow b.succ_ne_zero 2
  have hdouble : 2 ^ (c + 1) = 2 ^ c + 2 ^ c := by rw [pow_succ, mul_two]
  unfold descendantLimit
  omega

namespace Problem

variable (p) (minWidth : ℝ)

noncomputable def rank (node : Node ℝ EReal p.stored) : ℕ :=
  splitRank p.branchable minWidth node.box.widths

noncomputable def depthLimit : ℕ :=
  splitRank p.branchable minWidth p.box.widths

noncomputable def nodeLimit : ℕ :=
  descendantLimit (p.depthLimit minWidth) + 1

end Problem

variable {setup : Setup ℝ EReal σ p} {convex : ConvexSolver ℝ EReal p.size σ}
  {localSolver : LocalSolver ℝ p.size σ} {node half : Node ℝ EReal p.stored}

/-! ## Depth -/

theorem Ledger.IsHalf.rank_lt (h : IsHalf setup node half) (hmin : 0 < setup.options.minWidth)
    (hbox : node.box.IsProper) :
    p.rank setup.options.minWidth half < p.rank setup.options.minWidth node := by
  obtain ⟨i, value, id, left, right, hselect, hpoint, hsplit, rfl | rfl⟩ := h
  · exact (Node.splitRank_lt_of_split? hmin hbox hselect hpoint hsplit).1
  · exact (Node.splitRank_lt_of_split? hmin hbox hselect hpoint hsplit).2

/-- The node is inside the root box, and its box has lost the rank of one split a level. -/
structure Node.IsRanked (minWidth : ℝ) (node : Node ℝ EReal p.stored) : Prop
    extends node.IsInside where
  depth_add_rank_le : node.depth + p.rank minWidth node ≤ p.depthLimit minWidth

theorem Setup.IsStandard.preserves_isRanked (h : setup.IsStandard convex localSolver)
    (hmin : 0 < setup.options.minWidth) :
    setup.Preserves (Node.IsRanked setup.options.minWidth) where
  root := ⟨h.preserves_isInside.root, (zero_add _).le⟩
  refine {_ node bounded} hnode hrefines := by
    refine ⟨h.isInside_of_refines hrefines hnode.toIsInside, ?_⟩
    have hrank : p.rank setup.options.minWidth bounded ≤ p.rank setup.options.minWidth node :=
      Box.splitRank_mono hmin (h.box_le_of_refines hrefines)
    have hdepth := hnode.depth_add_rank_le
    rw [h.depth_eq_of_refines hrefines]
    omega
  half {node half} hnode hhalf := by
    refine ⟨h.preserves_isInside.half hnode.toIsInside hhalf, ?_⟩
    have hrank := hhalf.rank_lt hmin hnode.isProper
    have hdepth := hnode.depth_add_rank_le
    have hnext : half.depth = node.depth + 1 := by rw [hhalf.frame]; rfl
    omega

/-! ## Nodes -/

namespace Ledger

variable {l l' : Ledger EReal p}

/-- The nodes created so far and those that the open ones can still lead to. -/
noncomputable def reach (minWidth : ℝ) (l : Ledger EReal p) : ℕ :=
  l.progress.nodesCreated +
    (l.pool.nodes.map fun node ↦ descendantLimit (p.rank minWidth node)).sum

theorem nodesCreated_le_reach (minWidth : ℝ) (l : Ledger EReal p) :
    l.progress.nodesCreated ≤ l.reach minWidth :=
  Nat.le_add_right _ _

theorem BoundAbove.reach_le (h : l.BoundAbove setup node l') (minWidth : ℝ) :
    l'.reach minWidth ≤ l.reach minWidth := by
  cases h with
  | missed => exact le_rfl
  | improved _ _ _ =>
      refine Nat.add_le_add_left (List.Sublist.sum_le_sum ?_ fun _ _ ↦ Nat.zero_le _) _
      exact List.filter_sublist.map _

theorem Ending.reach_le (h : l.Ending setup node l') (hmin : 0 < setup.options.minWidth)
    (hbox : node.box.IsProper) : l'.reach setup.options.minWidth ≤
      l.reach setup.options.minWidth + descendantLimit (p.rank setup.options.minWidth node) := by
  cases h with
  | pruned _ => exact Nat.le_add_right _ _
  | tooNarrow _ _ => exact Nat.le_add_right _ _
  | @split _ _ left right _ hselect hpoint hsplit =>
      obtain ⟨hleft, hright⟩ := Node.splitRank_lt_of_split? hmin hbox hselect hpoint hsplit
      have hhalves : descendantLimit (p.rank setup.options.minWidth left) +
          descendantLimit (p.rank setup.options.minWidth right) + 2 ≤
            descendantLimit (p.rank setup.options.minWidth node) :=
        descendantLimit_add_le hleft hright
      simp only [reach, pushHalves, Pool.push, List.map_cons, List.sum_cons]
      omega

theorem Process.reach_le (h : l.Process setup node l') (hmin : 0 < setup.options.minWidth)
    (hstandard : setup.IsStandard convex localSolver) (hnode : node.IsInside) :
    l'.reach setup.options.minWidth ≤
      l.reach setup.options.minWidth + descendantLimit (p.rank setup.options.minWidth node) := by
  cases h with
  | stale _ => exact Nat.le_add_right _ _
  | closed _ _ => exact Nat.le_add_right _ _
  | refuted _ _ _ _ => exact Nat.le_add_right _ _
  | @bounded r bounded l₁ _ hr hopen hlower hstatus habove hend =>
      have hrefines : l.Refines setup node bounded := ⟨r, hr, hopen, hlower, hstatus⟩
      have hbox := (hstandard.isInside_of_refines hrefines hnode).isProper
      have hrank : p.rank setup.options.minWidth bounded ≤ p.rank setup.options.minWidth node :=
        Box.splitRank_mono hmin (hstandard.box_le_of_refines hrefines)
      have hcounted : l₁.reach setup.options.minWidth ≤ l.reach setup.options.minWidth := by
        rcases habove with rfl | ⟨_, habove⟩
        · exact le_rfl
        · exact habove.reach_le setup.options.minWidth
      calc _ ≤ _ := hend.reach_le hmin hbox
        _ ≤ _ := Nat.add_le_add hcounted (descendantLimit_mono hrank)

/-- A turn only uses up nodes that the one it takes could lead to. -/
theorem Turn.reach_le (h : l.Turn setup l') (hmin : 0 < setup.options.minWidth)
    (hstandard : setup.IsStandard convex localSolver)
    (hopen : ∀ node ∈ l.pool.nodes, node.IsInside) :
    l'.reach setup.options.minWidth ≤ l.reach setup.options.minWidth := by
  obtain ⟨-, -, hpop, hprocess⟩ := h
  have hperm := Pool.pop?_perm hpop
  have hnode := hopen _ (hperm.mem_iff.mpr List.mem_cons_self)
  refine (hprocess.reach_le hmin hstandard hnode).trans_eq ?_
  simp only [reach, take, (hperm.map _).sum_eq, List.map_cons, List.sum_cons]
  omega

end Ledger

namespace Search

variable {solver : σ} {s : Search ℝ EReal σ p} {state : RunState}

theorem AtLoopHead.nodesCreated_le (hs : AtLoopHead setup solver s)
    (hmin : 0 < setup.options.minWidth) (hstandard : setup.IsStandard convex localSolver) :
    s.progress.nodesCreated ≤ p.nodeLimit setup.options.minWidth := by
  have hreach : s.ledger.reach setup.options.minWidth ≤ p.nodeLimit setup.options.minWidth := by
    induction hs with
    | start => exact (Nat.add_comm _ _).le
    | next hs hturn ih =>
        have hopen := hs.forall_open hstandard.preserves_isInside
        exact ((turn_eq_none hturn).reach_le hmin hstandard hopen).trans ih
  exact (s.ledger.nodesCreated_le_reach _).trans hreach

/-- An open node is created and not taken yet. -/
theorem AtLoopHead.iterations_lt (hs : AtLoopHead setup solver s) (hpool : s.pool.nodes ≠ []) :
    s.progress.iterations < s.progress.nodesCreated := by
  have hcounts : s.progress.iterations + s.pool.size ≤ s.progress.nodesCreated := hs.countsNodes
  have hsize : 0 < s.pool.size := List.length_pos_iff.mpr hpool
  omega

end Search

/-! ## Searches without limits -/

/-- Nothing stops a search before it has created the given number of nodes. -/
structure Setup.LimitsOutOfReach (setup : Setup ℝ EReal σ p) (count : ℕ) : Prop where
  time : ∀ reading, setup.clock reading < setup.options.maxTime
  nodes : count ≤ setup.options.maxNodes
  iterations : ∀ limit ∈ setup.options.maxIterations, count ≤ limit
  cancel : ∀ poll, setup.isCancelled poll = false

namespace Search

variable {solver : σ} {s : Search ℝ EReal σ p} {state : RunState} {count : ℕ}

theorem limit?_eq_none (h : setup.LimitsOutOfReach count)
    (hnodes : s.progress.nodesCreated ≤ count) (hiterations : s.progress.iterations < count) :
    limit? setup (tick setup s) = none := by
  have htime : ¬ setup.options.maxTime ≤ (tick setup s).progress.elapsed :=
    not_le.mpr (h.time s.readings)
  have hcreated : ¬ setup.options.maxNodes < (tick setup s).progress.nodesCreated :=
    not_lt.mpr (hnodes.trans h.nodes)
  have hturns :
      setup.options.maxIterations.any (· ≤ (tick setup s).progress.iterations) = false := by
    cases hmax : setup.options.maxIterations with
    | none => rfl
    | some limit => exact decide_eq_false (hiterations.trans_le (h.iterations limit hmax)).not_ge
  rw [limit?, if_neg htime, if_neg hcreated, hturns]
  rfl

/-- As long as nodes are open, only a limit or a cancel request stops a search. -/
theorem Stops.cases_of_open (h : Stops setup s state) (hpool : s.pool.nodes ≠ [])
    (hgap : setup.isGapClosed s.progress = false) :
    state = .interrupted ∧ setup.isCancelled s.polls = true ∨ limit? setup s = some state := by
  cases h with
  | exhausted hempty => exact absurd hempty hpool
  | gapClosed _ hclosed => exact absurd (hclosed.symm.trans hgap) (by decide)
  | interrupted _ _ hcancelled => exact Or.inl ⟨rfl, hcancelled⟩
  | limited _ _ hlimit => exact Or.inr hlimit

end Search

namespace SearchTree

variable {t : SearchTree ℝ EReal σ p} {solver : σ}

/-- Over the real numbers a search tree can always be set up. -/
theorem make_eq_ok (setup : Setup ℝ EReal σ p) :
    make setup = .ok ⟨setup, .initialized, none⟩ := by
  rw [make, Problem.relaxation?_eq_ok]
  rfl

theorem solve_succeeds (hinitialized : t.state = .initialized)
    (hrun : Succeeds (Search.run t.setup solver)) : Succeeds (t.solve solver) := by
  obtain ⟨⟨state, s⟩, hs⟩ := hrun
  rw [solve, hinitialized, hs]
  exact succeeds_ok _

/-- A search ends on its own.  Its iterations, the nodes it creates and their depth are bounded by
numbers that depend on the root widths of the branchable variables and on the minimum width alone.
It returns, and unless a limit or a cancel request gets in the way, it has no nodes left then. -/
theorem solve_exhausts_pool (hstandard : t.setup.IsStandard convex localSolver)
    (hp : p.EpigraphIsAdded) (hsize : 0 < p.size) (hlocal : localSolver.AnswersVectors)
    (hmin : 0 < t.setup.options.minWidth) (hinitialized : t.state = .initialized) :
    (∀ s, Search.AtLoopHead t.setup solver s →
      s.progress.iterations ≤ p.nodeLimit t.setup.options.minWidth ∧
      s.progress.nodesCreated ≤ p.nodeLimit t.setup.options.minWidth ∧
      ∀ node ∈ s.pool.nodes, node.depth ≤ p.depthLimit t.setup.options.minWidth) ∧
    ∃ result t' s, t.solve solver = .ok (result, t') ∧ t'.search = some s ∧
      (s.pool.nodes ≠ [] → result.state = .interrupted ∨ result.state = .timeLimit ∨
        result.state = .nodeLimit ∨ result.state = .iterationLimit) ∧
      (t.setup.LimitsOutOfReach (p.nodeLimit t.setup.options.minWidth) → s.pool.nodes = []) := by
  refine ⟨fun s hs ↦ ⟨?_, hs.nodesCreated_le hmin hstandard, ?_⟩, ?_⟩
  · have hcounts : s.progress.iterations + s.pool.size ≤ s.progress.nodesCreated := hs.countsNodes
    have hnodes := hs.nodesCreated_le hmin hstandard
    omega
  · intro node hnode
    have hranked := hs.forall_open (hstandard.preserves_isRanked hmin) node hnode
    have hdepth := hranked.depth_add_rank_le
    omega
  · have hreturns := hstandard.run_succeeds hp.isPlaced (fun _ ↦ hsize) hlocal.answersFit solver
    obtain ⟨⟨result, t'⟩, hsolve⟩ := solve_succeeds hinitialized hreturns
    obtain ⟨head, time, hhead, hstops, -, s, hsearch, hledger⟩ := solve_eq_ok hsolve
    have hpool : s.pool = head.pool := congrArg Ledger.pool hledger
    have hgap := (hhead.boundsHold hstandard.raisesBounds).isGapClosed_eq_false
    have hcause (hopen : head.pool.nodes ≠ []) := hstops.cases_of_open hopen (hgap hopen)
    refine ⟨result, t', s, hsolve, hsearch, ?_, ?_⟩
    · intro hopen
      rcases hcause (hpool ▸ hopen) with ⟨hstate, -⟩ | hlimit
      · exact Or.inl hstate
      · exact Or.inr (Search.limit?_eq_some hlimit)
    · intro hlimits
      by_contra hopen
      rw [hpool] at hopen
      have hnodes := hhead.nodesCreated_le hmin hstandard
      rcases hcause hopen with ⟨-, hcancelled⟩ | hlimit
      · exact absurd (hcancelled.symm.trans (hlimits.cancel _)) (by decide)
      · have hnone := Search.limit?_eq_none hlimits hnodes
          ((hhead.iterations_lt hopen).trans_le hnodes)
        exact absurd (hlimit.symm.trans hnone) nofun

end SearchTree

/-! ## On the line -/

namespace Line

/-- No half of the unit interval is wide enough to be split again. -/
noncomputable def coarseOptions : Options ℝ EReal :=
  { options 0 with minWidth := 0.9, maxIterations := none }

noncomputable def coarseTree : SearchTree ℝ EReal Unit (problem []) where
  setup :=
    { Line.setup [] 0 with
      options := coarseOptions
      parts := Components.standard (problem []) coarseOptions routine Tangent.rangeSolver noAnswer }
  state := .initialized
  search := none

theorem coarseTree_isStandard :
    coarseTree.setup.IsStandard Tangent.rangeSolver noAnswer :=
  rfl

theorem nodeLimit_coarse_le : (problem []).nodeLimit coarseOptions.minWidth ≤ 3 := by
  have hshrink : shrinkCount 0.9 unit.widths[(0 : Fin 1)] ≤ 1 := by
    refine shrinkCount_le ?_
    rw [Box.getElem_widths]
    norm_num [Box.side]
  have hdepth : (problem []).depthLimit coarseOptions.minWidth =
      shrinkCount 0.9 unit.widths[(0 : Fin 1)] := by
    rw [Problem.depthLimit, splitRank, Finset.sum_filter]
    exact Fin.sum_univ_one _
  rw [Problem.nodeLimit, hdepth]
  exact Nat.succ_le_succ (descendantLimit_mono hshrink)

end Line

namespace SearchTree

/-- On the line, three nodes are enough to see the search through. -/
theorem line_exhausts_pool : (∀ s, Search.AtLoopHead Line.coarseTree.setup () s →
      s.progress.nodesCreated ≤ 3) ∧
    ∃ result t' s, Line.coarseTree.solve () = .ok (result, t') ∧ t'.search = some s ∧
      s.pool.nodes = [] := by
  have hlimits : Line.coarseTree.setup.LimitsOutOfReach
      ((Line.problem []).nodeLimit Line.coarseOptions.minWidth) := by
    refine ⟨fun _ ↦ EReal.zero_lt_top, Line.nodeLimit_coarse_le.trans ?_, nofun, fun _ ↦ rfl⟩
    decide
  obtain ⟨hbounded, result, t', s, hsolve, hsearch, -, hempty⟩ :=
    solve_exhausts_pool (t := Line.coarseTree) Line.coarseTree_isStandard
      Line.problem_epigraphIsAdded Nat.one_pos nofun
      (by norm_num [Line.coarseTree, Line.coarseOptions]) rfl
  refine ⟨fun s hs ↦ (hbounded s hs).2.1.trans Line.nodeLimit_coarse_le, ?_⟩
  exact ⟨result, t', s, hsolve, hsearch, hempty hlimits⟩

end SearchTree

end GlobalQcqp
