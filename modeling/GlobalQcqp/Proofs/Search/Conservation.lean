import GlobalQcqp.Proofs.Search.Results
import GlobalQcqp.Proofs.Search.Stages
/-!
# Conservation of nodes

A split makes two nodes of one, so the nodes that were never split are half of all the nodes
created, and one half more for the root.  Each of them is open, was pruned, was found infeasible or
was set aside, and is counted once.  A new node has an age of its own, which is above that of every
node created before it, and no node is taken twice.
-/

namespace GlobalQcqp

/-- The nodes have different ids, all of them given out by now. -/
structure DistinctBelow {α β : Type} {k : ℕ} (created : ℕ) (nodes : List (Node α β k)) : Prop where
  nodup : (nodes.map Node.id).Nodup
  id_mem : ∀ node ∈ nodes, 0 ≤ node.id ∧ node.id < created

namespace DistinctBelow

variable {α β : Type} {k created later : ℕ} {node : Node α β k} {nodes nodes' : List (Node α β k)}

theorem sublist (h : DistinctBelow created nodes) (hsub : nodes'.Sublist nodes) :
    DistinctBelow created nodes' where
  nodup := h.nodup.sublist (hsub.map Node.id)
  id_mem node hnode := h.id_mem node (hsub.subset hnode)

theorem perm (h : DistinctBelow created nodes) (hperm : nodes.Perm nodes') :
    DistinctBelow created nodes' where
  nodup := (hperm.map Node.id).nodup_iff.mp h.nodup
  id_mem node hnode := h.id_mem node (hperm.mem_iff.mpr hnode)

/-- A node that gets the next id. -/
theorem cons (h : DistinctBelow created nodes) (hid : node.id = created) :
    DistinctBelow (created + 1) (node :: nodes) := by
  constructor
  · refine List.nodup_cons.mpr ⟨fun hmem ↦ ?_, h.nodup⟩
    obtain ⟨n, hn, heq⟩ := List.mem_map.mp hmem
    have hlt := (h.id_mem n hn).2
    omega
  · intro n hn
    rcases List.mem_cons.mp hn with rfl | hn
    · omega
    · have hlt := h.id_mem n hn
      omega

end DistinctBelow

variable {α β σ : Type} [Scalar α] [Scalar β] [Extended α β] {p : Problem α}

namespace Ledger

variable {setup : Setup α β σ p} {l l' : Ledger β p} {node n : Node α β p.stored}
  {taken : List (Node α β p.stored)} {inHand : ℕ}

/-! ## Nodes that are not split -/

/-- The nodes that were not split, those in hand among them, are the leaves of a binary tree of all
the nodes. -/
def Balances (inHand : ℕ) (l : Ledger β p) : Prop :=
  2 * (l.pool.size + inHand + l.progress.nodesPruned + l.progress.nodesInfeasible +
    l.progress.resolutionNodes) = l.progress.nodesCreated + 1

theorem BoundAbove.balances (h : l.BoundAbove setup node l') (hl : l.Balances inHand) :
    l'.Balances inHand := by
  cases h with
  | missed => exact hl
  | @improved _ c stored _ _ _ =>
      -- the open nodes that the better value drops are counted as pruned
      have hcount := l.pool.size_prune_add (setup.pruneThreshold { l.countUpper.progress with
        incumbentValue := ofNumber c.value
        incumbent := some stored
        incumbentUpdates := l.progress.incumbentUpdates + 1 })
      unfold Balances at hl ⊢
      simp only [improve, countPruned, countUpper] at hcount ⊢
      omega

theorem Ending.balances (h : l.Ending setup node l') (hl : l.Balances 1) : l'.Balances 0 := by
  unfold Balances at hl ⊢
  cases h with
  | pruned _ =>
      simp only [countPruned]
      omega
  | tooNarrow _ _ =>
      simp only [setAside]
      omega
  | split _ _ _ _ =>
      simp only [pushHalves, Pool.push, Pool.size, List.length_cons] at hl ⊢
      omega

theorem Process.balances (h : l.Process setup node l') (hl : l.Balances 1) : l'.Balances 0 := by
  cases h with
  | stale _ =>
      simp only [Balances, countPruned] at hl ⊢
      omega
  | closed _ _ =>
      simp only [Balances, countInfeasible] at hl ⊢
      omega
  | refuted _ _ _ _ =>
      simp only [Balances, countLower, countInfeasible] at hl ⊢
      omega
  | bounded _ _ _ _ habove hend =>
      refine hend.balances ?_
      rcases habove with rfl | ⟨_, habove⟩
      · exact hl
      · exact habove.balances hl

theorem Turn.balances (h : l.Turn setup l') (hl : l.Balances 0) : l'.Balances 0 := by
  cases h with
  | @mk time node pool l'' _ _ hpop hprocess =>
      have hsize := Pool.size_pop? hpop
      have htake : (l.take time pool).Balances 1 := by
        unfold Balances at hl ⊢
        simp only [take]
        omega
      exact hprocess.balances htake

/-! ## The order of the counters -/

/-- An incumbent comes from a search for a feasible point, and that from a relaxation solved. -/
structure SolvesInOrder (l : Ledger β p) : Prop where
  updates_le : l.progress.incumbentUpdates ≤ l.progress.upperSolves
  upper_le : l.progress.upperSolves ≤ l.progress.lowerSolves
  lower_le : l.progress.lowerSolves ≤ l.progress.iterations

theorem BoundAbove.solvesInOrder (h : l.BoundAbove setup node l') (hl : l.SolvesInOrder)
    (hlt : l.progress.upperSolves < l.progress.lowerSolves) : l'.SolvesInOrder := by
  obtain ⟨hupdates, -, hlower⟩ := hl
  cases h with
  | missed => exact ⟨Nat.le_succ_of_le hupdates, hlt, hlower⟩
  | improved _ _ _ => exact ⟨Nat.succ_le_succ hupdates, hlt, hlower⟩

theorem Ending.solvesInOrder (h : l.Ending setup node l') (hl : l.SolvesInOrder) :
    l'.SolvesInOrder := by
  obtain ⟨hupdates, hupper, hlower⟩ := hl
  cases h with
  | pruned _ => exact ⟨hupdates, hupper, hlower⟩
  | tooNarrow _ _ => exact ⟨hupdates, hupper, hlower⟩
  | split _ _ _ _ => exact ⟨hupdates, hupper, hlower⟩

theorem Process.solvesInOrder (h : l.Process setup node l') (hl : l.SolvesInOrder)
    (hlt : l.progress.lowerSolves < l.progress.iterations) : l'.SolvesInOrder := by
  obtain ⟨hupdates, hupper, hlower⟩ := hl
  have hcounted (status : LowerStatus) : (l.countLower status).SolvesInOrder :=
    ⟨hupdates, Nat.le_succ_of_le hupper, hlt⟩
  cases h with
  | stale _ => exact ⟨hupdates, hupper, hlower⟩
  | closed _ _ => exact ⟨hupdates, hupper, hlower⟩
  | refuted _ _ _ _ => exact ⟨hupdates, Nat.le_succ_of_le hupper, hlt⟩
  | bounded _ _ _ _ habove hend =>
      refine hend.solvesInOrder ?_
      rcases habove with rfl | ⟨_, habove⟩
      · exact hcounted _
      · exact habove.solvesInOrder (hcounted _) (Nat.lt_succ_of_le hupper)

theorem Turn.solvesInOrder (h : l.Turn setup l') (hl : l.SolvesInOrder) : l'.SolvesInOrder := by
  cases h with
  | @mk time node pool l'' _ _ hpop hprocess =>
      have htake : (l.take time pool).SolvesInOrder :=
        ⟨hl.updates_le, hl.upper_le, Nat.le_succ_of_le hl.lower_le⟩
      obtain ⟨hupdates, hupper, hlower⟩ :=
        hprocess.solvesInOrder htake (Nat.lt_succ_of_le hl.lower_le)
      exact ⟨hupdates, hupper, hlower⟩

/-! ## Nodes created -/

theorem BoundAbove.nodesCreated_eq (h : l.BoundAbove setup node l') :
    l'.progress.nodesCreated = l.progress.nodesCreated := by
  cases h with
  | missed => rfl
  | improved _ _ _ => rfl

theorem Ending.nodesCreated_between (h : l.Ending setup node l') :
    l.progress.nodesCreated ≤ l'.progress.nodesCreated ∧
      l'.progress.nodesCreated ≤ l.progress.nodesCreated + 2 := by
  cases h with
  | pruned _ => exact ⟨le_rfl, Nat.le_add_right _ 2⟩
  | tooNarrow _ _ => exact ⟨le_rfl, Nat.le_add_right _ 2⟩
  | split _ _ _ _ => exact ⟨Nat.le_add_right _ 2, le_rfl⟩

theorem Process.nodesCreated_between (h : l.Process setup node l') :
    l.progress.nodesCreated ≤ l'.progress.nodesCreated ∧
      l'.progress.nodesCreated ≤ l.progress.nodesCreated + 2 := by
  cases h with
  | stale _ => exact ⟨le_rfl, Nat.le_add_right _ 2⟩
  | closed _ _ => exact ⟨le_rfl, Nat.le_add_right _ 2⟩
  | refuted _ _ _ _ => exact ⟨le_rfl, Nat.le_add_right _ 2⟩
  | bounded _ _ _ _ habove hend =>
      have hbetween := hend.nodesCreated_between
      rcases habove with rfl | ⟨_, habove⟩
      · exact hbetween
      · rwa [habove.nodesCreated_eq] at hbetween

/-- A turn creates two nodes at most, and only below the limit on nodes. -/
theorem Turn.nodesCreated_le (h : l.Turn setup l') :
    l'.progress.nodesCreated ≤ setup.options.maxNodes + 2 := by
  obtain ⟨-, hnodes, -, hprocess⟩ := h
  exact hprocess.nodesCreated_between.2.trans (Nat.add_le_add_right hnodes 2)

/-! ## Ids -/

theorem BoundAbove.distinctBelow (h : l.BoundAbove setup node l')
    (hl : DistinctBelow l.progress.nodesCreated (taken ++ l.pool.nodes)) :
    DistinctBelow l'.progress.nodesCreated (taken ++ l'.pool.nodes) := by
  cases h with
  | missed => exact hl
  | improved _ _ _ => exact hl.sublist ((List.Sublist.refl taken).append List.filter_sublist)

theorem Ending.distinctBelow (h : l.Ending setup node l')
    (hl : DistinctBelow l.progress.nodesCreated (taken ++ l.pool.nodes)) :
    DistinctBelow l'.progress.nodesCreated (taken ++ l'.pool.nodes) := by
  cases h with
  | pruned _ => exact hl
  | tooNarrow _ _ => exact hl
  | @split _ _ left right _ _ _ hsplit =>
      obtain ⟨hleft, hright⟩ := Node.id_of_split? hsplit
      have hmiddle : (taken ++ right :: left :: l.pool.nodes).Perm
          (right :: left :: (taken ++ l.pool.nodes)) :=
        List.perm_middle.trans (List.perm_middle.cons right)
      exact ((hl.cons hleft).cons hright).perm hmiddle.symm

theorem Process.distinctBelow (h : l.Process setup node l')
    (hl : DistinctBelow l.progress.nodesCreated (taken ++ l.pool.nodes)) :
    DistinctBelow l'.progress.nodesCreated (taken ++ l'.pool.nodes) := by
  cases h with
  | stale _ => exact hl
  | closed _ _ => exact hl
  | refuted _ _ _ _ => exact hl
  | bounded _ _ _ _ habove hend =>
      refine hend.distinctBelow ?_
      rcases habove with rfl | ⟨_, habove⟩
      · exact hl
      · exact habove.distinctBelow hl

/-- A node that is open only after another one is processed is new. -/
theorem Process.nodesCreated_le_id (h : l.Process setup node l') (hn : n ∈ l'.pool.nodes)
    (hnew : n ∉ l.pool.nodes) : (l.progress.nodesCreated : ℤ) ≤ n.id := by
  cases h with
  | stale _ => exact absurd hn hnew
  | closed _ _ => exact absurd hn hnew
  | refuted _ _ _ _ => exact absurd hn hnew
  | @bounded _ _ l₁ _ _ _ _ _ habove hend =>
      have hopen : n ∉ l₁.pool.nodes ∧ l₁.progress.nodesCreated = l.progress.nodesCreated := by
        rcases habove with rfl | ⟨_, habove⟩
        · exact ⟨hnew, rfl⟩
        · exact ⟨fun hmem ↦ hnew (habove.mem_of_mem_pool hmem), habove.nodesCreated_eq⟩
      rw [← hopen.2]
      cases hend with
      | pruned _ => exact absurd hn hopen.1
      | tooNarrow _ _ => exact absurd hn hopen.1
      | split _ _ _ hsplit =>
          obtain ⟨hleft, hright⟩ := Node.id_of_split? hsplit
          rcases List.mem_cons.mp hn with rfl | hn
          · omega
          rcases List.mem_cons.mp hn with rfl | hn
          · exact hleft.ge
          · exact absurd hn hopen.1

end Ledger

namespace Search

variable (setup : Setup α β σ p) (solver : σ)

/-- The nodes that the turns up to a loop head have taken, the last one first. -/
inductive HasTaken : List (Node α β p.stored) → Search α β σ p → Prop
  | start : HasTaken [] (Search.start setup solver)
  | next {taken s node s₁ s'} (hs : HasTaken taken s) (htakes : Takes setup s node s₁)
      (hturn : turn setup s = .ok (none, s')) : HasTaken (node :: taken) s'

variable {setup solver} {s s₁ s' : Search α β σ p} {node n : Node α β p.stored}
  {taken : List (Node α β p.stored)}

theorem Takes.exists_process (h : Takes setup s node s₁) (hturn : turn setup s = .ok (none, s')) :
    ∃ l, s₁.ledger.Process setup node l ∧ s'.ledger = l.updateLowerBound := by
  rw [h.turn_eq] at hturn
  cases hprocess : process setup node s₁ with
  | error cause =>
      rw [hprocess] at hturn
      cases hturn
  | ok s₅ =>
      rw [hprocess] at hturn
      cases hturn
      exact ⟨s₅.ledger, process_ledger hprocess, conclude_ledger setup s₅⟩

theorem AtLoopHead.exists_hasTaken (hs : AtLoopHead setup solver s) :
    ∃ taken, HasTaken setup solver taken s := by
  induction hs with
  | start => exact ⟨[], .start⟩
  | next _ hturn ih =>
      obtain ⟨taken, htaken⟩ := ih
      obtain ⟨node, s₁, _, htakes, -⟩ := exists_takes hturn
      exact ⟨node :: taken, htaken.next htakes hturn⟩

theorem HasTaken.length_eq (h : HasTaken setup solver taken s) :
    taken.length = s.progress.iterations := by
  induction h with
  | start => rfl
  | next _ _ hturn ih =>
      have hnext := (turn_eq_none hturn).iterations_eq
      simp only [ledger_progress] at hnext
      rw [hnext, List.length_cons, ih]

/-- The nodes that were taken and those that are open all have different ids. -/
theorem HasTaken.distinctBelow (h : HasTaken setup solver taken s) :
    DistinctBelow s.progress.nodesCreated (taken ++ s.pool.nodes) := by
  induction h with
  | start =>
      refine ⟨List.nodup_singleton _, fun node hnode ↦ ?_⟩
      rw [List.mem_singleton.mp hnode]
      exact ⟨le_rfl, Int.one_pos⟩
  | @next taken s node s₁ s' _ htakes hturn ih =>
      obtain ⟨pool, hpop, hledger⟩ := htakes.exists_pool
      obtain ⟨l, hprocess, hl⟩ := htakes.exists_process hturn
      rw [hledger] at hprocess
      have hmoved : (taken ++ s.pool.nodes).Perm (node :: taken ++ pool.nodes) :=
        ((Pool.pop?_perm hpop).append_left taken).trans List.perm_middle
      rw [← ledger_progress, ← ledger_pool, hl]
      exact hprocess.distinctBelow (ih.perm hmoved)

theorem Takes.nodesCreated_eq (h : Takes setup s node s₁) :
    s₁.ledger.progress.nodesCreated = s.progress.nodesCreated := by
  obtain ⟨pool, -, hledger⟩ := h.exists_pool
  rw [hledger]
  rfl

/-- A node that a turn leaves open and did not find open comes from processing the node it took. -/
theorem Takes.exists_process_new (h : Takes setup s node s₁)
    (hturn : turn setup s = .ok (none, s')) (hn : n ∈ s'.pool.nodes) (hnew : n ∉ s.pool.nodes) :
    ∃ l, s₁.ledger.Process setup node l ∧ n ∈ l.pool.nodes ∧ n ∉ s₁.ledger.pool.nodes := by
  obtain ⟨l, hprocess, hl⟩ := h.exists_process hturn
  refine ⟨l, hprocess, ?_, fun hmem ↦ hnew (h.mem_of_mem_pool hmem)⟩
  rw [← ledger_pool, hl] at hn
  exact hn

theorem Takes.nodesCreated_le_id (h : Takes setup s node s₁)
    (hturn : turn setup s = .ok (none, s')) (hn : n ∈ s'.pool.nodes) (hnew : n ∉ s.pool.nodes) :
    (s.progress.nodesCreated : ℤ) ≤ n.id := by
  obtain ⟨l, hprocess, hn, hnew⟩ := h.exists_process_new hturn hn hnew
  rw [← h.nodesCreated_eq]
  exact hprocess.nodesCreated_le_id hn hnew

theorem AtLoopHead.id_lt (hs : AtLoopHead setup solver s) (hn : n ∈ s.pool.nodes) :
    n.id < s.progress.nodesCreated := by
  obtain ⟨taken, htaken⟩ := hs.exists_hasTaken
  exact (htaken.distinctBelow.id_mem n (List.mem_append_right taken hn)).2

/-- Such a node is a half of the node that was taken, and younger. -/
theorem Takes.isHalf (h : Takes setup s node s₁) (hturn : turn setup s = .ok (none, s'))
    (hs : AtLoopHead setup solver s) (hn : n ∈ s'.pool.nodes) (hnew : n ∉ s.pool.nodes) :
    node.id < n.id ∧
      ∃ bounded, s₁.ledger.Refines setup node bounded ∧ Ledger.IsHalf setup bounded n := by
  have hyounger := h.nodesCreated_le_id hturn hn hnew
  have holder := hs.id_lt h.mem_pool
  obtain ⟨l, hprocess, hn, hnew⟩ := h.exists_process_new hturn hn hnew
  exact ⟨by omega, (hprocess.mem_pool hn).resolve_left hnew⟩

theorem AtLoopHead.balances (hs : AtLoopHead setup solver s) : s.ledger.Balances 0 :=
  hs.ledger_induction rfl fun _ _ hl h ↦ h.balances hl

theorem AtLoopHead.solvesInOrder (hs : AtLoopHead setup solver s) : s.ledger.SolvesInOrder :=
  hs.ledger_induction ⟨le_rfl, le_rfl, le_rfl⟩ fun _ _ hl h ↦ h.solvesInOrder hl

theorem AtLoopHead.nodesCreated_le_maxNodes (hs : AtLoopHead setup solver s) :
    s.progress.nodesCreated ≤ setup.options.maxNodes + 2 := by
  cases hs with
  | start => exact Nat.le_add_left 1 (setup.options.maxNodes + 1)
  | next _ hturn => exact (turn_eq_none hturn).nodesCreated_le

theorem AtLoopHead.iterations_le_maxIterations (hs : AtLoopHead setup solver s) :
    ∀ limit ∈ setup.options.maxIterations, s.progress.iterations ≤ limit := by
  intro limit hlimit
  cases hs with
  | start => exact Nat.zero_le limit
  | next _ hturn =>
      obtain ⟨_, _, _, ⟨hverdict, -⟩, -⟩ := exists_takes hturn
      have hbelow := (below_limits (verdict?_eq_none hverdict).2.2.1).2 limit hlimit
      have hnext := (turn_eq_none hturn).iterations_eq
      simp only [ledger_progress] at hnext
      rw [hnext]
      exact hbelow

end Search

namespace SearchTree

/-- At every loop head the open nodes and those discarded are half of the nodes created, and one
half more, and the counters are in order.  The nodes taken and those open have different ids below
the number of nodes created, and the halves of a node are younger than it is.  At the end the limit
on nodes is passed by one split at most, and the limit on iterations is not passed. -/
theorem nodes_conserved (t : SearchTree α β σ p) (solver : σ) :
    (∀ s, Search.AtLoopHead t.setup solver s →
      2 * (s.pool.size + s.progress.nodesPruned + s.progress.nodesInfeasible +
        s.progress.resolutionNodes) = s.progress.nodesCreated + 1 ∧
      s.progress.incumbentUpdates ≤ s.progress.upperSolves ∧
      s.progress.upperSolves ≤ s.progress.lowerSolves ∧
      s.progress.lowerSolves ≤ s.progress.iterations ∧
      s.progress.iterations ≤ s.progress.nodesCreated ∧
      ∃ taken, Search.HasTaken t.setup solver taken s) ∧
    (∀ taken s, Search.HasTaken t.setup solver taken s →
      taken.length = s.progress.iterations ∧ ((taken ++ s.pool.nodes).map Node.id).Nodup ∧
      ∀ node ∈ taken ++ s.pool.nodes, 0 ≤ node.id ∧ node.id < s.progress.nodesCreated) ∧
    (∀ s node s₁ s', Search.AtLoopHead t.setup solver s → Search.Takes t.setup s node s₁ →
      Search.turn t.setup s = .ok (none, s') → ∀ n ∈ s'.pool.nodes, n ∉ s.pool.nodes →
        node.id < n.id ∧
          ∃ bounded, s₁.ledger.Refines t.setup node bounded ∧ Ledger.IsHalf t.setup bounded n) ∧
    ∀ result t', t.solve solver = .ok (result, t') → ∃ s, t'.search = some s ∧
      s.progress.nodesCreated ≤ t.setup.options.maxNodes + 2 ∧
      ∀ limit ∈ t.setup.options.maxIterations, s.progress.iterations ≤ limit := by
  refine ⟨fun s hs ↦ ?_, fun taken s htaken ↦ ?_, ?_, ?_⟩
  · have hbalances : 2 * (s.pool.size + 0 + s.progress.nodesPruned + s.progress.nodesInfeasible +
        s.progress.resolutionNodes) = s.progress.nodesCreated + 1 := hs.balances
    obtain ⟨hupdates, hupper, hlower⟩ := hs.solvesInOrder
    have hcounts : s.progress.iterations + s.pool.size ≤ s.progress.nodesCreated := hs.countsNodes
    exact ⟨hbalances, hupdates, hupper, hlower, le_of_add_le_left hcounts, hs.exists_hasTaken⟩
  · exact ⟨htaken.length_eq, htaken.distinctBelow.nodup, htaken.distinctBelow.id_mem⟩
  · intro s node s₁ s' hs htakes hturn n hn hnew
    exact htakes.isHalf hturn hs hn hnew
  · intro result t' hsolve
    obtain ⟨head, time, hhead, -, -, s, hsearch, hledger⟩ := solve_eq_ok hsolve
    have hprogress : s.progress = { head.progress with elapsed := time } :=
      congrArg Ledger.progress hledger
    refine ⟨s, hsearch, ?_⟩
    rw [hprogress]
    exact ⟨hhead.nodesCreated_le_maxNodes, hhead.iterations_le_maxIterations⟩

/-- On the line the search stops with open nodes, and no id has been given out twice. -/
theorem line_nodes_conserved : ∃ s taken, Search.HasTaken (Line.setup [] 0) () taken s ∧
    s.pool.nodes ≠ [] ∧ ((taken ++ s.pool.nodes).map Node.id).Nodup ∧
    2 * (s.pool.size + s.progress.nodesPruned + s.progress.nodesInfeasible +
      s.progress.resolutionNodes) = s.progress.nodesCreated + 1 := by
  obtain ⟨s, _, _, hs, hopen, -⟩ := Line.solve_iterationLimit
  obtain ⟨hcounts, hdistinct, -, -⟩ := nodes_conserved (Line.tree [] 0) ()
  obtain ⟨hbalances, -, -, -, -, taken, htaken⟩ := hcounts s hs
  exact ⟨s, taken, htaken, hopen, (hdistinct taken s htaken).2.1, hbalances⟩

end SearchTree

end GlobalQcqp
