import GlobalQcqp.Proofs.Search.Frontier
import GlobalQcqp.Proofs.Search.Outstanding
import GlobalQcqp.Proofs.Node.Pool.Kept
/-!
# Searches on a heap

A turn takes one node from the pool, prunes the others if it finds a better incumbent, and pushes
the nodes that it creates.  A heap that starts with the root and gets these calls turn after turn
keeps the open nodes at every loop head: none of the calls fails, and a pop answers the node that
the search takes.  So what is known of the open nodes holds of the elements of the heap.
-/

namespace GlobalQcqp

open Scalar (isUndefined)

variable {α β σ : Type} [Scalar α] [Scalar β] [Extended α β] {p : Problem α}

/-! ## Priorities -/

/-- An undefined lower bound is passed over, so that no priority is ever undefined. -/
theorem Setup.preserves_isDefined [OrderedScalar β] [OrderedExtended α β] {setup : Setup α β σ p}
    {convex : ConvexSolver α β p.size σ} {localSolver : LocalSolver α p.size σ}
    (hparts : setup.parts = Components.standard p setup.options setup.routine convex localSolver) :
    setup.Preserves fun node ↦ isUndefined node.priority = false where
  root := OrderedExtended.isUndefined_negInf
  refine hnode hrefines := by
    obtain ⟨r, ⟨-, s, hr⟩, -, ⟨c, s', lowered, -, hlower, rfl⟩, -⟩ := hrefines
    obtain ⟨last, hlast⟩ := exists_record hparts hlower
    rw [hlast, Lower.record_frame]
    exact (congrArg isUndefined (reshapes hparts hr).priority_eq).trans hnode
  half hnode hhalf := by
    rw [hhalf.frame]
    exact Scalar.isUndefined_max_left hnode

/-! ## The calls of a turn -/

namespace Ledger

variable {setup : Setup α β σ p} {l l' l₁ : Ledger β p} {node : Node α β p.stored} {created : ℕ}

/-- The open nodes that were created from then on, the first one first. -/
def createdSince (l : Ledger β p) (created : ℕ) : List (Node α β p.stored) :=
  (l.pool.nodes.filter fun node ↦ decide ((created : ℤ) ≤ node.id)).reverse

def pushes (l : Ledger β p) (created : ℕ) : List (Pool.Call α β p.stored) :=
  (l.createdSince created).map .push

/-- A better incumbent drops the open nodes that it rules out. -/
def prunes (setup : Setup α β σ p) (l l' : Ledger β p) : List (Pool.Call α β p.stored) :=
  if l'.progress.incumbentUpdates = l.progress.incumbentUpdates then []
  else [.prune (setup.pruneThreshold l'.progress)]

/-- The calls that a turn makes of the pool between two loop heads. -/
def calls (setup : Setup α β σ p) (l l' : Ledger β p) : List (Pool.Call α β p.stored) :=
  .pop :: (l.prunes setup l' ++ l'.pushes l.progress.nodesCreated)

omit [Scalar α] [Scalar β] [Extended α β] in
theorem filter_created_eq_nil {k : ℕ} {nodes : List (Node α β k)}
    (hids : ∀ n ∈ nodes, n.id < created) :
    nodes.filter (fun node ↦ decide ((created : ℤ) ≤ node.id)) = [] :=
  List.filter_eq_nil_iff.mpr fun n hn ↦ by simpa using hids n hn

omit [Scalar β] [Extended α β] in
theorem pushes_eq_nil (hids : ∀ n ∈ l.pool.nodes, n.id < created) : l.pushes created = [] := by
  rw [pushes, createdSince, filter_created_eq_nil hids]
  rfl

theorem prunes_eq_nil (h : l'.progress.incumbentUpdates = l.progress.incumbentUpdates) :
    l.prunes setup l' = [] :=
  if_pos h

theorem prunes_of_keeps (h : l'.progress.KeepsIncumbent l₁.progress) :
    l.prunes setup l' = l.prunes setup l₁ := by
  rw [prunes, prunes, h.updates_eq, Setup.pruneThreshold_eq_of_keeps h]

theorem BoundAbove.pool_eq (h : l.BoundAbove setup node l') :
    l'.pool = (l.prunes setup l').foldl Pool.after l.pool := by
  cases h with
  | missed =>
      have hnone : l.prunes setup l.countUpper = [] := prunes_eq_nil rfl
      rw [hnone]
      rfl
  | improved _ _ _ =>
      rw [prunes, if_neg (by exact Nat.succ_ne_self _)]
      rfl

theorem Ending.pool_eq (h : l.Ending setup node l')
    (hids : ∀ n ∈ l.pool.nodes, n.id < l.progress.nodesCreated) :
    l'.pool = (l'.pushes l.progress.nodesCreated).foldl Pool.after l.pool := by
  cases h with
  | pruned _ =>
      rw [pushes_eq_nil (by exact hids)]
      rfl
  | tooNarrow _ _ =>
      rw [pushes_eq_nil (by exact hids)]
      rfl
  | @split _ _ left right _ _ _ hsplit =>
      obtain ⟨hleft, hright⟩ := Node.id_of_split? hsplit
      have hnew : (l.pushHalves left right).createdSince l.progress.nodesCreated =
          [left, right] := by
        simp [createdSince, pushHalves, Pool.push, filter_created_eq_nil hids, hleft, hright]
      rw [pushes, hnew]
      rfl

theorem Process.pool_eq (h : l.Process setup node l')
    (hids : ∀ n ∈ l.pool.nodes, n.id < l.progress.nodesCreated) :
    l'.pool = (l.prunes setup l' ++ l'.pushes l.progress.nodesCreated).foldl Pool.after
      l.pool := by
  have hsame {l' : Ledger β p} (hpool : l'.pool = l.pool)
      (hupdates : l'.progress.incumbentUpdates = l.progress.incumbentUpdates) :
      l'.pool = (l.prunes setup l' ++ l'.pushes l.progress.nodesCreated).foldl Pool.after
        l.pool := by
    rw [prunes_eq_nil hupdates, pushes_eq_nil (hpool ▸ hids)]
    exact hpool
  cases h with
  | stale _ => exact hsame rfl rfl
  | closed _ _ => exact hsame rfl rfl
  | refuted _ _ _ _ => exact hsame rfl rfl
  | @bounded _ bounded l₁ _ _ _ _ _ habove hend =>
      rw [List.foldl_append, prunes_of_keeps hend.keeps]
      rcases habove with rfl | ⟨_, habove⟩
      · have hnone : l.prunes setup (l.countLower bounded.status) = [] := prunes_eq_nil rfl
        rw [hnone]
        exact hend.pool_eq hids
      · have hcreated : l₁.progress.nodesCreated = l.progress.nodesCreated :=
          habove.nodesCreated_eq
        have hpruned : l₁.pool = (l.prunes setup l₁).foldl Pool.after l.pool := habove.pool_eq
        rw [← hpruned, ← hcreated]
        refine hend.pool_eq fun n hn ↦ ?_
        rw [hcreated]
        exact hids n (habove.mem_of_mem_pool hn)

/-- The pool at the next loop head comes from these calls. -/
theorem Turn.pool_eq (h : l.Turn setup l')
    (hids : ∀ n ∈ l.pool.nodes, n.id < l.progress.nodesCreated) :
    l'.pool = (l.calls setup l').foldl Pool.after l.pool := by
  obtain @⟨time, node, pool, l₁, -, -, hpop, hprocess⟩ := h
  have htaken : l.pool.after .pop = pool := by
    rw [Pool.after, hpop]
    rfl
  rw [calls, List.foldl_cons, htaken]
  refine hprocess.pool_eq fun n hn ↦ ?_
  exact hids n ((Pool.pop?_perm hpop).mem_iff.mpr (List.mem_cons_of_mem node hn))

end Ledger

/-! ## Runs -/

namespace Search

section

variable {ν ε : Type} (layout : HeapLayout α β p.stored ν ε) (setup : Setup α β σ p) (solver : σ)

/-- The heap was empty, got the root and has then seen the calls of every turn up to a loop head,
of which none has failed. -/
inductive RunsOnHeap : Search α β σ p → HeapPool ν → Prop
  | start {q} (hq : layout.after (.empty setup.options.selection setup.options.hybridInterval)
      (.push (root p)) = .ok q) : RunsOnHeap (Search.start setup solver) q
  | next {s s' q q'} (hs : RunsOnHeap s q) (hturn : turn setup s = .ok (none, s'))
      (hq : (s.ledger.calls setup s'.ledger).foldlM layout.after q = .ok q') : RunsOnHeap s' q'

end

variable {ν ε γ δ : Type} [OrderedScalar β] [OrderedExtended α β] [LinearOrder γ] [LinearOrder δ]
  {layout : HeapLayout α β p.stored ν ε} {key : ν → γ} {deep : ν → δ} {setup : Setup α β σ p}
  {solver : σ} {s s₁ s' : Search α β σ p} {node : Node α β p.stored} {q : HeapPool ν}
  {convex : ConvexSolver α β p.size σ} {localSolver : LocalSolver α p.size σ}

omit [OrderedScalar β] [OrderedExtended α β] in
theorem RunsOnHeap.atLoopHead (h : RunsOnHeap layout setup solver s q) :
    AtLoopHead setup solver s := by
  induction h with
  | start _ => exact .start
  | next _ hturn _ ih => exact ih.next hturn

omit [OrderedScalar β] [OrderedExtended α β] in
theorem AtLoopHead.nodup_ids (hs : AtLoopHead setup solver s) :
    (s.pool.nodes.map Node.id).Nodup := by
  obtain ⟨taken, htaken⟩ := hs.exists_hasTaken
  exact (htaken.distinctBelow.sublist (List.sublist_append_right taken _)).nodup

section

variable (hparts : setup.parts =
  Components.standard p setup.options setup.routine convex localSolver)
  (hlayout : layout.IsFaithful key deep)
include hparts hlayout

/-- None of the calls of a turn fails, and the heap has kept up with the pool after them. -/
theorem keptBy_of_turn (hs : AtLoopHead setup solver s) (h : s.pool.KeptBy layout key q)
    (hturn : turn setup s = .ok (none, s')) :
    ∃ q', (s.ledger.calls setup s'.ledger).foldlM layout.after q = .ok q' ∧
      s'.pool.KeptBy layout key q' := by
  have hdefined := (hs.next hturn).forall_open (Setup.preserves_isDefined hparts)
  obtain ⟨q₁, hq₁, h₁⟩ := h.after hlayout .pop hs.nodup_ids
  have hrest : ∀ call ∈ s.ledger.prunes setup s'.ledger ++
      s'.ledger.pushes s.ledger.progress.nodesCreated,
      ∀ pool : Pool α β p.stored, call.IsSafe pool := by
    intro call hcall pool
    rcases List.mem_append.mp hcall with hprune | hpush
    · unfold Ledger.prunes at hprune
      split at hprune
      · cases hprune
      · rw [List.mem_singleton.mp hprune]
        trivial
    · obtain ⟨n, hn, rfl⟩ := List.mem_map.mp hpush
      exact hdefined n (List.mem_of_mem_filter (List.mem_reverse.mp hn))
  obtain ⟨q', hq', h'⟩ := h₁.run hlayout hrest
  refine ⟨q', ?_, ?_⟩
  · rw [Ledger.calls, List.foldlM_cons, hq₁, ok_bind]
    exact hq'
  · have hpool := (turn_eq_none hturn).pool_eq fun n hn ↦ hs.id_lt hn
    rw [← ledger_pool, hpool]
    exact h'

theorem keptBy_start (solver : σ) : ∃ q,
    layout.after (.empty setup.options.selection setup.options.hybridInterval)
      (.push (root p)) = .ok q ∧ (Search.start setup solver).pool.KeptBy layout key q :=
  (Pool.keptBy_empty layout key _ _).after hlayout (.push (root p))
    (Setup.preserves_isDefined hparts).root

theorem RunsOnHeap.keptBy (h : RunsOnHeap layout setup solver s q) :
    s.pool.KeptBy layout key q := by
  induction h with
  | start hq =>
      obtain ⟨q', hq', hkept⟩ := keptBy_start hparts hlayout solver
      cases hq.symm.trans hq'
      exact hkept
  | next hs hturn hq ih =>
      obtain ⟨q', hq', hkept⟩ := keptBy_of_turn hparts hlayout hs.atLoopHead ih hturn
      cases hq.symm.trans hq'
      exact hkept

/-- Every loop head is reached on a heap. -/
theorem AtLoopHead.exists_heap (hs : AtLoopHead setup solver s) :
    ∃ q, RunsOnHeap layout setup solver s q := by
  induction hs with
  | start =>
      obtain ⟨q, hq, -⟩ := keptBy_start hparts hlayout solver
      exact ⟨q, .start hq⟩
  | next hs hturn ih =>
      obtain ⟨q, hq⟩ := ih
      obtain ⟨q', hq', -⟩ :=
        keptBy_of_turn hparts hlayout hs (hq.keptBy hparts hlayout) hturn
      exact ⟨q', hq.next hturn hq'⟩

/-- The heap answers the node that the next turn takes. -/
theorem RunsOnHeap.pop_eq (h : RunsOnHeap layout setup solver s q)
    (htakes : Takes setup s node s₁) :
    (q.pop layout.ranking).1 = .ok (some (layout.item node)) := by
  obtain ⟨pool, hpop, -⟩ := htakes.exists_pool
  obtain ⟨q', hq, -⟩ := (h.keptBy hparts hlayout).pop hlayout h.atLoopHead.nodup_ids hpop
  rw [hq]

/-- Depth first, the heap has no more elements than the node taken next has levels above it, its
own included. -/
theorem RunsOnHeap.size_le (h : RunsOnHeap layout setup solver s q)
    (hdepth : setup.options.selection = .depthFirst) (htakes : Takes setup s node s₁) :
    (q.heap.size : ℤ) ≤ 1 + node.depth := by
  have hs := h.atLoopHead
  obtain ⟨pool, hpop, -⟩ := htakes.exists_pool
  rw [(h.keptBy hparts hlayout).size_eq]
  refine hs.size_le (Setup.keepsDepths hparts) hdepth htakes.mem_pool fun n hn ↦ ?_
  rcases Pool.isDeepest_of_pop? (hs.selection_eq.trans hdepth) hpop n hn with hlt | ⟨heq, -⟩
  · exact hlt.le
  · exact heq.le

end

/-! ## Exact searches -/

section Exact

variable {p : Problem ℝ} {layout : HeapLayout ℝ EReal p.stored ν ε} {setup : Setup ℝ EReal σ p}
  {s : Search ℝ EReal σ p} {convex : ConvexSolver ℝ EReal p.size σ}
  {localSolver : LocalSolver ℝ p.size σ}

/-- What is on the heap is below the prune threshold. -/
theorem RunsOnHeap.priority_lt (h : RunsOnHeap layout setup solver s q)
    (hstandard : setup.IsStandard convex localSolver) (hlayout : layout.IsFaithful key deep) {x : ν}
    (hx : x ∈ q.heap) : ∃ node ∈ s.pool.nodes, layout.item node = x ∧
      node.priority < setup.pruneThreshold s.progress := by
  obtain ⟨node, hnode, hitem⟩ := (h.keptBy hstandard hlayout).exists_node hx
  exact ⟨node, hnode, hitem, (h.atLoopHead.boundsHold hstandard.raisesBounds).open_lt node hnode⟩

/-- Until the heap is empty, the global lower bound is the priority at its root, or a bound that was
set aside if that is less. -/
theorem RunsOnHeap.lowerBound_eq (h : RunsOnHeap layout setup solver s q)
    (hstandard : setup.IsStandard convex localSolver) (hlayout : layout.IsFaithful key deep)
    (hgaps : setup.HasFiniteGaps) (hne : q.heap ≠ #[]) :
    ∃ node ∈ s.pool.nodes, q.heap[0]? = some (layout.item node) ∧
      s.progress.lowerBound = min node.priority s.progress.resolutionBound := by
  have hkept := h.keptBy hstandard hlayout
  have hopen : s.pool.nodes ≠ [] := mt hkept.heap_eq_empty_iff.mpr hne
  obtain ⟨node, hnode, hroot, hleast⟩ := hkept.exists_root hlayout hopen
  have hmin : s.pool.minBound = node.priority :=
    le_antisymm (Pool.minBound_le hnode) (Pool.le_minBound_iff.mpr hleast)
  refine ⟨node, hnode, hroot, ?_⟩
  rw [h.atLoopHead.lowerBound_eq_outstanding hstandard.raisesBounds hgaps hopen, ← hmin]
  rfl

end Exact

end Search

/-- Every loop head of a machine search is reached on a heap of drafts.  They are those of the open
nodes, and the draft of the node that the search takes next is what the heap answers. -/
theorem SearchTree.runs_on_drafts {p : Problem Float} (t : SearchTree Float Float σ p)
    {convex : ConvexSolver Float Float p.size σ} {localSolver : LocalSolver Float p.size σ}
    (hparts : t.setup.parts =
      Components.standard p t.setup.options t.setup.routine convex localSolver)
    {solver : σ} {s : Search Float Float σ p} (hs : Search.AtLoopHead t.setup solver s) :
    ∃ q : DraftPool, Search.RunsOnHeap .drafts t.setup solver s q ∧
      q.heap.toList.Perm (s.pool.nodes.map Node.toDraft) ∧
      ∀ node s₁, Search.Takes t.setup s node s₁ → q.pop.1 = .ok (some node.toDraft) := by
  obtain ⟨q, hq⟩ := hs.exists_heap hparts HeapLayout.drafts_isFaithful
  have hkept := hq.keptBy hparts HeapLayout.drafts_isFaithful
  refine ⟨q, hq, hkept.contents, fun node s₁ htakes ↦ ?_⟩
  have hpop : (HeapPool.pop HeapLayout.drafts.ranking q).1 =
      .ok (some (HeapLayout.drafts.item node)) :=
    hq.pop_eq hparts HeapLayout.drafts_isFaithful htakes
  exact hpop

end GlobalQcqp
