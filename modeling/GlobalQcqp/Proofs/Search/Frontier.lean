import GlobalQcqp.Proofs.Search.Conservation
import GlobalQcqp.Proofs.Search.Frames
import GlobalQcqp.Solver.Tangent
/-!
# The frontier of a depth-first search

Depth first, a search keeps the halves it has not taken yet along one path of the tree.  The node
taken is a deepest one, so what stays open lies at different depths, and only its halves may be two
of a depth.  Of the two the first half is taken first, and until all that comes of it has left the
pool, something deeper than the second half, or the first half itself, is preferred.
-/

namespace GlobalQcqp

/-! ## Lists of nodes by depth -/

section Depths

variable {α β : Type} {k : ℕ}

/-- No two nodes lie equally deep, but for two deepest ones that are related. -/
inductive IsFrontier (related : Node α β k → Node α β k → Prop) : List (Node α β k) → Prop
  | path {nodes : List (Node α β k)} (hdepths : (nodes.map Node.depth).Nodup) :
      IsFrontier related nodes
  | fork {left right : Node α β k} {rest : List (Node α β k)} (hrelated : related left right)
      (hdepth : left.depth = right.depth) (hrest : (rest.map Node.depth).Nodup)
      (hlt : ∀ n ∈ rest, n.depth < right.depth) :
      IsFrontier related (right :: left :: rest)

variable {node deepest a b : Node α β k} {nodes rest : List (Node α β k)}
  {related : Node α β k → Node α β k → Prop}

theorem nodup_depths_cons (hrest : (rest.map Node.depth).Nodup)
    (hlt : ∀ n ∈ rest, n.depth < node.depth) : ((node :: rest).map Node.depth).Nodup := by
  refine List.nodup_cons.mpr ⟨fun hmem ↦ ?_, hrest⟩
  obtain ⟨n, hn, heq⟩ := List.mem_map.mp hmem
  exact (hlt n hn).ne heq

/-- There are no more different depths than numbers in between. -/
theorem length_le_of_nodup_depths (lo hi : ℤ) (hdepths : (nodes.map Node.depth).Nodup)
    (hmem : ∀ n ∈ nodes, lo ≤ n.depth ∧ n.depth ≤ hi) (hne : lo ≤ hi + 1) :
    (nodes.length : ℤ) ≤ hi + 1 - lo := by
  have hsub : (nodes.map Node.depth).toFinset ⊆ Finset.Icc lo hi := by
    intro d hd
    obtain ⟨n, hn, rfl⟩ := List.mem_map.mp (List.mem_toFinset.mp hd)
    exact Finset.mem_Icc.mpr (hmem n hn)
  have hcard := Finset.card_le_card hsub
  rw [List.toFinset_card_of_nodup hdepths, List.length_map, Int.card_Icc] at hcard
  omega

namespace IsFrontier

/-- Without one of the deepest nodes the depths are all different. -/
theorem nodup_of_perm (h : IsFrontier related nodes) (hperm : nodes.Perm (node :: rest))
    (hdeepest : ∀ n ∈ nodes, n.depth ≤ node.depth) : (rest.map Node.depth).Nodup := by
  cases h with
  | path hdepths => exact ((hperm.map Node.depth).nodup_iff.mp hdepths).of_cons
  | @fork left right others _ hdepth hothers hlt =>
      have hright := hdeepest right List.mem_cons_self
      rcases List.mem_cons.mp (hperm.mem_iff.mpr List.mem_cons_self) with rfl | hnode
      · have hrest : (left :: others).Perm rest := hperm.cons_inv
        exact (hrest.map Node.depth).nodup_iff.mp (nodup_depths_cons hothers (hdepth ▸ hlt))
      rcases List.mem_cons.mp hnode with rfl | hnode
      · have hrest : (right :: others).Perm rest := ((List.Perm.swap _ _ _).trans hperm).cons_inv
        exact (hrest.map Node.depth).nodup_iff.mp (nodup_depths_cons hothers hlt)
      · exact absurd (hlt node hnode) hright.not_gt

/-- What stays open once a node is taken depth first. -/
theorem rest_of_pop? [Scalar β] {pool pool' : Pool α β k} (h : IsFrontier related pool.nodes)
    (hdepth : pool.selection = .depthFirst) (hpop : pool.pop? = some (node, pool')) :
    (pool'.nodes.map Node.depth).Nodup ∧ ∀ n ∈ pool'.nodes, n.depth ≤ node.depth := by
  have hdeepest (n) (hn : n ∈ pool.nodes) : n.depth ≤ node.depth := by
    rcases Pool.isDeepest_of_pop? hdepth hpop n hn with hlt | ⟨heq, -⟩
    · exact hlt.le
    · exact heq.le
  have hperm := Pool.pop?_perm hpop
  exact ⟨h.nodup_of_perm hperm hdeepest,
    fun n hn ↦ hdeepest n (hperm.mem_iff.mpr (List.mem_cons_of_mem node hn))⟩

theorem count_le_two (h : IsFrontier related nodes) (d : ℤ) :
    (nodes.map Node.depth).count d ≤ 2 := by
  cases h with
  | path hdepths => exact (List.nodup_iff_count_le_one.mp hdepths d).trans one_le_two
  | fork _ _ hrest hlt =>
      have hone := List.nodup_iff_count_le_one.mp (nodup_depths_cons hrest hlt) d
      simp only [List.map_cons, List.count_cons] at hone ⊢
      split at hone <;> split <;> omega

theorem count_le_one (h : IsFrontier related nodes)
    (hdeepest : ∀ n ∈ nodes, n.depth ≤ deepest.depth) {d : ℤ} (hd : d < deepest.depth)
    (hmem : deepest ∈ nodes) : (nodes.map Node.depth).count d ≤ 1 := by
  cases h with
  | path hdepths => exact List.nodup_iff_count_le_one.mp hdepths d
  | @fork left right rest _ hdepth hrest hlt =>
      have hright : deepest.depth ≤ right.depth := by
        rcases List.mem_cons.mp hmem with rfl | hmem
        · exact le_rfl
        rcases List.mem_cons.mp hmem with rfl | hmem
        · exact hdepth.le
        · exact (hlt deepest hmem).le
      have hone := List.nodup_iff_count_le_one.mp hrest d
      rw [List.map_cons, List.map_cons, List.count_cons_of_ne (by omega),
        List.count_cons_of_ne (by omega)]
      exact hone

theorem related_of_ne (h : IsFrontier related nodes) (ha : a ∈ nodes) (hb : b ∈ nodes)
    (hne : a ≠ b) (hab : a.depth = b.depth) : related a b ∨ related b a := by
  cases h with
  | path hdepths => exact absurd (List.inj_on_of_nodup_map hdepths ha hb hab) hne
  | @fork left right rest hrelated hdepth hrest hlt =>
      have hinj := List.inj_on_of_nodup_map hrest
      simp only [List.mem_cons] at ha hb
      rcases ha with rfl | rfl | ha <;> rcases hb with rfl | rfl | hb
      · exact absurd rfl hne
      · exact Or.inr hrelated
      · exact absurd (hlt b hb) (by omega)
      · exact Or.inl hrelated
      · exact absurd rfl hne
      · exact absurd (hlt b hb) (by omega)
      · exact absurd (hlt a ha) (by omega)
      · exact absurd (hlt a ha) (by omega)
      · exact absurd (hinj ha hb hab) hne

/-- A frontier of nodes below the root has no more nodes than levels. -/
theorem length_le (h : IsFrontier related nodes) (hmem : deepest ∈ nodes)
    (hdeepest : ∀ n ∈ nodes, n.depth ≤ deepest.depth) (hpos : ∀ n ∈ nodes, 1 ≤ n.depth) :
    (nodes.length : ℤ) ≤ 1 + deepest.depth := by
  have hdeepest_pos := hpos deepest hmem
  cases h with
  | path hdepths =>
      have hle := length_le_of_nodup_depths 1 deepest.depth hdepths
        (fun n hn ↦ ⟨hpos n hn, hdeepest n hn⟩) (by omega)
      omega
  | @fork left right rest _ hdepth hrest hlt =>
      have hle := length_le_of_nodup_depths 1 deepest.depth
        (nodup_depths_cons hrest hlt) ?_ (by omega)
      · simp only [List.length_cons] at hle ⊢
        omega
      · intro n hn
        have hn : n ∈ right :: left :: rest := by
          rcases List.mem_cons.mp hn with rfl | hn
          · exact List.mem_cons_self
          · exact List.mem_cons_of_mem _ (List.mem_cons_of_mem _ hn)
        exact ⟨hpos n hn, hdeepest n hn⟩

end IsFrontier

end Depths

variable {α β σ : Type} [Scalar α] [Scalar β] [Extended α β] {p : Problem α}

/-! ## What a turn opens -/

namespace Ledger

variable {setup : Setup α β σ p} {l l' : Ledger β p} {node left right : Node α β p.stored}

/-- The node is split into these two once it has its last form, the first one created first. -/
def HasHalves (setup : Setup α β σ p) (l : Ledger β p) (node left right : Node α β p.stored) :
    Prop :=
  ∃ bounded i value, l.Refines setup node bounded ∧
    bounded.split? i value l.progress.nodesCreated = .ok (left, right)

theorem HasHalves.id_eq (h : l.HasHalves setup node left right) :
    left.id = l.progress.nodesCreated ∧ right.id = l.progress.nodesCreated + 1 := by
  obtain ⟨bounded, i, value, -, hsplit⟩ := h
  exact Node.id_of_split? hsplit

theorem HasHalves.depth_eq (h : l.HasHalves setup node left right) (hkeeps : setup.KeepsDepths) :
    left.depth = node.depth + 1 ∧ right.depth = node.depth + 1 := by
  obtain ⟨bounded, i, value, hrefines, hsplit⟩ := h
  rw [← hrefines.depth_eq hkeeps]
  exact Node.depth_of_split? hsplit

theorem Ending.pool_cases (h : l.Ending setup node l') : l'.pool.nodes = l.pool.nodes ∨
    ∃ i value left right, node.split? i value l.progress.nodesCreated = .ok (left, right) ∧
      l'.pool.nodes = right :: left :: l.pool.nodes := by
  cases h with
  | pruned _ => exact Or.inl rfl
  | tooNarrow _ _ => exact Or.inl rfl
  | split _ _ _ hsplit => exact Or.inr ⟨_, _, _, _, hsplit, rfl⟩

theorem BoundAbove.pool_sublist (h : l.BoundAbove setup node l') :
    l'.pool.nodes.Sublist l.pool.nodes := by
  cases h with
  | missed => exact .refl _
  | improved _ _ _ => exact List.filter_sublist

/-- Processing a node drops open nodes, and at the end puts its halves in front of the others. -/
theorem Process.pool_cases (h : l.Process setup node l') :
    l'.pool.nodes.Sublist l.pool.nodes ∨
      ∃ left right rest, l.HasHalves setup node left right ∧ rest.Sublist l.pool.nodes ∧
        l'.pool.nodes = right :: left :: rest := by
  cases h with
  | stale _ => exact Or.inl (.refl _)
  | closed _ _ => exact Or.inl (.refl _)
  | refuted _ _ _ _ => exact Or.inl (.refl _)
  | @bounded _ bounded l₁ _ hr hopen hlower hstatus habove hend =>
      obtain ⟨hsub, hcreated⟩ : l₁.pool.nodes.Sublist l.pool.nodes ∧
          l₁.progress.nodesCreated = l.progress.nodesCreated := by
        rcases habove with rfl | ⟨_, habove⟩
        · exact ⟨.refl _, rfl⟩
        · exact ⟨habove.pool_sublist, habove.nodesCreated_eq⟩
      rcases hend.pool_cases with hsame | ⟨i, value, left, right, hsplit, hpushed⟩
      · exact Or.inl (hsame ▸ hsub)
      · rw [hcreated] at hsplit
        exact Or.inr ⟨left, right, _, ⟨bounded, i, value, ⟨_, hr, hopen, hlower, hstatus⟩, hsplit⟩,
          hsub, hpushed⟩

end Ledger

namespace Search

variable (setup : Setup α β σ p) (solver : σ)

/-- A turn of the search takes the node and opens its halves. -/
inductive Splits (node left right : Node α β p.stored) : Prop
  | mk {s s₁ s' : Search α β σ p} {rest : List (Node α β p.stored)}
      (hs : AtLoopHead setup solver s) (htakes : Takes setup s node s₁)
      (hturn : turn setup s = .ok (none, s')) (hhalves : s₁.ledger.HasHalves setup node left right)
      (hpool : s'.pool.nodes = right :: left :: rest) : Splits node left right

def IsChild (node child : Node α β p.stored) : Prop :=
  ∃ left right, Splits setup solver node left right ∧ (child = left ∨ child = right)

/-- The node is the other one or comes of splitting it. -/
def DescendsFrom (ancestor node : Node α β p.stored) : Prop :=
  Relation.ReflTransGen (IsChild setup solver) ancestor node

def AreSiblings (a b : Node α β p.stored) : Prop :=
  ∃ node, Splits setup solver node a b ∨ Splits setup solver node b a

variable {setup solver} {s s₁ s' t t' : Search α β σ p}
  {node n left right : Node α β p.stored} {taken : List (Node α β p.stored)}

theorem Takes.pool_cases (h : Takes setup s node s₁) (hturn : turn setup s = .ok (none, s')) :
    ∃ pool, s.pool.pop? = some (node, pool) ∧
      (s'.pool.nodes.Sublist pool.nodes ∨
        ∃ left right rest, s₁.ledger.HasHalves setup node left right ∧ rest.Sublist pool.nodes ∧
          s'.pool.nodes = right :: left :: rest) := by
  obtain ⟨pool, hpop, hledger⟩ := h.exists_pool
  obtain ⟨l, hprocess, hl⟩ := h.exists_process hturn
  have hopen : s₁.ledger.pool = pool := by
    rw [hledger]
    rfl
  have hleft : s'.pool = l.pool := congrArg Ledger.pool hl
  have hcases := hprocess.pool_cases
  rw [hopen, ← hleft] at hcases
  exact ⟨pool, hpop, hcases⟩

/-! ## The frontier -/

theorem AtLoopHead.isFrontier (hs : AtLoopHead setup solver s) (hkeeps : setup.KeepsDepths)
    (hdepth : setup.options.selection = .depthFirst) :
    IsFrontier (fun left right ↦ ∃ node, Splits setup solver node left right) s.pool.nodes := by
  induction hs with
  | start => exact .path (List.nodup_singleton _)
  | @next s s' hs hturn ih =>
      obtain ⟨node, s₁, _, htakes, -⟩ := exists_takes hturn
      obtain ⟨pool, hpop, hcases⟩ := htakes.pool_cases hturn
      obtain ⟨hnodup, hle⟩ := ih.rest_of_pop? (hs.selection_eq.trans hdepth) hpop
      rcases hcases with hsub | ⟨left, right, rest, hhalves, hsub, hpool⟩
      · exact .path (hnodup.sublist (hsub.map Node.depth))
      · obtain ⟨hleft, hright⟩ := hhalves.depth_eq hkeeps
        rw [hpool]
        refine .fork ⟨node, .mk hs htakes hturn hhalves hpool⟩ (hleft.trans hright.symm)
          (hnodup.sublist (hsub.map Node.depth)) fun n hn ↦ ?_
        have hbelow := hle n (hsub.subset hn)
        omega

/-- Only the root is at depth zero, and it is the first node that is taken. -/
theorem AtLoopHead.depth_pos (hs : AtLoopHead setup solver s) (hkeeps : setup.KeepsDepths) :
    s.pool.nodes = [Search.root p] ∨ ∀ n ∈ s.pool.nodes, 1 ≤ n.depth := by
  induction hs with
  | start => exact Or.inl rfl
  | @next s s' hs hturn ih =>
      right
      obtain ⟨node, s₁, _, htakes, -⟩ := exists_takes hturn
      obtain ⟨pool, hpop, hcases⟩ := htakes.pool_cases hturn
      have hperm := Pool.pop?_perm hpop
      obtain ⟨hnode, hrest⟩ : 0 ≤ node.depth ∧ ∀ n ∈ pool.nodes, 1 ≤ n.depth := by
        rcases ih with hroot | hpos
        · rw [hroot] at hperm
          obtain ⟨rfl, hnil⟩ := List.cons.inj (List.singleton_perm.mp hperm)
          rw [← hnil]
          exact ⟨le_rfl, nofun⟩
        · have hnode := hpos node (hperm.mem_iff.mpr List.mem_cons_self)
          refine ⟨by omega, fun n hn ↦ ?_⟩
          exact hpos n (hperm.mem_iff.mpr (List.mem_cons_of_mem node hn))
      rcases hcases with hsub | ⟨left, right, rest, hhalves, hsub, hpool⟩
      · exact fun n hn ↦ hrest n (hsub.subset hn)
      · obtain ⟨hleft, hright⟩ := hhalves.depth_eq hkeeps
        rw [hpool]
        intro n hn
        simp only [List.mem_cons] at hn
        rcases hn with rfl | rfl | hn
        · omega
        · omega
        · exact hrest n (hsub.subset hn)

/-- Depth first, there are no more open nodes than levels. -/
theorem AtLoopHead.size_le (hs : AtLoopHead setup solver s) (hkeeps : setup.KeepsDepths)
    (hdepth : setup.options.selection = .depthFirst) {deepest : Node α β p.stored}
    (hmem : deepest ∈ s.pool.nodes) (hdeepest : ∀ n ∈ s.pool.nodes, n.depth ≤ deepest.depth) :
    (s.pool.size : ℤ) ≤ 1 + deepest.depth := by
  rcases hs.depth_pos hkeeps with hroot | hpos
  · rw [hroot] at hmem
    rw [List.mem_singleton.mp hmem, Pool.size, hroot]
    exact le_rfl
  · exact (hs.isFrontier hkeeps hdepth).length_le hmem hdeepest hpos

/-! ## The subtrees of the halves -/

theorem HasTaken.atLoopHead (h : HasTaken setup solver taken s) : AtLoopHead setup solver s := by
  induction h with
  | start => exact .start
  | next _ _ hturn ih => exact ih.next hturn

theorem nodesCreated_le_of_turn (hturn : turn setup s = .ok (none, s')) :
    s.progress.nodesCreated ≤ s'.progress.nodesCreated := by
  obtain ⟨node, s₁, _, htakes, -⟩ := exists_takes hturn
  obtain ⟨l, hprocess, hl⟩ := htakes.exists_process hturn
  rw [← htakes.nodesCreated_eq, ← ledger_progress, hl]
  exact hprocess.nodesCreated_between.1

theorem AtLoopHead.reaches (hs : AtLoopHead setup solver s) :
    Relation.ReflTransGen (fun s s' ↦ turn setup s = .ok (none, s'))
      (Search.start setup solver) s := by
  induction hs with
  | start => exact .refl
  | next _ hturn ih => exact ih.tail hturn

theorem nodesCreated_le_of_reaches
    (h : Relation.ReflTransGen (fun s s' ↦ turn setup s = .ok (none, s')) s t) :
    s.progress.nodesCreated ≤ t.progress.nodesCreated := by
  induction h with
  | refl => exact le_rfl
  | tail _ hturn ih => exact ih.trans (nodesCreated_le_of_turn hturn)

/-- One turn only can make a node of a given id. -/
theorem eq_of_id_between (hs : AtLoopHead setup solver s) (ht : AtLoopHead setup solver t)
    (hs' : turn setup s = .ok (none, s')) (ht' : turn setup t = .ok (none, t'))
    (hold : (s.progress.nodesCreated : ℤ) ≤ n.id) (hnew : n.id < s'.progress.nodesCreated)
    (hold' : (t.progress.nodesCreated : ℤ) ≤ n.id) (hnew' : n.id < t'.progress.nodesCreated) :
    s = t := by
  have hlater {s s' t : Search α β σ p} (hs' : turn setup s = .ok (none, s'))
      (hreach : Relation.ReflTransGen (fun s s' ↦ turn setup s = .ok (none, s')) s t)
      (hnew : n.id < s'.progress.nodesCreated) (hold' : (t.progress.nodesCreated : ℤ) ≤ n.id) :
      s = t := by
    rcases hreach.cases_head with rfl | ⟨s'', hnext, hreach⟩
    · rfl
    · obtain rfl : s'' = s' := (Prod.mk.inj (Except.ok.inj (hnext.symm.trans hs'))).2
      have hle := nodesCreated_le_of_reaches hreach
      omega
  rcases Relation.ReflTransGen.total_of_right_unique
      (fun _ _ _ h h' ↦ (Prod.mk.inj (Except.ok.inj (h.symm.trans h'))).2) hs.reaches ht.reaches
    with hreach | hreach
  · exact hlater hs' hreach hnew hold'
  · exact (hlater ht' hreach hnew' hold).symm

/-- A half that one turn leaves open for the first time is made by that turn. -/
theorem Splits.eq_of_opens (h : Splits setup solver node left right)
    (hs : AtLoopHead setup solver s) {taken : Node α β p.stored} (htakes : Takes setup s taken s₁)
    (hturn : turn setup s = .ok (none, s')) (hn : n = left ∨ n = right)
    (hopen : n ∈ s'.pool.nodes) (hnew : n ∉ s.pool.nodes) :
    taken = node ∧ left ∈ s'.pool.nodes ∧ right ∈ s'.pool.nodes := by
  obtain @⟨t, t₁, t', rest, ht, htakes', hturn', hhalves, hpool⟩ := h
  have hopen' : left ∈ t'.pool.nodes ∧ right ∈ t'.pool.nodes := by
    simp [hpool]
  obtain ⟨hleft, hright⟩ := hhalves.id_eq
  rw [htakes'.nodesCreated_eq] at hleft hright
  obtain rfl : s = t := by
    refine eq_of_id_between (n := n) hs ht hturn hturn' ?_ ((hs.next hturn).id_lt hopen) ?_ ?_
    · exact htakes.nodesCreated_le_id hturn hopen hnew
    · rcases hn with rfl | rfl <;> omega
    · rcases hn with rfl | rfl
      · exact (ht.next hturn').id_lt hopen'.1
      · exact (ht.next hturn').id_lt hopen'.2
  obtain rfl : s' = t' := (Prod.mk.inj (Except.ok.inj (hturn.symm.trans hturn'))).2
  exact ⟨htakes.node_eq htakes', hopen'⟩

variable (hkeeps : setup.KeepsDepths) (hdepth : setup.options.selection = .depthFirst)
include hkeeps

theorem IsChild.depth_eq (h : IsChild setup solver node n) : n.depth = node.depth + 1 := by
  obtain ⟨left, right, ⟨-, -, -, hhalves, -⟩, hn⟩ := h
  obtain ⟨hleft, hright⟩ := hhalves.depth_eq hkeeps
  rcases hn with rfl | rfl
  · exact hleft
  · exact hright

/-- What comes of splitting a node lies deeper than the node. -/
theorem DescendsFrom.eq_or_lt (h : DescendsFrom setup solver node n) :
    n = node ∨ node.depth < n.depth := by
  induction h with
  | refl => exact Or.inl rfl
  | tail _ hchild ih =>
      have hnext := hchild.depth_eq hkeeps
      rcases ih with rfl | hlt
      · exact Or.inr (by omega)
      · exact Or.inr (by omega)

include hdepth

/-- The second half is not taken as long as something that comes of the first one is open. -/
theorem Splits.not_mem_of_takes (h : Splits setup solver node left right)
    (hn : DescendsFrom setup solver left n) (hs : AtLoopHead setup solver s)
    (htakes : Takes setup s right s₁) : n ∉ s.pool.nodes := by
  intro hmem
  obtain ⟨-, -, -, hhalves, -⟩ := h
  obtain ⟨pool, hpop, -⟩ := htakes.exists_pool
  obtain ⟨hleft, hright⟩ := hhalves.depth_eq hkeeps
  obtain ⟨hid, hid'⟩ := hhalves.id_eq
  have hdeepest := Pool.isDeepest_of_pop? (hs.selection_eq.trans hdepth) hpop n hmem
  rcases hn.eq_or_lt hkeeps with rfl | hlt
  · omega
  · omega

/-- Once the second half has been taken, nothing that comes of the first one is open any more. -/
theorem Splits.not_mem_of_taken (h : Splits setup solver node left right)
    (htaken : HasTaken setup solver taken s) (hright : right ∈ taken)
    (hn : DescendsFrom setup solver left n) : n ∉ s.pool.nodes := by
  induction htaken generalizing n with
  | start => cases hright
  | @next taken s current s₁ s' hbefore htakes hturn ih =>
      have hs := hbefore.atLoopHead
      have hgone {m} (hm : DescendsFrom setup solver left m) : m ∉ s.pool.nodes := by
        rcases List.mem_cons.mp hright with rfl | hright
        · exact h.not_mem_of_takes hkeeps hdepth hm hs htakes
        · exact ih hright hm
      intro hmem
      rcases hn.cases_tail with rfl | ⟨m, hm, left', right', hsplit, hchild⟩
      · -- the first half is opened together with the second one, which was taken before
        obtain ⟨-, -, hopen⟩ := h.eq_of_opens hs htakes hturn (Or.inl rfl) hmem (hgone .refl)
        have hnodup := (hbefore.next htakes hturn).distinctBelow.nodup
        rw [List.map_append] at hnodup
        exact (List.disjoint_of_nodup_append hnodup) (List.mem_map_of_mem hright)
          (List.mem_map_of_mem hopen)
      · obtain ⟨rfl, -, -⟩ := hsplit.eq_of_opens hs htakes hturn hchild hmem (hgone hn)
        exact hgone hm htakes.mem_pool

omit hkeeps hdepth in
/-- The nodes that a turn opens are children of the one it takes. -/
theorem Takes.isChild (h : Takes setup s node s₁) (hturn : turn setup s = .ok (none, s'))
    (hs : AtLoopHead setup solver s) (hn : n ∈ s'.pool.nodes) (hnew : n ∉ s.pool.nodes) :
    IsChild setup solver node n := by
  obtain ⟨pool, hpop, hcases⟩ := h.pool_cases hturn
  have hnot : n ∉ pool.nodes := fun hmem ↦
    hnew ((Pool.pop?_perm hpop).mem_iff.mpr (List.mem_cons_of_mem node hmem))
  rcases hcases with hsub | ⟨left, right, rest, hhalves, hsub, hpool⟩
  · exact absurd (hsub.subset hn) hnot
  · refine ⟨left, right, .mk hs h hturn hhalves hpool, ?_⟩
    rw [hpool] at hn
    simp only [List.mem_cons] at hn
    rcases hn with rfl | rfl | hn
    · exact Or.inr rfl
    · exact Or.inl rfl
    · exact absurd (hsub.subset hn) hnot

end Search

namespace SearchTree

/-- Depth first, at most two open nodes lie deepest, and at most one on every other level: two of
one depth are siblings, and there are no more open nodes than levels.  All that a turn opens are
children of the node it takes, and nothing that comes of the first half of a node is open when the
second half is taken, or at any loop head after that. -/
theorem depth_first_frontier (t : SearchTree α β σ p) (solver : σ)
    {convex : ConvexSolver α β p.size σ} {localSolver : LocalSolver α p.size σ}
    (hparts : t.setup.parts =
      Components.standard p t.setup.options t.setup.routine convex localSolver)
    (hdepth : t.setup.options.selection = .depthFirst) :
    (∀ s, Search.AtLoopHead t.setup solver s → ∀ deepest ∈ s.pool.nodes,
      (∀ n ∈ s.pool.nodes, n.depth ≤ deepest.depth) →
        (s.pool.nodes.map Node.depth).count deepest.depth ≤ 2 ∧
        (∀ d < deepest.depth, (s.pool.nodes.map Node.depth).count d ≤ 1) ∧
        (∀ a ∈ s.pool.nodes, ∀ b ∈ s.pool.nodes, a ≠ b → a.depth = b.depth →
          Search.AreSiblings t.setup solver a b) ∧
        (s.pool.size : ℤ) ≤ 1 + deepest.depth) ∧
    (∀ s node s₁ s', Search.AtLoopHead t.setup solver s → Search.Takes t.setup s node s₁ →
      Search.turn t.setup s = .ok (none, s') → ∀ n ∈ s'.pool.nodes, n ∉ s.pool.nodes →
        Search.IsChild t.setup solver node n) ∧
    ∀ node left right, Search.Splits t.setup solver node left right →
      ∀ n, Search.DescendsFrom t.setup solver left n →
        (∀ s s₁, Search.AtLoopHead t.setup solver s → Search.Takes t.setup s right s₁ →
          n ∉ s.pool.nodes) ∧
        ∀ taken s, Search.HasTaken t.setup solver taken s → right ∈ taken →
          n ∉ s.pool.nodes := by
  have hkeeps := Setup.keepsDepths hparts
  refine ⟨fun s hs deepest hmem hdeepest ↦ ?_, ?_, ?_⟩
  · have hfrontier := hs.isFrontier hkeeps hdepth
    refine ⟨hfrontier.count_le_two _, ?_, ?_, ?_⟩
    · intro d hd
      exact hfrontier.count_le_one hdeepest hd hmem
    · intro a ha b hb hne hab
      rcases hfrontier.related_of_ne ha hb hne hab with ⟨node, h⟩ | ⟨node, h⟩
      · exact ⟨node, Or.inl h⟩
      · exact ⟨node, Or.inr h⟩
    · exact hs.size_le hkeeps hdepth hmem hdeepest
  · intro s node s₁ s' hs htakes hturn n hn hnew
    exact htakes.isChild hturn hs hn hnew
  · intro node left right hsplit n hn
    exact ⟨fun s s₁ hs htakes ↦ hsplit.not_mem_of_takes hkeeps hdepth hn hs htakes,
      fun taken s htaken hright ↦ hsplit.not_mem_of_taken hkeeps hdepth htaken hright hn⟩

end SearchTree

/-! ## On the machine line -/

namespace MachineLine

def options : Options Float Float where
  absGap := some 0
  relGap := some 0
  maxNodes := 5
  maxIterations := none
  maxTime := posInf
  minWidth := 0
  feasibilityTol := 0
  selection := .depthFirst
  hybridInterval := 1
  branching := .largestWidth
  branchPoint := .midpoint
  propagation := .none
  probeDepth := 0
  upperInterval := 1
  lowerRetries := 0
  reportInterval := 0

def routine : EigenRoutine Float :=
  fun _ _ ↦ some 0

def noAnswer : LocalSolver Float 1 Unit :=
  fun _ s ↦ (⟨none, ""⟩, s)

def tree : SearchTree Float Float Unit problem where
  setup :=
    { options := options
      routine := routine
      parts := Components.standard problem options routine Tangent.rangeSolver noAnswer
      clock := fun _ ↦ 0
      isCancelled := fun _ ↦ false }
  state := .initialized
  search := none

/-- The first turn splits the root, and the two halves are as many nodes as there can be. -/
theorem depth_first_frontier_root : ∃ s left right, Search.AtLoopHead tree.setup () s ∧
    (∀ n ∈ s.pool.nodes, n.depth = 1) ∧ s.pool.size = 2 ∧
    (∀ a ∈ s.pool.nodes, ∀ b ∈ s.pool.nodes, a ≠ b → Search.AreSiblings tree.setup () a b) ∧
    Search.Splits tree.setup () (Search.root problem) left right ∧
    ∀ n, Search.DescendsFrom tree.setup () left n → ∀ s s₁, Search.AtLoopHead tree.setup () s →
      Search.Takes tree.setup s right s₁ → n ∉ s.pool.nodes := by
  have hrun : (Search.turn tree.setup (Search.start tree.setup ())).toOption.map
      (fun r ↦ (r.1.isNone, r.2.pool.nodes.map Node.depth)) = some (true, [1, 1]) := by
    decide +kernel
  obtain ⟨s, hturn, hdepths⟩ : ∃ s, Search.turn tree.setup (Search.start tree.setup ()) =
      .ok (none, s) ∧ s.pool.nodes.map Node.depth = [1, 1] := by
    cases hturn : Search.turn tree.setup (Search.start tree.setup ()) with
    | error cause =>
        rw [hturn] at hrun
        cases hrun
    | ok r =>
        obtain ⟨_ | state, s⟩ := r
        · rw [hturn] at hrun
          exact ⟨s, rfl, (Prod.mk.inj (Option.some.inj hrun)).2⟩
        · rw [hturn] at hrun
          cases congrArg Prod.fst (Option.some.inj hrun)
  have hs : Search.AtLoopHead tree.setup () s := .next .start hturn
  have hdepth (n) (hn : n ∈ s.pool.nodes) : n.depth = 1 := by
    have hmem := List.mem_map_of_mem (f := Node.depth) hn
    rw [hdepths] at hmem
    simpa using hmem
  have hsize : s.pool.size = 2 := by
    simpa [Pool.size] using congrArg List.length hdepths
  obtain ⟨hfrontier, hopened, hsubtrees⟩ := SearchTree.depth_first_frontier tree () rfl rfl
  have hopen : 0 < s.pool.nodes.length := Nat.two_pos.trans_eq hsize.symm
  obtain ⟨n, hn⟩ := List.exists_mem_of_length_pos hopen
  obtain ⟨-, -, hsiblings, -⟩ :=
    hfrontier s hs n hn fun m hm ↦ (hdepth m hm).trans (hdepth n hn).symm |>.le
  obtain ⟨node, s₁, _, htakes, -⟩ := Search.exists_takes hturn
  obtain rfl : node = Search.root problem := List.mem_singleton.mp htakes.mem_pool
  have hnew : n ∉ (Search.start tree.setup ()).pool.nodes := by
    intro hroot
    have hzero := hdepth n hn
    rw [List.mem_singleton.mp hroot] at hzero
    cases hzero
  obtain ⟨left, right, hsplit, -⟩ := hopened _ _ s₁ s .start htakes hturn n hn hnew
  exact ⟨s, left, right, hs, hdepth, hsize,
    fun a ha b hb hne ↦ hsiblings a ha b hb hne ((hdepth a ha).trans (hdepth b hb).symm), hsplit,
    fun n hn ↦ (hsubtrees _ left right hsplit n hn).1⟩

end MachineLine

end GlobalQcqp
