import GlobalQcqp.Proofs.Node.DraftPool
import GlobalQcqp.Proofs.Node.Pool
import GlobalQcqp.Proofs.OrderedScalar
/-!
# Nodes kept as a heap

A search keeps its open nodes in a list.  Kept as a heap of elements that stand for them they answer
every operation alike, as long as the priorities are defined and no two nodes have one number.  The
elements may be the nodes themselves, or drafts of them.
-/

namespace GlobalQcqp

open Heap (OrderedFrom levels)
open Scalar (isUndefined)

/-! ## The order of nodes -/

namespace Node

variable {α β : Type} {k : ℕ} {a b : Node α β k}

def deepestKey (node : Node α β k) : ℤ ×ₗ ℤ :=
  toLex (-node.depth, node.id)

theorem isDeeper_iff : a.isDeeper b = true ↔
    b.depth < a.depth ∨ a.depth = b.depth ∧ a.id < b.id := by
  simp [isDeeper]

theorem deepestKey_lt_iff : a.deepestKey < b.deepestKey ↔ a.isDeeper b = true := by
  rw [deepestKey, deepestKey, Prod.Lex.toLex_lt_toLex, isDeeper_iff]
  omega

/-- Of two nodes with different numbers one is deeper. -/
theorem isDeeper_or_isDeeper (hid : a.id ≠ b.id) :
    a.isDeeper b = true ∨ b.isDeeper a = true := by
  simp only [isDeeper_iff]
  omega

variable [Scalar β]

theorem isBetter_iff : a.isBetter b = true ↔
    a.priority < b.priority ∨ (a.priority == b.priority) = true ∧ a.id < b.id := by
  simp [isBetter]

theorem isBetter_or_isBetter [LawfulScalar β] (ha : isUndefined a.priority = false)
    (hb : isUndefined b.priority = false) (hid : a.id ≠ b.id) :
    a.isBetter b = true ∨ b.isBetter a = true := by
  simp only [isBetter_iff]
  by_cases hab : a.priority < b.priority
  · exact Or.inl (Or.inl hab)
  by_cases hba : b.priority < a.priority
  · exact Or.inr (Or.inl hba)
  have hle : a.priority ≤ b.priority := LawfulScalar.le_of_not_lt hb ha hba
  have hge : b.priority ≤ a.priority := LawfulScalar.le_of_not_lt ha hb hab
  have heq := ((LawfulScalar.le_iff _ _).mp hle).resolve_left hab
  have heq' := ((LawfulScalar.le_iff _ _).mp hge).resolve_left hba
  rcases lt_or_gt_of_ne hid with hlt | hgt
  · exact Or.inl (Or.inr ⟨heq, hlt⟩)
  · exact Or.inr (Or.inr ⟨heq', hgt⟩)

variable [OrderedScalar β]

def bestKey (node : Node α β k) : Scalar.Rank β ×ₗ ℤ :=
  toLex (Scalar.rank node.priority, node.id)

theorem bestKey_lt_iff (ha : isUndefined a.priority = false)
    (hb : isUndefined b.priority = false) : a.bestKey < b.bestKey ↔ a.isBetter b = true := by
  rw [bestKey, bestKey, Prod.Lex.toLex_lt_toLex, isBetter_iff, Scalar.rank_lt_iff ha hb]
  by_cases hab : a.priority < b.priority
  · simp [hab]
  refine or_congr_right (and_congr_left fun _ ↦ ⟨fun heq ↦ ?_, fun heq ↦ ?_⟩)
  · have hle := (Scalar.rank_le_iff ha hb).mp heq.le
    exact ((LawfulScalar.le_iff _ _).mp hle).resolve_left hab
  · have hle : a.priority ≤ b.priority := (LawfulScalar.le_iff _ _).mpr (Or.inr heq)
    have hge : b.priority ≤ a.priority := LawfulScalar.le_of_not_lt ha hb hab
    exact le_antisymm ((Scalar.rank_le_iff ha hb).mpr hle) ((Scalar.rank_le_iff hb ha).mpr hge)

end Node

/-! ## Layouts -/

/-- How nodes are put on a heap. -/
structure HeapLayout (α β : Type) (k : ℕ) (ν ε : Type) where
  /-- The element that stands for a node. -/
  item : Node α β k → ν
  ranking : Ranking ν ε
  isBelow : β → ν → Except ε Bool

namespace HeapLayout

variable {α β ν ε γ δ : Type} [Scalar β] [LinearOrder γ] [LinearOrder δ] {k : ℕ}

/-- Elements compare, with each other and with a threshold, as the nodes do for which they stand. -/
structure IsFaithful (layout : HeapLayout α β k ν ε) (key : ν → γ) (deep : ν → δ) : Prop where
  isBefore_eq {a b : Node α β k} (ha : isUndefined a.priority = false)
    (hb : isUndefined b.priority = false) :
      layout.ranking.isBefore (layout.item a) (layout.item b) =
        .ok (decide (key (layout.item a) < key (layout.item b)))
  isDeeper_eq {a b : Node α β k} (ha : isUndefined a.priority = false)
    (hb : isUndefined b.priority = false) :
      layout.ranking.isDeeper (layout.item a) (layout.item b) =
        .ok (decide (deep (layout.item a) < deep (layout.item b)))
  isBelow_eq {a : Node α β k} (ha : isUndefined a.priority = false) (t : β) :
    layout.isBelow t (layout.item a) = .ok (decide (a.priority < t))
  key_lt_iff {a b : Node α β k} (ha : isUndefined a.priority = false)
    (hb : isUndefined b.priority = false) :
      key (layout.item a) < key (layout.item b) ↔ a.isBetter b = true
  deep_lt_iff {a b : Node α β k} :
    deep (layout.item a) < deep (layout.item b) ↔ a.isDeeper b = true

/-- The nodes themselves are the elements. -/
def nodes : HeapLayout α β k (Node α β k) Misfit where
  item := id
  ranking := ⟨fun a b ↦ .ok (a.isBetter b), fun a b ↦ .ok (a.isDeeper b)⟩
  isBelow t a := .ok (decide (a.priority < t))

theorem nodes_isFaithful [OrderedScalar β] :
    (nodes : HeapLayout α β k (Node α β k) Misfit).IsFaithful Node.bestKey Node.deepestKey where
  isBefore_eq {a b} ha hb := by
    have hkey := Node.bestKey_lt_iff ha hb
    simp only [nodes, id, hkey, Bool.decide_eq_true]
  isDeeper_eq {a b} _ _ := by
    have hkey := Node.deepestKey_lt_iff (a := a) (b := b)
    simp only [nodes, id, hkey, Bool.decide_eq_true]
  isBelow_eq _ _ := rfl
  key_lt_iff := Node.bestKey_lt_iff
  deep_lt_iff := Node.deepestKey_lt_iff

end HeapLayout

def Node.toDraft {k : ℕ} (node : Node Float Float k) : NodeDraft where
  priority := .real node.priority
  id := .int node.id
  depth := .int node.depth
  lower := .ofVector node.box.lower
  upper := .ofVector node.box.upper
  lowerBound := .real node.lowerBound
  relaxed := node.relaxed.map .ofArray
  status := node.status

theorem Node.toDraft_hasNumbers {k : ℕ} {node : Node Float Float k}
    (h : isUndefined node.priority = false) : node.toDraft.HasNumbers :=
  ⟨rfl, h, rfl, rfl⟩

namespace HeapLayout

variable {k : ℕ}

/-- Machine nodes are kept as drafts. -/
def drafts : HeapLayout Float Float k NodeDraft Misfit where
  item := Node.toDraft
  ranking := NodeDraft.ranking
  isBelow t d := d.priority.isLess (.real t)

theorem drafts_isFaithful : (drafts : HeapLayout Float Float k NodeDraft Misfit).IsFaithful
    NodeDraft.bestKey NodeDraft.deepestKey where
  isBefore_eq ha hb :=
    NodeDraft.isBefore_eq (Node.toDraft_hasNumbers ha) (Node.toDraft_hasNumbers hb)
  isDeeper_eq ha hb :=
    NodeDraft.isDeeper_eq (Node.toDraft_hasNumbers ha) (Node.toDraft_hasNumbers hb)
  isBelow_eq ha t := (Node.toDraft_hasNumbers ha).isLess_real t
  key_lt_iff ha hb := by
    rw [Node.isBetter_iff]
    exact NodeDraft.bestKey_lt_iff (Node.toDraft_hasNumbers ha) (Node.toDraft_hasNumbers hb)
  deep_lt_iff {a b} := by
    rw [Node.isDeeper_iff]
    exact NodeDraft.deepestKey_lt_iff

end HeapLayout

/-! ## One operation -/

namespace Pool

variable {α β ν ε γ δ : Type} [Scalar β] [LinearOrder γ] [LinearOrder δ] {k : ℕ}
  {layout : HeapLayout α β k ν ε} {key : ν → γ} {deep : ν → δ}

/-- The heap holds the nodes of the pool in order, under the same policy and after as many picks. -/
structure KeptBy (layout : HeapLayout α β k ν ε) (key : ν → γ) (p : Pool α β k) (q : HeapPool ν) :
    Prop where
  defined : ∀ node ∈ p.nodes, isUndefined node.priority = false
  contents : q.heap.toList.Perm (p.nodes.map layout.item)
  ordered : OrderedFrom 0 (levels key q.heap)
  selection_eq : q.selection = p.selection
  interval_eq : q.interval = p.interval
  pops_eq : q.pops = p.pops

theorem keptBy_empty (layout : HeapLayout α β k ν ε) (key : ν → γ) (selection : NodeSelection)
    (interval : Int) :
    (empty selection interval : Pool α β k).KeptBy layout key (.empty selection interval) where
  defined := nofun
  contents := .refl _
  ordered i _ _ := by simp [HeapPool.empty, levels]
  selection_eq := rfl
  interval_eq := rfl
  pops_eq := rfl

namespace KeptBy

variable {p p' : Pool α β k} {q : HeapPool ν} {node : Node α β k}

theorem exists_node (h : p.KeptBy layout key q) {x : ν} (hx : x ∈ q.heap) :
    ∃ node ∈ p.nodes, layout.item node = x :=
  List.mem_map.mp (h.contents.mem_iff.mp (Array.mem_toList_iff.mpr hx))

theorem item_mem (h : p.KeptBy layout key q) (hnode : node ∈ p.nodes) :
    layout.item node ∈ q.heap :=
  Array.mem_toList_iff.mp (h.contents.mem_iff.mpr (List.mem_map_of_mem hnode))

theorem size_eq (h : p.KeptBy layout key q) : q.heap.size = p.size := by
  simpa [Pool.size] using h.contents.length_eq

theorem heap_eq_empty_iff (h : p.KeptBy layout key q) : q.heap = #[] ↔ p.nodes = [] := by
  rw [← Array.size_eq_zero_iff, h.size_eq, ← List.length_eq_zero_iff]
  exact Iff.rfl

theorem picksBest_eq (h : p.KeptBy layout key q) : q.picksBest = p.picksBest := by
  cases hp : p.selection <;>
    simp [HeapPool.picksBest, Pool.picksBest, h.selection_eq, h.interval_eq, h.pops_eq, hp]

theorem inOrder (h : p.KeptBy layout key q) (hlayout : layout.IsFaithful key deep) :
    q.InOrder layout.ranking key deep where
  best x hx y hy := by
    obtain ⟨a, ha, rfl⟩ := h.exists_node hx
    obtain ⟨b, hb, rfl⟩ := h.exists_node hy
    exact hlayout.isBefore_eq (h.defined a ha) (h.defined b hb)
  deeper x hx y hy := by
    obtain ⟨a, ha, rfl⟩ := h.exists_node hx
    obtain ⟨b, hb, rfl⟩ := h.exists_node hy
    exact hlayout.isDeeper_eq (h.defined a ha) (h.defined b hb)
  ordered := h.ordered

theorem push (h : p.KeptBy layout key q) (hlayout : layout.IsFaithful key deep)
    (hnode : isUndefined node.priority = false) :
    ∃ q', q.push layout.ranking (layout.item node) = (.ok (), q') ∧
      (p.push node).KeptBy layout key q' := by
  have hitems : ∀ x ∈ q.heap.push (layout.item node),
      ∃ a : Node α β k, isUndefined a.priority = false ∧ layout.item a = x := by
    intro x hx
    rcases Array.mem_push.mp hx with hx | rfl
    · obtain ⟨a, ha, rfl⟩ := h.exists_node hx
      exact ⟨a, h.defined a ha, rfl⟩
    · exact ⟨node, hnode, rfl⟩
  have hbest : Heap.Decides layout.ranking.isBefore key (q.heap.push (layout.item node)) := by
    intro x hx y hy
    obtain ⟨a, ha, rfl⟩ := hitems x hx
    obtain ⟨b, hb, rfl⟩ := hitems y hy
    exact hlayout.isBefore_eq ha hb
  have hdeep : Heap.Decides layout.ranking.isDeeper deep (q.heap.push (layout.item node)) := by
    intro x hx y hy
    obtain ⟨a, ha, rfl⟩ := hitems x hx
    obtain ⟨b, hb, rfl⟩ := hitems y hy
    exact hlayout.isDeeper_eq ha hb
  obtain ⟨out, hpush, hperm, hout⟩ := (h.inOrder hlayout).push hbest hdeep
  exact ⟨_, hpush, List.forall_mem_cons.mpr ⟨hnode, h.defined⟩, hperm.trans (h.contents.cons _),
    hout.ordered, h.selection_eq, h.interval_eq, h.pops_eq⟩

theorem prune (h : p.KeptBy layout key q) (hlayout : layout.IsFaithful key deep) (t : β) :
    ∃ q', q.prune layout.ranking (layout.isBelow t) = (.ok (p.prune t).2, q') ∧
      (p.prune t).1.KeptBy layout key q' := by
  classical
  -- Which elements are below the threshold can be read off the nodes that they stand for.
  let below (x : ν) : Bool := decide (layout.isBelow t x = .ok true)
  have hbelow (node : Node α β k) (hnode : node ∈ p.nodes) :
      below (layout.item node) = decide (node.priority < t) := by
    simp [below, hlayout.isBelow_eq (h.defined node hnode)]
  have hdecides (x) (hx : x ∈ q.heap) : layout.isBelow t x = .ok (below x) := by
    obtain ⟨node, hnode, rfl⟩ := h.exists_node hx
    rw [hbelow node hnode]
    exact hlayout.isBelow_eq (h.defined node hnode) t
  obtain ⟨out, hprune, hperm, hout⟩ := (h.inOrder hlayout).prune hdecides
  have hfilter : (p.nodes.map layout.item).filter below =
      (p.prune t).1.nodes.map layout.item := by
    rw [List.filter_map]
    exact congrArg (List.map layout.item) (List.filter_congr hbelow)
  have hcontents : out.toList.Perm ((p.prune t).1.nodes.map layout.item) :=
    hfilter ▸ hperm.trans (h.contents.filter below)
  have hcount : (q.heap.toList.filter fun x ↦ !below x).length = (p.prune t).2 := by
    have hsplit := List.length_eq_length_filter_add (l := q.heap.toList) below
    have hadd : (p.prune t).1.nodes.length + (p.prune t).2 = p.nodes.length := size_prune_add p t
    rw [← hperm.length_eq, hcontents.length_eq, h.contents.length_eq, List.length_map,
      List.length_map] at hsplit
    omega
  rw [hcount] at hprune
  exact ⟨_, hprune, fun node hnode ↦ h.defined node (mem_prune.mp hnode).1, hcontents, hout.ordered,
    h.selection_eq, h.interval_eq, h.pops_eq⟩

/-- The node at the root of the heap has a least priority. -/
theorem exists_root [LawfulScalar β] (h : p.KeptBy layout key q)
    (hlayout : layout.IsFaithful key deep) (hne : p.nodes ≠ []) :
    ∃ node ∈ p.nodes, q.heap[0]? = some (layout.item node) ∧
      ∀ other ∈ p.nodes, node.priority ≤ other.priority := by
  obtain ⟨x, hx, hroot, hleast⟩ := (h.inOrder hlayout).exists_root (mt h.heap_eq_empty_iff.mp hne)
  obtain ⟨node, hnode, rfl⟩ := h.exists_node hx
  refine ⟨node, hnode, hroot, fun other hother ↦ ?_⟩
  have hdefined := h.defined node hnode
  have hnot : ¬ other.isBetter node = true := by
    rw [← hlayout.key_lt_iff (h.defined other hother) hdefined, not_lt]
    exact hleast _ (h.item_mem hother)
  refine LawfulScalar.le_of_not_lt (h.defined other hother) hdefined fun hlt ↦ hnot ?_
  exact Node.isBetter_iff.mpr (Or.inl hlt)

/-- The node that is picked is least by the key of the policy. -/
theorem least_of_pop? (h : p.KeptBy layout key q) (hlayout : layout.IsFaithful key deep)
    (hpop : p.pop? = some (node, p')) : ∀ other ∈ p.nodes,
      if p.picksBest then key (layout.item node) ≤ key (layout.item other)
      else deep (layout.item node) ≤ deep (layout.item other) := by
  obtain ⟨⟨x, rest⟩, hpick, heq⟩ := Option.map_eq_some_iff.mp hpop
  cases heq
  by_cases hbest : p.picksBest
  · rw [if_pos hbest] at hpick
    simp only [if_pos hbest]
    refine pick?_le (fun a ↦ key (layout.item a)) ?_ ?_ hpick
    · intro a ha b hb hab
      exact ((hlayout.key_lt_iff (h.defined a ha) (h.defined b hb)).mpr hab).le
    · intro a ha b hb hab
      rw [← not_lt, hlayout.key_lt_iff (h.defined a ha) (h.defined b hb), hab]
      exact Bool.false_ne_true
  · rw [if_neg hbest] at hpick
    simp only [if_neg hbest]
    refine pick?_le (fun a ↦ deep (layout.item a)) ?_ ?_ hpick
    · intro a _ b _ hab
      exact (hlayout.deep_lt_iff.mpr hab).le
    · intro a _ b _ hab
      rw [← not_lt, hlayout.deep_lt_iff, hab]
      exact Bool.false_ne_true

/-- Nodes that are both least have one number. -/
theorem id_eq_of_least [LawfulScalar β] (h : p.KeptBy layout key q)
    (hlayout : layout.IsFaithful key deep) {a b : Node α β k} (ha : a ∈ p.nodes) (hb : b ∈ p.nodes)
    (hab : if p.picksBest then key (layout.item a) ≤ key (layout.item b)
      else deep (layout.item a) ≤ deep (layout.item b))
    (hba : if p.picksBest then key (layout.item b) ≤ key (layout.item a)
      else deep (layout.item b) ≤ deep (layout.item a)) : a.id = b.id := by
  by_contra hid
  split at hab
  · rw [if_pos ‹_›] at hba
    have hdefined := h.defined a ha
    have hdefined' := h.defined b hb
    rcases Node.isBetter_or_isBetter hdefined hdefined' hid with hbetter | hbetter
    · exact absurd ((hlayout.key_lt_iff hdefined hdefined').mpr hbetter) hba.not_gt
    · exact absurd ((hlayout.key_lt_iff hdefined' hdefined).mpr hbetter) hab.not_gt
  · rw [if_neg ‹_›] at hba
    rcases Node.isDeeper_or_isDeeper hid with hdeeper | hdeeper
    · exact absurd (hlayout.deep_lt_iff.mpr hdeeper) hba.not_gt
    · exact absurd (hlayout.deep_lt_iff.mpr hdeeper) hab.not_gt

theorem pop [LawfulScalar β] (h : p.KeptBy layout key q) (hlayout : layout.IsFaithful key deep)
    (hids : (p.nodes.map Node.id).Nodup) (hpop : p.pop? = some (node, p')) :
    ∃ q', q.pop layout.ranking = (.ok (some (layout.item node)), q') ∧
      p'.KeptBy layout key q' := by
  have hperm := pop?_perm hpop
  have hnode : node ∈ p.nodes := hperm.mem_iff.mpr List.mem_cons_self
  have hne : q.heap ≠ #[] := fun he ↦ List.ne_nil_of_mem hnode (h.heap_eq_empty_iff.mp he)
  obtain ⟨x, out, hq, hsplit, hleast, hout⟩ := (h.inOrder hlayout).pop hne
  obtain ⟨other, hother, rfl⟩ :=
    h.exists_node (Array.mem_toList_iff.mp (hsplit.mem_iff.mpr List.mem_cons_self))
  obtain rfl : other = node := by
    refine List.inj_on_of_nodup_map hids hother hnode (h.id_eq_of_least hlayout hother hnode ?_ ?_)
    · rw [← h.picksBest_eq]
      exact hleast _ (h.item_mem hnode)
    · exact h.least_of_pop? hlayout hpop other hother
  have hcontents : out.toList.Perm (p'.nodes.map layout.item) :=
    (hsplit.symm.trans (h.contents.trans (hperm.map layout.item))).cons_inv
  obtain ⟨⟨y, rest⟩, -, heq⟩ := Option.map_eq_some_iff.mp hpop
  cases heq
  refine ⟨_, hq, fun n hn ↦ h.defined n ?_, hcontents, hout.ordered, h.selection_eq,
    h.interval_eq, congrArg (· + 1) h.pops_eq⟩
  exact hperm.mem_iff.mpr (List.mem_cons_of_mem _ hn)

theorem pop_of_empty (h : p.KeptBy layout key q) (hp : p.nodes = []) :
    q.pop layout.ranking = (.ok none, q) :=
  HeapPool.pop_of_empty (h.heap_eq_empty_iff.mpr hp)

end KeptBy

end Pool

/-! ## Sequences of calls -/

inductive Pool.Call (α β : Type) (k : ℕ)
  | pop
  | push (node : Node α β k)
  | prune (threshold : β)

section Calls

variable {α β ν ε γ δ : Type} [Scalar β] {k : ℕ}

/-- What a call leaves of the pool. -/
def Pool.after (p : Pool α β k) : Call α β k → Pool α β k
  | .pop => p.pop?.elim p Prod.snd
  | .push node => p.push node
  | .prune threshold => (p.prune threshold).1

namespace HeapLayout

private def left {ω : Type} (r : Except ε ω × HeapPool ν) : Except ε (HeapPool ν) :=
  r.1.map fun _ ↦ r.2

/-- What a call leaves of the heap, unless it fails. -/
def after (layout : HeapLayout α β k ν ε) (q : HeapPool ν) :
    Pool.Call α β k → Except ε (HeapPool ν)
  | .pop => left (q.pop layout.ranking)
  | .push node => left (q.push layout.ranking (layout.item node))
  | .prune threshold => left (q.prune layout.ranking (layout.isBelow threshold))

end HeapLayout

/-- The call brings in no undefined priority, and takes no node that shares its number with
another. -/
def Pool.Call.IsSafe (p : Pool α β k) : Call α β k → Prop
  | .pop => (p.nodes.map Node.id).Nodup
  | .push node => isUndefined node.priority = false
  | .prune _ => True

variable [LawfulScalar β] [LinearOrder γ] [LinearOrder δ] {layout : HeapLayout α β k ν ε}
  {key : ν → γ} {deep : ν → δ} {p : Pool α β k} {q : HeapPool ν}

namespace Pool.KeptBy

theorem after (h : p.KeptBy layout key q) (hlayout : layout.IsFaithful key deep)
    (call : Call α β k) (hcall : call.IsSafe p) :
    ∃ q', layout.after q call = .ok q' ∧ (p.after call).KeptBy layout key q' := by
  cases call with
  | pop =>
      cases hpop : p.pop? with
      | none =>
          have hq := h.pop_of_empty (pop?_eq_none_iff.mp hpop)
          refine ⟨q, ?_, ?_⟩
          · rw [HeapLayout.after, hq]
            rfl
          · rw [Pool.after, hpop]
            exact h
      | some r =>
          obtain ⟨node, p'⟩ := r
          obtain ⟨q', hq, h'⟩ := h.pop hlayout hcall hpop
          refine ⟨q', ?_, ?_⟩
          · rw [HeapLayout.after, hq]
            rfl
          · rw [Pool.after, hpop]
            exact h'
  | push node =>
      obtain ⟨q', hq, h'⟩ := h.push hlayout hcall
      refine ⟨q', ?_, h'⟩
      rw [HeapLayout.after, hq]
      rfl
  | prune threshold =>
      obtain ⟨q', hq, h'⟩ := h.prune hlayout threshold
      refine ⟨q', ?_, h'⟩
      rw [HeapLayout.after, hq]
      rfl

/-- Calls that are safe for every pool do not fail, and the heap keeps up with the pool. -/
theorem run (h : p.KeptBy layout key q) (hlayout : layout.IsFaithful key deep)
    {calls : List (Call α β k)} (hcalls : ∀ call ∈ calls, ∀ p : Pool α β k, call.IsSafe p) :
    ∃ q', calls.foldlM layout.after q = .ok q' ∧
      (calls.foldl Pool.after p).KeptBy layout key q' := by
  induction calls generalizing p q with
  | nil => exact ⟨q, rfl, h⟩
  | cons call calls ih =>
      obtain ⟨q₁, hq₁, h₁⟩ := h.after hlayout call (hcalls call List.mem_cons_self p)
      rw [List.foldlM_cons, hq₁, ok_bind]
      exact ih h₁ fun call hcall ↦ hcalls call (List.mem_cons_of_mem _ hcall)

end Pool.KeptBy

end Calls

end GlobalQcqp
