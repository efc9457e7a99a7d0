import GlobalQcqp.Proofs.Exact
import GlobalQcqp.Node.Pool
/-!
# The contents of a pool

A pick takes one node out of the pool and leaves the others; pruning keeps exactly the nodes below
the threshold.  Over the extended real numbers the least bound of a pool is a greatest lower bound
of the priorities.
-/

namespace GlobalQcqp

theorem pick?_eq_none_iff {ν : Type} {prefers : ν → ν → Bool} {l : List ν} :
    pick? prefers l = none ↔ l = [] := by
  cases l with
  | nil => simp [pick?]
  | cons x xs =>
      simp only [pick?]
      cases pick? prefers xs with
      | none => simp
      | some found =>
          obtain ⟨y, rest⟩ := found
          simp only [reduceCtorEq, iff_false]
          split <;> simp

/-- A pick takes out one element. -/
theorem pick?_perm {ν : Type} {prefers : ν → ν → Bool} {l rest : List ν} {x : ν}
    (h : pick? prefers l = some (x, rest)) : l.Perm (x :: rest) := by
  induction l generalizing x rest with
  | nil => cases h
  | cons y ys ih =>
      simp only [pick?] at h
      cases hys : pick? prefers ys with
      | none =>
          rw [hys] at h
          cases h
          rw [pick?_eq_none_iff.mp hys]
      | some found =>
          obtain ⟨z, zs⟩ := found
          simp only [hys] at h
          split at h
          · cases h
            exact ((ih hys).cons y).trans (.swap x y zs)
          · cases h
            exact .refl _

/-- The element picked is a least one for every measure that the preference respects. -/
theorem pick?_le {ν γ : Type} [Preorder γ] {prefers : ν → ν → Bool} (measure : ν → γ)
    {l rest : List ν} {x : ν}
    (hprefers : ∀ a ∈ l, ∀ b ∈ l, prefers a b = true → measure a ≤ measure b)
    (hrest : ∀ a ∈ l, ∀ b ∈ l, prefers a b = false → measure b ≤ measure a)
    (h : pick? prefers l = some (x, rest)) : ∀ y ∈ l, measure x ≤ measure y := by
  induction l generalizing x rest with
  | nil => cases h
  | cons y ys ih =>
      simp only [pick?] at h
      cases hys : pick? prefers ys with
      | none =>
          rw [hys] at h
          cases h
          rw [pick?_eq_none_iff.mp hys]
          simp
      | some found =>
          obtain ⟨z, zs⟩ := found
          have hmem : ∀ a ∈ ys, a ∈ y :: ys := fun a ↦ List.mem_cons_of_mem y
          have hz := ih (fun a ha b hb ↦ hprefers a (hmem a ha) b (hmem b hb))
            (fun a ha b hb ↦ hrest a (hmem a ha) b (hmem b hb)) hys
          have hzmem : z ∈ y :: ys :=
            hmem z ((pick?_perm hys).mem_iff.mpr List.mem_cons_self)
          simp only [hys] at h
          intro n hn
          split at h
          · cases h
            rcases List.mem_cons.mp hn with rfl | hn
            · exact hprefers _ hzmem n List.mem_cons_self ‹_›
            · exact hz n hn
          · cases h
            have hyz : measure y ≤ measure z :=
              hrest z hzmem y List.mem_cons_self (Bool.eq_false_iff.mpr ‹_›)
            rcases List.mem_cons.mp hn with rfl | hn
            · exact le_refl _
            · exact hyz.trans (hz n hn)

namespace Pool

section Contents

variable {α β : Type} {k : Nat} {pool pool' : Pool α β k} {node : Node α β k}

theorem isEmpty_iff : pool.isEmpty = true ↔ pool.nodes = [] :=
  List.isEmpty_iff

variable [Scalar β]

theorem pop?_perm (h : pool.pop? = some (node, pool')) : pool.nodes.Perm (node :: pool'.nodes) := by
  obtain ⟨⟨x, rest⟩, hpick, heq⟩ := Option.map_eq_some_iff.mp h
  cases heq
  exact pick?_perm hpick

theorem pop?_eq_none_iff : pool.pop? = none ↔ pool.nodes = [] := by
  rw [pop?, Option.map_eq_none_iff, pick?_eq_none_iff]

theorem mem_prune {threshold : β} : node ∈ (pool.prune threshold).1.nodes ↔
    node ∈ pool.nodes ∧ node.priority < threshold := by
  simp [prune]

theorem size_prune_le (threshold : β) : (pool.prune threshold).1.size ≤ pool.size :=
  List.length_filter_le _ _

/-- Every node is kept or counted. -/
theorem size_prune_add (pool : Pool α β k) (threshold : β) :
    (pool.prune threshold).1.size + (pool.prune threshold).2 = pool.size :=
  Nat.add_sub_cancel' (size_prune_le threshold)

theorem size_pop? (h : pool.pop? = some (node, pool')) : pool.size = pool'.size + 1 :=
  (pop?_perm h).length_eq

/-- Depth first takes a deepest node, and of those the one created first. -/
theorem isDeepest_of_pop? (hdepth : pool.selection = .depthFirst)
    (h : pool.pop? = some (node, pool')) : ∀ n ∈ pool.nodes,
      n.depth < node.depth ∨ n.depth = node.depth ∧ node.id ≤ n.id := by
  have hpicks : pool.picksBest = false := by
    simp [picksBest, hdepth]
  obtain ⟨⟨x, rest⟩, hpick, heq⟩ := Option.map_eq_some_iff.mp h
  cases heq
  rw [hpicks, if_neg Bool.false_ne_true] at hpick
  have hleast := pick?_le (fun n : Node α β k ↦ toLex (-n.depth, n.id)) ?_ ?_ hpick
  · intro n hn
    have hle := Prod.Lex.toLex_le_toLex.mp (hleast n hn)
    simp only at hle
    omega
  · intro a _ b _ hab
    simp only [Node.isDeeper, Bool.or_eq_true, decide_eq_true_iff, Bool.and_eq_true,
      beq_iff_eq] at hab
    refine Prod.Lex.toLex_le_toLex.mpr ?_
    simp only
    omega
  · intro a _ b _ hab
    simp only [Node.isDeeper, Bool.or_eq_false_iff, decide_eq_false_iff_not, Bool.and_eq_false_iff,
      beq_eq_false_iff_ne] at hab
    refine Prod.Lex.toLex_le_toLex.mpr ?_
    simp only
    omega

end Contents

variable {k : Nat} {pool : Pool ℝ EReal k} {node : Node ℝ EReal k}

theorem le_minBound_iff {a : EReal} :
    a ≤ pool.minBound ↔ ∀ node ∈ pool.nodes, a ≤ node.priority := by
  have hfold (nodes : List (Node ℝ EReal k)) (b : EReal) :
      a ≤ nodes.foldl (fun b node ↦ Scalar.min b node.priority) b ↔
        a ≤ b ∧ ∀ node ∈ nodes, a ≤ node.priority := by
    induction nodes generalizing b with
    | nil => simp
    | cons node nodes ih =>
        rw [List.foldl_cons, ih, Scalar.min_ereal, le_min_iff, List.forall_mem_cons, and_assoc]
  unfold minBound
  cases pool.nodes with
  | nil => simp
  | cons node nodes => simp only [hfold, List.forall_mem_cons]

theorem minBound_le (hnode : node ∈ pool.nodes) : pool.minBound ≤ node.priority :=
  le_minBound_iff.mp le_rfl node hnode

theorem minBound_eq_top (hpool : pool.nodes = []) : pool.minBound = ⊤ := by
  simp [minBound, hpool]

/-- Best first takes a node with the least priority. -/
theorem priority_le_of_pop? {pool' : Pool ℝ EReal k} (hbest : pool.selection = .bestFirst)
    (h : pool.pop? = some (node, pool')) : ∀ n ∈ pool.nodes, node.priority ≤ n.priority := by
  have hpicks : pool.picksBest = true := by
    simp [picksBest, hbest]
  obtain ⟨⟨x, rest⟩, hpick, heq⟩ := Option.map_eq_some_iff.mp h
  cases heq
  rw [hpicks, if_pos rfl] at hpick
  refine pick?_le Node.priority ?_ ?_ hpick
  · intro a _ b _ hab
    simp only [Node.isBetter, Bool.or_eq_true, decide_eq_true_iff, Bool.and_eq_true,
      beq_iff_eq] at hab
    rcases hab with hlt | ⟨heq, _⟩
    · exact hlt.le
    · exact heq.le
  · intro a _ b _ hab
    simp only [Node.isBetter, Bool.or_eq_false_iff, decide_eq_false_iff_not] at hab
    exact not_lt.mp hab.1

end Pool

end GlobalQcqp
