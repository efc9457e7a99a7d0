import Mathlib.Data.List.Perm.Basic
import GlobalQcqp.Node.HeapPool
import GlobalQcqp.Proofs.Except
import GlobalQcqp.Proofs.Heap
/-!
# Heaps of open nodes in order

Where both comparisons of the elements are those of keys in linear orders, no operation fails, none
loses an element, and the heap stays in order.  The element taken out is least by the key that the
policy asks for.
-/

namespace GlobalQcqp.HeapPool

open Heap (OrderedFrom Decides levels)

variable {ν ε γ δ : Type} [LinearOrder γ] [LinearOrder δ] {ranking : Ranking ν ε} {key : ν → γ}
  {deep : ν → δ} {p : HeapPool ν} {heap : Array ν} {x first : ν}

/-! ## The deepest element -/

theorem foldlM_isDeeper_spec (h : Decides ranking.isDeeper deep heap) {l : List (ν × ℕ)}
    (hl : ∀ x ∈ l, heap[x.2]? = some x.1) (best : ℕ × ν) (hbest : heap[best.1]? = some best.2) :
    ∃ i x, l.foldlM (fun (best : ℕ × ν) (x : ν × ℕ) ↦ do
        return if ← ranking.isDeeper x.1 best.2 then (x.2, x.1) else best) best = .ok (i, x) ∧
      heap[i]? = some x ∧ deep x ≤ deep best.2 ∧ ∀ y ∈ l, deep x ≤ deep y.1 := by
  induction l generalizing best with
  | nil => exact ⟨best.1, best.2, rfl, hbest, le_rfl, by simp⟩
  | cons x l ih =>
      have hx := hl x List.mem_cons_self
      have hdeeper := h x.1 (Array.mem_of_getElem? hx) best.2 (Array.mem_of_getElem? hbest)
      have hl' : ∀ y ∈ l, heap[y.2]? = some y.1 := fun y hy ↦ hl y (List.mem_cons_of_mem x hy)
      simp only [List.foldlM_cons, hdeeper, ok_bind, pure_eq_ok, decide_eq_true_eq]
      by_cases hlt : deep x.1 < deep best.2
      · obtain ⟨i, d, hfold, hi, hle, hrest⟩ := ih hl' (x.2, x.1) hx
        rw [if_pos hlt]
        refine ⟨i, d, hfold, hi, hle.trans hlt.le, fun y hy ↦ ?_⟩
        rcases List.mem_cons.mp hy with rfl | hy
        · exact hle
        · exact hrest y hy
      · obtain ⟨i, d, hfold, hi, hle, hrest⟩ := ih hl' best hbest
        rw [if_neg hlt]
        refine ⟨i, d, hfold, hi, hle, fun y hy ↦ ?_⟩
        rcases List.mem_cons.mp hy with rfl | hy
        · exact hle.trans (not_lt.mp hlt)
        · exact hrest y hy

theorem deepest_spec (h : Decides ranking.isDeeper deep heap) (hfirst : heap[0]? = some first) :
    ∃ i x, deepest ranking heap first = .ok (i, x) ∧ heap[i]? = some x ∧
      ∀ y ∈ heap, deep x ≤ deep y := by
  have hl : ∀ x ∈ heap.zipIdx.toList, heap[x.2]? = some x.1 := by
    intro x hx
    exact Array.mem_zipIdx_iff_getElem?.mp (Array.mem_toList_iff.mp hx)
  obtain ⟨i, x, hfold, hi, -, hleast⟩ := foldlM_isDeeper_spec h hl (0, first) hfirst
  refine ⟨i, x, ?_, hi, fun y hy ↦ ?_⟩
  · rw [deepest, ← Array.foldlM_toList]
    exact hfold
  · obtain ⟨j, hj⟩ := Array.mem_iff_getElem?.mp hy
    exact hleast (y, j) (Array.mem_toList_iff.mpr (Array.mem_zipIdx_iff_getElem?.mpr hj))

theorem popDeepest_spec (hbest : Decides ranking.isBefore key heap)
    (hdeep : Decides ranking.isDeeper deep heap) (hne : heap ≠ #[]) :
    ∃ x rest, popDeepest ranking heap = (.ok (some x), rest) ∧
      heap.toList.Perm (x :: rest.toList) ∧ (∀ y ∈ heap, deep x ≤ deep y) ∧
      OrderedFrom 0 (levels key rest) := by
  obtain ⟨first, hfirst⟩ : ∃ first, heap[0]? = some first :=
    ⟨_, Array.getElem?_eq_getElem (Array.size_pos_iff.mpr hne)⟩
  obtain ⟨i, x, hdeepest, hi, hleast⟩ := deepest_spec hdeep hfirst
  obtain ⟨hlt, hget⟩ := Array.getElem?_eq_some_iff.mp hi
  have hperm : heap.toList.Perm (x :: (heap.eraseIdxIfInBounds i).toList) := by
    rw [Array.toList_eraseIdxIfInBounds, ← hget, ← Array.getElem_toList hlt]
    exact (List.getElem_cons_eraseIdx_perm _).symm
  have hrest : Decides ranking.isBefore key (heap.eraseIdxIfInBounds i) :=
    hbest.mono fun y hy ↦ Heap.mem_of_perm_cons hperm hy
  obtain ⟨out, hout, hp, hord⟩ := (Heap.ofArray_restores hrest).exists_eq
  refine ⟨x, out, ?_, ?_, hleast, hord⟩
  · rw [popDeepest, hfirst]
    simp only [hdeepest, hout]
  · exact hperm.trans ((Array.perm_iff_toList_perm.mp hp).symm.cons x)

/-! ## One operation -/

/-- The elements compare by their keys and are a heap. -/
structure InOrder (ranking : Ranking ν ε) (key : ν → γ) (deep : ν → δ) (p : HeapPool ν) :
    Prop where
  best : Decides ranking.isBefore key p.heap
  deeper : Decides ranking.isDeeper deep p.heap
  ordered : OrderedFrom 0 (levels key p.heap)

theorem InOrder.push (hp : p.InOrder ranking key deep)
    (hbest : Decides ranking.isBefore key (p.heap.push x))
    (hdeep : Decides ranking.isDeeper deep (p.heap.push x)) :
    ∃ out, p.push ranking x = (.ok (), { p with heap := out }) ∧
      out.toList.Perm (x :: p.heap.toList) ∧
      InOrder ranking key deep { p with heap := out } := by
  obtain ⟨out, hout, hperm, hord⟩ := (Heap.push_restores hbest hp.ordered).exists_eq
  have hcontents : out.toList.Perm (x :: p.heap.toList) := by
    refine (Array.perm_iff_toList_perm.mp hperm).trans ?_
    rw [Array.toList_push]
    exact List.perm_append_singleton x p.heap.toList
  refine ⟨out, ?_, hcontents, hbest.of_perm hperm, hdeep.of_perm hperm, hord⟩
  rw [HeapPool.push, hout]
  rfl

theorem InOrder.prune (hp : p.InOrder ranking key deep) {isBelow : ν → Except ε Bool}
    {below : ν → Bool} (hbelow : ∀ x ∈ p.heap, isBelow x = .ok (below x)) :
    ∃ out, p.prune ranking isBelow =
        (.ok (p.heap.toList.filter fun x ↦ !below x).length, { p with heap := out }) ∧
      out.toList.Perm (p.heap.toList.filter below) ∧
      InOrder ranking key deep { p with heap := out } := by
  have hkept : p.heap.toList.filterM isBelow = .ok (p.heap.toList.filter below) :=
    filterM_eq_ok fun x hx ↦ hbelow x (Array.mem_toList_iff.mp hx)
  have hsub : ∀ x ∈ (p.heap.toList.filter below).toArray, x ∈ p.heap := by
    intro x hx
    exact Array.mem_toList_iff.mp (List.mem_of_mem_filter (List.mem_toArray.mp hx))
  obtain ⟨out, hout, hperm, hord⟩ := (Heap.ofArray_restores (hp.best.mono hsub)).exists_eq
  refine ⟨out, ?_, Array.perm_iff_toList_perm.mp hperm, (hp.best.mono hsub).of_perm hperm,
    (hp.deeper.mono hsub).of_perm hperm, hord⟩
  have hcount := List.length_eq_length_filter_add (l := p.heap.toList) below
  rw [Array.length_toList] at hcount
  rw [HeapPool.prune, hkept]
  simp only [hout, hcount, Nat.add_sub_cancel_left]

theorem InOrder.exists_root (hp : p.InOrder ranking key deep) (hne : p.heap ≠ #[]) :
    ∃ x ∈ p.heap, p.heap[0]? = some x ∧ ∀ y ∈ p.heap, key x ≤ key y := by
  obtain ⟨x, hx⟩ : ∃ x, p.heap[0]? = some x :=
    ⟨_, Array.getElem?_eq_getElem (Array.size_pos_iff.mpr hne)⟩
  exact ⟨x, Array.mem_of_getElem? hx, hx, fun y ↦ Heap.key_root_le hp.ordered hx⟩

theorem InOrder.pop (hp : p.InOrder ranking key deep) (hne : p.heap ≠ #[]) :
    ∃ x out, p.pop ranking = (.ok (some x), { p with heap := out, pops := p.pops + 1 }) ∧
      p.heap.toList.Perm (x :: out.toList) ∧
      (∀ y ∈ p.heap, if p.picksBest then key x ≤ key y else deep x ≤ deep y) ∧
      InOrder ranking key deep { p with heap := out, pops := p.pops + 1 } := by
  have hnotEmpty : ¬p.heap.isEmpty := by simpa using hne
  have hinOrder {x : ν} {out : Array ν} (hperm : p.heap.toList.Perm (x :: out.toList))
      (hord : OrderedFrom 0 (levels key out)) :
      InOrder ranking key deep { p with heap := out, pops := p.pops + 1 } :=
    ⟨hp.best.mono fun y ↦ Heap.mem_of_perm_cons hperm,
      hp.deeper.mono fun y ↦ Heap.mem_of_perm_cons hperm, hord⟩
  by_cases hbest : p.picksBest
  · obtain ⟨x, out, hpop, hperm, hleast, hord⟩ := Heap.pop_of_nonempty hp.best hp.ordered hne
    refine ⟨x, out, ?_, hperm, fun y hy ↦ ?_, hinOrder hperm hord⟩
    · rw [HeapPool.pop, if_neg hnotEmpty, if_pos hbest, hpop]
      rfl
    · rw [if_pos hbest]
      exact hleast y hy
  · obtain ⟨x, out, hpop, hperm, hleast, hord⟩ := popDeepest_spec hp.best hp.deeper hne
    refine ⟨x, out, ?_, hperm, fun y hy ↦ ?_, hinOrder hperm hord⟩
    · rw [HeapPool.pop, if_neg hnotEmpty, if_neg hbest, hpop]
      rfl
    · rw [if_neg hbest]
      exact hleast y hy

theorem pop_of_empty (he : p.heap = #[]) : p.pop ranking = (.ok none, p) := by
  rw [HeapPool.pop, he]
  rfl

end GlobalQcqp.HeapPool
