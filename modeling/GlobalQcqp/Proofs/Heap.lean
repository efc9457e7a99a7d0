import Mathlib.Logic.Equiv.Basic
import Mathlib.Order.WithBot
import GlobalQcqp.Heap
/-!
# Heaps in order

Where the comparison of the elements is that of a key in a linear order, every operation succeeds,
loses no element and leaves a heap in order.  The order is stated for the keys by position, with a
greatest value past the end, so that a missing child is in order with every parent.

An element on its way is out of order with one side only: `Falls` leaves open both its parent and
its children, `Rises` only its parent.
-/

namespace GlobalQcqp.Heap

def parent (i : ℕ) : ℕ :=
  (i - 1) / 2

theorem parent_lt {i : ℕ} (hi : 0 < i) : parent i < i := by
  unfold parent
  omega

theorem parent_two_mul_add_one (i : ℕ) : parent (2 * i + 1) = i := by
  unfold parent
  omega

theorem parent_two_mul_add_two (i : ℕ) : parent (2 * i + 2) = i := by
  unfold parent
  omega

theorem eq_child_of_parent_eq {i k : ℕ} (hk : 0 < k) (h : parent k = i) :
    k = 2 * i + 1 ∨ k = 2 * i + 2 := by
  unfold parent at h
  omega

/-! ## Positions -/

section Positions

variable {δ : Type} [LinearOrder δ] {s i c : ℕ} {f : ℕ → δ}

/-- No child of the positions from `s` on is smaller than its parent. -/
def OrderedFrom (s : ℕ) (f : ℕ → δ) : Prop :=
  ∀ k, 0 < k → s ≤ parent k → f (parent k) ≤ f k

structure Falls (s i : ℕ) (f : ℕ → δ) : Prop where
  edge : ∀ k, 0 < k → s ≤ parent k → k ≠ i → parent k ≠ i → f (parent k) ≤ f k
  grand : ∀ k, 0 < k → parent k = i → 0 < i → s ≤ parent i → f (parent i) ≤ f k

structure Rises (s i : ℕ) (f : ℕ → δ) : Prop extends Falls s i f where
  below : ∀ k, 0 < k → parent k = i → s ≤ i → f i ≤ f k

theorem OrderedFrom.falls (h : OrderedFrom (i + 1) f) : Falls i i f := by
  constructor
  · intro k hk hs _ hi
    exact h k hk (by omega)
  · intro k _ _ hi hs
    have := parent_lt hi
    omega

theorem OrderedFrom.zero_le (h : OrderedFrom 0 f) (k : ℕ) : f 0 ≤ f k := by
  induction k using Nat.strong_induction_on with
  | _ k ih =>
    rcases Nat.eq_zero_or_pos k with rfl | hk
    · exact le_rfl
    · exact (ih (parent k) (parent_lt hk)).trans (h k hk (Nat.zero_le _))

theorem Rises.ordered (h : Rises s i f) (hi : 0 < i → s ≤ parent i → f (parent i) ≤ f i) :
    OrderedFrom s f := by
  intro k hk hs
  by_cases hki : k = i
  · subst hki
    exact hi hk hs
  · by_cases hpi : parent k = i
    · rw [hpi]
      exact h.below k hk hpi (hpi ▸ hs)
    · exact h.edge k hk hs hki hpi

/-- An element changes places with its smaller child. -/
theorem Falls.swap (h : Falls s i f) (hs : s ≤ i) (hc : 0 < c) (hci : parent c = i)
    (hleast : ∀ k, 0 < k → parent k = i → f c ≤ f k) : Falls s c (f ∘ Equiv.swap i c) := by
  have hic : i < c := hci ▸ parent_lt hc
  have other : ∀ k, k ≠ i → k ≠ c → (f ∘ Equiv.swap i c) k = f k := by
    intro k hki hkc
    simp [Equiv.swap_apply_of_ne_of_ne hki hkc]
  have here : (f ∘ Equiv.swap i c) i = f c := by simp
  constructor
  · intro k hk hks hkc hpc
    by_cases hki : k = i
    · subst hki
      have := parent_lt hk
      rw [here, other (parent k) (by omega) hpc]
      exact h.grand c hc hci hk hks
    · rw [other k hki hkc]
      by_cases hpi : parent k = i
      · rw [hpi, here]
        exact hleast k hk hpi
      · rw [other (parent k) hpi hpc]
        exact h.edge k hk hks hki hpi
  · intro k hk hpk _ _
    have := parent_lt hk
    rw [hci, here, other k (by omega) (by omega), ← hpk]
    exact h.edge k hk (by omega) (by omega) (by omega)

/-- An element changes places with its larger parent. -/
theorem Rises.swap (h : Rises s i f) (hi : 0 < i) (hs : s ≤ parent i)
    (hlt : f i < f (parent i)) : Rises s (parent i) (f ∘ Equiv.swap i (parent i)) := by
  have hpi := parent_lt hi
  have other : ∀ k, k ≠ i → k ≠ parent i → (f ∘ Equiv.swap i (parent i)) k = f k := by
    intro k hki hkp
    simp [Equiv.swap_apply_of_ne_of_ne hki hkp]
  have here : (f ∘ Equiv.swap i (parent i)) i = f (parent i) := by simp
  have there : (f ∘ Equiv.swap i (parent i)) (parent i) = f i := by simp
  have sibling : ∀ k, 0 < k → parent k = parent i → k ≠ i → f (parent i) ≤ f k := by
    intro k hk hkp hki
    rw [← hkp]
    exact h.edge k hk (hkp ▸ hs) hki (by omega)
  refine ⟨⟨?_, ?_⟩, ?_⟩
  · intro k hk hks hkp hpp
    have hki : k ≠ i := by
      rintro rfl
      exact hpp rfl
    rw [other k hki hkp]
    by_cases hpk : parent k = i
    · rw [hpk, here]
      exact h.grand k hk hpk hi hs
    · rw [other (parent k) hpk hpp]
      exact h.edge k hk hks hki hpk
  · intro k hk hkp hp hps
    have hpp := parent_lt hp
    have up : f (parent (parent i)) ≤ f (parent i) :=
      h.edge (parent i) hp hps (by omega) (by omega)
    rw [other (parent (parent i)) (by omega) (by omega)]
    by_cases hki : k = i
    · rw [hki, here]
      exact up
    · have := parent_lt hk
      rw [other k hki (by omega)]
      exact up.trans (sibling k hk hkp hki)
  · intro k hk hkp _
    rw [there]
    by_cases hki : k = i
    · rw [hki, here]
      exact hlt.le
    · have := parent_lt hk
      rw [other k hki (by omega)]
      exact hlt.le.trans (sibling k hk hkp hki)

/-- Position `i` is `s` or a descendant of it. -/
inductive Below (s : ℕ) : ℕ → Prop
  | here : Below s s
  | child {i : ℕ} : 0 < i → Below s (parent i) → Below s i

theorem Below.le (h : Below s i) : s ≤ i := by
  induction h with
  | here => exact le_rfl
  | child hi _ ih => exact ih.trans (parent_lt hi).le

theorem below_zero (i : ℕ) : Below 0 i := by
  induction i using Nat.strong_induction_on with
  | _ i ih =>
    rcases Nat.eq_zero_or_pos i with rfl | hi
    · exact .here
    · exact .child hi (ih (parent i) (parent_lt hi))

theorem Below.parent_of_lt (h : Below s i) (hi : s < i) : Below s (parent i) := by
  cases h with
  | here => omega
  | child _ h => exact h

end Positions

/-! ## Arrays -/

variable {ν ε γ : Type} {key : ν → γ} {less : Less ν ε} {heap : Array ν} {s i : ℕ}

/-- The keys by position. -/
def levels (key : ν → γ) (heap : Array ν) (i : ℕ) : WithTop γ :=
  heap[i]?.elim ⊤ fun a ↦ (key a : WithTop γ)

theorem levels_of_lt (h : i < heap.size) : levels key heap i = key heap[i] := by
  simp [levels, h]

theorem levels_congr {other : Array ν} {j : ℕ} (h : heap[i]? = other[j]?) :
    levels key heap i = levels key other j := by
  simp [levels, h]

theorem swapIfInBounds_perm (heap : Array ν) (i j : ℕ) :
    (heap.swapIfInBounds i j).Perm heap := by
  rw [Array.swapIfInBounds_def]
  split
  · split
    · exact Array.swap_perm _ _
    · exact .refl _
  · exact .refl _

theorem levels_swap {j : ℕ} (hi : i < heap.size) (hj : j < heap.size) :
    levels key (heap.swapIfInBounds i j) = levels key heap ∘ Equiv.swap i j := by
  funext k
  apply levels_congr
  simp only [Array.swapIfInBounds_def, dif_pos hi, dif_pos hj, Array.getElem?_swap,
    Equiv.swap_apply_def, eq_comm (a := k)]
  by_cases hki : i = k
  · subst hki
    by_cases hji : j = i <;> simp [hi, hj, hji]
  · by_cases hkj : j = k <;> simp [hi, hki, hkj]

variable [LinearOrder γ]

/-- A missing child is in order with every parent. -/
theorem le_levels_of_size_le (h : heap.size ≤ i) (x : WithTop γ) : x ≤ levels key heap i := by
  simp [levels, Array.getElem?_eq_none h]

/-- One element of the heap is less than another where its key is. -/
def Decides (less : Less ν ε) (key : ν → γ) (heap : Array ν) : Prop :=
  ∀ a ∈ heap, ∀ b ∈ heap, less a b = .ok (decide (key a < key b))

theorem Decides.mono {other : Array ν} (h : Decides less key heap)
    (hsub : ∀ a ∈ other, a ∈ heap) : Decides less key other :=
  fun a ha b hb ↦ h a (hsub a ha) b (hsub b hb)

theorem Decides.of_perm {other : Array ν} (h : Decides less key heap) (hp : other.Perm heap) :
    Decides less key other :=
  h.mono fun _ ha ↦ hp.mem_iff.mp ha

/-- The operation succeeds, and the elements of the heap come out in order from `s` on. -/
structure Restores (s : ℕ) (key : ν → γ) (heap : Array ν) (r : Except ε Unit × Array ν) :
    Prop where
  succeeds : r.1 = .ok ()
  perm : r.2.Perm heap
  ordered : OrderedFrom s (levels key r.2)

theorem Restores.of_perm {other : Array ν} {r : Except ε Unit × Array ν}
    (h : Restores s key other r) (hp : other.Perm heap) : Restores s key heap r :=
  ⟨h.succeeds, h.perm.trans hp, h.ordered⟩

theorem Restores.exists_eq {r : Except ε Unit × Array ν} (h : Restores s key heap r) :
    ∃ out, r = (.ok (), out) ∧ out.Perm heap ∧ OrderedFrom s (levels key out) :=
  ⟨r.2, Prod.ext h.succeeds rfl, h.perm, h.ordered⟩

/-! ### Rising -/

theorem rise_of_lt (hs : s < i) (hi : i < heap.size) (hp : parent i < heap.size)
    (hd : Decides less key heap) :
    rise less s i heap =
      if key heap[i] < key heap[parent i] then
        rise less s (parent i) (heap.swapIfInBounds i (parent i))
      else (.ok (), heap) := by
  have hi' : heap[i]? = some heap[i] := Array.getElem?_eq_getElem hi
  have hp' : heap[(i - 1) / 2]? = some heap[parent i] := Array.getElem?_eq_getElem hp
  rw [rise, dif_pos hs]
  simp only [hi', hp', hd _ (Array.getElem_mem hi) _ (Array.getElem_mem hp)]
  by_cases hlt : key heap[i] < key heap[parent i]
  · simp only [hlt, decide_true, if_true]
    rfl
  · simp only [hlt, decide_false, if_false]

theorem rise_restores (hd : Decides less key heap) (hb : Below s i) (hi : i < heap.size)
    (hr : Rises s i (levels key heap)) : Restores s key heap (rise less s i heap) := by
  induction i using Nat.strong_induction_on generalizing heap with
  | _ i ih =>
    by_cases hs : s < i
    · have hpos : 0 < i := by omega
      have hpi : parent i < heap.size := (parent_lt hpos).trans hi
      have hbelow := hb.parent_of_lt hs
      rw [rise_of_lt hs hi hpi hd]
      by_cases hlt : key heap[i] < key heap[parent i]
      · rw [if_pos hlt]
        have hswap : Rises s (parent i) (levels key (heap.swapIfInBounds i (parent i))) := by
          rw [levels_swap hi hpi]
          apply hr.swap hpos hbelow.le
          rw [levels_of_lt hi, levels_of_lt hpi]
          exact WithTop.coe_lt_coe.mpr hlt
        have hp := swapIfInBounds_perm heap i (parent i)
        exact (ih (parent i) (parent_lt hpos) (hd.of_perm hp) hbelow (by simpa using hpi)
          hswap).of_perm hp
      · rw [if_neg hlt]
        refine ⟨rfl, .refl _, hr.ordered fun _ _ ↦ ?_⟩
        rw [levels_of_lt hi, levels_of_lt hpi]
        exact WithTop.coe_le_coe.mpr (not_lt.mp hlt)
    · obtain rfl : i = s := le_antisymm (not_lt.mp hs) hb.le
      rw [rise, dif_neg hs]
      refine ⟨rfl, .refl _, hr.ordered fun hpos hle ↦ ?_⟩
      have := parent_lt hpos
      omega

theorem push_restores {x : ν} (hd : Decides less key (heap.push x))
    (ho : OrderedFrom 0 (levels key heap)) : Restores 0 key (heap.push x) (push less heap x) := by
  have past : ∀ k y, heap.size < k → y ≤ levels key (heap.push x) k := by
    intro k y hk
    apply le_levels_of_size_le
    rw [Array.size_push]
    exact hk
  have inside : ∀ k, k < heap.size → levels key (heap.push x) k = levels key heap k := by
    intro k hk
    apply levels_congr
    simp [Array.getElem?_push, hk.ne]
  refine rise_restores hd (below_zero _) (by simp) ⟨⟨?_, ?_⟩, ?_⟩
  · intro k hk _ hne hpne
    have hpk := parent_lt hk
    rcases lt_or_gt_of_ne hne with hlt | hgt
    · rw [inside k hlt, inside (parent k) (by omega)]
      exact ho k hk (Nat.zero_le _)
    · exact past k _ hgt
  · intro k hk hpk _ _
    have := parent_lt hk
    exact past k _ (by omega)
  · intro k hk hpk _
    have := parent_lt hk
    exact past k _ (by omega)

/-! ### Sinking -/

theorem smallerChild_spec (hd : Decides less key heap) (hi : 2 * i + 1 < heap.size) :
    ∃ c, smallerChild less i heap = .ok c ∧ c < heap.size ∧ 0 < c ∧ parent c = i ∧
      ∀ k, 0 < k → parent k = i → levels key heap c ≤ levels key heap k := by
  have h₁ : heap[2 * i + 1]? = some heap[2 * i + 1] := Array.getElem?_eq_getElem hi
  by_cases hi₂ : 2 * i + 2 < heap.size
  · have h₂ : heap[2 * i + 2]? = some heap[2 * i + 2] := Array.getElem?_eq_getElem hi₂
    have hless := hd _ (Array.getElem_mem hi) _ (Array.getElem_mem hi₂)
    by_cases hlt : key heap[2 * i + 1] < key heap[2 * i + 2]
    · refine ⟨2 * i + 1, ?_, hi, by omega, parent_two_mul_add_one i, ?_⟩
      · simp [smallerChild, h₁, h₂, hless, hlt, bind, Except.bind, pure, Except.pure]
      · intro k hk hpk
        rcases eq_child_of_parent_eq hk hpk with rfl | rfl
        · exact le_rfl
        · rw [levels_of_lt hi, levels_of_lt hi₂]
          exact WithTop.coe_le_coe.mpr hlt.le
    · refine ⟨2 * i + 2, ?_, hi₂, by omega, parent_two_mul_add_two i, ?_⟩
      · simp [smallerChild, h₁, h₂, hless, hlt, bind, Except.bind, pure, Except.pure]
      · intro k hk hpk
        rcases eq_child_of_parent_eq hk hpk with rfl | rfl
        · rw [levels_of_lt hi, levels_of_lt hi₂]
          exact WithTop.coe_le_coe.mpr (not_lt.mp hlt)
        · exact le_rfl
  · refine ⟨2 * i + 1, ?_, hi, by omega, parent_two_mul_add_one i, ?_⟩
    · simp [smallerChild, h₁, Array.getElem?_eq_none (not_lt.mp hi₂)]
    · intro k hk hpk
      rcases eq_child_of_parent_eq hk hpk with rfl | rfl
      · exact le_rfl
      · exact le_levels_of_size_le (not_lt.mp hi₂) _

/-- An element falls to a leaf, from where it can rise. -/
theorem fall_spec {left : ℕ} (hd : Decides less key heap) (hb : Below s i) (hi : i < heap.size)
    (hleft : heap.size ≤ left + i) (hf : Falls s i (levels key heap)) :
    ∃ leaf out, fall less left i heap = (.ok leaf, out) ∧ out.Perm heap ∧ leaf < heap.size ∧
      Below s leaf ∧ Rises s leaf (levels key out) := by
  induction left generalizing i heap with
  | zero => omega
  | succ left ih =>
    rw [fall]
    by_cases hc : 2 * i + 1 < heap.size
    · obtain ⟨c, hsmaller, hcs, hpos, hci, hleast⟩ := smallerChild_spec hd hc
      have hic : i < c := hci ▸ parent_lt hpos
      have hp := swapIfInBounds_perm heap i c
      have hswap : Falls s c (levels key (heap.swapIfInBounds i c)) := by
        rw [levels_swap hi hcs]
        exact hf.swap hb.le hpos hci hleast
      have hbc : Below s c := .child hpos (hci ▸ hb)
      have hsize : (heap.swapIfInBounds i c).size = heap.size := by simp
      obtain ⟨leaf, out, hfall, hout, hlt, hbelow, hrises⟩ :=
        ih (hd.of_perm hp) hbc (by omega) (by omega) hswap
      refine ⟨leaf, out, ?_, hout.trans hp, by omega, hbelow, hrises⟩
      rw [if_pos hc, hsmaller]
      exact hfall
    · refine ⟨i, heap, by rw [if_neg hc], .refl _, hi, hb, hf, fun k hk hpk _ ↦ ?_⟩
      apply le_levels_of_size_le
      rcases eq_child_of_parent_eq hk hpk with rfl | rfl <;> omega

theorem sink_restores (hd : Decides less key heap) (hi : i < heap.size)
    (ho : OrderedFrom (i + 1) (levels key heap)) :
    Restores i key heap (sink less i heap) := by
  obtain ⟨leaf, out, hfall, hp, hlt, hbelow, hrises⟩ :=
    fall_spec hd .here hi (Nat.le_add_right _ _) ho.falls
  have hsize : out.size = heap.size := hp.size_eq
  rw [sink, hfall]
  exact (rise_restores (hd.of_perm hp) hbelow (hsize ▸ hlt) hrises).of_perm hp

theorem settle_restores (hd : Decides less key heap) (hi : i ≤ heap.size)
    (ho : OrderedFrom i (levels key heap)) : Restores 0 key heap (settle less i heap) := by
  induction i generalizing heap with
  | zero => exact ⟨rfl, .refl _, ho⟩
  | succ i ih =>
    obtain ⟨out, hout, hp, hord⟩ := (sink_restores hd hi ho).exists_eq
    have hsize : out.size = heap.size := hp.size_eq
    rw [settle, hout]
    exact (ih (hd.of_perm hp) (by omega) hord).of_perm hp

theorem ofArray_restores (hd : Decides less key heap) :
    Restores 0 key heap (ofArray less heap) := by
  refine settle_restores hd (Nat.div_le_self _ _) fun k hk hs ↦ ?_
  apply le_levels_of_size_le
  unfold parent at hs
  omega

/-! ### The root -/

theorem key_root_le {a root : ν} (ho : OrderedFrom 0 (levels key heap))
    (hroot : heap[0]? = some root) (ha : a ∈ heap) : key root ≤ key a := by
  obtain ⟨i, hi, rfl⟩ := Array.mem_iff_getElem.mp ha
  have h := ho.zero_le i
  rw [levels_of_lt hi] at h
  simpa [levels, hroot] using h

theorem mem_of_perm_cons {a b : ν} {rest : Array ν} (hp : heap.toList.Perm (a :: rest.toList))
    (hb : b ∈ rest) : b ∈ heap :=
  Array.mem_toList_iff.mp (hp.mem_iff.mpr (List.mem_cons_of_mem a (Array.mem_toList_iff.mpr hb)))

/-- The last element takes the place of the root. -/
theorem perm_setIfInBounds_pop {root last : ν} (hroot : heap[0]? = some root)
    (hlast : heap.back? = some last) (hrest : heap.pop ≠ #[]) :
    heap.toList.Perm (root :: (heap.pop.setIfInBounds 0 last).toList) := by
  obtain ⟨xs⟩ := heap
  have hlast : xs.getLast? = some last := by simpa using hlast
  obtain ⟨ys, rfl⟩ := List.getLast?_eq_some_iff.mp hlast
  cases ys with
  | nil => exact absurd (by simp) hrest
  | cons y ys =>
    obtain rfl : y = root := by simpa using hroot
    have hset : ((y :: ys ++ [last]).toArray.pop.setIfInBounds 0 last).toList = last :: ys := by
      rw [List.pop_toArray, List.dropLast_concat]
      simp
    rw [hset]
    exact (List.perm_append_singleton last ys).cons y

theorem pop_of_nonempty (hd : Decides less key heap) (ho : OrderedFrom 0 (levels key heap))
    (hne : heap ≠ #[]) :
    ∃ root rest, pop less heap = (.ok (some root), rest) ∧
      heap.toList.Perm (root :: rest.toList) ∧ (∀ a ∈ heap, key root ≤ key a) ∧
      OrderedFrom 0 (levels key rest) := by
  have hpos : 0 < heap.size := Array.size_pos_iff.mpr hne
  obtain ⟨root, hroot⟩ : ∃ root, heap[0]? = some root := ⟨_, Array.getElem?_eq_getElem hpos⟩
  obtain ⟨last, hlast⟩ : ∃ last, heap.back? = some last :=
    ⟨_, by rw [Array.back?_eq_getElem?, Array.getElem?_eq_getElem (by omega)]⟩
  have hleast : ∀ a ∈ heap, key root ≤ key a := fun a ↦ key_root_le ho hroot
  rw [pop, hroot, hlast]
  by_cases hrest : heap.pop = #[]
  · have hone : heap.size = 1 := by
      have := congrArg Array.size hrest
      simp only [Array.size_pop, Array.size_empty] at this
      omega
    obtain ⟨a, rfl⟩ := Array.size_eq_one_iff.mp hone
    obtain rfl : a = root := by simpa using hroot
    refine ⟨a, #[], by simp, .refl _, hleast, fun k hk _ ↦ ?_⟩
    simp [levels]
  · have hperm := perm_setIfInBounds_pop hroot hlast hrest
    have hsink : Restores 0 key (heap.pop.setIfInBounds 0 last)
        (sink less 0 (heap.pop.setIfInBounds 0 last)) := by
      apply sink_restores (hd.mono fun _ ↦ mem_of_perm_cons hperm)
      · simpa using Array.size_pos_iff.mpr hrest
      · -- only the root has changed, and from here on it is nobody's parent
        intro k hk hpk
        have hlt := parent_lt hk
        by_cases hks : k < heap.size - 1
        · have kept : ∀ j, 0 < j → j < heap.size - 1 →
              levels key (heap.pop.setIfInBounds 0 last) j = levels key heap j := by
            intro j hj hjs
            apply levels_congr
            rw [Array.getElem?_setIfInBounds_ne hj.ne, Array.getElem?_pop, if_pos hjs]
          rw [kept k hk hks, kept (parent k) (by omega) (by omega)]
          exact ho k hk (Nat.zero_le _)
        · apply le_levels_of_size_le
          simpa using not_lt.mp hks
    obtain ⟨out, hout, hp, hord⟩ := hsink.exists_eq
    refine ⟨root, out, ?_, ?_, hleast, hord⟩
    · simp [hrest, hout]
    · exact hperm.trans ((Array.perm_iff_toList_perm.mp hp).symm.cons root)

end GlobalQcqp.Heap
