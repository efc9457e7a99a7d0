import GlobalQcqp.Proofs.Exact
import GlobalQcqp.Linear
/-!
# Sums and symmetric forms

Over the real numbers the ordered sums of the library are finite sums.  A symmetric double sum is
the sum of its diagonal and of twice the part above it, which is how the ranges of a quadratic are
added up.  The part above the diagonal divides into the entries at one index and the rest, and does
not depend on the order in which the indices are met.
-/

namespace GlobalQcqp

variable {n : Nat}

theorem total_eq_sum (f : Fin n → ℝ) : total f = ∑ i, f i := by
  have accumulates (l : List (Fin n)) (a : ℝ) :
      l.foldl (fun acc i ↦ acc + f i) a = a + (l.map f).sum := by
    induction l generalizing a with
    | nil => simp
    | cons i l ih => rw [List.foldl_cons, ih, List.map_cons, List.sum_cons, add_assoc]
  rw [total, accumulates, Fin.sum_univ_def]
  exact zero_add _

theorem dot_eq_sum (x y : Vector ℝ n) : dot x y = ∑ i : Fin n, x[i] * y[i] :=
  total_eq_sum _

theorem dot_mulVec_eq_sum (M : SquareMatrix ℝ n) (x : Vector ℝ n) :
    dot x (mulVec M x) = ∑ i : Fin n, ∑ j : Fin n, M[i][j] * (x[i] * x[j]) := by
  rw [dot_eq_sum]
  refine Finset.sum_congr rfl fun i _ ↦ ?_
  have hrow : (mulVec M x)[i] = ∑ j : Fin n, M[i][j] * x[j] := by
    rw [← dot_eq_sum]
    simp [mulVec]
  rw [hrow, Finset.mul_sum]
  refine Finset.sum_congr rfl fun j _ ↦ ?_
  ring

theorem sum_map_filter_finRange {M : Type} [AddCommMonoid M] (p : Fin n → Bool) (f : Fin n → M) :
    (((List.finRange n).filter p).map f).sum = ∑ i with p i = true, f i := by
  rw [← List.sum_toFinset f ((List.nodup_finRange n).filter p), List.toFinset_filter,
    List.toFinset_finRange]

theorem sum_flatMap {ι M : Type} [AddCommMonoid M] (f : ι → List M) (l : List ι) :
    (l.flatMap f).sum = (l.map fun i ↦ (f i).sum).sum := by
  rw [List.flatMap_def, List.sum_flatten, List.map_map]
  rfl

/-- The sum of a symmetric array over a set of indices, by its diagonal and the part above it. -/
theorem sum_sum_eq_diagonal_add (s : Finset (Fin n)) (M : Fin n → Fin n → ℝ)
    (hM : ∀ i j, M i j = M j i) :
    ∑ i ∈ s, ∑ j ∈ s, M i j = ∑ i ∈ s, (M i i + 2 * ∑ j ∈ s with i < j, M i j) := by
  have split (i : Fin n) (hi : i ∈ s) :
      ∑ j ∈ s, M i j = M i i + ∑ j ∈ s with i < j, M i j + ∑ j ∈ s with j < i, M i j := by
    have hterm (j : Fin n) : M i j = (if j = i then M i j else 0) + (if i < j then M i j else 0) +
        (if j < i then M i j else 0) := by
      rcases lt_trichotomy i j with h | rfl | h
      · simp [h, h.ne', h.not_gt]
      · simp
      · simp [h, h.ne, h.not_gt]
    rw [Finset.sum_congr rfl fun j _ ↦ hterm j, Finset.sum_add_distrib, Finset.sum_add_distrib,
      Finset.sum_ite_eq' s i, if_pos hi, Finset.sum_filter, Finset.sum_filter]
  -- The part below the diagonal is summed again as the part above it.
  have mirror : ∑ i ∈ s, ∑ j ∈ s with j < i, M i j = ∑ i ∈ s, ∑ j ∈ s with i < j, M i j := by
    simp only [Finset.sum_filter]
    rw [Finset.sum_comm]
    exact Finset.sum_congr rfl fun i _ ↦ Finset.sum_congr rfl fun j _ ↦ by rw [hM]
  rw [Finset.sum_congr rfl split, Finset.sum_add_distrib, Finset.sum_add_distrib, mirror,
    Finset.sum_add_distrib, ← Finset.mul_sum]
  ring

/-- The part of a symmetric array above its diagonal, by the entries at one index and the part
without that index. -/
theorem sum_above_diagonal_eq {M : Type} [AddCommMonoid M] (P : Fin n → Fin n → M)
    (hP : ∀ j k, P j k = P k j) (i : Fin n) : ∑ j, ∑ k with j < k, P j k =
      ∑ j ∈ {i}ᶜ, P i j + ∑ j ∈ {i}ᶜ, ∑ k ∈ {i}ᶜ with j < k, P j k := by
  have hrow (j : Fin n) : ∑ k with j < k, P j k =
      (if j < i then P i j else 0) + ∑ k ∈ {i}ᶜ with j < k, P j k := by
    rw [Finset.sum_filter, Fintype.sum_eq_add_sum_compl i, Finset.sum_filter, hP j i]
  -- The entries at `i` are met in their own row to the right of `i`, and in the rows above it.
  have hentry (j : Fin n) (hj : j ∈ ({i}ᶜ : Finset (Fin n))) :
      P i j = (if i < j then P i j else 0) + if j < i then P i j else 0 := by
    have hne : j ≠ i := by simpa using hj
    rcases hne.lt_or_gt with h | h
    · rw [if_neg h.not_gt, if_pos h, zero_add]
    · rw [if_pos h, if_neg h.not_gt, add_zero]
  have hright : ∑ k ∈ {i}ᶜ with i < k, P i k = ∑ j ∈ {i}ᶜ, if i < j then P i j else 0 :=
    Finset.sum_filter _ _
  rw [Fintype.sum_eq_add_sum_compl i, hrow i, if_neg (lt_irrefl i), zero_add, hright,
    Finset.sum_congr rfl fun j _ ↦ hrow j, Finset.sum_add_distrib,
    Finset.sum_congr rfl hentry, Finset.sum_add_distrib, add_assoc]

/-! ## Sums along an injection -/

section Injection

variable {m : ℕ} {f : Fin m → Fin n}

theorem sum_sum_comp (hf : Function.Injective f) (M : Fin n → Fin n → ℝ)
    (hM : ∀ s t, M s t = M t s) (hzero : ∀ s ∉ Set.range f, ∀ t, M s t = 0) :
    ∑ s, ∑ t, M s t = ∑ i, ∑ j, M (f i) (f j) := by
  have hrow (i : Fin m) : ∑ t, M (f i) t = ∑ j, M (f i) (f j) := by
    refine (Fintype.sum_of_injective f hf _ _ ?_ fun _ ↦ rfl).symm
    intro t ht
    rw [hM, hzero t ht]
  rw [← Finset.sum_congr rfl fun i _ ↦ hrow i]
  refine (Fintype.sum_of_injective f hf _ _ ?_ fun _ ↦ rfl).symm
  intro s hs
  exact Finset.sum_eq_zero fun t _ ↦ hzero s hs t

/-- The part of a symmetric array above its diagonal, when only the rows along an injection count.
The injection need not keep the order, so that an entry may come from below the diagonal. -/
theorem sum_above_diagonal_comp (hf : Function.Injective f) (M : Fin n → Fin n → ℝ)
    (hM : ∀ s t, M s t = M t s) (hzero : ∀ s ∉ Set.range f, ∀ t, M s t = 0) :
    ∑ s, ∑ t with s < t, M s t = ∑ i, ∑ j with i < j, M (f i) (f j) := by
  have hdiagonal : ∑ i, M (f i) (f i) = ∑ s, M s s :=
    Fintype.sum_of_injective f hf _ _ (fun s hs ↦ hzero s hs s) fun _ ↦ rfl
  have hwhole := sum_sum_eq_diagonal_add Finset.univ M hM
  have hpart := sum_sum_eq_diagonal_add Finset.univ (fun i j ↦ M (f i) (f j)) fun i j ↦ hM _ _
  rw [sum_sum_comp hf M hM hzero] at hwhole
  simp only [Finset.sum_add_distrib, ← Finset.mul_sum] at hwhole hpart
  linarith

end Injection

end GlobalQcqp
