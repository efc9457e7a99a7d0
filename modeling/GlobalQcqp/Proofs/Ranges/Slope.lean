import GlobalQcqp.Proofs.Ranges.Inclusion
import GlobalQcqp.Proofs.Ranges.Split
/-!
# The slope and the rest of a split

What a split keeps apart are two functions of the other variables, the slope and the rest.  The
slope is affine and a box is convex, so the slope takes every value of its interval on the box, not
only the two ends.  The rest is enclosed term by term.  Both intervals shrink with the box.
-/

namespace GlobalQcqp

variable {n : ℕ}

namespace Box

theorem ofSides_sides (b : Box ℝ n) : ofSides b.sides = b := by
  apply ext_side
  intro i
  rw [side_ofSides, getElem_fin, getElem_sides]

theorem mem_mix {b : Box ℝ n} {x y : Vector ℝ n} (hx : x ∈ b) (hy : y ∈ b) {s t : ℝ} (hs : 0 ≤ s)
    (ht : 0 ≤ t) (hst : s + t = 1) : Vector.ofFn (fun j : Fin n ↦ s * x[j] + t * y[j]) ∈ b := by
  intro j
  rw [getElem_fin, Vector.getElem_ofFn]
  exact convex_Icc (b.side j).lo (b.side j).hi (hx j) (hy j) hs ht hst

end Box

namespace Quadratic

variable (q : Quadratic ℝ n) {sides : Vector (Interval ℝ) n} {i : Fin n}

/-! ## The slope -/

theorem slopeAt_mix (x y : Vector ℝ n) {s t : ℝ} (hst : s + t = 1) :
    q.slopeAt i (Vector.ofFn fun j : Fin n ↦ s * x[j] + t * y[j]) =
      s * q.slopeAt i x + t * q.slopeAt i y := by
  have hterms : ∑ j ∈ {i}ᶜ, q.hessian[i][j] * (s * x[j] + t * y[j]) =
      s * ∑ j ∈ {i}ᶜ, q.hessian[i][j] * x[j] + t * ∑ j ∈ {i}ᶜ, q.hessian[i][j] * y[j] := by
    rw [Finset.mul_sum, Finset.mul_sum, ← Finset.sum_add_distrib]
    apply Finset.sum_congr rfl
    intro j _
    ring
  simp only [slopeAt, getElem_fin, Vector.getElem_ofFn] at hterms ⊢
  rw [hterms]
  linear_combination -q.linear[i.val] * hst

theorem image_slopeAt (hsides : (Box.ofSides sides).IsProper) :
    q.slopeAt i '' {x | x ∈ Box.ofSides sides} = {t | t ∈ (q.splitAt sides i).linear} := by
  have hspans := q.splitAt_linear_spans hsides i
  apply Set.Subset.antisymm
  · intro t ht
    exact hspans.mem ht
  · intro t ht
    obtain ⟨x, hx, hlo⟩ := hspans.1.1
    obtain ⟨y, hy, hhi⟩ := hspans.2.1
    rw [Set.mem_ofPred_eq, Interval.mem_iff, ← Set.mem_Icc, ← segment_eq_Icc hspans.lo_le_hi] at ht
    obtain ⟨u, v, hu, hv, huv, rfl⟩ := ht
    refine ⟨_, Box.mem_mix hx hy hu hv huv, ?_⟩
    rw [slopeAt_mix q x y huv, hlo, hhi]
    rfl

/-! ## The split -/

/-- Neither the slope nor the rest reads the variable. -/
theorem slopeAt_termsOver_congr {x y : Vector ℝ n} (h : ∀ j : Fin n, j ≠ i → x[j] = y[j]) :
    q.slopeAt i x = q.slopeAt i y ∧ q.termsOver {i}ᶜ x = q.termsOver {i}ᶜ y := by
  have hentry {j : Fin n} (hj : j ∈ ({i}ᶜ : Finset (Fin n))) : x[j] = y[j] :=
    h j (by simpa using hj)
  constructor
  · rw [slopeAt, slopeAt, Finset.sum_congr rfl fun j hj ↦ by rw [hentry hj]]
  · have hproducts : ∑ j ∈ {i}ᶜ, ∑ k ∈ {i}ᶜ, q.hessian[j][k] * (x[j] * x[k]) =
        ∑ j ∈ {i}ᶜ, ∑ k ∈ {i}ᶜ, q.hessian[j][k] * (y[j] * y[k]) :=
      Finset.sum_congr rfl fun j hj ↦ Finset.sum_congr rfl fun k hk ↦ by
        rw [hentry hj, hentry hk]
    have hlinear : ∑ j ∈ {i}ᶜ, q.linear[j] * x[j] = ∑ j ∈ {i}ᶜ, q.linear[j] * y[j] :=
      Finset.sum_congr rfl fun j hj ↦ by rw [hentry hj]
    rw [termsOver, termsOver, hproducts, hlinear]

theorem splitAt_le {part : Vector (Interval ℝ) n} (hpart : ∀ j : Fin n, part[j].lo ≤ part[j].hi)
    (hle : ∀ j : Fin n, part[j] ≤ sides[j]) (i : Fin n) :
    (q.splitAt part i).linear ≤ (q.splitAt sides i).linear ∧
      (q.splitAt part i).rest ≤ (q.splitAt sides i).rest := by
  constructor
  · rw [splitAt_linear, splitAt_linear]
    apply add_le_add le_rfl
    apply Finset.sum_le_sum
    intro j _
    exact Interval.scale_le_scale (hpart j) (hle j) _
  · rw [splitAt_rest, splitAt_rest]
    exact add_le_add le_rfl (q.rangeOver_le hpart hle _)

/-- A quadratic is its split at a variable, with a slope and a rest that depend on the other
variables only.  On every box they lie in their intervals, the slope takes each value of its
interval, and both intervals shrink with the box. -/
theorem exists_slope_rest_of_split (q : Quadratic ℝ n) (i : Fin n) :
    ∃ slope rest : Vector ℝ n → ℝ,
      (∀ x y : Vector ℝ n, (∀ j : Fin n, j ≠ i → x[j] = y[j]) →
        slope x = slope y ∧ rest x = rest y) ∧
      ∀ box : Box ℝ n,
        (∀ x ∈ box, slope x ∈ (q.splitAt box.sides i).linear ∧
          rest x ∈ (q.splitAt box.sides i).rest ∧
          q.eval x = (q.splitAt box.sides i).square * x[i] ^ 2 + slope x * x[i] + rest x) ∧
        (box.IsProper → slope '' {x | x ∈ box} = {t | t ∈ (q.splitAt box.sides i).linear}) ∧
        ∀ part : Box ℝ n, part.IsProper → part ≤ box →
          (q.splitAt part.sides i).linear ≤ (q.splitAt box.sides i).linear ∧
            (q.splitAt part.sides i).rest ≤ (q.splitAt box.sides i).rest := by
  refine ⟨q.slopeAt i, fun x ↦ q.constant + q.termsOver {i}ᶜ x, fun x y h ↦ ?_,
    fun box ↦ ⟨fun x hx ↦ ?_, fun hbox ↦ ?_, fun part hpart hle ↦ ?_⟩⟩
  · obtain ⟨hslope, hrest⟩ := q.slopeAt_termsOver_congr h
    exact ⟨hslope, congrArg (q.constant + ·) hrest⟩
  · rw [← box.ofSides_sides] at hx
    have hsides (j : Fin n) (_ : j ≠ i) : x[j] ∈ box.sides[j] := Box.mem_ofSides_iff.mp hx j
    refine ⟨q.slopeAt_mem_linear _ hsides, q.termsOver_mem_rest _ hsides, ?_⟩
    rw [q.eval_eq_split i, splitAt_square, pow_two]
  · have himage := q.image_slopeAt (i := i) (box.ofSides_sides.symm ▸ hbox)
    rwa [box.ofSides_sides] at himage
  · apply q.splitAt_le
    · intro j
      rw [getElem_fin, Box.getElem_sides]
      exact hpart j
    · intro j
      rw [getElem_fin, getElem_fin, Box.getElem_sides, Box.getElem_sides]
      exact hle j

/-- Three variables in pairs, on a cube and on one of its corners.  The product of the other two
variables is in the rest. -/
theorem exists_slope_rest_pairs :
    let pairs : Quadratic ℝ 3 := ofMatrix #v[#v[0, 1, 2], #v[1, 0, 3], #v[2, 3, 0]] #v[0, 0, 0] 0
    let cube : Box ℝ 3 := ⟨#v[-1, -1, -1], #v[1, 1, 1]⟩
    let corner : Box ℝ 3 := ⟨#v[0, 0, 0], #v[1, 1, 1]⟩
    corner.IsProper ∧ corner ≤ cube ∧ #v[1, 1, 1] ∈ cube ∧
      (pairs.splitAt corner.sides 0).rest ≤ (pairs.splitAt cube.sides 0).rest ∧
      ∃ b ∈ (pairs.splitAt cube.sides 0).linear, ∃ r ∈ (pairs.splitAt cube.sides 0).rest,
        (6 : ℝ) = b + r := by
  intro pairs cube corner
  obtain ⟨slope, rest, -, h⟩ := pairs.exists_slope_rest_of_split 0
  obtain ⟨hvalues, -, hshrinks⟩ := h cube
  have hproper : corner.IsProper := by
    intro i
    fin_cases i <;> norm_num [corner, Box.side]
  have hle : corner ≤ cube := by
    intro i
    fin_cases i <;> norm_num [corner, cube, Box.side, Interval.le_iff]
  have hmem : (#v[1, 1, 1] : Vector ℝ 3) ∈ cube := by
    intro i
    fin_cases i <;> norm_num [cube, Box.side, Interval.mem_iff]
  obtain ⟨hslope, hrest, hvalue⟩ := hvalues _ hmem
  refine ⟨hproper, hle, hmem, (hshrinks corner hproper hle).2, _, hslope, _, hrest, ?_⟩
  have heval : pairs.eval #v[1, 1, 1] = 6 := by
    rw [eval_ofMatrix]
    norm_num [Fin.sum_univ_three]
  have hsquare : (pairs.splitAt cube.sides 0).square = 0 := by
    rw [splitAt_square, hessian_ofMatrix]
    norm_num
  rw [← heval, hvalue, hsquare]
  norm_num

end Quadratic

end GlobalQcqp
