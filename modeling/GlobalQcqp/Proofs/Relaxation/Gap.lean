import GlobalQcqp.Proofs.Relaxation
import GlobalQcqp.Proofs.Relaxation.Ends
/-!
# The gap of a relaxation

A lowered quadratic lies below the quadratic, and a raised one above it, by the shift times the
spread of the box at a point.  That is the sum above the sides of the product of the distances to
their two ends.  In the box it is between zero and a quarter of the sum of the squared widths, it is
zero at the vertices, and it shrinks with the box.  So a relaxation is exact at the vertices of its
box and improves on every part of it.
-/

namespace GlobalQcqp

variable {n : Nat}

namespace Box

variable {b c : Box ℝ n} {x : Vector ℝ n}

noncomputable def spread (b : Box ℝ n) (x : Vector ℝ n) : ℝ :=
  ∑ i : Fin n, (x[i] - b.lower[i]) * (b.upper[i] - x[i])

/-- Every coordinate of the point is an end of its side. -/
def IsVertex (b : Box ℝ n) (x : Vector ℝ n) : Prop :=
  ∀ i : Fin n, x[i] = b.lower[i] ∨ x[i] = b.upper[i]

theorem spread_nonneg (hx : x ∈ b) : 0 ≤ b.spread x := by
  refine Finset.sum_nonneg fun i _ ↦ ?_
  exact mul_nonneg (sub_nonneg.mpr (hx i).1) (sub_nonneg.mpr (hx i).2)

/-- The product of the distances to the ends is largest in the middle of a side. -/
theorem spread_le (b : Box ℝ n) (x : Vector ℝ n) :
    b.spread x ≤ 1 / 4 * ∑ i : Fin n, (b.upper[i] - b.lower[i]) ^ 2 := by
  rw [Finset.mul_sum]
  refine Finset.sum_le_sum fun i _ ↦ ?_
  have hmiddle := sq_nonneg (b.lower[i] + b.upper[i] - 2 * x[i])
  linarith

theorem spread_eq_zero_of_isVertex (hx : b.IsVertex x) : b.spread x = 0 := by
  refine Finset.sum_eq_zero fun i _ ↦ ?_
  rcases hx i with hi | hi
  · rw [hi, sub_self, zero_mul]
  · rw [hi, sub_self, mul_zero]

/-- On a part of a box both distances are smaller. -/
theorem spread_mono (hbc : b ≤ c) (hx : x ∈ b) : b.spread x ≤ c.spread x := by
  refine Finset.sum_le_sum fun i _ ↦ ?_
  have hlower : c.lower[i] ≤ b.lower[i] := (hbc i).1
  have hupper : b.upper[i] ≤ c.upper[i] := (hbc i).2
  exact mul_le_mul (sub_le_sub_left hlower _) (sub_le_sub_right hupper _)
    (sub_nonneg.mpr (hx i).2) (sub_nonneg.mpr (mem_of_le hbc hx i).1)

end Box

namespace Quadratic

variable (q : Quadratic ℝ n) (box : Box ℝ n) (shift : ℝ) (x : Vector ℝ n)

theorem eval_lowered_eq_sub :
    (q.lowered box shift).eval x = q.eval x - shift * box.spread x := by
  have hsign : ∑ i : Fin n, (box.lower[i] - x[i]) * (box.upper[i] - x[i]) = -box.spread x := by
    rw [Box.spread, ← Finset.sum_neg_distrib]
    exact Finset.sum_congr rfl fun i _ ↦ by ring
  rw [eval_lowered, hsign]
  ring

theorem eval_raised_eq_add :
    (q.raised box shift).eval x = q.eval x + shift * box.spread x := by
  rw [raised, eval_neg, eval_lowered_eq_sub, eval_neg]
  ring

/-- A shift gives a quadratic below and one above that leave a gap of at most the shift times a
quarter of the sum of the squared widths, leave none at the vertices, and on every part of the box
are no better than the ones made for the part. -/
theorem exists_lowered_raised_gap {shift : ℝ} (hshift : 0 ≤ shift) :
    ∃ under above, q.loweredBetween? box.ends shift = .ok under ∧
      q.raisedBetween? box.ends shift = .ok above ∧
      (∀ x ∈ box,
        (0 ≤ q.eval x - under.eval x ∧ q.eval x - under.eval x ≤
          shift / 4 * ∑ i : Fin n, (box.upper[i] - box.lower[i]) ^ 2) ∧
        (0 ≤ above.eval x - q.eval x ∧ above.eval x - q.eval x ≤
          shift / 4 * ∑ i : Fin n, (box.upper[i] - box.lower[i]) ^ 2)) ∧
      (∀ x, box.IsVertex x → under.eval x = q.eval x ∧ above.eval x = q.eval x) ∧
      ∀ part ≤ box, ∃ under' above', q.loweredBetween? part.ends shift = .ok under' ∧
        q.raisedBetween? part.ends shift = .ok above' ∧
        ∀ x ∈ part, under.eval x ≤ under'.eval x ∧ above'.eval x ≤ above.eval x := by
  refine ⟨_, _, q.loweredBetween?_ends_eq_ok box shift, q.raisedBetween?_ends_eq_ok box shift,
    ?_, ?_, ?_⟩
  · intro x hx
    have hnonneg : 0 ≤ shift * box.spread x := mul_nonneg hshift (Box.spread_nonneg hx)
    have hle := mul_le_mul_of_nonneg_left (box.spread_le x) hshift
    rw [eval_lowered_eq_sub, eval_raised_eq_add]
    constructor <;> constructor <;> linarith
  · intro x hx
    rw [eval_lowered_eq_sub, eval_raised_eq_add, Box.spread_eq_zero_of_isVertex hx, mul_zero,
      sub_zero, add_zero]
    exact ⟨rfl, rfl⟩
  · intro part hpart
    refine ⟨_, _, q.loweredBetween?_ends_eq_ok part shift, q.raisedBetween?_ends_eq_ok part shift,
      fun x hx ↦ ?_⟩
    have hle := mul_le_mul_of_nonneg_left (Box.spread_mono hpart hx) hshift
    rw [eval_lowered_eq_sub, eval_raised_eq_add, eval_lowered_eq_sub, eval_raised_eq_add]
    exact ⟨sub_le_sub_left hle _, by linarith⟩

/-- On the square the product of two coordinates is lowered by at most one, and not at all in a
corner. -/
theorem exists_lowered_product_gap :
    let product : Quadratic ℝ 2 := ofMatrix #v[#v[0, 1], #v[1, 0]] #v[0, 0] 0
    let square : Box ℝ 2 := ⟨#v[-1, -1], #v[1, 1]⟩
    0 ≤ (1 / 2 : ℝ) ∧ ∃ under, product.loweredBetween? square.ends (1 / 2) = .ok under ∧
      (∀ x ∈ square, product.eval x - under.eval x ≤ 1) ∧ under.eval #v[1, -1] = -1 := by
  intro product square
  have hhalf : 0 ≤ (1 / 2 : ℝ) := by norm_num
  obtain ⟨under, _, hunder, _, hgap, hvertex, _⟩ :=
    exists_lowered_raised_gap product square hhalf
  have hwidths : ∑ i : Fin 2, (square.upper[i] - square.lower[i]) ^ 2 = 8 := by
    simp [square]
    norm_num
  have hcorner : square.IsVertex #v[1, -1] := by
    simp [Box.IsVertex, square, Fin.forall_fin_two]
  have hvalue : product.eval #v[1, -1] = -1 := by
    simp [product, eval_ofMatrix]
    norm_num
  refine ⟨hhalf, under, hunder, fun x hx ↦ ?_, (hvertex _ hcorner).1.trans hvalue⟩
  have hle := (hgap x hx).1.2
  rw [hwidths] at hle
  linarith

end Quadratic

end GlobalQcqp
