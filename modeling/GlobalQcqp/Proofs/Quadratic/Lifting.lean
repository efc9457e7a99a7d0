import GlobalQcqp.Proofs.Ranges.Split
/-!
# Lifted and negated quadratics

A quadratic of some of the variables is lifted to all of them by the places at which it reads its
arguments.  The entries at a place and beside it are those of the quadratic, and all others are
zero, so sums over all variables become sums over the places.  The order of the places does not
matter: the interval adds up the products above the diagonal, and a product is the same on either
side of it.

Negation turns every value round, and an interval with its ends exchanged.
-/

namespace GlobalQcqp

/-- The entries at the places. -/
def selectAt {ε : Type} {m n : ℕ} (places : Vector (Fin n) m) (v : Vector ε n) : Vector ε m :=
  Vector.ofFn fun i : Fin m ↦ v[places[i]]

@[simp] theorem getElem_selectAt {ε : Type} {m n : ℕ} (places : Vector (Fin n) m) (v : Vector ε n)
    (i : Fin m) : (selectAt places v)[i] = v[places[i]] := by
  simp [selectAt]

theorem selectAt_sides {α : Type} {m n : ℕ} (places : Vector (Fin n) m) (box : Box α n) :
    selectAt places box.sides =
      (Box.mk (selectAt places box.lower) (selectAt places box.upper)).sides := by
  refine Vector.ext fun i hi ↦ ?_
  simp [selectAt, Box.sides, Box.side]

theorem position?_val {n : ℕ} (s : Fin n) : position? n (s.val : ℤ) = some s := by
  have hnonneg : ¬ (s.val : ℤ) < 0 := by omega
  simp [position?, hnonneg]

namespace Interval

/-- The interval of the negatives. -/
def mirror (a : Interval ℝ) : Interval ℝ :=
  ⟨-a.hi, -a.lo⟩

theorem mirror_add (a b : Interval ℝ) : (a + b).mirror = a.mirror + b.mirror :=
  ext (neg_add a.hi b.hi) (neg_add a.lo b.lo)

theorem mirror_finsetSum {ι : Type} (s : Finset ι) (a : ι → Interval ℝ) :
    (∑ i ∈ s, a i).mirror = ∑ i ∈ s, (a i).mirror := by
  have hzero : (0 : Interval ℝ).mirror = 0 := ext neg_zero neg_zero
  exact map_sum (⟨⟨mirror, hzero⟩, mirror_add⟩ : Interval ℝ →+ Interval ℝ) a s

theorem scale_neg (a : Interval ℝ) (k : ℝ) : a.scale (-k) = (a.scale k).mirror := by
  rcases lt_trichotomy k 0 with hk | rfl | hk
  · rw [scale, if_pos (neg_nonneg.mpr hk.le), scale, if_neg hk.not_ge]
    exact ext (neg_mul k a.lo) (neg_mul k a.hi)
  · rw [neg_zero, scale_zero]
    exact ext neg_zero.symm neg_zero.symm
  · rw [scale, if_neg (neg_neg_of_pos hk).not_ge, scale, if_pos hk.le]
    exact ext (neg_mul k a.hi) (neg_mul k a.lo)

end Interval

namespace Quadratic

/-! ## Lifting -/

section Lifting

variable {m n : ℕ} {places : Vector (Fin n) m}

/-- No place is used twice. -/
def PlacesAreDistinct (places : Vector (Fin n) m) : Prop :=
  Function.Injective fun i : Fin m ↦ places[i]

theorem last?_places (hplaces : PlacesAreDistinct places) (i : Fin m) :
    embedCoefficients.last? places places[i] = some i := by
  cases h : embedCoefficients.last? places places[i] with
  | none =>
      have hmiss := List.find?_eq_none.mp h i (List.mem_reverse.mpr (List.mem_finRange i))
      simp at hmiss
  | some j =>
      have hj : places[j] = places[i] := by simpa using List.find?_some h
      rw [hplaces hj]

theorem last?_eq_none {s : Fin n} (hs : s ∉ Set.range fun i : Fin m ↦ places[i]) :
    embedCoefficients.last? places s = none := by
  refine List.find?_eq_none.mpr fun i _ hi ↦ ?_
  exact hs ⟨i, beq_iff_eq.mp hi⟩

variable (q : Quadratic ℝ m)

theorem hessian_embed (hplaces : PlacesAreDistinct places) (i j : Fin m) :
    (q.embed places).hessian[places[i]][places[j]] = q.hessian[i][j] := by
  have hentry (i j : Fin m) :
      (q.embedCoefficients places).matrix[places[i]][places[j]] = q.hessian[i][j] := by
    simp only [embedCoefficients, getElem_fin, Vector.getElem_ofFn, Fin.eta]
    rw [← getElem_fin, ← getElem_fin, last?_places hplaces i, last?_places hplaces j]
  rw [embed, Coefficients.quadratic, hessian_ofMatrix, hentry, hentry, q.symmetric j i]
  ring

theorem hessian_embed_eq_zero {s : Fin n} (hs : s ∉ Set.range fun i : Fin m ↦ places[i])
    (t : Fin n) : (q.embed places).hessian[s][t] = 0 := by
  have hrow : (q.embedCoefficients places).matrix[s][t] = 0 := by
    simp [embedCoefficients, last?_eq_none hs]
  have hcolumn : (q.embedCoefficients places).matrix[t][s] = 0 := by
    simp [embedCoefficients, last?_eq_none hs]
  rw [embed, Coefficients.quadratic, hessian_ofMatrix, hrow, hcolumn]
  norm_num

theorem linear_embed (hplaces : PlacesAreDistinct places) (i : Fin m) :
    (q.embed places).linear[places[i]] = q.linear[i] := by
  simp only [embed, Coefficients.quadratic, ofMatrix, embedCoefficients, getElem_fin,
    Vector.getElem_ofFn, Fin.eta]
  rw [← getElem_fin, last?_places hplaces i]
  rfl

theorem linear_embed_eq_zero {s : Fin n} (hs : s ∉ Set.range fun i : Fin m ↦ places[i]) :
    (q.embed places).linear[s] = 0 := by
  simp [embed, Coefficients.quadratic, ofMatrix, embedCoefficients, last?_eq_none hs]

theorem eval_embed (hplaces : PlacesAreDistinct places) (x : Vector ℝ n) :
    (q.embed places).eval x = q.eval (selectAt places x) := by
  have hform := sum_sum_comp hplaces (fun s t ↦ (q.embed places).hessian[s][t] * (x[s] * x[t]))
    (fun s t ↦ by rw [(q.embed places).symmetric s t, mul_comm x[s]])
    fun s hs t ↦ by rw [q.hessian_embed_eq_zero hs, zero_mul]
  have hlinear : ∑ i : Fin m, q.linear[i] * x[places[i]] =
      ∑ s : Fin n, (q.embed places).linear[s] * x[s] := by
    refine Fintype.sum_of_injective _ hplaces _ _ ?_ fun i ↦ ?_
    · intro s hs
      rw [q.linear_embed_eq_zero hs, zero_mul]
    · rw [q.linear_embed hplaces]
  rw [eval_eq, hform, ← hlinear, eval_eq]
  simp only [q.hessian_embed hplaces, getElem_selectAt]
  rfl

theorem getElem_gradient_embed (hplaces : PlacesAreDistinct places) (x : Vector ℝ n)
    (i : Fin m) :
    ((q.embed places).gradient x)[places[i]] = (q.gradient (selectAt places x))[i] := by
  have hrow : ∑ j : Fin m, q.hessian[i][j] * x[places[j]] =
      ∑ t : Fin n, (q.embed places).hessian[places[i]][t] * x[t] := by
    refine Fintype.sum_of_injective _ hplaces _ _ ?_ fun j ↦ ?_
    · intro t ht
      rw [(q.embed places).symmetric places[i] t, q.hessian_embed_eq_zero ht, zero_mul]
    · rw [q.hessian_embed hplaces]
  rw [getElem_gradient_eq_sum, ← hrow, q.linear_embed hplaces, getElem_gradient_eq_sum]
  simp only [getElem_selectAt]

theorem getElem_gradient_embed_eq_zero (x : Vector ℝ n) {s : Fin n}
    (hs : s ∉ Set.range fun i : Fin m ↦ places[i]) : ((q.embed places).gradient x)[s] = 0 := by
  rw [getElem_gradient_eq_sum, q.linear_embed_eq_zero hs, add_zero]
  refine Finset.sum_eq_zero fun t _ ↦ ?_
  rw [q.hessian_embed_eq_zero hs, zero_mul]

/-- The ranges of the lifted quadratic add up to those of the quadratic, read off at one end. -/
theorem map_rangeOver_embed (hplaces : PlacesAreDistinct places) (sides : Vector (Interval ℝ) n)
    (readEnd : Interval ℝ →+ ℝ) : readEnd ((q.embed places).rangeOver sides Finset.univ) =
      readEnd (q.rangeOver (selectAt places sides) Finset.univ) := by
  have hsquares : ∑ i : Fin m, readEnd (sides[places[i]].square.scale (1 / 2 * q.hessian[i][i])) =
      ∑ s : Fin n, readEnd (sides[s].square.scale (1 / 2 * (q.embed places).hessian[s][s])) := by
    refine Fintype.sum_of_injective _ hplaces _ _ ?_ fun i ↦ ?_
    · intro s hs
      rw [q.hessian_embed_eq_zero hs, mul_zero, Interval.scale_zero, map_zero]
    · rw [q.hessian_embed hplaces]
  have hlinear : ∑ i : Fin m, readEnd (sides[places[i]].scale q.linear[i]) =
      ∑ s : Fin n, readEnd (sides[s].scale (q.embed places).linear[s]) := by
    refine Fintype.sum_of_injective _ hplaces _ _ ?_ fun i ↦ ?_
    · intro s hs
      rw [q.linear_embed_eq_zero hs, Interval.scale_zero, map_zero]
    · rw [q.linear_embed hplaces]
  have hproducts := sum_above_diagonal_comp hplaces
    (fun s t ↦ readEnd ((sides[s].mul sides[t]).scale (q.embed places).hessian[s][t]))
    (fun s t ↦ by rw [(q.embed places).symmetric s t, sides[s].mul_swap])
    fun s hs t ↦ by rw [q.hessian_embed_eq_zero hs, Interval.scale_zero, map_zero]
  simp only [rangeOver, rowRange, map_sum, map_add, Finset.sum_add_distrib]
  rw [hproducts, ← hsquares, ← hlinear]
  simp only [q.hessian_embed hplaces, getElem_selectAt]

theorem interval_embed (hplaces : PlacesAreDistinct places) (sides : Vector (Interval ℝ) n) :
    (q.embed places).interval sides = q.interval (selectAt places sides) := by
  have hlo := q.map_rangeOver_embed hplaces sides (AddMonoidHom.mk' Interval.lo fun _ _ ↦ rfl)
  have hhi := q.map_rangeOver_embed hplaces sides (AddMonoidHom.mk' Interval.hi fun _ _ ↦ rfl)
  rw [interval_eq, interval_eq]
  exact congrArg (Interval.singleton q.constant + ·) (Interval.ext hlo hhi)

/-- Lifting is not refused as long as there is room for the matrix. -/
theorem embed?_eq_ok (places : Vector (Fin n) m) (hroom : n ≤ maxSize) :
    q.embed? (.ofVector (places.map fun s ↦ (s.val : ℤ))) (.ok n) = .ok ⟨n, q.embed places⟩ := by
  have hvector : (Tensor.ofVector (places.map fun s ↦ (s.val : ℤ))).toVector? m =
      some (places.map fun s ↦ (s.val : ℤ)) :=
    dif_pos ⟨rfl, Vector.size_toArray _⟩
  have hplaces : (places.map fun s ↦ (s.val : ℤ)).mapM (position? n) = some places := by
    rw [Vector.mapM_map]
    simp only [Function.comp_def, position?_val]
    exact (Vector.mapM_pure id).trans (congrArg some (Vector.map_id places))
  have hsize : ¬ ((n : ℤ) < 0 ∨ (maxSize : ℤ) < n ∨ False) := by
    simp only [or_false, not_or, not_lt]
    exact ⟨Int.natCast_nonneg n, Int.ofNat_le.mpr hroom⟩
  unfold embed?
  rw [hvector]
  simp only [Tensor.ofVector, ne_eq, not_true_eq_false, if_false, Except.mapError, bind,
    Except.bind, Int.toNat_natCast, Option.bind_some, hplaces, Coefficients.quadratic?_eq_ok]
  rw [if_neg hsize]
  rfl

end Lifting

/-! ## Negation -/

section Negation

variable {n : ℕ} (q : Quadratic ℝ n)

theorem hessian_neg (i j : Fin n) : q.neg.hessian[i][j] = -q.hessian[i][j] := by
  have hentry (i j : Fin n) : q.negCoefficients.matrix[i][j] = -q.hessian[i][j] := by
    simp [negCoefficients]
  rw [neg, Coefficients.quadratic, hessian_ofMatrix, hentry, hentry, q.symmetric j i]
  ring

theorem linear_neg (i : Fin n) : q.neg.linear[i] = -q.linear[i] := by
  simp [neg, Coefficients.quadratic, ofMatrix, negCoefficients]

theorem getElem_gradient_neg (x : Vector ℝ n) (i : Fin n) :
    (q.neg.gradient x)[i] = -(q.gradient x)[i] := by
  rw [getElem_gradient_eq_sum, getElem_gradient_eq_sum]
  simp only [hessian_neg, linear_neg, neg_mul, Finset.sum_neg_distrib]
  ring

theorem interval_neg (sides : Vector (Interval ℝ) n) :
    q.neg.interval sides = (q.interval sides).mirror := by
  have hconstant : Interval.singleton q.neg.constant = (Interval.singleton q.constant).mirror :=
    rfl
  rw [interval_eq, interval_eq, Interval.mirror_add, hconstant]
  simp only [rangeOver, rowRange, hessian_neg, linear_neg, mul_neg, Interval.scale_neg,
    Interval.mirror_finsetSum, Interval.mirror_add]

end Negation

/-! ## The derivative -/

/-- A quadratic is its second-order expansion at every point. -/
theorem eval_add {n : ℕ} (q : Quadratic ℝ n) (x d : Vector ℝ n) :
    q.eval (x + d) = q.eval x + dot (q.gradient x) d + 1 / 2 * dot d (mulVec q.hessian d) := by
  have hsymm : ∑ i : Fin n, ∑ j : Fin n, q.hessian[i][j] * (d[i] * x[j]) =
      ∑ i : Fin n, ∑ j : Fin n, q.hessian[i][j] * (x[i] * d[j]) := by
    rw [Finset.sum_comm]
    refine Finset.sum_congr rfl fun i _ ↦ Finset.sum_congr rfl fun j _ ↦ ?_
    rw [q.symmetric j i, mul_comm d[j]]
  have hslope : dot (q.gradient x) d =
      ∑ i : Fin n, ∑ j : Fin n, q.hessian[i][j] * (d[i] * x[j]) +
        ∑ i : Fin n, q.linear[i] * d[i] := by
    rw [dot_eq_sum, ← Finset.sum_add_distrib]
    refine Finset.sum_congr rfl fun i _ ↦ ?_
    rw [getElem_gradient_eq_sum, add_mul, Finset.sum_mul]
    congr 1
    refine Finset.sum_congr rfl fun j _ ↦ ?_
    ring
  have hsum (i : Fin n) : (x + d)[i] = x[i] + d[i] := Vector.getElem_add x d i i.isLt
  rw [eval_eq, eval_eq, hslope, dot_mulVec_eq_sum]
  simp only [hsum, mul_add, add_mul, Finset.sum_add_distrib]
  rw [hsymm]
  ring

/-- Whatever the matrix, a quadratic lifted to more variables has its values, its gradient at the
places and nothing elsewhere, and its interval over the sides at the places, in whatever order they
come.  Negation turns values, gradient and interval round.  The gradient is the derivative, and the
matrix counts by its symmetric part. -/
theorem lifted_negated_expanded {m : ℕ} (M : SquareMatrix ℝ m) (v : Vector ℝ m) (k : ℝ) :
    let f := ofMatrix M v k
    (∀ (n : ℕ) (places : Vector (Fin n) m), PlacesAreDistinct places →
      (n ≤ maxSize → f.embed? (.ofVector (places.map fun s ↦ (s.val : ℤ))) (.ok n) =
        .ok ⟨n, f.embed places⟩) ∧
      (∀ x : Vector ℝ n, (f.embed places).eval x = f.eval (selectAt places x) ∧
        (∀ i : Fin m,
          ((f.embed places).gradient x)[places[i]] = (f.gradient (selectAt places x))[i]) ∧
        ∀ s : Fin n, (∀ i : Fin m, places[i] ≠ s) → ((f.embed places).gradient x)[s] = 0) ∧
      ∀ box : Box ℝ n, (f.embed places).interval box.sides =
        f.interval (Box.mk (selectAt places box.lower) (selectAt places box.upper)).sides) ∧
    (f.neg? = .ok f.neg ∧
      (∀ x, f.neg.eval x = -f.eval x ∧ ∀ i : Fin m, (f.neg.gradient x)[i] = -(f.gradient x)[i]) ∧
      ∀ box : Box ℝ m, f.neg.interval box.sides =
        ⟨-(f.interval box.sides).hi, -(f.interval box.sides).lo⟩) ∧
    (∀ i j : Fin m, f.hessian[i][j] = 1 / 2 * (M[i][j] + M[j][i])) ∧
    ∀ x d : Vector ℝ m, f.eval x = 1 / 2 * ∑ i : Fin m, ∑ j : Fin m, M[i][j] * (x[i] * x[j]) +
        ∑ i : Fin m, v[i] * x[i] + k ∧
      f.eval (x + d) = f.eval x + dot (f.gradient x) d + 1 / 2 * dot d (mulVec f.hessian d) := by
  intro f
  refine ⟨fun n places hplaces ↦ ⟨f.embed?_eq_ok places, fun x ↦ ⟨?_, ?_, ?_⟩, fun box ↦ ?_⟩,
    ⟨f.neg?_eq_ok, fun x ↦ ⟨f.eval_neg x, f.getElem_gradient_neg x⟩, fun box ↦ ?_⟩,
    hessian_ofMatrix M v k, fun x d ↦ ⟨eval_ofMatrix M v k x, f.eval_add x d⟩⟩
  · exact f.eval_embed hplaces x
  · exact f.getElem_gradient_embed hplaces x
  · intro s hs
    refine f.getElem_gradient_embed_eq_zero x ?_
    rintro ⟨i, hi⟩
    exact hs i hi
  · rw [f.interval_embed hplaces, selectAt_sides]
  · exact f.interval_neg box.sides

/-- A product of two variables, given by a matrix that is not symmetric, lifted to three variables
at places that do not rise. -/
theorem lifted_product :
    let product : Quadratic ℝ 2 := ofMatrix #v[#v[0, 2], #v[0, 0]] #v[0, 0] 0
    let places : Vector (Fin 3) 2 := #v[2, 0]
    let box : Box ℝ 3 := ⟨#v[2, 0, -1], #v[3, 1, 1]⟩
    PlacesAreDistinct places ∧ (product.embed places).eval #v[5, 7, 3] = 15 ∧
      ((product.embed places).gradient #v[5, 7, 3])[(1 : Fin 3)] = 0 ∧
      (product.embed places).interval box.sides =
        product.interval (Box.mk #v[-1, 2] #v[1, 3]).sides := by
  intro product places box
  have hplaces : PlacesAreDistinct places := by
    unfold PlacesAreDistinct Function.Injective
    decide
  obtain ⟨hlifted, -, -, hvalues⟩ := lifted_negated_expanded #v[#v[0, 2], #v[0, 0]] #v[0, 0] (0 : ℝ)
  obtain ⟨-, hpoints, hinterval⟩ := hlifted 3 places hplaces
  obtain ⟨heval, -, hnone⟩ := hpoints #v[5, 7, 3]
  have hselect {ε : Type} (v : Vector ε 3) : selectAt places v = #v[v[2], v[0]] := rfl
  refine ⟨hplaces, ?_, hnone 1 (by decide), ?_⟩
  · rw [heval, hselect, (hvalues _ 0).1]
    norm_num [Fin.sum_univ_two]
  · rw [hinterval box, hselect, hselect]
    rfl

end Quadratic

end GlobalQcqp
