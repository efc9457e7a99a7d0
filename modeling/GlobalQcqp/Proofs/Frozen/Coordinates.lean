import GlobalQcqp.Proofs.Frozen
import GlobalQcqp.Proofs.Program.Ranged
import GlobalQcqp.Proofs.Quadratic.Lifting
/-!
# Free coordinates of the slice

Filling in the frozen coordinates and reading off the free ones are inverse to each other between
the free sides and the slice.  A change of the free coordinates is a change of the whole point that
leaves the frozen ones alone.  So a quadratic of the free coordinates has the entries of the
gradient, and of the matrix in its second-order term, that belong to free coordinates.
-/

namespace GlobalQcqp.FrozenBox

variable {n : ℕ}

/-! ## Filling in and reading off -/

section

variable {α : Type} {b : FrozenBox α n}

/-- No coordinate is listed as free twice. -/
def IsDistinct (b : FrozenBox α n) : Prop :=
  Function.Injective fun k : Fin b.count ↦ b.free[k]

theorem freeAt?_free (hb : b.IsDistinct) (k : Fin b.count) : b.freeAt? b.free[k] = some k := by
  cases h : b.freeAt? b.free[k] with
  | none => exact absurd (Array.getElem_mem k.isLt) (freeAt?_eq_none_iff.mp h)
  | some l => rw [hb (free_of_freeAt? h)]

variable [Scalar α]

theorem isDistinct_ofBox (tol : α) (box : Box α n) : (ofBox tol box).IsDistinct := by
  have hnodup : (ofBox tol box).free.toList.Nodup := (List.nodup_finRange n).filter _
  intro k l hkl
  exact Fin.ext ((hnodup.getElem_inj_iff).mp hkl)

theorem getElem_full_free (hb : b.IsDistinct) (z : Vector α b.count) (k : Fin b.count) :
    (b.full z)[b.free[k]] = z[k] := by
  rw [getElem_full, freeAt?_free hb, Option.elim_some]

theorem gather_full (hb : b.IsDistinct) (z : Vector α b.count) : b.gather (b.full z) = z := by
  refine Vector.ext fun k hk ↦ ?_
  have hentry := getElem_gather (b.full z) ⟨k, hk⟩
  rwa [getElem_full_free hb] at hentry

omit [Scalar α] in
theorem gather_set {ε : Type} (hb : b.IsDistinct) (x : Vector ε n) (k : Fin b.count) (a : ε) :
    b.gather (x.set b.free[k] a) = (b.gather x).set k a := by
  refine Vector.ext fun l hl ↦ ?_
  have hplace : b.free[k].val = b.free[(⟨l, hl⟩ : Fin b.count)].val ↔ k.val = l := by
    rw [← Fin.ext_iff, hb.eq_iff, Fin.ext_iff]
  simp only [gather, getElem_fin, Vector.getElem_ofFn, Vector.getElem_set, hplace]

/-- Setting a free coordinate sets the whole point at its place. -/
theorem full_set (hb : b.IsDistinct) (z : Vector α b.count) (k : Fin b.count) (a : α) :
    b.full (z.set k a) = (b.full z).set b.free[k] a := by
  have hfrozen (i : Fin n) (hi : i ∉ b.free) : ((b.full z).set b.free[k] a)[i] = b.base[i] := by
    have hne : b.free[k] ≠ i := fun h ↦ hi (h ▸ Array.getElem_mem k.isLt)
    rw [getElem_fin, Vector.getElem_set_ne _ _ (Fin.val_ne_of_ne hne), ← getElem_fin,
      getElem_full_of_notMem z hi]
  rw [← full_gather hfrozen, gather_set hb, gather_full hb]

/-- Any point goes to the nearest point of the box, but for its frozen coordinates. -/
theorem getElem_full_reduce (x : Vector α n) (i : Fin n) :
    (b.full (b.reduce x))[i] = if i ∈ b.free then (b.box.clamp x)[i] else b.base[i] := by
  rw [getElem_full]
  cases hfree : b.freeAt? i with
  | none => rw [if_neg (freeAt?_eq_none_iff.mp hfree), Option.elim_none]
  | some k =>
      have hmem : i ∈ b.free := free_of_freeAt? hfree ▸ Array.getElem_mem k.isLt
      rw [if_pos hmem, Option.elim_some, reduce, getElem_gather, free_of_freeAt? hfree]

end

/-! ## Coordinates of the slice -/

variable {b : FrozenBox ℝ n} {z : Vector ℝ b.count} {x : Vector ℝ n}

/-- The points of the free sides. -/
def freeBox (b : FrozenBox ℝ n) : Set (Vector ℝ b.count) :=
  {z | ∀ k : Fin b.count, z[k] ∈ b.sides[k]}

theorem reduce_full (hb : b.IsDistinct) (hbox : b.box.IsProper) (hz : z ∈ b.freeBox) :
    b.reduce (b.full z) = z := by
  rw [reduce, Box.clamp_of_mem (full_mem_slice hbox hz).1, gather_full hb]

theorem full_reduce (hx : x ∈ b.slice) : b.full (b.reduce x) = x := by
  rw [reduce, Box.clamp_of_mem hx.1, full_gather hx.2]

theorem invOn_reduce_full (hb : b.IsDistinct) (hbox : b.box.IsProper) :
    Set.InvOn b.reduce b.full b.freeBox b.slice :=
  ⟨fun _ ↦ reduce_full hb hbox, fun _ ↦ full_reduce⟩

theorem bijOn_full (hb : b.IsDistinct) (hbox : b.box.IsProper) :
    Set.BijOn b.full b.freeBox b.slice := by
  refine (invOn_reduce_full hb hbox).bijOn (fun z hz ↦ full_mem_slice hbox hz) fun x hx ↦ ?_
  exact gather_mem (Box.clamp_mem hbox x)

theorem mem_slice_ofBox {tol : ℝ} {box : Box ℝ n} : x ∈ (ofBox tol box).slice ↔
    x ∈ box ∧ ∀ i : Fin n, box.upper[i] - box.lower[i] ≤ tol → x[i] = box.midpoint[i] := by
  simp only [slice, Set.mem_ofPred_eq, mem_free_ofBox, not_lt]
  rfl

/-! ## Steps of the free coordinates -/

/-- A step of the whole point that leaves the frozen coordinates alone. -/
def spread (b : FrozenBox ℝ n) (d : Vector ℝ b.count) : Vector ℝ n :=
  Vector.ofFn fun i ↦ (b.freeAt? i).elim 0 fun k ↦ d[k]

variable (d : Vector ℝ b.count)

theorem getElem_spread (i : Fin n) : (b.spread d)[i] = (b.freeAt? i).elim 0 fun k ↦ d[k] := by
  simp [spread]

theorem full_add (z : Vector ℝ b.count) : b.full (z + d) = b.full z + b.spread d := by
  refine Vector.ext fun i hi ↦ ?_
  simp only [full, spread, Vector.getElem_add, Vector.getElem_ofFn]
  cases b.freeAt? ⟨i, hi⟩ with
  | none => exact (add_zero _).symm
  | some k => exact Vector.getElem_add z d k k.isLt

theorem getElem_spread_eq_zero {i : Fin n} (hi : i ∉ Set.range fun k : Fin b.count ↦ b.free[k]) :
    (b.spread d)[i] = 0 := by
  rw [getElem_spread, freeAt?_eq_none_iff.mpr, Option.elim_none]
  intro hmem
  obtain ⟨k, hk, rfl⟩ := Array.mem_iff_getElem.mp hmem
  exact hi ⟨⟨k, hk⟩, rfl⟩

variable (hb : b.IsDistinct)
include hb

theorem getElem_spread_free (k : Fin b.count) : (b.spread d)[b.free[k]] = d[k] := by
  rw [getElem_spread, freeAt?_free hb, Option.elim_some]

theorem dot_spread (v : Vector ℝ n) : dot v (b.spread d) = dot (b.gather v) d := by
  rw [dot_eq_sum, dot_eq_sum]
  refine (Fintype.sum_of_injective _ hb _ _ (fun i hi ↦ ?_) fun k ↦ ?_).symm
  · rw [getElem_spread_eq_zero d hi, mul_zero]
  · rw [getElem_gather, getElem_spread_free d hb]

theorem dot_mulVec_spread (q : Quadratic ℝ n) :
    dot (b.spread d) (mulVec q.hessian (b.spread d)) = ∑ k : Fin b.count, ∑ l : Fin b.count,
      q.hessian[b.free[k]][b.free[l]] * (d[k] * d[l]) := by
  rw [dot_mulVec_eq_sum, sum_sum_comp hb _ (fun s t ↦ ?_) fun s hs t ↦ ?_]
  · simp only [getElem_spread_free d hb]
  · rw [q.symmetric s t, mul_comm (b.spread d)[s]]
  · rw [getElem_spread_eq_zero d hs, zero_mul, mul_zero]

/-! ## Functions of the free coordinates -/

variable (q : Quadratic ℝ n) (sign : ℝ) (z)

theorem value_function_add : (b.function q sign).value (z + d) =
    (b.function q sign).value z + dot ((b.function q sign).gradient z) d +
      sign / 2 * ∑ k : Fin b.count, ∑ l : Fin b.count,
        q.hessian[b.free[k]][b.free[l]] * (d[k] * d[l]) := by
  have hslope : dot ((b.function q sign).gradient z) d =
      sign * dot (b.gather (q.gradient (b.full z))) d := by
    simp only [dot_eq_sum, getElem_gradient_function, getElem_gather, Finset.mul_sum, mul_assoc]
  rw [value_function, value_function, hslope, full_add, q.eval_add, dot_spread d hb,
    dot_mulVec_spread d hb]
  ring

theorem function_isExactAt : (b.function q sign).IsExactAt z := by
  intro k
  -- Moving one free coordinate moves one variable of the quadratic.
  have hentry := (q.smooth_isExactAt (b.full z) b.free[k]).const_mul sign
  rw [getElem_full_free hb] at hentry
  simpa only [value_function, getElem_gradient_function, full_set hb, q.value_smooth,
    q.gradient_smooth] using hentry

omit hb z d

/-- The free coordinates are coordinates of the slice, and they are read off by `reduce`, which
takes any point to the nearest point of the box first.  A quadratic of the free coordinates, with
any sign, is its second-order expansion at every point: the entries of its gradient are its
derivatives, and the second-order term is that of the matrix at the free coordinates. -/
theorem free_coordinates_of_slice (tol : ℝ) {box : Box ℝ n} (hbox : box.IsProper)
    (q : Quadratic ℝ n) (sign : ℝ) :
    let b := ofBox tol box
    let middles : Set (Vector ℝ n) :=
      {x | x ∈ box ∧ ∀ i : Fin n, box.upper[i] - box.lower[i] ≤ tol → x[i] = box.midpoint[i]}
    let f := b.function q sign
    Set.BijOn b.full b.freeBox middles ∧ Set.InvOn b.reduce b.full b.freeBox middles ∧
      (∀ (x : Vector ℝ n) (i : Fin n), (b.full (b.reduce x))[i] =
        if tol < box.upper[i] - box.lower[i] then (box.clamp x)[i] else box.midpoint[i]) ∧
      (∀ x ∈ middles, f.value (b.reduce x) = sign * q.eval x) ∧
      ∀ z : Vector ℝ b.count, f.IsExactAt z ∧ ∀ d : Vector ℝ b.count,
        f.value (z + d) = f.value z + dot (f.gradient z) d +
          sign / 2 * ∑ k : Fin b.count, ∑ l : Fin b.count,
            q.hessian[b.free[k]][b.free[l]] * (d[k] * d[l]) := by
  intro b middles f
  have hb : b.IsDistinct := isDistinct_ofBox tol box
  have hslice : b.slice = middles := Set.ext fun x ↦ mem_slice_ofBox
  refine hslice ▸ ⟨bijOn_full hb hbox, invOn_reduce_full hb hbox, fun x i ↦ ?_, fun x hx ↦ ?_,
    fun z ↦ ⟨function_isExactAt z hb q sign, fun d ↦ value_function_add z d hb q sign⟩⟩
  · simp only [getElem_full_reduce, b, mem_free_ofBox]
    rfl
  · rw [value_function, full_reduce hx]

/-- A box with a wide side, a side that is as wide as the tolerance, and a point. -/
theorem free_coordinates_of_mixed :
    let box : Box ℝ 3 := ⟨#v[0, 0, 3], #v[4, 2, 3]⟩
    let product : Quadratic ℝ 3 := .ofMatrix #v[#v[0, 1, 0], #v[1, 0, 0], #v[0, 0, 0]] #v[0, 0, 0] 0
    let b := ofBox 2 box
    let f := b.function product (-1)
    box.IsProper ∧ #v[3, 1, 3] ∈ b.full '' b.freeBox ∧
      b.full (b.reduce #v[5, 5, 5]) = #v[4, 1, 3] ∧
      f.value (b.reduce #v[3, 1, 3]) = -3 ∧ f.IsExactAt (b.reduce #v[3, 1, 3]) := by
  intro box product b f
  have hproper : box.IsProper := by
    intro i
    fin_cases i <;> norm_num [box, Box.side]
  obtain ⟨hbij, -, hreduce, hvalue, hexpand⟩ :=
    free_coordinates_of_slice 2 hproper product (-1)
  have hmiddle : (#v[3, 1, 3] : Vector ℝ 3) ∈ {x : Vector ℝ 3 | x ∈ box ∧ ∀ i : Fin 3,
      box.upper[i] - box.lower[i] ≤ 2 → x[i] = box.midpoint[i]} := by
    refine ⟨fun i ↦ ?_, fun i hi ↦ ?_⟩
    · fin_cases i <;> norm_num [box, Box.side, Interval.mem_iff]
    · fin_cases i
      · norm_num [box] at hi
      · norm_num [box, Box.midpoint]
      · norm_num [box, Box.midpoint]
  refine ⟨hproper, hbij.surjOn hmiddle, Vector.ext fun i hi ↦ ?_, ?_, (hexpand _).1⟩
  · refine (hreduce _ ⟨i, hi⟩).trans ?_
    interval_cases i <;> norm_num [box, Box.clamp, Box.midpoint]
  · rw [hvalue _ hmiddle, Quadratic.eval_ofMatrix]
    norm_num [Fin.sum_univ_three]

end GlobalQcqp.FrozenBox
