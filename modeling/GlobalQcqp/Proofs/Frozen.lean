import GlobalQcqp.Proofs.Box
import GlobalQcqp.Frozen
/-!
# Points with frozen coordinates

The points of a box whose frozen coordinates are in the middle of their sides make a slice of the
box.  Filling in the frozen coordinates takes the points of the free sides to this slice, and
reading off the free coordinates takes them back.
-/

namespace GlobalQcqp.FrozenBox

variable {n : ℕ}

/-! ## Free coordinates -/

section

variable {α : Type} {b : FrozenBox α n}

theorem free_of_freeAt? {i : Fin n} {k : Fin b.count} (h : b.freeAt? i = some k) :
    b.free[k] = i := by
  simpa using List.find?_some h

theorem freeAt?_eq_none_iff {i : Fin n} : b.freeAt? i = none ↔ i ∉ b.free := by
  simp only [freeAt?, List.find?_eq_none, List.mem_finRange, true_imp_iff, beq_iff_eq,
    Array.mem_iff_getElem, not_exists]
  exact ⟨fun h k hk ↦ h ⟨k, hk⟩, fun h k ↦ h k k.isLt⟩

@[simp] theorem getElem_gather {ε : Type} (x : Vector ε n) (k : Fin b.count) :
    (b.gather x)[k] = x[b.free[k]] := by
  simp [gather]

variable [Scalar α]

theorem getElem_full (z : Vector α b.count) (i : Fin n) :
    (b.full z)[i] = (b.freeAt? i).elim b.base[i] fun k ↦ z[k] := by
  simp [full]

theorem getElem_full_of_notMem (z : Vector α b.count) {i : Fin n} (hi : i ∉ b.free) :
    (b.full z)[i] = b.base[i] := by
  rw [getElem_full, freeAt?_eq_none_iff.mpr hi]
  rfl

theorem full_gather {x : Vector α n} (hx : ∀ i : Fin n, i ∉ b.free → x[i] = b.base[i]) :
    b.full (b.gather x) = x := by
  refine Vector.ext fun i hi ↦ ?_
  have hentry := getElem_full (b.gather x) ⟨i, hi⟩
  cases hfree : b.freeAt? ⟨i, hi⟩ with
  | none =>
      rw [hfree] at hentry
      exact hentry.trans (hx ⟨i, hi⟩ (freeAt?_eq_none_iff.mp hfree)).symm
  | some k =>
      rw [hfree, Option.elim_some, getElem_gather, free_of_freeAt? hfree] at hentry
      exact hentry

theorem full_of_count_eq_zero (hcount : b.count = 0) (z : Vector α b.count) :
    b.full z = b.base := by
  refine Vector.ext fun i hi ↦ ?_
  have hfrozen : (⟨i, hi⟩ : Fin n) ∉ b.free := by
    rw [Array.size_eq_zero_iff.mp hcount]
    exact Array.not_mem_empty _
  exact getElem_full_of_notMem z hfrozen

@[simp] theorem value_function (q : Quadratic α n) (sign : α) (z : Vector α b.count) :
    (b.function q sign).value z = sign * q.eval (b.full z) :=
  rfl

theorem getElem_gradient_function (q : Quadratic α n) (sign : α) (z : Vector α b.count)
    (k : Fin b.count) :
    ((b.function q sign).gradient z)[k] = sign * (q.gradient (b.full z))[b.free[k]] := by
  simp [function, Smooth.scale, pull, gather]

variable {tol : α} {box : Box α n}

theorem mem_free_ofBox {i : Fin n} :
    i ∈ (ofBox tol box).free ↔ tol < box.upper[i] - box.lower[i] := by
  simp [ofBox]

theorem count_ofBox_eq_zero_iff : (ofBox tol box).count = 0 ↔
    ∀ i : Fin n, ¬ tol < box.upper[i] - box.lower[i] := by
  simp only [count, Array.size_eq_zero_iff, Array.eq_empty_iff_forall_not_mem, mem_free_ofBox]

end

/-! ## The slice -/

variable {b : FrozenBox ℝ n}

/-- The points of the box with every frozen coordinate in the middle of its side. -/
def slice (b : FrozenBox ℝ n) : Set (Vector ℝ n) :=
  {x | x ∈ b.box ∧ ∀ i : Fin n, i ∉ b.free → x[i] = b.base[i]}

theorem full_mem_slice (hb : b.box.IsProper) {z : Vector ℝ b.count}
    (hz : ∀ k : Fin b.count, z[k] ∈ b.sides[k]) : b.full z ∈ b.slice := by
  refine ⟨fun i ↦ ?_, fun i ↦ getElem_full_of_notMem z⟩
  rw [getElem_full]
  cases hfree : b.freeAt? i with
  | none => exact Box.midpoint_mem hb i
  | some k =>
      have hside := hz k
      rw [sides, getElem_gather, free_of_freeAt? hfree, getElem_fin, Box.getElem_sides] at hside
      exact hside

theorem gather_mem {x : Vector ℝ n} (hx : x ∈ b.box) (k : Fin b.count) :
    (b.gather x)[k] ∈ b.sides[k] := by
  rw [sides, getElem_gather, getElem_gather, getElem_fin, Box.getElem_sides]
  exact hx b.free[k]

end GlobalQcqp.FrozenBox
