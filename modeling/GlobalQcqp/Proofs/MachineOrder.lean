import Mathlib
import GlobalQcqp.Scalar
/-!
# The order of machine numbers

The comparisons of machine numbers are partial, and the two zeros are equal though different.
Between defined numbers they are the comparisons of a rank in a linear order: the class of the
number comes first, then its exponent and its mantissa, both turned round below zero.
-/

namespace GlobalQcqp

open Float.Model (UnpackedFloat)

abbrev MachineRank :=
  ℤ ×ₗ ℤ ×ₗ ℤ

namespace MachineRank

def ofUnpacked : UnpackedFloat → MachineRank
  | .infinity .negative => toLex (-2, toLex (0, 0))
  | .finite .negative m e _ => toLex (-1, toLex (-e, -m))
  | .zero _ => toLex (0, toLex (0, 0))
  | .finite .positive m e _ => toLex (1, toLex (e, m))
  | .infinity .positive => toLex (2, toLex (0, 0))
  | .notANumber => toLex (3, toLex (0, 0))

def of (x : Float) : MachineRank :=
  ofUnpacked x.toModel.unpack

section Unpacked

variable {x y : UnpackedFloat}

theorem compare_eq_lt_iff (hx : x ≠ .notANumber) (hy : y ≠ .notANumber) :
    x.compare y = some .lt ↔ ofUnpacked x < ofUnpacked y := by
  rcases x with (_ | _) | _ | _ | ⟨_ | _, m, e, _⟩ <;>
    rcases y with (_ | _) | _ | _ | ⟨_ | _, n, f, _⟩ <;>
    simp_all [UnpackedFloat.compare, ofUnpacked, Prod.Lex.toLex_lt_toLex, Ordering.then_eq_lt,
      Ordering.then_eq_gt, compare_gt_iff_gt, compare_lt_iff_lt]
  case infinity.negative.infinity.positive => decide

theorem compare_eq_eq_iff (hx : x ≠ .notANumber) (hy : y ≠ .notANumber) :
    x.compare y = some .eq ↔ ofUnpacked x = ofUnpacked y := by
  rcases x with (_ | _) | _ | _ | ⟨_ | _, m, e, _⟩ <;>
    rcases y with (_ | _) | _ | _ | ⟨_ | _, n, f, _⟩ <;>
    simp_all [UnpackedFloat.compare, ofUnpacked, Ordering.then_eq_eq]
  case infinity.negative.infinity.negative => decide
  case infinity.positive.infinity.positive => decide

theorem le_eq_true_iff :
    x.le y = true ↔ x.compare y = some .lt ∨ x.compare y = some .eq := by
  rw [UnpackedFloat.le]
  rcases x.compare y with _ | _ | _ | _ <;> simp

end Unpacked

variable {x y : Float}

theorem lt_iff_compare : x < y ↔ x.toModel.unpack.compare y.toModel.unpack = some .lt := by
  change (decide (x.toModel.unpack.lt y.toModel.unpack = true) = true) ↔ _
  rw [decide_eq_true_iff]
  exact beq_iff_eq

theorem beq_iff_compare :
    (x == y) = true ↔ x.toModel.unpack.compare y.toModel.unpack = some .eq := by
  change (x.toModel.unpack.beq y.toModel.unpack = true) ↔ _
  exact beq_iff_eq

theorem unpack_ne_notANumber (hx : Scalar.isUndefined x = false) :
    x.toModel.unpack ≠ .notANumber := by
  intro h
  have hself : (x == x) = true := by simpa [Scalar.isUndefined] using hx
  rw [beq_iff_compare, h] at hself
  simp [UnpackedFloat.compare] at hself

theorem lt_iff (hx : Scalar.isUndefined x = false) (hy : Scalar.isUndefined y = false) :
    x < y ↔ of x < of y :=
  lt_iff_compare.trans (compare_eq_lt_iff (unpack_ne_notANumber hx) (unpack_ne_notANumber hy))

theorem beq_iff (hx : Scalar.isUndefined x = false) (hy : Scalar.isUndefined y = false) :
    (x == y) = true ↔ of x = of y :=
  beq_iff_compare.trans (compare_eq_eq_iff (unpack_ne_notANumber hx) (unpack_ne_notANumber hy))

theorem le_iff_lt_or_beq : x ≤ y ↔ x < y ∨ (x == y) = true := by
  have hle : x ≤ y ↔ x.toModel.unpack.le y.toModel.unpack = true := by
    change (decide (x.toModel.unpack.le y.toModel.unpack = true) = true) ↔ _
    rw [decide_eq_true_iff]
  rw [hle, le_eq_true_iff, ← lt_iff_compare, ← beq_iff_compare]

theorem le_iff (hx : Scalar.isUndefined x = false) (hy : Scalar.isUndefined y = false) :
    x ≤ y ↔ of x ≤ of y := by
  rw [le_iff_lt_or_beq, lt_iff hx hy, beq_iff hx hy, le_iff_lt_or_eq]

end MachineRank

end GlobalQcqp
