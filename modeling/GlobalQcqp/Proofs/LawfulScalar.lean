import GlobalQcqp.Proofs.Exact
import GlobalQcqp.Proofs.MachineOrder
/-!
# Laws of scalars

What exact and machine numbers have in common: numbers that are not undefined are ordered totally,
finite ones are not undefined, and neither is the middle of two of them, though their sum may
overflow.
-/

namespace GlobalQcqp

open Scalar (isUndefined)

class LawfulScalar (γ : Type) [Scalar γ] : Prop where
  le_iff (a b : γ) : a ≤ b ↔ a < b ∨ (a == b) = true
  le_of_not_lt {a b : γ} (ha : isUndefined a = false) (hb : isUndefined b = false)
    (hab : ¬ a < b) : b ≤ a
  isUndefined_of_isFinite {a : γ} (ha : Scalar.isFinite a = true) : isUndefined a = false
  isUndefined_middle {a b : γ} (ha : Scalar.isFinite a = true) (hb : Scalar.isFinite b = true) :
    isUndefined (0.5 * (a + b)) = false

class LawfulExtended (α β : Type) [Scalar α] [Scalar β] [Extended α β] : Prop where
  isUndefined_posInf : isUndefined (posInf : β) = false
  le_posInf {a : β} (ha : isUndefined a = false) : a ≤ posInf

/-! ## Consequences -/

namespace Scalar

variable {γ : Type} [Scalar γ]

theorem isUndefined_max {a b : γ} (ha : isUndefined a = false) (hb : isUndefined b = false) :
    isUndefined (max a b) = false := by
  unfold max
  split <;> assumption

variable [LawfulScalar γ] {a b : γ}

theorem le_self (ha : isUndefined a = false) : a ≤ a := by
  refine (LawfulScalar.le_iff a a).mpr (Or.inr ?_)
  simpa [isUndefined] using ha

theorem le_max_right (ha : isUndefined a = false) (hb : isUndefined b = false) : b ≤ max a b := by
  unfold max
  split
  · exact le_self hb
  · exact LawfulScalar.le_of_not_lt ha hb ‹_›

/-- The larger of two numbers is the second one, up to the sign of a zero. -/
theorem max_beq_right (hb : isUndefined b = false) (hab : a ≤ b) : (max a b == b) = true := by
  unfold max
  split
  · simpa [isUndefined] using hb
  · exact ((LawfulScalar.le_iff a b).mp hab).resolve_left ‹_›

theorem clamp_mem {lo hi x : γ} (hlo : isUndefined lo = false) (hhi : isUndefined hi = false)
    (hx : isUndefined x = false) (hle : lo ≤ hi) : lo ≤ clamp lo hi x ∧ clamp lo hi x ≤ hi := by
  have hgreater : greater x lo = max x lo := by
    simp only [greater, hx, hlo, Bool.false_eq_true, if_false]
  have hmax : isUndefined (max x lo) = false := isUndefined_max hx hlo
  simp only [clamp, lesser, hgreater, hmax, hhi, Bool.false_eq_true, if_false, min]
  split
  · exact ⟨hle, le_self hhi⟩
  · exact ⟨le_max_right hx hlo, LawfulScalar.le_of_not_lt hhi hmax ‹_›⟩

end Scalar

/-! ## Exact numbers -/

instance : LawfulScalar ℝ where
  le_iff a b := by rw [beq_iff_eq, le_iff_lt_or_eq]
  le_of_not_lt _ _ hab := not_lt.mp hab
  isUndefined_of_isFinite _ := Scalar.isUndefined_real _
  isUndefined_middle _ _ := Scalar.isUndefined_real _

theorem Scalar.isUndefined_ereal (a : EReal) : isUndefined a = false := by
  simp [isUndefined]

instance : LawfulScalar EReal where
  le_iff a b := by rw [beq_iff_eq, le_iff_lt_or_eq]
  le_of_not_lt _ _ hab := not_lt.mp hab
  isUndefined_of_isFinite _ := Scalar.isUndefined_ereal _
  isUndefined_middle _ _ := Scalar.isUndefined_ereal _

instance : LawfulExtended ℝ EReal where
  isUndefined_posInf := Scalar.isUndefined_ereal ⊤
  le_posInf _ := le_top

/-! ## Machine numbers -/

namespace MachineRank

open Float.Model (UnpackedFloat Format)

/-! ### Unpacked numbers -/

section Unpacked

variable {spec : Format} {x y : UnpackedFloat}

/-- Only the largest exponent with a mantissa that is not zero stands for no number. -/
theorem unpack_packComponents_ne {sign : UnpackedFloat.Sign} {exponent : BitVec spec.exponentBits}
    {mantissa : BitVec spec.mantissaBitsWithoutImplicit} (h : exponent = -1#_ → mantissa = 0#_) :
    UnpackedFloat.unpack spec (UnpackedFloat.packComponents spec sign exponent mantissa) ≠
      .notANumber := by
  simp only [UnpackedFloat.unpack, UnpackedFloat.unpackMantissa_packComponents,
    UnpackedFloat.unpackExponent_packComponents]
  split
  · rw [if_pos (h ‹_›)]
    exact nofun
  · split
    · split
      · exact nofun
      · exact nofun
    · exact nofun

theorem unpack_pack_ne (hx : x ≠ .notANumber) :
    UnpackedFloat.unpack spec (UnpackedFloat.pack spec x) ≠ .notANumber := by
  have hinfinity (sign : UnpackedFloat.Sign) :
      UnpackedFloat.unpack spec (UnpackedFloat.packedInfinity spec sign) ≠ .notANumber :=
    unpack_packComponents_ne fun _ ↦ rfl
  cases x with
  | notANumber => exact absurd rfl hx
  | infinity sign => exact hinfinity sign
  | zero sign => exact unpack_packComponents_ne fun _ ↦ rfl
  | finite sign mantissa exponent _ =>
      simp only [UnpackedFloat.pack]
      split
      · exact hinfinity sign
      · rename_i hsmall
        split
        · refine unpack_packComponents_ne fun hlargest ↦ absurd hlargest ?_
          rw [BitVec.neg_one_eq_allOnes, ← BitVec.toNat_inj, BitVec.toNat_ofNat,
            BitVec.toNat_allOnes, Nat.mod_eq_of_lt (by omega)]
          omega
        · refine unpack_packComponents_ne fun hlargest ↦ absurd hlargest ?_
          have hbits := spec.he
          simp [BitVec.neg_one_eq_allOnes, ← BitVec.toNat_inj]
          omega

theorem roundWithAccuracy_ne (sign : UnpackedFloat.Sign) (mantissa : ℕ) (exponent : ℤ)
    (accuracy : UnpackedFloat.Accuracy) :
    UnpackedFloat.roundWithAccuracy spec sign mantissa exponent accuracy ≠ .notANumber := by
  simp only [UnpackedFloat.roundWithAccuracy]
  split
  · exact nofun
  · exact nofun

theorem normalize_ne (mantissa exponent : ℤ) (sign : UnpackedFloat.Sign) :
    UnpackedFloat.normalize spec mantissa exponent sign ≠ .notANumber := by
  unfold UnpackedFloat.normalize
  split
  · exact roundWithAccuracy_ne _ _ _ _
  · exact nofun
  · exact roundWithAccuracy_ne _ _ _ _

/-- A sum of finite numbers that overflows is infinite. -/
theorem add_ne (hx : x.isFinite = true) (hy : y.isFinite = true) :
    UnpackedFloat.add spec x y ≠ .notANumber := by
  rcases x with _ | _ | sx | ⟨sx, mx, ex, hx⟩ <;> rcases y with _ | _ | sy | ⟨sy, my, ey, hy⟩ <;>
    simp_all [UnpackedFloat.isFinite, UnpackedFloat.add, normalize_ne]
  split <;> exact nofun

/-- So is the product of an infinite number with a finite one that is not zero. -/
theorem finite_mul_ne {sign : UnpackedFloat.Sign} {mantissa : ℕ} {exponent : ℤ}
    (hpos : 0 < mantissa) (hy : y ≠ .notANumber) :
    UnpackedFloat.mul spec (.finite sign mantissa exponent hpos) y ≠ .notANumber := by
  rcases y with _ | _ | _ | _ <;> simp_all [UnpackedFloat.mul, roundWithAccuracy_ne]

end Unpacked

/-! ### Packed numbers -/

variable {a b : Float}

theorem isUndefined_of_unpack_ne (ha : a.toModel.unpack ≠ .notANumber) :
    isUndefined a = false := by
  have hself : (a == a) = true := beq_iff_compare.mpr ((compare_eq_eq_iff ha ha).mpr rfl)
  rw [isUndefined, hself, Bool.not_true]

theorem unpack_isFinite (ha : Scalar.isFinite a = true) : a.toModel.unpack.isFinite = true :=
  ha

theorem isUndefined_middle (ha : Scalar.isFinite a = true) (hb : Scalar.isFinite b = true) :
    isUndefined (0.5 * (a + b)) = false := by
  have hsum : (a + b).toModel.unpack ≠ .notANumber :=
    unpack_pack_ne (add_ne (unpack_isFinite ha) (unpack_isFinite hb))
  obtain ⟨sign, mantissa, exponent, hpos, hhalf⟩ : ∃ sign mantissa exponent hpos,
      (0.5 : Float).toModel.unpack = .finite sign mantissa exponent hpos :=
    ⟨_, _, _, _, rfl⟩
  have hproduct : UnpackedFloat.mul .binary64 (0.5 : Float).toModel.unpack (a + b).toModel.unpack ≠
      .notANumber := by
    rw [hhalf]
    exact finite_mul_ne hpos hsum
  exact isUndefined_of_unpack_ne (unpack_pack_ne hproduct)

theorem isUndefined_of_isFinite (ha : Scalar.isFinite a = true) : isUndefined a = false := by
  refine isUndefined_of_unpack_ne fun hnan ↦ ?_
  have hfinite := unpack_isFinite ha
  rw [hnan] at hfinite
  cases hfinite

theorem ofUnpacked_le_infinity {x : UnpackedFloat} (hx : x ≠ .notANumber) :
    ofUnpacked x ≤ ofUnpacked (.infinity .positive) := by
  rcases x with (_ | _) | _ | _ | ⟨_ | _, m, e, _⟩ <;>
    simp_all [ofUnpacked, Prod.Lex.toLex_le_toLex]

theorem le_posInf (ha : isUndefined a = false) : a ≤ (posInf : Float) := by
  have hdefined : isUndefined (posInf : Float) = false := by decide
  have hinfinity : (posInf : Float).toModel.unpack = .infinity .positive := rfl
  rw [le_iff ha hdefined, of, of, hinfinity]
  exact ofUnpacked_le_infinity (unpack_ne_notANumber ha)

end MachineRank

instance : LawfulScalar Float where
  le_iff _ _ := MachineRank.le_iff_lt_or_beq
  le_of_not_lt ha hb hab := by
    rw [MachineRank.lt_iff ha hb] at hab
    exact (MachineRank.le_iff hb ha).mpr (not_lt.mp hab)
  isUndefined_of_isFinite := MachineRank.isUndefined_of_isFinite
  isUndefined_middle := MachineRank.isUndefined_middle

instance : LawfulExtended Float Float where
  isUndefined_posInf := by decide
  le_posInf := MachineRank.le_posInf

end GlobalQcqp
