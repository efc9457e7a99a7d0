import Mathlib.Order.Antisymmetrization
import GlobalQcqp.Proofs.LawfulScalar
/-!
# The order of scalars

No comparison with an undefined number holds, and between the others comparisons are those of a
linear order, in which each of them has its rank.  A largest value that is found by comparing from a
start on is above a number exactly if the start or one of the values is, whatever else is undefined.
-/

namespace GlobalQcqp

open Scalar (isUndefined)

class OrderedScalar (γ : Type) [Scalar γ] : Prop extends LawfulScalar γ where
  isUndefined_zero : isUndefined (0 : γ) = false
  isUndefined_of_le {a b : γ} (hab : a ≤ b) : isUndefined a = false ∧ isUndefined b = false
  lt_irrefl (a : γ) : ¬ a < a
  lt_of_lt_of_le {a b c : γ} (hab : a < b) (hbc : b ≤ c) : a < c

class OrderedExtended (α β : Type) [Scalar α] [Scalar β] [Extended α β] : Prop
    extends LawfulExtended α β where
  isUndefined_negInf : isUndefined (negInf : β) = false

/-! ## Consequences -/

namespace Scalar

variable {γ : Type} [Scalar γ] {a b c : γ}

theorem le_of_lt [LawfulScalar γ] (hab : a < b) : a ≤ b :=
  (LawfulScalar.le_iff a b).mpr (Or.inl hab)

variable [OrderedScalar γ]

theorem lt_trans (hab : a < b) (hbc : b < c) : a < c :=
  OrderedScalar.lt_of_lt_of_le hab (le_of_lt hbc)

theorem not_lt_of_le (hab : a ≤ b) : ¬ b < a :=
  fun hba ↦ OrderedScalar.lt_irrefl b (OrderedScalar.lt_of_lt_of_le hba hab)

theorem lt_of_not_le (ha : isUndefined a = false) (hb : isUndefined b = false) (hab : ¬ a ≤ b) :
    b < a := by
  by_contra hlt
  exact hab (LawfulScalar.le_of_not_lt hb ha hlt)

theorem isUndefined_of_lt (hab : a < b) : isUndefined b = false :=
  (OrderedScalar.isUndefined_of_le (le_of_lt hab)).2

theorem lt_max_iff (ha : isUndefined a = false) : c < max a b ↔ c < a ∨ c < b := by
  unfold max
  split
  · rename_i hab
    exact ⟨Or.inr, Or.rec (fun hca ↦ lt_trans hca hab) id⟩
  · rename_i hab
    refine ⟨Or.inl, Or.rec id fun hcb ↦ ?_⟩
    have hba := LawfulScalar.le_of_not_lt ha (isUndefined_of_lt hcb) hab
    exact OrderedScalar.lt_of_lt_of_le hcb hba

/-- Undefined values are passed over. -/
theorem isUndefined_max_left (ha : isUndefined a = false) : isUndefined (max a b) = false := by
  unfold max
  split
  · exact isUndefined_of_lt ‹_›
  · exact ha

variable {ι : Type} {f : ι → γ}

theorem isUndefined_foldl_max (l : List ι) (ha : isUndefined a = false) :
    isUndefined (l.foldl (fun w i ↦ max w (f i)) a) = false := by
  induction l generalizing a with
  | nil => exact ha
  | cons i l ih => exact ih (isUndefined_max_left ha)

theorem lt_foldl_max_iff (l : List ι) (ha : isUndefined a = false) :
    c < l.foldl (fun w i ↦ max w (f i)) a ↔ c < a ∨ ∃ i ∈ l, c < f i := by
  induction l generalizing a with
  | nil => simp
  | cons i l ih =>
      rw [List.foldl_cons, ih (isUndefined_max_left ha), lt_max_iff ha, List.exists_mem_cons_iff,
        or_assoc]

end Scalar

/-! ## Ranks -/

/-- The numbers that are not undefined. -/
structure Scalar.Defined (γ : Type) [Scalar γ] where
  value : γ
  isDefined : isUndefined value = false

namespace Scalar.Defined

variable {γ : Type} [Scalar γ]

instance : LE (Defined γ) := ⟨fun a b ↦ a.value ≤ b.value⟩

instance : LT (Defined γ) := ⟨fun a b ↦ a.value < b.value⟩

instance : DecidableLE (Defined γ) := fun a b ↦ Scalar.decideLE a.value b.value

instance : DecidableLT (Defined γ) := fun a b ↦ Scalar.decideLT a.value b.value

variable [OrderedScalar γ]

instance : Preorder (Defined γ) where
  le_refl a := le_self a.isDefined
  le_trans a b c hab hbc := by
    have hnot : ¬ c.value < a.value := fun hca ↦
      not_lt_of_le hbc (OrderedScalar.lt_of_lt_of_le hca hab)
    exact LawfulScalar.le_of_not_lt c.isDefined a.isDefined hnot
  lt_iff_le_not_ge a b :=
    ⟨fun hab ↦ ⟨le_of_lt hab, fun hba ↦ not_lt_of_le hba hab⟩,
      fun h ↦ lt_of_not_le b.isDefined a.isDefined h.2⟩

instance : @Std.Total (Defined γ) (· ≤ ·) where
  total a b := by
    by_cases hab : a.value < b.value
    · exact Or.inl (le_of_lt hab)
    · exact Or.inr (LawfulScalar.le_of_not_lt a.isDefined b.isDefined hab)

end Scalar.Defined

namespace Scalar

variable {γ : Type} [Scalar γ] [OrderedScalar γ] {a b : γ}

/-- The place of a number in the order. Zeros of either sign have the same, and undefined numbers
come last. -/
abbrev Rank (γ : Type) [Scalar γ] [OrderedScalar γ] : Type :=
  WithTop (Antisymmetrization (Defined γ) (· ≤ ·))

def rank (a : γ) : Rank γ :=
  if ha : isUndefined a = false then toAntisymmetrization (· ≤ ·) (Defined.mk a ha) else ⊤

theorem rank_lt_iff (ha : isUndefined a = false) (hb : isUndefined b = false) :
    rank a < rank b ↔ a < b := by
  rw [rank, rank, dif_pos ha, dif_pos hb, WithTop.coe_lt_coe,
    toAntisymmetrization_lt_toAntisymmetrization_iff]
  exact Iff.rfl

theorem rank_le_iff (ha : isUndefined a = false) (hb : isUndefined b = false) :
    rank a ≤ rank b ↔ a ≤ b := by
  rw [← not_lt, rank_lt_iff hb ha]
  exact ⟨LawfulScalar.le_of_not_lt hb ha, not_lt_of_le⟩

end Scalar

/-! ## Instances -/

instance : OrderedScalar ℝ where
  isUndefined_zero := Scalar.isUndefined_real 0
  isUndefined_of_le _ := ⟨Scalar.isUndefined_real _, Scalar.isUndefined_real _⟩
  lt_irrefl := lt_irrefl
  lt_of_lt_of_le := lt_of_lt_of_le

instance : OrderedScalar EReal where
  isUndefined_zero := Scalar.isUndefined_ereal 0
  isUndefined_of_le _ := ⟨Scalar.isUndefined_ereal _, Scalar.isUndefined_ereal _⟩
  lt_irrefl := lt_irrefl
  lt_of_lt_of_le := lt_of_lt_of_le

instance : OrderedExtended ℝ EReal where
  isUndefined_negInf := Scalar.isUndefined_ereal ⊥

namespace MachineRank

open Float.Model (UnpackedFloat)

variable {a b c : Float}

theorem ne_of_compare_eq_some {x y : UnpackedFloat} {o : Ordering} (h : x.compare y = some o) :
    x ≠ .notANumber ∧ y ≠ .notANumber := by
  constructor
  · rintro rfl
    simp [UnpackedFloat.compare] at h
  · rintro rfl
    rcases x with _ | _ | _ | _ <;> simp [UnpackedFloat.compare] at h

theorem isUndefined_of_le (hab : a ≤ b) : isUndefined a = false ∧ isUndefined b = false := by
  obtain ⟨ha, hb⟩ : a.toModel.unpack ≠ .notANumber ∧ b.toModel.unpack ≠ .notANumber := by
    rcases le_iff_lt_or_beq.mp hab with hlt | hbeq
    · exact ne_of_compare_eq_some (lt_iff_compare.mp hlt)
    · exact ne_of_compare_eq_some (beq_iff_compare.mp hbeq)
  exact ⟨isUndefined_of_unpack_ne ha, isUndefined_of_unpack_ne hb⟩

theorem of_lt_of (hab : a < b) : of a < of b := by
  obtain ⟨ha, hb⟩ := isUndefined_of_le (le_iff_lt_or_beq.mpr (Or.inl hab))
  exact (lt_iff ha hb).mp hab

end MachineRank

instance : OrderedScalar Float where
  isUndefined_zero := by decide
  isUndefined_of_le := MachineRank.isUndefined_of_le
  lt_irrefl a haa := lt_irrefl (MachineRank.of a) (MachineRank.of_lt_of haa)
  lt_of_lt_of_le hab hbc := by
    obtain ⟨hb, hc⟩ := MachineRank.isUndefined_of_le hbc
    obtain ⟨ha, -⟩ := MachineRank.isUndefined_of_le (Scalar.le_of_lt hab)
    have hranks := (MachineRank.of_lt_of hab).trans_le ((MachineRank.le_iff hb hc).mp hbc)
    exact (MachineRank.lt_iff ha hc).mpr hranks

instance : OrderedExtended Float Float where
  isUndefined_negInf := by decide

end GlobalQcqp
