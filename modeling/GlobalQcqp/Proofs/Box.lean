import GlobalQcqp.Proofs.Interval
import GlobalQcqp.Box
/-!
# Points of a box

A point lies in a box when each of its coordinates lies in the side of the box.  A box is within
another one when each of its sides is; the ends are compared, so that this also says where a box
that holds no point came from.  Every operation on boxes is described by its sides.
-/

namespace GlobalQcqp

namespace Interval

/-- The ends of the smaller interval are nowhere outside the larger one. -/
instance : Preorder (Interval ℝ) where
  le a b := b.lo ≤ a.lo ∧ a.hi ≤ b.hi
  le_refl _ := ⟨le_rfl, le_rfl⟩
  le_trans _ _ _ hab hbc := ⟨hbc.1.trans hab.1, hab.2.trans hbc.2⟩

theorem le_iff {a b : Interval ℝ} : a ≤ b ↔ b.lo ≤ a.lo ∧ a.hi ≤ b.hi :=
  Iff.rfl

theorem mem_of_le {a b : Interval ℝ} (hab : a ≤ b) {x : ℝ} (hx : x ∈ a) : x ∈ b :=
  ⟨hab.1.trans hx.1, hx.2.trans hab.2⟩

theorem inter_le_left (a b : Interval ℝ) : a.inter b ≤ a := by
  simp [le_iff, inter]

@[simp] theorem inter_self (a : Interval ℝ) : a.inter a = a := by
  simp [inter]

end Interval

namespace Box

variable {n : Nat}

instance : Membership (Vector ℝ n) (Box ℝ n) :=
  ⟨fun b x ↦ ∀ i : Fin n, x[i] ∈ b.side i⟩

instance : Preorder (Box ℝ n) where
  le b c := ∀ i : Fin n, b.side i ≤ c.side i
  le_refl b i := le_refl (b.side i)
  le_trans _ _ _ hbc hcd i := (hbc i).trans (hcd i)

def IsProper (b : Box ℝ n) : Prop :=
  ∀ i : Fin n, (b.side i).lo ≤ (b.side i).hi

theorem mem_iff {b : Box ℝ n} {x : Vector ℝ n} : x ∈ b ↔ ∀ i : Fin n, x[i] ∈ b.side i :=
  Iff.rfl

theorem mem_of_le {b c : Box ℝ n} (hbc : b ≤ c) {x : Vector ℝ n} (hx : x ∈ b) : x ∈ c :=
  fun i ↦ Interval.mem_of_le (hbc i) (hx i)

theorem isCrossed_eq_false_iff {b : Box ℝ n} : b.isCrossed = false ↔ b.IsProper := by
  simp [isCrossed, IsProper, Interval.isEmpty]

/-! ## Sides -/

theorem ext_side {α : Type} {b c : Box α n} (h : ∀ i : Fin n, b.side i = c.side i) : b = c := by
  obtain ⟨lower, upper⟩ := b
  obtain ⟨lower', upper'⟩ := c
  have hends (i : Fin n) : lower[i] = lower'[i] ∧ upper[i] = upper'[i] :=
    Interval.mk.inj (h i)
  rw [show lower = lower' from Vector.ext fun i hi ↦ (hends ⟨i, hi⟩).1,
    show upper = upper' from Vector.ext fun i hi ↦ (hends ⟨i, hi⟩).2]

@[simp] theorem getElem_sides {α : Type} (b : Box α n) (i : Nat) (hi : i < n) :
    b.sides[i] = b.side ⟨i, hi⟩ := by
  simp [sides]

@[simp] theorem side_ofSides {α : Type} (sides : Vector (Interval α) n) (i : Fin n) :
    (ofSides sides).side i = sides[i] := by
  simp [ofSides, side]

theorem isProper_ofSides_iff {sides : Vector (Interval ℝ) n} :
    (ofSides sides).IsProper ↔ ∀ i : Fin n, sides[i].lo ≤ sides[i].hi := by
  simp only [IsProper, side_ofSides]

theorem mem_ofSides_iff {sides : Vector (Interval ℝ) n} {x : Vector ℝ n} :
    x ∈ ofSides sides ↔ ∀ i : Fin n, x[i] ∈ sides[i] := by
  simp only [mem_iff, side_ofSides]

@[simp] theorem side_inter (b c : Box ℝ n) (i : Fin n) :
    (b.inter c).side i = (b.side i).inter (c.side i) := by
  simp [inter, side, Interval.inter]

theorem side_setSide (b : Box ℝ n) (i j : Fin n) (s : Interval ℝ) :
    (b.setSide i s).side j = if j = i then s else b.side j := by
  simp only [setSide, side, getElem_fin, Vector.getElem_set, Fin.ext_iff, eq_comm (a := j.val)]
  split <;> rfl

theorem mem_inter {b c : Box ℝ n} {x : Vector ℝ n} : x ∈ b.inter c ↔ x ∈ b ∧ x ∈ c := by
  simp only [mem_iff, side_inter, Interval.mem_inter, forall_and]

theorem inter_le_left (b c : Box ℝ n) : b.inter c ≤ b := by
  intro i
  rw [side_inter]
  exact Interval.inter_le_left (b.side i) (c.side i)

theorem setSide_le {b : Box ℝ n} {i : Fin n} {s : Interval ℝ} (hs : s ≤ b.side i) :
    b.setSide i s ≤ b := by
  intro j
  rw [side_setSide]
  split
  · exact ‹j = i› ▸ hs
  · exact le_refl (b.side j)

theorem IsProper.setSide {b : Box ℝ n} (hb : b.IsProper) {i : Fin n} {s : Interval ℝ}
    (hs : s.lo ≤ s.hi) : (b.setSide i s).IsProper := by
  intro j
  rw [side_setSide]
  split
  · exact hs
  · exact hb j

theorem clamp_mem {b : Box ℝ n} (hb : b.IsProper) (x : Vector ℝ n) : b.clamp x ∈ b := by
  intro i
  have hside : (b.side i).lo ≤ (b.side i).hi := hb i
  simp only [clamp, getElem_fin, Vector.getElem_ofFn, Scalar.clamp_real]
  exact ⟨le_min (le_max_right _ _) hside, min_le_right _ _⟩

theorem clamp_of_mem {b : Box ℝ n} {x : Vector ℝ n} (hx : x ∈ b) : b.clamp x = x := by
  refine Vector.ext fun i hi ↦ ?_
  obtain ⟨hlo, hhi⟩ := hx ⟨i, hi⟩
  simp only [clamp, Vector.getElem_ofFn, Scalar.clamp_real]
  exact (congrArg (min · _) (max_eq_left hlo)).trans (min_eq_left hhi)

theorem midpoint_mem {b : Box ℝ n} (hb : b.IsProper) : b.midpoint ∈ b := by
  intro i
  have hside : (b.side i).lo ≤ (b.side i).hi := hb i
  have hmid : b.midpoint[i] = ((b.side i).lo + (b.side i).hi) / 2 := by
    simp only [midpoint, side, getElem_fin, Vector.getElem_ofFn]
    ring
  rw [hmid]
  constructor
  · linarith
  · linarith

theorem mem_setSide {b : Box ℝ n} {i : Fin n} {s : Interval ℝ} {x : Vector ℝ n} (hx : x ∈ b)
    (hi : x[i] ∈ s) : x ∈ b.setSide i s := by
  intro j
  rw [side_setSide]
  split
  · exact ‹j = i› ▸ hi
  · exact hx j

end Box

end GlobalQcqp
