import GlobalQcqp.Proofs.Interval
/-!
# Hulls of sets

An interval spans a set of numbers if its ends are the least and the greatest of them: both are
attained, and no smaller interval encloses the set.  An answer that may be missing or crossed is the
hull of a set if it spans the set, or holds no point and the set has none.

The hull of several pieces spans what the pieces cover as soon as their ends belong to it.
-/

namespace GlobalQcqp.Interval

variable {S : Set ℝ}

/-- The ends are the extreme members of the set. -/
def Spans (a : Interval ℝ) (S : Set ℝ) : Prop :=
  IsLeast S a.lo ∧ IsGreatest S a.hi

theorem spans_of_mem {a : Interval ℝ} (hlo : a.lo ∈ S) (hhi : a.hi ∈ S)
    (hencloses : ∀ x ∈ S, x ∈ a) : a.Spans S :=
  ⟨⟨hlo, fun x hx ↦ (hencloses x hx).1⟩, ⟨hhi, fun x hx ↦ (hencloses x hx).2⟩⟩

theorem Spans.mem {a : Interval ℝ} (h : a.Spans S) {x : ℝ} (hx : x ∈ S) : x ∈ a :=
  ⟨h.1.2 hx, h.2.2 hx⟩

theorem Spans.lo_le_hi {a : Interval ℝ} (h : a.Spans S) : a.lo ≤ a.hi :=
  h.1.2 h.2.1

theorem isEmpty_eq_true_iff {a : Interval ℝ} : a.isEmpty = true ↔ ∀ x, x ∉ a := by
  constructor
  · intro hempty x hx
    rw [isEmpty_eq_false_of_mem hx] at hempty
    cases hempty
  · intro hnone
    by_contra hproper
    have hle := isEmpty_eq_false_iff.mp (Bool.eq_false_of_not_eq_true hproper)
    exact hnone a.lo (lo_mem hle)

theorem spans_members {a : Interval ℝ} (ha : a.lo ≤ a.hi) : a.Spans {x | x ∈ a} :=
  spans_of_mem (lo_mem ha) (hi_mem ha) fun _ hx ↦ hx

/-! ## Answers -/

/-- An answer encloses a set as closely as an interval can. -/
inductive IsHull (S : Set ℝ) : Option (Interval ℝ) → Prop where
  | spanned {a : Interval ℝ} (hspans : a.Spans S) : IsHull S (some a)
  | crossed {a : Interval ℝ} (hempty : a.isEmpty = true) (hS : S = ∅) : IsHull S (some a)
  | missing (hS : S = ∅) : IsHull S none

namespace IsHull

variable {answer : Option (Interval ℝ)}

theorem spans_of_isEmpty_eq_false (h : IsHull S answer) {a : Interval ℝ} (ha : a ∈ answer)
    (hproper : a.isEmpty = false) : a.Spans S := by
  cases h with
  | spanned hspans =>
      cases ha
      exact hspans
  | crossed hempty _ =>
      cases ha
      cases hempty.symm.trans hproper
  | missing _ => cases ha

theorem exists_spans (h : IsHull S answer) (hS : S.Nonempty) :
    ∃ a, answer = some a ∧ a.Spans S := by
  cases h with
  | spanned hspans => exact ⟨_, rfl, hspans⟩
  | crossed _ hnone => exact absurd hnone hS.ne_empty
  | missing hnone => exact absurd hnone hS.ne_empty

theorem exists_mem (h : IsHull S answer) {x : ℝ} (hx : x ∈ S) : ∃ a, answer = some a ∧ x ∈ a := by
  obtain ⟨a, ha, hspans⟩ := h.exists_spans ⟨x, hx⟩
  exact ⟨a, ha, hspans.mem hx⟩

theorem isEmpty_iff (h : IsHull S answer) : (∀ a ∈ answer, a.isEmpty = true) ↔ S = ∅ := by
  constructor
  · intro hempty
    rw [Set.eq_empty_iff_forall_notMem]
    intro x hx
    obtain ⟨a, ha, hspans⟩ := h.exists_spans ⟨x, hx⟩
    cases (hempty a ha).symm.trans (isEmpty_eq_false_iff.mpr hspans.lo_le_hi)
  · intro hS a ha
    by_contra hproper
    have hspans := h.spans_of_isEmpty_eq_false ha (Bool.eq_false_of_not_eq_true hproper)
    rw [hS] at hspans
    exact hspans.1.1

end IsHull

/-- An interval, crossed or not, is the hull of its members. -/
theorem isHull_members {a : Interval ℝ} (hS : ∀ x, x ∈ S ↔ x ∈ a) : IsHull S (some a) := by
  have hset : S = {x | x ∈ a} := Set.ext hS
  rw [hset]
  cases hempty : a.isEmpty with
  | true => exact .crossed hempty (Set.eq_empty_of_forall_notMem (isEmpty_eq_true_iff.mp hempty))
  | false => exact .spanned (spans_members (isEmpty_eq_false_iff.mp hempty))

/-! ## Hulls of pieces -/

/-- The ends of a hull are ends of its pieces. -/
theorem hull_ends {pieces : List (Interval ℝ)} {a : Interval ℝ} (ha : hull pieces = some a) :
    (∃ p ∈ pieces, p.isEmpty = false ∧ p.lo = a.lo) ∧
      ∃ p ∈ pieces, p.isEmpty = false ∧ p.hi = a.hi := by
  have grows (ps : List (Interval ℝ)) : ∀ acc : Interval ℝ,
      let b := ps.foldl (fun acc q ↦ ⟨Scalar.min acc.lo q.lo, Scalar.max acc.hi q.hi⟩) acc
      (∃ p ∈ acc :: ps, p.lo = b.lo) ∧ ∃ p ∈ acc :: ps, p.hi = b.hi := by
    induction ps with
    | nil => simp
    | cons q ps ih =>
        intro acc
        obtain ⟨hlo, hhi⟩ := ih ⟨Scalar.min acc.lo q.lo, Scalar.max acc.hi q.hi⟩
        simp only [List.exists_mem_cons_iff, Scalar.min_real, Scalar.max_real] at hlo hhi ⊢
        constructor
        · rcases hlo with hlo | hlo
          · rcases min_choice acc.lo q.lo with hmin | hmin
            · exact Or.inl (hmin ▸ hlo)
            · exact Or.inr (Or.inl (hmin ▸ hlo))
          · exact Or.inr (Or.inr hlo)
        · rcases hhi with hhi | hhi
          · rcases max_choice acc.hi q.hi with hmax | hmax
            · exact Or.inl (hmax ▸ hhi)
            · exact Or.inr (Or.inl (hmax ▸ hhi))
          · exact Or.inr (Or.inr hhi)
  unfold hull at ha
  cases hf : pieces.filter (!·.isEmpty) with
  | nil =>
      rw [hf] at ha
      cases ha
  | cons q qs =>
      have hkept {p : Interval ℝ} (hp : p ∈ q :: qs) : p ∈ pieces ∧ p.isEmpty = false := by
        rw [← hf, List.mem_filter] at hp
        simpa using hp
      rw [hf] at ha
      cases ha
      obtain ⟨⟨p, hp, hlo⟩, p', hp', hhi⟩ := grows qs q
      exact ⟨⟨p, (hkept hp).1, (hkept hp).2, hlo⟩, p', (hkept hp').1, (hkept hp').2, hhi⟩

theorem isEmpty_hull {pieces : List (Interval ℝ)} {a : Interval ℝ} (ha : hull pieces = some a) :
    a.isEmpty = false := by
  obtain ⟨⟨p, hp, hproper, _⟩, _⟩ := hull_ends ha
  obtain ⟨b, hb, hmem⟩ := exists_hull_of_mem hp (lo_mem (isEmpty_eq_false_iff.mp hproper))
  rw [ha] at hb
  cases hb
  exact isEmpty_eq_false_of_mem hmem

/-- Pieces that cover a set and have their ends in it have its hull. -/
theorem isHull_hull {pieces : List (Interval ℝ)}
    (hends : ∀ p ∈ pieces, p.isEmpty = false → p.lo ∈ S ∧ p.hi ∈ S)
    (hcovers : ∀ x ∈ S, ∃ p ∈ pieces, x ∈ p) : IsHull S (hull pieces) := by
  have hencloses {x : ℝ} (hx : x ∈ S) : ∃ a, hull pieces = some a ∧ x ∈ a := by
    obtain ⟨p, hp, hxp⟩ := hcovers x hx
    exact exists_hull_of_mem hp hxp
  cases hhull : hull pieces with
  | none =>
      refine .missing (Set.eq_empty_of_forall_notMem fun x hx ↦ ?_)
      obtain ⟨a, ha, _⟩ := hencloses hx
      rw [hhull] at ha
      cases ha
  | some a =>
      obtain ⟨⟨p, hp, hproper, hlo⟩, p', hp', hproper', hhi⟩ := hull_ends hhull
      refine .spanned (spans_of_mem ?_ ?_ ?_)
      · exact hlo ▸ (hends p hp hproper).1
      · exact hhi ▸ (hends p' hp' hproper').2
      · intro x hx
        obtain ⟨b, hb, hxb⟩ := hencloses hx
        rw [hhull] at hb
        cases hb
        exact hxb

/-- Two answers together have the hull of both sets. -/
theorem IsHull.union {T : Set ℝ} {first second : Option (Interval ℝ)} (hS : IsHull S first)
    (hT : IsHull T second) : IsHull (S ∪ T) (hull (first.toList ++ second.toList)) := by
  apply isHull_hull
  · intro p hp hproper
    rcases List.mem_append.mp hp with hp | hp
    · have hspans := hS.spans_of_isEmpty_eq_false (Option.mem_toList.mp hp) hproper
      exact ⟨Or.inl hspans.1.1, Or.inl hspans.2.1⟩
    · have hspans := hT.spans_of_isEmpty_eq_false (Option.mem_toList.mp hp) hproper
      exact ⟨Or.inr hspans.1.1, Or.inr hspans.2.1⟩
  · rintro x (hx | hx)
    · obtain ⟨p, hp, hmem⟩ := hS.exists_mem hx
      exact ⟨p, List.mem_append_left _ (Option.mem_toList.mpr hp), hmem⟩
    · obtain ⟨p, hp, hmem⟩ := hT.exists_mem hx
      exact ⟨p, List.mem_append_right _ (Option.mem_toList.mpr hp), hmem⟩

/-- Pieces have the hull of the set of their members. -/
theorem isHull_hull_members {pieces : List (Interval ℝ)}
    (hS : ∀ x, x ∈ S ↔ ∃ p ∈ pieces, x ∈ p) : IsHull S (hull pieces) := by
  apply isHull_hull
  · intro p hp hproper
    have hle := isEmpty_eq_false_iff.mp hproper
    exact ⟨(hS p.lo).mpr ⟨p, hp, lo_mem hle⟩, (hS p.hi).mpr ⟨p, hp, hi_mem hle⟩⟩
  · intro x hx
    exact (hS x).mp hx

end GlobalQcqp.Interval
