import GlobalQcqp.Proofs.Node.Branching
/-!
# How often a box can be split

Only branchable sides wider than the minimum are split, and wherever a side is split, each half is
narrower by the margin at least.  So a side can be split only so often, and the rank of a box adds
this up over the branchable variables.  It depends on their widths and on the minimum alone.  A
smaller box has no larger rank, and a half has a smaller one.
-/

namespace GlobalQcqp

variable {k : Nat} {minWidth : ℝ}

/-- How often a width has to lose a tenth until it is no larger than the minimum. -/
noncomputable def shrinkCount (minWidth width : ℝ) : ℕ :=
  sInf {count | 0.9 ^ count * width ≤ minWidth}

theorem shrinkCount_spec (hmin : 0 < minWidth) (width : ℝ) :
    0.9 ^ shrinkCount minWidth width * width ≤ minWidth := by
  have hsome : ∃ count : ℕ, (0.9 : ℝ) ^ count * width ≤ minWidth := by
    rcases le_or_gt width minWidth with hle | hgt
    · exact ⟨0, by simpa using hle⟩
    · have hwidth : 0 < width := hmin.trans hgt
      obtain ⟨count, hcount⟩ :=
        exists_pow_lt_of_lt_one (div_pos hmin hwidth) (by norm_num : (0.9 : ℝ) < 1)
      exact ⟨count, ((lt_div_iff₀ hwidth).mp hcount).le⟩
  exact Nat.sInf_mem hsome

theorem shrinkCount_le {width : ℝ} {count : ℕ} (h : 0.9 ^ count * width ≤ minWidth) :
    shrinkCount minWidth width ≤ count :=
  Nat.sInf_le h

theorem shrinkCount_mono (hmin : 0 < minWidth) {a b : ℝ} (hab : a ≤ b) :
    shrinkCount minWidth a ≤ shrinkCount minWidth b := by
  refine shrinkCount_le ((mul_le_mul_of_nonneg_left hab ?_).trans (shrinkCount_spec hmin b))
  positivity

/-- A width above the minimum that loses a tenth has one loss less to come. -/
theorem shrinkCount_lt (hmin : 0 < minWidth) {a b : ℝ} (hwide : minWidth < b)
    (hab : a ≤ 0.9 * b) : shrinkCount minWidth a < shrinkCount minWidth b := by
  have hspec := shrinkCount_spec hmin b
  cases hcount : shrinkCount minWidth b with
  | zero =>
      rw [hcount, pow_zero, one_mul] at hspec
      exact absurd hwide hspec.not_gt
  | succ count =>
      rw [hcount] at hspec
      refine Nat.lt_succ_of_le (shrinkCount_le ?_)
      calc 0.9 ^ count * a ≤ 0.9 ^ count * (0.9 * b) := by gcongr
        _ = 0.9 ^ (count + 1) * b := by ring
        _ ≤ minWidth := hspec

/-- How often sides of a box with these widths can be split, one after the other. -/
noncomputable def splitRank (branchable : Vector Bool k) (minWidth : ℝ) (widths : Vector ℝ k) : ℕ :=
  ∑ i : Fin k with branchable[i] = true, shrinkCount minWidth widths[i]

namespace Box

variable {branchable : Vector Bool k} {b c : Box ℝ k}

theorem getElem_widths (b : Box ℝ k) (i : Fin k) :
    b.widths[i] = (b.side i).hi - (b.side i).lo := by
  simp [widths, side]

theorem widths_mono (hbc : b ≤ c) (i : Fin k) : b.widths[i] ≤ c.widths[i] := by
  rw [getElem_widths, getElem_widths]
  exact sub_le_sub (hbc i).2 (hbc i).1

theorem splitRank_mono (hmin : 0 < minWidth) (hbc : b ≤ c) :
    splitRank branchable minWidth b.widths ≤ splitRank branchable minWidth c.widths :=
  Finset.sum_le_sum fun i _ ↦ shrinkCount_mono hmin (widths_mono hbc i)

/-- Replacing a side that can be split by one that is a tenth narrower lowers the rank. -/
theorem splitRank_setSide_lt (hmin : 0 < minWidth) {i : Fin k} {side : Interval ℝ}
    (hbranchable : branchable[i] = true) (hwide : minWidth < b.widths[i]) (hle : side ≤ b.side i)
    (hnarrow : side.hi - side.lo ≤ 0.9 * b.widths[i]) :
    splitRank branchable minWidth (b.setSide i side).widths <
      splitRank branchable minWidth b.widths := by
  refine Finset.sum_lt_sum ?_ ⟨i, ?_, ?_⟩
  · intro j _
    exact shrinkCount_mono hmin (widths_mono (setSide_le hle) j)
  · exact Finset.mem_filter.mpr ⟨Finset.mem_univ i, hbranchable⟩
  · refine shrinkCount_lt hmin hwide ?_
    rw [getElem_widths, side_setSide, if_pos rfl]
    exact hnarrow

end Box

/-! ## What is split, and where -/

theorem foldl_better_mem {ι : Type} (value : ι → ℝ) (rest : List ι) (best : ι) :
    rest.foldl (firstLargest?.better value) best ∈ best :: rest := by
  induction rest generalizing best with
  | nil => exact List.mem_singleton_self best
  | cons j rest ih =>
      have hbetter : firstLargest?.better value best j = best ∨
          firstLargest?.better value best j = j := by
        unfold firstLargest?.better
        split
        · exact Or.inl rfl
        · split
          · exact Or.inr rfl
          · exact Or.inl rfl
      have hmem := ih (firstLargest?.better value best j)
      rw [List.foldl_cons]
      rcases hbetter with hbest | hnext
      · rw [hbest] at hmem ⊢
        exact List.cons_subset_cons best (List.subset_cons_self j rest) hmem
      · rw [hnext] at hmem ⊢
        exact List.mem_cons_of_mem best hmem

theorem mem_of_firstLargest? {ι : Type} {value : ι → ℝ} {l : List ι} {i : ι}
    (h : firstLargest? value l = some i) : i ∈ l := by
  cases l with
  | nil => cases h
  | cons j rest =>
      cases h
      exact foldl_better_mem value rest j

namespace Branching

variable {rule : BranchingRule} {branchPoint : BranchPoint} {branchable : Vector Bool k}
  {rootWidths : Vector ℝ k} {node : Node ℝ EReal k} {i : Fin k}

theorem mem_eligible : i ∈ eligible branchable node minWidth ↔
    branchable[i] = true ∧ minWidth < node.box.widths[i] := by
  simp [eligible]

theorem gapPick_mem {rel scores : Vector ℝ k} {candidates : List (Fin k)} {widest : Fin k}
    (hwidest : widest ∈ candidates) : gapPick rel scores candidates widest ∈ candidates := by
  unfold gapPick
  split
  · exact hwidest
  · have hbest := mem_of_firstLargest? ‹firstLargest? _ candidates = some _›
    split
    · exact hwidest
    · split
      · exact hwidest
      · exact hbest

/-- Neither rule picks a variable that is not eligible. -/
theorem mem_eligible_of_select
    (h : select rule branchable rootWidths minWidth node = .ok (some i)) :
    i ∈ eligible branchable node minWidth := by
  simp only [select] at h
  split at h
  · cases h
  · have hwidest := mem_of_firstLargest? ‹widest? _ _ = some _›
    split at h
    · split at h
      · cases h
      · cases h
        exact gapPick_mem hwidest
    · cases h
      exact hwidest

/-- A split leaves a tenth of the width at least on each side. -/
theorem point_mem (hside : (node.box.side i).lo ≤ (node.box.side i).hi) {value : ℝ}
    (h : point branchPoint node i = .ok value) :
    (node.box.side i).lo + 0.1 * node.box.widths[i] ≤ value ∧
      value ≤ (node.box.side i).hi - 0.1 * node.box.widths[i] := by
  rw [Box.getElem_widths]
  simp only [point] at h
  split at h
  · split at h
    · cases h
    · cases h
      rw [Scalar.clamp_real, margin]
      refine ⟨le_min (le_max_right _ _) ?_, min_le_right _ _⟩
      linarith
  · cases h
    constructor
    · linarith
    · linarith

theorem point_mem_side (hside : (node.box.side i).lo ≤ (node.box.side i).hi) {value : ℝ}
    (h : point branchPoint node i = .ok value) : value ∈ node.box.side i := by
  obtain ⟨hlo, hhi⟩ := point_mem hside h
  rw [Box.getElem_widths] at hlo hhi
  constructor
  · linarith
  · linarith

end Branching

/-- Each half has a smaller rank than the node. -/
theorem Node.splitRank_lt_of_split? {rule : BranchingRule} {branchPoint : BranchPoint}
    {branchable : Vector Bool k} {rootWidths : Vector ℝ k} {node left right : Node ℝ EReal k}
    {i : Fin k} {value : ℝ} {id : Int} (hmin : 0 < minWidth) (hbox : node.box.IsProper)
    (hselect : Branching.select rule branchable rootWidths minWidth node = .ok (some i))
    (hpoint : Branching.point branchPoint node i = .ok value)
    (hsplit : node.split? i value id = .ok (left, right)) :
    splitRank branchable minWidth left.box.widths <
        splitRank branchable minWidth node.box.widths ∧
      splitRank branchable minWidth right.box.widths <
        splitRank branchable minWidth node.box.widths := by
  obtain ⟨hbranchable, hwide⟩ :=
    Branching.mem_eligible.mp (Branching.mem_eligible_of_select hselect)
  obtain ⟨hleft, hright⟩ := split?_box_eq hsplit
  obtain ⟨hlo, hhi⟩ := mem_side_of_split? hsplit
  obtain ⟨hfar, hnear⟩ := Branching.point_mem (hbox i) hpoint
  have hwidth := Box.getElem_widths node.box i
  rw [hleft, hright]
  constructor
  · refine Box.splitRank_setSide_lt hmin hbranchable hwide ⟨le_rfl, hhi⟩ ?_
    simp only
    linarith
  · refine Box.splitRank_setSide_lt hmin hbranchable hwide ⟨hlo, le_rfl⟩ ?_
    simp only
    linarith

end GlobalQcqp
