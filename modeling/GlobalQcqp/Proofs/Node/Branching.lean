import GlobalQcqp.Proofs.Except
import GlobalQcqp.Proofs.Problem
import GlobalQcqp.Node.Branching
/-!
# The halves of a node

The halves of a node cover its box wherever it is split, also at a variable that is not optimized.
They inherit its bound.
-/

namespace GlobalQcqp

namespace Problem

theorem mem_restrictBox_setSide_of_mem {p : Problem ℝ} {b : Box ℝ p.stored} {i : Fin p.stored}
    {side : Interval ℝ} {x : Vector ℝ p.size} (hx : x ∈ p.restrictBox b)
    (hi : ∀ j : Fin p.size, p.places[j] = i → x[j] ∈ side) :
    x ∈ p.restrictBox (b.setSide i side) := by
  intro j
  rw [side_restrictBox, Box.side_setSide]
  split
  · exact hi j ‹_›
  · rw [← side_restrictBox]
    exact hx j

end Problem

namespace Node

section Halves

variable {α β : Type} [Scalar α] [Scalar β] [Extended α β] {k : Nat}
  {node half left right : Node α β k}

omit [Scalar β] [Extended α β] in
theorem eq_of_checked (h : half.checked = .ok node) : half = node := by
  unfold checked at h
  split at h
  · cases h
  · cases h
    rfl

omit [Scalar β] [Extended α β] in
theorem checked_eq_error_iff {e : NodeError} :
    half.checked = .error e ↔ half.box.isCrossed = true ∧ e = .crossed := by
  rw [checked]
  cases half.box.isCrossed with
  | true => simp [eq_comm]
  | false => simp

/-- A split is refused when one of the halves is crossed. -/
theorem split?_eq_error_iff {i : Fin k} {value : α} {id : Int} {e : NodeError} :
    node.split? i value id = .error e ↔ ((node.split i value id).1.box.isCrossed = true ∨
      (node.split i value id).2.box.isCrossed = true) ∧ e = .crossed := by
  simp only [split?, bind_eq_error_iff, checked_eq_error_iff, or_and_right]
  constructor
  · rintro (hleft | ⟨_, -, hright | ⟨_, -, h⟩⟩)
    · exact Or.inl hleft
    · exact Or.inr hright
    · cases h
  · rintro (hleft | ⟨hright, rfl⟩)
    · exact Or.inl hleft
    · cases hcrossed : (node.split i value id).1.box.isCrossed with
      | true => exact Or.inl ⟨rfl, rfl⟩
      | false =>
          refine Or.inr ⟨(node.split i value id).1, ?_, Or.inl ⟨hright, rfl⟩⟩
          rw [checked, hcrossed, if_neg Bool.false_ne_true]

theorem split?_eq_ok {i : Fin k} {value : α} {id : Int}
    (h : node.split? i value id = .ok (left, right)) : node.split i value id = (left, right) := by
  obtain ⟨_, hleft, h⟩ := bind_eq_ok_iff.mp h
  obtain ⟨_, hright, h⟩ := bind_eq_ok_iff.mp h
  cases h
  exact Prod.ext (eq_of_checked hleft) (eq_of_checked hright)

theorem id_of_split? {i : Fin k} {value : α} {id : Int}
    (h : node.split? i value id = .ok (left, right)) : left.id = id ∧ right.id = id + 1 := by
  cases split?_eq_ok h
  exact ⟨rfl, rfl⟩

theorem depth_of_split? {i : Fin k} {value : α} {id : Int}
    (h : node.split? i value id = .ok (left, right)) :
    left.depth = node.depth + 1 ∧ right.depth = node.depth + 1 := by
  cases split?_eq_ok h
  exact ⟨rfl, rfl⟩

end Halves

variable {k : Nat}

theorem split_left_box (node : Node ℝ EReal k) (i : Fin k) (value : ℝ) (id : Int) :
    (node.split i value id).1.box = node.box.setSide i ⟨(node.box.side i).lo, value⟩ := by
  simp [split, fresh, Box.setSide, Box.side]

theorem split_right_box (node : Node ℝ EReal k) (i : Fin k) (value : ℝ) (id : Int) :
    (node.split i value id).2.box = node.box.setSide i ⟨value, (node.box.side i).hi⟩ := by
  simp [split, fresh, Box.setSide, Box.side]

/-- Every point of the box is in one of the halves. -/
theorem split_covers {p : Problem ℝ} (node : Node ℝ EReal p.stored) (i : Fin p.stored) (value : ℝ)
    (id : Int) {x : Vector ℝ p.size} (hx : x ∈ p.restrictBox node.box) :
    x ∈ p.restrictBox (node.split i value id).1.box ∨
      x ∈ p.restrictBox (node.split i value id).2.box := by
  have hside (j : Fin p.size) (hj : p.places[j] = i) : x[j] ∈ node.box.side i := by
    rw [← hj, ← Problem.side_restrictBox]
    exact hx j
  rw [split_left_box, split_right_box]
  by_cases hle : ∀ j : Fin p.size, p.places[j] = i → x[j] ≤ value
  · left
    exact Problem.mem_restrictBox_setSide_of_mem hx fun j hj ↦ ⟨(hside j hj).1, hle j hj⟩
  · right
    push Not at hle
    obtain ⟨j, hj, hlt⟩ := hle
    refine Problem.mem_restrictBox_setSide_of_mem hx fun j' hj' ↦ ?_
    have heq : j' = j := p.places_injective j' j (hj'.trans hj.symm)
    rw [heq]
    exact ⟨hlt.le, (hside j hj).2⟩

theorem checked_eq_ok_iff {half node : Node ℝ EReal k} :
    half.checked = .ok node ↔ half = node ∧ half.box.IsProper := by
  rw [checked, ← Box.isCrossed_eq_false_iff]
  cases half.box.isCrossed with
  | true => simp
  | false => simp

/-- A split gives both halves unless one of them is crossed. -/
theorem split?_eq_ok_iff {node left right : Node ℝ EReal k} {i : Fin k} {value : ℝ} {id : Int} :
    node.split? i value id = .ok (left, right) ↔
      node.split i value id = (left, right) ∧ left.box.IsProper ∧ right.box.IsProper := by
  simp only [split?, bind_eq_ok_iff, checked_eq_ok_iff, pure_eq_ok, Except.ok.injEq, Prod.mk.injEq]
  constructor
  · rintro ⟨_, ⟨hleft, hproper⟩, _, ⟨hright, hproper'⟩, rfl, rfl⟩
    exact ⟨Prod.ext hleft hright, hleft ▸ hproper, hright ▸ hproper'⟩
  · rintro ⟨hsplit, hproper, hproper'⟩
    rw [hsplit]
    exact ⟨left, ⟨rfl, hproper⟩, right, ⟨rfl, hproper'⟩, rfl, rfl⟩

theorem split?_box_eq {node left right : Node ℝ EReal k} {i : Fin k} {value : ℝ} {id : Int}
    (h : node.split? i value id = .ok (left, right)) :
    left.box = node.box.setSide i ⟨(node.box.side i).lo, value⟩ ∧
      right.box = node.box.setSide i ⟨value, (node.box.side i).hi⟩ := by
  have hleft := congrArg (·.1.box) (split?_eq_ok h)
  have hright := congrArg (·.2.box) (split?_eq_ok h)
  rw [split_left_box] at hleft
  rw [split_right_box] at hright
  exact ⟨hleft.symm, hright.symm⟩

/-- The point of a split lies in the side that is split. -/
theorem mem_side_of_split? {node left right : Node ℝ EReal k} {i : Fin k} {value : ℝ} {id : Int}
    (h : node.split? i value id = .ok (left, right)) : value ∈ node.box.side i := by
  obtain ⟨-, hleft, hright⟩ := split?_eq_ok_iff.mp h
  obtain ⟨hlower, hupper⟩ := split?_box_eq h
  have hlo := hleft i
  have hhi := hright i
  rw [hlower, Box.side_setSide, if_pos rfl] at hlo
  rw [hupper, Box.side_setSide, if_pos rfl] at hhi
  exact ⟨hlo, hhi⟩

theorem split?_box_le {node left right : Node ℝ EReal k} {i : Fin k} {value : ℝ} {id : Int}
    (h : node.split? i value id = .ok (left, right)) :
    left.box ≤ node.box ∧ right.box ≤ node.box := by
  obtain ⟨hlo, hhi⟩ := mem_side_of_split? h
  obtain ⟨hlower, hupper⟩ := split?_box_eq h
  rw [hlower, hupper]
  exact ⟨Box.setSide_le ⟨le_rfl, hhi⟩, Box.setSide_le ⟨hlo, le_rfl⟩⟩

theorem split_priority {node left right : Node ℝ EReal k} {i : Fin k} {value : ℝ} {id : Int}
    (h : node.split i value id = (left, right)) :
    left.priority = node.bound ∧ right.priority = node.bound := by
  cases h
  exact ⟨rfl, rfl⟩

/-! ## Steps that are not refused -/

theorem split?_succeeds {node : Node ℝ EReal k} {i : Fin k} {value : ℝ} (id : Int)
    (hbox : node.box.IsProper) (hvalue : value ∈ node.box.side i) :
    Succeeds (node.split? i value id) := by
  have hleft : (node.split i value id).1.box.IsProper := by
    rw [split_left_box]
    exact hbox.setSide hvalue.1
  have hright : (node.split i value id).2.box.IsProper := by
    rw [split_right_box]
    exact hbox.setSide hvalue.2
  exact ⟨_, split?_eq_ok_iff.mpr ⟨rfl, hleft, hright⟩⟩

end Node

namespace Branching

variable {α β : Type} [Scalar α] {k : Nat} {node : Node α β k}

theorem select_succeeds (hsize : ∀ x ∈ node.relaxed, x.size = k) (rule : BranchingRule)
    (branchable : Vector Bool k) (rootWidths : Vector α k) (minWidth : α) :
    Succeeds (select rule branchable rootWidths minWidth node) := by
  simp only [select]
  split
  · exact succeeds_ok _
  · split
    · rename_i x hx
      rw [fit?, dif_pos (hsize x hx)]
      exact succeeds_ok _
    · exact succeeds_ok _

theorem point_succeeds (hsize : ∀ x ∈ node.relaxed, x.size = k) (rule : BranchPoint) (i : Fin k) :
    Succeeds (point rule node i) := by
  simp only [point]
  split
  · rename_i x hx
    have hi : i.val < x.size := (hsize x hx).symm ▸ i.isLt
    rw [Array.getElem?_eq_getElem hi]
    exact succeeds_ok _
  · exact succeeds_ok _

end Branching

end GlobalQcqp
