import GlobalQcqp.Proofs.Node.LowerBound.Calls
/-!
# Stored points of a lower solve

A relaxed point is written over the optimized entries of the point a node has stored, or of the
midpoint of its box, and the result is moved into the box.  So an auxiliary entry keeps its value
unless the range of its variable has moved past that value since it was stored.
-/

namespace GlobalQcqp

open Scalar (isUndefined)

/-! ## Clamping -/

namespace Scalar

variable {γ : Type} [Scalar γ] {lo hi a : γ}

theorem clamp_of_isUndefined (ha : isUndefined a = true) : clamp lo hi a = a := by
  simp only [clamp, greater, lesser, if_pos ha]

theorem clamp_eq_self (hlo : isUndefined lo = false) (hhi : isUndefined hi = false)
    (hlower : ¬ a < lo) (hupper : ¬ hi < a) : clamp lo hi a = a := by
  cases ha : isUndefined a with
  | true => exact clamp_of_isUndefined ha
  | false => simp [clamp, greater, lesser, max, min, ha, hlo, hhi, hlower, hupper]

theorem clamp_eq_lower (hlo : isUndefined lo = false) (hhi : isUndefined hi = false)
    (ha : isUndefined a = false) (hproper : ¬ hi < lo) (hlower : a < lo) : clamp lo hi a = lo := by
  simp [clamp, greater, lesser, max, min, ha, hlo, hhi, hproper, hlower]

theorem clamp_eq_upper (hlo : isUndefined lo = false) (hhi : isUndefined hi = false)
    (ha : isUndefined a = false) (hlower : ¬ a < lo) (hupper : hi < a) : clamp lo hi a = hi := by
  simp [clamp, greater, lesser, max, min, ha, hlo, hhi, hlower, hupper]

end Scalar

variable {α β : Type} [Scalar α] {k : ℕ}

namespace Box

/-- The ends of every side are numbers that do not cross. -/
def IsOrdered (b : Box α k) : Prop :=
  ∀ i : Fin k, isUndefined b.lower[i] = false ∧ isUndefined b.upper[i] = false ∧
    ¬ b.upper[i] < b.lower[i]

theorem getElem_clamp (b : Box α k) (x : Vector α k) (i : Fin k) :
    (b.clamp x)[i] = Scalar.clamp b.lower[i] b.upper[i] x[i] := by
  simp only [clamp, getElem_fin, Vector.getElem_ofFn]

theorem IsOrdered.clamp_mem [LawfulScalar α] {b : Box α k} (hb : b.IsOrdered) (x : Vector α k)
    (i : Fin k) (hi : isUndefined (b.clamp x)[i] = false) :
    b.lower[i] ≤ (b.clamp x)[i] ∧ (b.clamp x)[i] ≤ b.upper[i] := by
  obtain ⟨hlo, hhi, hproper⟩ := hb i
  rw [getElem_clamp] at hi ⊢
  refine Scalar.clamp_mem hlo hhi ?_ (LawfulScalar.le_of_not_lt hhi hlo hproper)
  cases hx : isUndefined x[i] with
  | true => rwa [Scalar.clamp_of_isUndefined hx, hx] at hi
  | false => rfl

end Box

namespace Problem

variable (p : Problem α)

/-- The optimized entries of a vector in a box are those of the vector, moved into their sides. -/
theorem restrict_clamp (b : Box α p.stored) (v : Vector α p.stored) :
    p.restrict (b.clamp v) = (p.restrictBox b).clamp (p.restrict v) := by
  refine Vector.ext fun i hi ↦ ?_
  have hentry := p.getElem_restrict (b.clamp v) ⟨i, hi⟩
  have hclamp := (p.restrictBox b).getElem_clamp (p.restrict v) ⟨i, hi⟩
  rw [Box.getElem_clamp] at hentry
  simp only [restrictBox, getElem_restrict] at hclamp
  exact hentry.trans hclamp.symm

theorem getElem_scatter_of_none {ε : Type} (base : Vector ε p.stored) (x : Vector ε p.size)
    {s : Fin p.stored} (hs : p.variableAt? s = none) : (p.scatter base x)[s] = base[s] := by
  rw [getElem_scatter, hs]
  rfl

end Problem

namespace Lower

theorem warmStart_eq {node : Node α β k} {v : Vector α k} (h : node.relaxed = some v.toArray) :
    warmStart node = v := by
  rw [warmStart, h]
  exact dif_pos v.size_toArray

theorem warmStart_eq_midpoint {node : Node α β k} (h : ∀ v ∈ node.relaxed, v.size ≠ k) :
    warmStart node = node.box.midpoint := by
  unfold warmStart
  split
  · exact dif_neg (h _ ‹_›)
  · rfl

/-- The optimized entries are those of the relaxed point and the auxiliary ones those of the stored
point, all of them moved into the box.  An auxiliary entry that is in its range already is kept. -/
theorem writeBack_moves_into_box [LawfulScalar α] {p : Problem α} {node : Node α β p.stored}
    (hbox : node.box.IsOrdered) (x : Vector α p.size) : ∃ before y : Vector α p.stored,
      (∀ v : Vector α p.stored, node.relaxed = some v.toArray → before = v) ∧
      ((∀ v ∈ node.relaxed, v.size ≠ p.stored) → before = node.box.midpoint) ∧
      writeBack p node x.toArray = .ok y ∧
      (∀ s : Fin p.stored, isUndefined y[s] = false →
        node.box.lower[s] ≤ y[s] ∧ y[s] ≤ node.box.upper[s]) ∧
      p.restrict y = (p.restrictBox node.box).clamp x ∧
      ∀ s : Fin p.stored, p.variableAt? s = none →
        (¬ before[s] < node.box.lower[s] → ¬ node.box.upper[s] < before[s] → y[s] = before[s]) ∧
        (isUndefined before[s] = false →
          (before[s] < node.box.lower[s] → y[s] = node.box.lower[s]) ∧
          (¬ before[s] < node.box.lower[s] → node.box.upper[s] < before[s] →
            y[s] = node.box.upper[s])) := by
  refine ⟨warmStart node, _, fun v ↦ warmStart_eq, warmStart_eq_midpoint,
    writeBack_toArray p node x, hbox.clamp_mem _, ?_, fun s hs ↦ ?_⟩
  · rw [p.restrict_clamp, p.restrict_scatter]
  · obtain ⟨hlo, hhi, hproper⟩ := hbox s
    rw [Box.getElem_clamp, p.getElem_scatter_of_none _ _ hs]
    refine ⟨Scalar.clamp_eq_self hlo hhi, fun hbefore ↦ ⟨?_, ?_⟩⟩
    · exact Scalar.clamp_eq_lower hlo hhi hbefore hproper
    · exact Scalar.clamp_eq_upper hlo hhi hbefore

end Lower

namespace MachineLine

/-- The line with an auxiliary variable that was given the range of the objective. -/
abbrev withEpigraph : Problem Float :=
  problem.addEpigraph ⟨0, 1⟩ (by decide)

/-- A node with the auxiliary range halved after its point was stored. -/
def halved : Node Float Float 2 :=
  .fresh negInf 0 0 ⟨#v[0, 0], #v[1, 0.5]⟩ (some #[0.25, 0.75])

theorem writeBack_halved_in_box : halved.box.IsOrdered ∧ ∃ y : Vector Float 2,
    Lower.writeBack withEpigraph halved (#v[0.5] : Vector Float 1).toArray = .ok y ∧
      y[Fin.last 1] = halved.box.upper[Fin.last 1] := by
  have hordered : halved.box.IsOrdered := by
    unfold Box.IsOrdered
    decide +kernel
  obtain ⟨before, y, hbefore, -, hwrite, -, -, hauxiliary⟩ :=
    Lower.writeBack_moves_into_box (p := withEpigraph) hordered #v[0.5]
  obtain rfl := hbefore #v[0.25, 0.75] rfl
  obtain ⟨-, hmoved⟩ := hauxiliary (Fin.last 1) (by decide +kernel)
  obtain ⟨-, hupper⟩ := hmoved (by decide +kernel)
  exact ⟨hordered, y, hwrite, hupper (by decide +kernel) (by decide +kernel)⟩

/-- The auxiliary entry that was stored lies outside the box and does not survive. -/
example : (Lower.writeBack withEpigraph halved #[0.5]).toOption.map (·.toArray) =
    some #[0.5, 0.5] := by
  decide +kernel

end MachineLine

end GlobalQcqp
