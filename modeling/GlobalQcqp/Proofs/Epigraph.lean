import GlobalQcqp.Proofs.Problem
import GlobalQcqp.Proofs.Ranges
/-!
# The added variable

An epigraph variable is added behind the variables that a problem stores.  Without the last entry a
vector or a box of the larger problem is one of the problem it was added to, and the optimized
variables are the same.  Its range encloses the objective, so the value at any point of the box is
in it.
-/

namespace GlobalQcqp

section

variable {α : Type} {k : Nat}

/-- The vector without its last entry. -/
def dropLast (v : Vector α (k + 1)) : Vector α k :=
  Vector.ofFn fun i ↦ v[i.val]

@[simp] theorem getElem_dropLast (v : Vector α (k + 1)) (i : Nat) (hi : i < k) :
    (dropLast v)[i] = v[i] := by
  simp [dropLast]

theorem dropLast_push (v : Vector α k) (a : α) : dropLast (v.push a) = v := by
  ext i hi
  simp [hi]

theorem toArray_dropLast (v : Vector α (k + 1)) : (dropLast v).toArray = v.toArray.pop := by
  refine Array.ext (by simp) fun i hi _ ↦ ?_
  simp [dropLast]

/-- Only the last entry is left out of sight. -/
theorem dropLast_set_last (v : Vector α (k + 1)) (a : α) :
    dropLast (v.set k a) = dropLast v := by
  ext i hi
  rw [getElem_dropLast, getElem_dropLast, Vector.getElem_set_ne]
  omega

namespace Box

def dropLast (b : Box α (k + 1)) : Box α k :=
  ⟨GlobalQcqp.dropLast b.lower, GlobalQcqp.dropLast b.upper⟩

@[simp] theorem side_dropLast (b : Box α (k + 1)) (i : Fin k) :
    b.dropLast.side i = b.side i.castSucc := by
  simp [dropLast, side]

end Box

end

namespace Problem

section

variable {α : Type} [Scalar α] (p : Problem α) {range : Interval α} {h : ¬ range.hi < range.lo}

theorem dropLast_box : (p.addEpigraph range h).box.dropLast = p.box :=
  congrArg₂ Box.mk (dropLast_push p.box.lower range.lo) (dropLast_push p.box.upper range.hi)

theorem side_last : (p.addEpigraph range h).box.side (Fin.last p.stored) = range := by
  simp [addEpigraph, Box.side]

theorem getElem_places_addEpigraph (i : Fin p.size) :
    (p.addEpigraph range h).places[i] = Fin.castSucc p.places[i] :=
  Vector.getElem_map _ _

theorem variableAt?_castSucc (s : Fin p.stored) :
    (p.addEpigraph range h).variableAt? s.castSucc = p.variableAt? s := by
  refine congrArg (List.find? · (List.finRange p.size)) (funext fun i ↦ ?_)
  rw [getElem_places_addEpigraph, Bool.eq_iff_iff, beq_iff_eq, beq_iff_eq, Fin.castSucc_inj]

theorem restrict_addEpigraph {ε : Type} (v : Vector ε (p.stored + 1)) :
    (p.addEpigraph range h).restrict v = p.restrict (dropLast v) := by
  refine Vector.ext fun i hi ↦ ?_
  simp [restrict]

theorem restrictBox_addEpigraph (b : Box α (p.stored + 1)) :
    (p.addEpigraph range h).restrictBox b = p.restrictBox b.dropLast :=
  congrArg₂ Box.mk (p.restrict_addEpigraph b.lower) (p.restrict_addEpigraph b.upper)

theorem dropLast_scatter {ε : Type} (base : Vector ε (p.stored + 1)) (x : Vector ε p.size) :
    dropLast ((p.addEpigraph range h).scatter base x) = p.scatter (dropLast base) x := by
  refine Vector.ext fun i hi ↦ ?_
  have hentry := p.variableAt?_castSucc (h := h) ⟨i, hi⟩
  simp only [scatter, getElem_dropLast, Vector.getElem_ofFn, getElem_fin]
  exact congrArg (Option.elim · base[i] fun j ↦ x[j]) hentry

end

variable {p : Problem ℝ}

/-- The range of the objective over the root box is an interval that is not empty. -/
theorem objectiveRange_isProper (p : Problem ℝ) : p.objectiveRange.lo ≤ p.objectiveRange.hi := by
  have hmid := Box.midpoint_mem (restrictBox_isProper p.box_isProper)
  have hmem := p.objective.eval_mem_interval (p.restrictBox p.box).sides fun i ↦ by
    simpa using hmid i
  exact hmem.1.trans hmem.2

theorem eval_mem_objectiveRange {x : Vector ℝ p.size} (hx : x ∈ p.restrictBox p.box) :
    p.objective.eval x ∈ p.objectiveRange :=
  p.objective.eval_mem_interval (p.restrictBox p.box).sides fun i ↦ by simpa using hx i

/-- Over the real numbers an epigraph variable can always be added. -/
theorem withEpigraph_eq_ok (hp : p.epigraph = none) :
    ∃ h, p.withEpigraph = .ok (p.addEpigraph p.objectiveRange h) := by
  have h : ¬ p.objectiveRange.hi < p.objectiveRange.lo := not_lt.mpr p.objectiveRange_isProper
  refine ⟨h, ?_⟩
  simp [withEpigraph, hp, h]

/-- An epigraph variable that was added starts at the range of the objective. -/
theorem EpigraphIsAdded.eq_objectiveRange (hp : p.EpigraphIsAdded) :
    p.epigraph = none ∨ ∃ q : Problem ℝ, ∃ h, p = q.addEpigraph q.objectiveRange h := by
  rcases hp with hnone | ⟨q, hq, hadded⟩
  · exact Or.inl hnone
  · obtain ⟨h, hq⟩ := withEpigraph_eq_ok hq
    cases hq.symm.trans hadded
    exact Or.inr ⟨q, h, rfl⟩

end Problem

end GlobalQcqp
