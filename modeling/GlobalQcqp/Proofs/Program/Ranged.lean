import GlobalQcqp.Proofs.Program
import GlobalQcqp.Proofs.Ranges.Slope
/-!
# Two forms of a local problem

A local problem is posed as a program with conditions or as a program with limits.  The signs, the
order of the functions and the lists of limits differ, but both forms ask for the same points and
start from the same one.

The derivatives of a ranged program are kept as one list.  Its blocks are the gradients of the
functions, in the order in which the limits are kept.
-/

namespace GlobalQcqp

variable {n : ℕ}

/-! ## Lists in blocks -/

section

variable {γ ε : Type} {R : γ → ε → Prop} {S : ε → γ → Prop} {a b : γ}

theorem forall₂_replicate_append (l m : List ε) :
    List.Forall₂ R (.replicate l.length a ++ .replicate m.length b) (l ++ m) ↔
      (∀ x ∈ l, R a x) ∧ ∀ x ∈ m, R b x := by
  induction l with
  | nil => simp [← List.map_const', List.forall₂_map_left_iff]
  | cons x l ih => simp [List.replicate_succ, ih, and_assoc]

theorem forall₂_replicate_right (l : List ε) :
    List.Forall₂ S l (.replicate l.length a) ↔ ∀ x ∈ l, S x a := by
  rw [← List.map_const', List.forall₂_map_right_iff, List.forall₂_same]

theorem getElem?_flatMap_of_length {f : ε → List γ} (hf : ∀ x, (f x).length = n) (l : List ε)
    (k : ℕ) {j : ℕ} (hj : j < n) : (l.flatMap f)[k * n + j]? = l[k]?.bind fun x ↦ (f x)[j]? := by
  induction l generalizing k with
  | nil => simp
  | cons x l ih =>
      rw [List.flatMap_cons]
      cases k with
      | zero =>
          rw [List.getElem?_append_left (by rw [hf]; omega)]
          simp
      | succ k =>
          have hpast : (k + 1) * n + j = (f x).length + (k * n + j) := by
            rw [hf]
            ring
          rw [hpast, List.getElem?_append_right (Nat.le_add_right _ _), Nat.add_sub_cancel_left,
            ih k, List.getElem?_cons_succ]

end

/-! ## Derivatives -/

/-- The entries of the gradient at `x` are the partial derivatives there. -/
def Smooth.IsExactAt (f : Smooth ℝ n) (x : Vector ℝ n) : Prop :=
  ∀ j : Fin n, HasDerivAt (fun t ↦ f.value (x.set j t j.isLt)) (f.gradient x)[j] x[j]

@[simp] theorem Quadratic.value_smooth (q : Quadratic ℝ n) (x : Vector ℝ n) :
    q.smooth.value x = q.eval x :=
  rfl

@[simp] theorem Quadratic.gradient_smooth (q : Quadratic ℝ n) (x : Vector ℝ n) :
    q.smooth.gradient x = q.gradient x :=
  rfl

/-- As a function of one variable a quadratic has its slope and its rest as coefficients. -/
theorem Quadratic.smooth_isExactAt (q : Quadratic ℝ n) (x : Vector ℝ n) : q.smooth.IsExactAt x := by
  intro j
  have hvalue (t : ℝ) : q.smooth.value (x.set j t) =
      1 / 2 * q.hessian[j][j] * (t * t) + q.slopeAt j x * t +
        (q.constant + q.termsOver {j}ᶜ x) := by
    have hothers (i : Fin n) (hi : i ≠ j) : (x.set j t)[i] = x[i] := by
      rw [getElem_fin, Vector.getElem_set_ne _ _ fun h ↦ hi (Fin.ext h.symm), getElem_fin]
    have hcoordinate : (x.set j t)[j] = t := by
      rw [getElem_fin, Vector.getElem_set_self]
    obtain ⟨hslope, hrest⟩ := q.slopeAt_termsOver_congr hothers
    rw [value_smooth, q.eval_eq_split j, hslope, hrest, hcoordinate]
  rw [funext hvalue, gradient_smooth, q.getElem_gradient]
  have hsquare := ((hasDerivAt_id x[j]).mul (hasDerivAt_id x[j])).const_mul
    (1 / 2 * q.hessian[j][j])
  have hproduct := (hasDerivAt_id x[j]).const_mul (q.slopeAt j x)
  refine ((hsquare.add hproduct).add_const _).congr_deriv ?_
  simp only [id_eq]
  ring

/-! ## Points of the two forms -/

/-- The points of the box at which the value of every function is between its limits. -/
def RangedProgram.feasibleSet (p : RangedProgram ℝ EReal n) : Set (Vector ℝ n) :=
  {x | x ∈ p.box ∧ List.Forall₂ (fun (lower : EReal) (v : ℝ) ↦ lower ≤ v) p.lower (p.values x) ∧
    List.Forall₂ (fun (v : ℝ) (upper : EReal) ↦ v ≤ upper) (p.values x) p.upper}

namespace SmoothProblem

variable (c : SmoothProblem ℝ n)

def feasibleSet : Set (Vector ℝ n) :=
  {x | x ∈ c.box ∧ (∀ g ∈ c.constraints, g.value x ≤ 0) ∧ ∀ h ∈ c.equalities, h.value x = 0}

theorem feasibleSet_program : c.program.feasibleSet = c.feasibleSet := by
  ext x
  simp [program, Program.feasibleSet, feasibleSet, Condition.Holds, Smooth.neg, or_imp, forall_and,
    Box.mem_iff]

theorem feasibleSet_ranged : (c.ranged : RangedProgram ℝ EReal n).feasibleSet = c.feasibleSet := by
  ext x
  simp only [RangedProgram.feasibleSet, feasibleSet, RangedProgram.values, ranged,
    Set.mem_ofPred_eq, List.forall₂_map_right_iff, List.forall₂_map_left_iff,
    forall₂_replicate_append, forall₂_replicate_right]
  constructor
  · rintro ⟨hbox, ⟨hlower, -⟩, hupper⟩
    obtain ⟨hequal, hbelow⟩ := List.forall_mem_append.mp hupper
    refine ⟨hbox, fun g hg ↦ EReal.coe_nonpos.mp (hbelow g hg), fun h hh ↦ ?_⟩
    exact le_antisymm (EReal.coe_nonpos.mp (hequal h hh)) (EReal.coe_nonneg.mp (hlower h hh))
  · rintro ⟨hbox, hbelow, hequal⟩
    refine ⟨hbox, ⟨fun h hh ↦ EReal.coe_nonneg.mpr (hequal h hh).ge, fun g _ ↦ bot_le⟩,
      List.forall_mem_append.mpr ⟨fun h hh ↦ ?_, fun g hg ↦ ?_⟩⟩
    · exact EReal.coe_nonpos.mpr (hequal h hh).le
    · exact EReal.coe_nonpos.mpr (hbelow g hg)

end SmoothProblem

/-! ## Derivatives of a ranged program -/

namespace RangedProgram

variable (p : RangedProgram ℝ EReal n) (x : Vector ℝ n)

theorem length_jacobian : (p.jacobian x).length = p.functions.length * n := by
  simp [jacobian, List.length_flatMap]

theorem getElem?_jacobian (k : Fin p.functions.length) (j : Fin n) :
    (p.jacobian x)[k * n + j]? = some (p.functions[k].gradient x)[j] := by
  have hlength (f : Smooth ℝ n) : (f.gradient x).toList.length = n := Vector.length_toList
  rw [jacobian, getElem?_flatMap_of_length hlength _ _ j.isLt]
  simp

end RangedProgram

/-- Both forms of a local problem have its objective, admit its feasible points, and start from the
nearest point of its box.  The list of derivatives has a block for every function with limits. -/
theorem SmoothProblem.program_ranged_agree (c : SmoothProblem ℝ n) :
    let p := c.program
    let r : RangedProgram ℝ EReal n := c.ranged
    p.feasibleSet = c.feasibleSet ∧ r.feasibleSet = c.feasibleSet ∧
      p.objective = c.objective ∧ r.objective = c.objective ∧
      p.start = c.box.clamp c.start ∧ r.start = c.box.clamp c.start ∧
      r.lower.length = r.functions.length ∧ r.upper.length = r.functions.length ∧
      ∀ x : Vector ℝ n, (r.jacobian x).length = r.functions.length * n ∧
        ∀ (k : Fin r.functions.length) (j : Fin n), r.functions[k].IsExactAt x →
          ∃ d, (r.jacobian x)[k * n + j]? = some d ∧
            HasDerivAt (fun t ↦ r.functions[k].value (x.set j t j.isLt)) d x[j] := by
  intro p r
  refine ⟨c.feasibleSet_program, c.feasibleSet_ranged, rfl, rfl, rfl, rfl, ?_, ?_, fun x ↦
    ⟨r.length_jacobian x, fun k j hexact ↦ ⟨_, r.getElem?_jacobian x k j, hexact j⟩⟩⟩
  · simp [r, ranged]
  · simp [r, ranged]

namespace LocalProblem

theorem isExactAt_of_mem_ranged (c : LocalProblem ℝ n) (x : Vector ℝ n)
    {f : Smooth ℝ n} (hf : f ∈ (c.ranged : RangedProgram ℝ EReal n).functions) :
    f.IsExactAt x := by
  simp only [ranged, SmoothProblem.ranged, smooth, List.mem_append, List.mem_map] at hf
  rcases hf with ⟨q, -, rfl⟩ | ⟨q, -, rfl⟩
  · exact q.smooth_isExactAt x
  · exact q.smooth_isExactAt x

/-- Minimizes the second coordinate on a branch of a hyperbola, from a point outside the box. -/
noncomputable def hyperbola : LocalProblem ℝ 2 where
  objective := .coordinate (Fin.last 1) 1
  constraints := [(Quadratic.coordinate (Fin.last 1) 1).subConst 1]
  equalities :=
    [.ofMatrix (.ofFn fun i ↦ .ofFn fun j ↦ if i = j then 0 else 1) (.replicate 2 0) (-1)]
  box := ⟨.replicate 2 0, .replicate 2 1⟩
  start := .replicate 2 (-1)

theorem program_ranged_hyperbola :
    let r : RangedProgram ℝ EReal 2 := hyperbola.smooth.ranged
    #v[1, 1] ∈ hyperbola.smooth.program.feasibleSet ∧ #v[1, 1] ∈ r.feasibleSet ∧
      ∃ f ∈ r.functions, f.IsExactAt #v[1, 1] ∧ ∃ d, (r.jacobian #v[1, 1])[1]? = some d ∧
        HasDerivAt (fun t ↦ f.value #v[1, t]) d 1 := by
  intro r
  obtain ⟨hprogram, hranged, -, -, -, -, -, -, hjacobian⟩ :=
    hyperbola.smooth.program_ranged_agree
  have hmem : #v[1, 1] ∈ hyperbola.smooth.feasibleSet := by
    refine ⟨fun i ↦ ?_, ?_, ?_⟩
    · fin_cases i <;> norm_num [hyperbola, smooth, Box.side, Interval.mem_iff]
    · simp only [hyperbola, smooth, List.map_cons, List.map_nil,
        List.forall_mem_singleton, Quadratic.value_smooth, Quadratic.eval_subConst,
        Quadratic.eval_coordinate]
      norm_num
    · simp only [hyperbola, smooth, List.map_cons, List.map_nil,
        List.forall_mem_singleton, Quadratic.value_smooth, Quadratic.eval_ofMatrix]
      norm_num [Fin.sum_univ_two]
  have hexact := hyperbola.isExactAt_of_mem_ranged #v[1, 1]
    (List.mem_cons_self : r.functions[0] ∈ r.functions)
  obtain ⟨d, hd, hderiv⟩ := (hjacobian #v[1, 1]).2 ⟨0, Nat.zero_lt_two⟩ 1 hexact
  exact ⟨hprogram ▸ hmem, hranged ▸ hmem, _, List.mem_cons_self, hexact, d, hd, hderiv⟩

end LocalProblem

end GlobalQcqp
