import GlobalQcqp.Proofs.Frozen
import GlobalQcqp.Proofs.Program
import GlobalQcqp.Proofs.Relaxation.Convexity
import GlobalQcqp.Solver.Staged
/-!
# Staged solves with an exact minimizer

The main program asks for the least value of the objective over the feasible points of the slice
that is left once the narrow coordinates are frozen.  The slice is compact, so the least value is
attained unless there is no such point.  An exact minimizer then settles everything in the main
solve: what phase one answers matters only if the slice has no feasible point, where refuting is
right and the second main solve does not succeed.
-/

namespace GlobalQcqp

variable {n : ℕ} {ε σ : Type}

/-! ## Attained minima -/

theorem Quadratic.continuous_toFun (q : Quadratic ℝ n) : Continuous q.toFun := by
  simp only [funext q.toFun_eq]
  fun_prop

namespace ConvexProblem

variable {c : ConvexProblem ℝ n}

theorem violation_le_iff {x : Vector ℝ n} {a : ℝ} :
    c.violation x ≤ a ↔ 0 ≤ a ∧ ∀ g ∈ c.constraints, g.eval x ≤ a :=
  Scalar.foldl_max_le_iff

theorem violation_nonpos {x : Vector ℝ n} (hx : x ∈ c.feasibleSet) : c.violation x ≤ 0 :=
  violation_le_iff.mpr ⟨le_rfl, hx.2⟩

/-- The feasible points of a slice are closed and bounded. -/
theorem isCompact_feasibleSet_inter_slice (c : ConvexProblem ℝ n) (b : FrozenBox ℝ n) :
    IsCompact {v : Fin n → ℝ | Vector.ofFn v ∈ c.feasibleSet ∩ b.slice} := by
  have hside (side : Interval ℝ) (i : Fin n) : IsClosed {v : Fin n → ℝ | v i ∈ side} :=
    isClosed_Icc.preimage (continuous_apply i)
  refine IsCompact.of_isClosed_subset
    (isCompact_Icc (a := c.box.lower.get) (b := c.box.upper.get)) ?_ fun v hv ↦ ?_
  · simp only [Set.mem_inter_iff, feasibleSet, FrozenBox.slice, Set.mem_ofPred_eq, Box.mem_iff,
      getElem_fin, Vector.getElem_ofFn]
    simp only [Set.ofPred_and, Set.ofPred_forall]
    refine .inter (.inter (isClosed_iInter fun i ↦ hside _ i) ?_)
      (.inter (isClosed_iInter fun i ↦ hside _ i) ?_)
    · refine isClosed_iInter fun g ↦ isClosed_iInter fun _ ↦ ?_
      exact isClosed_le g.continuous_toFun continuous_const
    · refine isClosed_iInter fun i ↦ isClosed_iInter fun _ ↦ ?_
      exact isClosed_eq (continuous_apply i) continuous_const
  · have hbox (i : Fin n) : v i ∈ c.box.side i := by simpa using hv.1.1 i
    exact ⟨fun i ↦ (hbox i).1, fun i ↦ (hbox i).2⟩

theorem exists_isMinOn_slice {b : FrozenBox ℝ n} (h : (c.feasibleSet ∩ b.slice).Nonempty) :
    ∃ x ∈ c.feasibleSet ∩ b.slice, IsMinOn c.objective.eval (c.feasibleSet ∩ b.slice) x := by
  have hget (x : Vector ℝ n) : Vector.ofFn x.get = x := by
    ext i hi
    simp [Vector.get_eq_getElem]
  obtain ⟨x, hx⟩ := h
  have hne : x.get ∈ {v : Fin n → ℝ | Vector.ofFn v ∈ c.feasibleSet ∩ b.slice} := by
    rwa [Set.mem_ofPred_eq, hget]
  obtain ⟨v, hv, hleast⟩ := (c.isCompact_feasibleSet_inter_slice b).exists_isMinOn ⟨_, hne⟩
    c.objective.continuous_toFun.continuousOn
  refine ⟨Vector.ofFn v, hv, isMinOn_iff.mpr fun y hy ↦ ?_⟩
  have hle := isMinOn_iff.mp hleast y.get (by rwa [Set.mem_ofPred_eq, hget])
  rwa [Quadratic.toFun, Quadratic.toFun, hget] at hle

end ConvexProblem

namespace Staged

/-! ## Vectors and failures -/

section

variable {α β : Type} {b : FrozenBox α n}

theorem written_ofVector (z : Vector α b.count) :
    (written b (.ok (.ofVector z)) : Except (SolveError ε) _) = .ok (.ofVector z) := by
  simp [written, Except.mapError, Tensor.fillVector?_ofVector, Start.ofVector]

variable [Scalar α]

theorem status_unknown [Scalar β] [Extended α β] (termination : Termination)
    (point : Option (Array α)) (found : Option (Minimum α β)) (notices : List (Notice β)) :
    (Report.unknown termination point found notices).answer.status = .failed := by
  cases termination <;> rfl

theorem reduce_ofVector (x : Vector α n) :
    reduce b (.ofVector x) = .ok (.ofVector (b.reduce x)) := by
  have hvector : (Tensor.ofVector x).toVector? n = some x := dif_pos ⟨rfl, x.size_toArray⟩
  rw [reduce, hvector]

end

/-! ## The main program -/

section

variable {c : ConvexProblem ℝ n} {b : FrozenBox ℝ n} {start z : Vector ℝ b.count}

theorem mem_feasibleSet_mainProgram : z ∈ (mainProgram c b start).feasibleSet ↔
    (∀ k : Fin b.count, z[k] ∈ b.sides[k]) ∧ ∀ g ∈ c.constraints, g.eval (b.full z) ≤ 0 := by
  simp [mainProgram, Program.feasibleSet, Condition.Holds]

theorem objective_mainProgram :
    (mainProgram c b start).objective.value z = c.objective.eval (b.full z) :=
  one_mul _

variable (hb : b.box = c.box) (hbox : c.box.IsProper)
include hb

theorem gather_mem_feasibleSet {x : Vector ℝ n} (hx : x ∈ c.feasibleSet ∩ b.slice) :
    b.gather x ∈ (mainProgram c b start).feasibleSet := by
  rw [mem_feasibleSet_mainProgram, b.full_gather hx.2.2]
  exact ⟨FrozenBox.gather_mem (hb ▸ hx.1.1), hx.1.2⟩

include hbox

theorem full_mem_feasibleSet (hz : z ∈ (mainProgram c b start).feasibleSet) :
    b.full z ∈ c.feasibleSet ∩ b.slice := by
  rw [mem_feasibleSet_mainProgram] at hz
  have hslice := FrozenBox.full_mem_slice (hb ▸ hbox) hz.1
  exact ⟨⟨hb ▸ hslice.1, hz.2⟩, hslice⟩

theorem feasibleSet_mainProgram_eq_empty (h : c.feasibleSet ∩ b.slice = ∅) :
    (mainProgram c b start).feasibleSet = ∅ := by
  refine Set.eq_empty_iff_forall_notMem.mpr fun z hz ↦ ?_
  exact h.subset (full_mem_feasibleSet hb hbox hz)

/-- The least value over the feasible points of the slice is attained if there are any. -/
theorem exists_isMinimizer_mainProgram (h : (c.feasibleSet ∩ b.slice).Nonempty) :
    ∃ z, (mainProgram c b start).IsMinimizer z := by
  obtain ⟨x, hx, hleast⟩ := ConvexProblem.exists_isMinOn_slice h
  refine ⟨b.gather x, gather_mem_feasibleSet hb hx, isMinOn_iff.mpr fun y hy ↦ ?_⟩
  rw [objective_mainProgram, objective_mainProgram, b.full_gather hx.2.2]
  exact isMinOn_iff.mp hleast _ (full_mem_feasibleSet hb hbox hy)

end

/-! ## The stages -/

section

variable {stages : Staged ℝ} {c : ConvexProblem ℝ n} {b : FrozenBox ℝ n}
  {main m : Minimum ℝ EReal} {report : Report ℝ EReal}

/-- A feasible minimum of the main solve is the answer. -/
theorem afterMain_of_feasible (htol : 0 ≤ stages.tol) (hsuccess : m.success = .ok true)
    {z : Vector ℝ b.count} (hpoint : m.point = .ok (.ofVector z))
    (hz : b.full z ∈ c.feasibleSet) :
    (afterMain stages c b m : Except (SolveError ε) _) =
      .ok (.inl (.solved c .feasiblePoint (b.full z) (some m))) := by
  have hviolation : c.violation (b.full z) ≤ stages.tol :=
    (ConvexProblem.violation_nonpos hz).trans htol
  rw [afterMain, hpoint, written_ofVector, hsuccess]
  simp [Start.ofVector, Except.mapError, bind, Except.bind, pure, Except.pure, hviolation]

/-- A main solve without success leaves the problem unsolved or goes on to phase one. -/
theorem afterMain_of_failure (hsuccess : m.success = .ok false)
    (h : (afterMain stages c b m : Except (SolveError ε) _) = .ok (.inl report)) :
    report.answer.status = .failed := by
  obtain ⟨z, -, h⟩ := bind_eq_ok_iff.mp h
  simp only [hsuccess, Except.mapError, bind, Except.bind, Bool.false_and, Bool.false_eq_true,
    if_false] at h
  split at h
  · cases h
    exact status_unknown _ _ _ _
  · split at h
    · cases h
    · split at h
      · cases h
        exact status_unknown _ _ _ _
      · cases h
      · split at h
        · cases h
        · cases h
          exact status_unknown _ _ _ _

theorem afterRetry_of_failure (hsuccess : m.success = .ok false)
    (h : (afterRetry stages c b m : Except (SolveError ε) _) = .ok report) :
    report.answer.status = .failed := by
  simp only [afterRetry, hsuccess, Except.mapError, bind, Except.bind, Bool.false_eq_true,
    if_false] at h
  cases h
  exact status_unknown _ _ _ _

/-- Phase one does not answer with a point. -/
theorem afterPhaseOne_ne_feasible
    (h : (afterPhaseOne stages c b main m : Except (SolveError ε) _) = .ok (.inl report)) :
    report.answer.status ≠ .feasible := by
  obtain ⟨success, -, h⟩ := bind_eq_ok_iff.mp h
  split at h
  · obtain ⟨y, -, h⟩ := bind_eq_ok_iff.mp h
    split at h
    · cases h
      exact LowerStatus.noConfusion
    · cases h
  · cases h
    rw [status_unknown]
    decide

/-- A problem without a free coordinate that has a feasible point on the slice is solved there. -/
theorem atBase_of_feasible (htol : 0 ≤ stages.tol) (hcount : b.count = 0) {x : Vector ℝ n}
    (hx : x ∈ c.feasibleSet ∩ b.slice) :
    (atBase stages c b : Report ℝ EReal) = .solved c .feasiblePoint x none := by
  have hfree : b.free = #[] := Array.size_eq_zero_iff.mp hcount
  have hbase : x = b.base := by
    refine Vector.ext fun i hi ↦ hx.2.2 ⟨i, hi⟩ ?_
    rw [hfree]
    exact Array.not_mem_empty _
  have hviolation : c.violation b.base ≤ stages.tol :=
    hbase ▸ (ConvexProblem.violation_nonpos hx.1).trans htol
  rw [atBase, if_pos hviolation, hbase]

end

/-! ## Whole solves -/

section

variable {stages : Staged ℝ} {c : ConvexProblem ℝ n} {b : FrozenBox ℝ n}
  {minimize : Minimizer ℝ EReal ε σ} {main : Minimum ℝ EReal} {z : Start ℝ b.count} {s s' : σ}
  {report : Report ℝ EReal}
  (hexact : ∀ start, minimize.IsExactOn (mainJob stages c b start))

include hexact

/-- An exact minimizer finds a point of least value where the slice has a feasible point. -/
theorem exists_minimize_of_feasible (hb : b.box = c.box) (hbox : c.box.IsProper)
    (hne : (c.feasibleSet ∩ b.slice).Nonempty) (start : Start ℝ b.count) (s : σ) :
    ∃ m s' y, minimize (mainJob stages c b start) s = (.finished m, s') ∧
      m.success = .ok true ∧ m.point = .ok (.ofVector y) ∧ b.full y ∈ c.feasibleSet ∩ b.slice ∧
      IsMinOn c.objective.eval (c.feasibleSet ∩ b.slice) (b.full y) := by
  obtain ⟨m, hfinished, hminimum, -⟩ := hexact start s
  obtain ⟨hsuccess, y, hy, hpoint⟩ := hminimum (exists_isMinimizer_mainProgram hb hbox hne)
  refine ⟨m, (minimize (mainJob stages c b start) s).2, y, Prod.ext hfinished rfl, hsuccess,
    hpoint, full_mem_feasibleSet hb hbox hy.1, isMinOn_iff.mpr fun x hx ↦ ?_⟩
  calc
    c.objective.eval (b.full y) = (mainProgram c b start.point).objective.value y :=
      objective_mainProgram.symm
    _ ≤ (mainProgram c b start.point).objective.value (b.gather x) :=
      isMinOn_iff.mp hy.2 _ (gather_mem_feasibleSet hb hx)
    _ = c.objective.eval x := by rw [objective_mainProgram, b.full_gather hx.2.2]

theorem retry_ne_feasible (hempty : ∀ start, (mainProgram c b start).feasibleSet = ∅)
    (h : retry minimize stages c b main z s = (.ok report, s')) :
    report.answer.status ≠ .feasible := by
  obtain ⟨m, hfinished, -, hfailure⟩ := hexact z s
  have hfinished : minimize (mainJob stages c b z) s =
      (.finished m, (minimize (mainJob stages c b z) s).2) := Prod.ext hfinished rfl
  rw [retry, hfinished] at h
  rw [afterRetry_of_failure (hfailure (hempty _)) (Prod.mk.inj h).1]
  decide

theorem phaseOne_ne_feasible (hempty : ∀ start, (mainProgram c b start).feasibleSet = ∅)
    (h : phaseOne minimize stages c b main z s = (.ok report, s')) :
    report.answer.status ≠ .feasible := by
  unfold phaseOne at h
  split at h
  · cases h
    rw [Report.brokeDown, status_unknown]
    decide
  · split at h
    · cases h
    · cases h
      rw [Report.brokeDown, status_unknown]
      decide
    · split at h
      · cases h
      · cases h
        exact afterPhaseOne_ne_feasible ‹_›
      · exact retry_ne_feasible hexact hempty h

end

/-! ## Narrow coordinates -/

/-- The box of a problem with its narrow coordinates frozen. -/
noncomputable abbrev frozen (c : ConvexProblem ℝ n) : FrozenBox ℝ n :=
  .ofBox Defaults.nearZero c.box

/-- A side without width leaves no choice, so only the sides that are narrow but not a point matter
for the slice. -/
theorem mem_slice_frozen {c : ConvexProblem ℝ n} (hbox : c.box.IsProper) {x : Vector ℝ n}
    (hx : x ∈ c.box) (hnarrow : ∀ i : Fin n, (c.box.side i).lo < (c.box.side i).hi →
      (c.box.side i).hi - (c.box.side i).lo ≤ Defaults.nearZero → x[i] = c.box.midpoint[i]) :
    x ∈ (frozen c).slice := by
  refine ⟨hx, fun i hi ↦ ?_⟩
  rw [FrozenBox.mem_free_ofBox, not_lt] at hi
  rcases (hbox i).lt_or_eq with hlt | heq
  · exact hnarrow i hlt hi
  · have hmid := Box.midpoint_mem hbox i
    have hpoint := hx i
    have hcoordinate : x[i] = (c.box.side i).lo := le_antisymm (heq ▸ hpoint.2) hpoint.1
    exact hcoordinate.trans (le_antisymm hmid.1 (heq ▸ hmid.2))

section

variable {stages : Staged ℝ} {c : ConvexProblem ℝ n} {minimize : Minimizer ℝ EReal ε σ}
  {start : Option (Tensor ℝ)} {s s' : σ} {report : Report ℝ EReal}

theorem solve_of_count_eq_zero (hcount : (frozen c).count = 0) :
    solve minimize stages c start s = (.ok (atBase stages c (frozen c)), s) :=
  if_pos hcount

variable (hbox : c.box.IsProper)
  (hexact : ∀ start, minimize.IsExactOn (mainJob stages c (frozen c) start))
include hbox hexact

theorem solve_of_feasible (htol : 0 ≤ stages.tol) (hcount : (frozen c).count ≠ 0)
    (hne : (c.feasibleSet ∩ (frozen c).slice).Nonempty)
    (h : solve minimize stages c start s = (.ok report, s')) :
    report.answer.status = .failed ∨ ∃ x m, x ∈ c.feasibleSet ∩ (frozen c).slice ∧
      IsMinOn c.objective.eval (c.feasibleSet ∩ (frozen c).slice) x ∧
      report = .solved c .feasiblePoint x m := by
  simp only [solve, if_neg hcount] at h
  split at h
  · cases h
  · cases h
    exact Or.inl (status_unknown _ _ _ _)
  · rename_i z _
    obtain ⟨m, s₁, y, hminimize, hsuccess, hpoint, hy, hleast⟩ :=
      exists_minimize_of_feasible hexact rfl hbox hne z s
    rw [hminimize] at h
    simp only [afterMain_of_feasible htol hsuccess hpoint hy.1] at h
    cases h
    exact Or.inr ⟨_, _, hy, hleast, rfl⟩

theorem solve_ne_feasible (hcount : (frozen c).count ≠ 0)
    (hempty : c.feasibleSet ∩ (frozen c).slice = ∅)
    (h : solve minimize stages c start s = (.ok report, s')) :
    report.answer.status ≠ .feasible := by
  have hprogram (z : Vector ℝ (frozen c).count) :
      (mainProgram c (frozen c) z).feasibleSet = ∅ :=
    feasibleSet_mainProgram_eq_empty rfl hbox hempty
  simp only [solve, if_neg hcount] at h
  split at h
  · cases h
  · cases h
    rw [Report.brokeDown, status_unknown]
    decide
  · rename_i z _
    obtain ⟨m, hfinished, -, hfailure⟩ := hexact z s
    have hfinished : minimize (mainJob stages c (frozen c) z) s =
      (.finished m, (minimize (mainJob stages c (frozen c) z) s).2) := Prod.ext hfinished rfl
    rw [hfinished] at h
    simp only at h
    split at h
    · cases h
    · cases h
      rw [afterMain_of_failure (hfailure (hprogram _)) ‹_›]
      decide
    · exact phaseOne_ne_feasible hexact hprogram h

/-- With an exact minimizer a feasible answer is at most the objective at every feasible point whose
narrow coordinates are in the middle of their sides, and a refuted problem has no such point.  If a
coordinate is free, a feasible answer is also the value of the objective at a feasible point. -/
theorem solve_sound_on_slice (htol : 0 ≤ stages.tol)
    (h : solve minimize stages c start s = (.ok report, s')) :
    (∀ x ∈ c.feasibleSet, (∀ i : Fin n, (c.box.side i).lo < (c.box.side i).hi →
        (c.box.side i).hi - (c.box.side i).lo ≤ Defaults.nearZero → x[i] = c.box.midpoint[i]) →
      report.answer.status ≠ .infeasible ∧
        (report.answer.status = .feasible → report.answer.value ≤ (c.objective.eval x : ℝ))) ∧
    ((∃ i : Fin n, Defaults.nearZero < (c.box.side i).hi - (c.box.side i).lo) →
      report.answer.status = .feasible →
        ∃ x ∈ c.feasibleSet, report.answer.value = (c.objective.eval x : ℝ)) := by
  constructor
  · intro x hx hnarrow
    have hslice : x ∈ c.feasibleSet ∩ (frozen c).slice := ⟨hx, mem_slice_frozen hbox hx.1 hnarrow⟩
    by_cases hcount : (frozen c).count = 0
    · rw [solve_of_count_eq_zero hcount, atBase_of_feasible htol hcount hslice] at h
      cases h
      exact ⟨nofun, fun _ ↦ le_rfl⟩
    · rcases solve_of_feasible hbox hexact htol hcount ⟨x, hslice⟩ h with
        hfailed | ⟨y, m, -, hleast, rfl⟩
      · rw [hfailed]
        exact ⟨nofun, nofun⟩
      · exact ⟨nofun, fun _ ↦ EReal.coe_le_coe_iff.mpr (isMinOn_iff.mp hleast x hslice)⟩
  · rintro ⟨i, hi⟩ hfeasible
    have hcount : (frozen c).count ≠ 0 := by
      intro hzero
      have hfree : (frozen c).free = #[] := Array.size_eq_zero_iff.mp hzero
      have hmem : i ∈ (frozen c).free := FrozenBox.mem_free_ofBox.mpr hi
      rw [hfree] at hmem
      exact Array.not_mem_empty i hmem
    rcases (c.feasibleSet ∩ (frozen c).slice).eq_empty_or_nonempty with hempty | hne
    · exact absurd hfeasible (solve_ne_feasible hbox hexact hcount hempty h)
    · rcases solve_of_feasible hbox hexact htol hcount hne h with
        hfailed | ⟨y, m, hy, -, rfl⟩
      · rw [hfailed] at hfeasible
        cases hfeasible
      · exact ⟨y, hy.1, rfl⟩

end

/-! ## Zeros for an answer -/

/-- Answers every job with zeros and claims success. -/
noncomputable def zeros : Minimizer ℝ EReal Empty Unit := fun job s ↦
  (.finished ⟨.ok (.ofVector (.replicate job.size 0)), .ok 0, .ok true, some (.int 0), "", .int 1⟩,
    s)

theorem zeros_isExactOn {job : Job ℝ} (h : job.program.IsMinimizer (.replicate job.size 0)) :
    zeros.IsExactOn job := by
  refine fun s ↦ ⟨_, rfl, fun _ ↦ ⟨rfl, _, h, rfl⟩, fun hempty ↦ ?_⟩
  have hmem := h.1
  rw [hempty] at hmem
  exact absurd hmem (Set.notMem_empty _)

/-- Minimizes the first coordinate where it is not positive.  The second one is fixed. -/
noncomputable def edge : ConvexProblem ℝ 2 :=
  ⟨.coordinate 0 1, [.coordinate 0 1], ⟨#v[0, 3], #v[1, 3]⟩⟩

/-- Minimizes the first coordinate over a side as narrow as the tolerance.  The second one is
fixed. -/
noncomputable def sliver : ConvexProblem ℝ 2 :=
  ⟨.coordinate 0 1e12, [], ⟨#v[0, 3], #v[1e-12, 3]⟩⟩

theorem edge_isProper : edge.box.IsProper := by
  intro i
  fin_cases i
  · exact zero_le_one
  · exact le_rfl

theorem mem_free_edge {i : Fin 2} : i ∈ (frozen edge).free ↔ i = 0 := by
  rw [FrozenBox.mem_free_ofBox]
  fin_cases i
  · simp [edge, Defaults.nearZero]
    norm_num
  · simp [edge, Defaults.nearZero]
    norm_num

theorem zeros_isMinimizer_edge (start : Vector ℝ (frozen edge).count) :
    (mainProgram edge (frozen edge) start).IsMinimizer (.replicate _ 0) := by
  have hfirst : ((frozen edge).full (.replicate _ 0))[(0 : Fin 2)] = 0 := by
    rw [FrozenBox.getElem_full]
    cases hfree : (frozen edge).freeAt? 0 with
    | none => exact absurd (mem_free_edge.mpr rfl) (FrozenBox.freeAt?_eq_none_iff.mp hfree)
    | some k => simp
  refine ⟨mem_feasibleSet_mainProgram.mpr ⟨fun k ↦ ?_, ?_⟩, isMinOn_iff.mpr fun z hz ↦ ?_⟩
  · have hk : (frozen edge).free[k] = 0 := mem_free_edge.mp (Array.getElem_mem k.isLt)
    have hside : (frozen edge).sides[k] = ⟨0, 1⟩ := by
      rw [FrozenBox.sides, FrozenBox.getElem_gather, hk]
      rfl
    have hzero : (Vector.replicate (frozen edge).count (0 : ℝ))[k] = 0 := by simp
    rw [hside, hzero]
    exact ⟨le_rfl, zero_le_one⟩
  · simp only [edge, List.forall_mem_singleton, Quadratic.eval_coordinate, one_mul]
    exact hfirst.le
  · have hmem := (full_mem_feasibleSet rfl edge_isProper hz).1.1 0
    have hvalue (y : Vector ℝ (frozen edge).count) :
        (mainProgram edge (frozen edge) start).objective.value y =
          ((frozen edge).full y)[(0 : Fin 2)] :=
      objective_mainProgram.trans ((Quadratic.eval_coordinate _ _ _).trans (one_mul _))
    rw [hvalue, hvalue, hfirst]
    exact hmem.1

theorem zeros_isExactOn_edge (start : Start ℝ (frozen edge).count) :
    zeros.IsExactOn (mainJob ⟨.sequential, [], 0⟩ edge (frozen edge) start) :=
  zeros_isExactOn (zeros_isMinimizer_edge start.point)

/-- The least value is found at the only feasible point. -/
theorem solve_edge : edge.box.IsProper ∧
    (∀ start, zeros.IsExactOn (mainJob ⟨.sequential, [], 0⟩ edge (frozen edge) start)) ∧
    ∃ report, solve zeros ⟨.sequential, [], 0⟩ edge none () = (.ok report, ()) ∧
      report.answer.status = .feasible ∧ #v[0, 3] ∈ edge.feasibleSet ∧
      report.answer.value ≤ (edge.objective.eval #v[0, 3] : ℝ) := by
  have hcount : (frozen edge).count ≠ 0 := by
    intro hzero
    have hmem : (0 : Fin 2) ∈ (frozen edge).free := mem_free_edge.mpr rfl
    rw [Array.size_eq_zero_iff.mp hzero] at hmem
    exact Array.not_mem_empty _ hmem
  have hsolve : ∃ report, solve zeros ⟨.sequential, [], 0⟩ edge none () = (.ok report, ()) ∧
      report.answer.status = .feasible := by
    have hminimizer := zeros_isMinimizer_edge ((frozen edge).reduce edge.midpoint)
    have hfull := full_mem_feasibleSet rfl edge_isProper hminimizer.1
    simp only [solve, if_neg hcount, Option.getD_none, reduce_ofVector, zeros]
    rw [afterMain_of_feasible le_rfl rfl rfl hfull.1]
    exact ⟨_, rfl, rfl⟩
  obtain ⟨report, hsolve, hstatus⟩ := hsolve
  have hmem : #v[0, 3] ∈ edge.feasibleSet := by
    refine ⟨fun i ↦ ?_, ?_⟩
    · fin_cases i
      · exact ⟨le_rfl, zero_le_one⟩
      · exact ⟨le_rfl, le_rfl⟩
    · simp [edge, Quadratic.eval_coordinate]
  refine ⟨edge_isProper, zeros_isExactOn_edge, report, hsolve, hstatus, hmem, ?_⟩
  refine ((solve_sound_on_slice edge_isProper zeros_isExactOn_edge le_rfl hsolve).1 _ hmem
    fun i hlt hnarrow ↦ ?_).2 hstatus
  fin_cases i
  · norm_num [edge, Box.side, Defaults.nearZero] at hnarrow
  · exact absurd hlt (lt_irrefl _)

theorem count_frozen_sliver : (frozen sliver).count = 0 := by
  refine Array.size_eq_zero_iff.mpr (Array.eq_empty_iff_forall_not_mem.mpr fun i hi ↦ ?_)
  rw [FrozenBox.mem_free_ofBox] at hi
  fin_cases i
  · have hwide : (1e-12 : ℝ) < 1e-12 - 0 := hi
    exact absurd hwide (by norm_num)
  · have hwide : (1e-12 : ℝ) < 3 - 3 := hi
    exact absurd hwide (by norm_num)

theorem sliver_isProper : sliver.box.IsProper := by
  intro i
  fin_cases i
  · have hends : (0 : ℝ) ≤ 1e-12 := by norm_num
    exact hends
  · exact le_rfl

theorem eval_sliver (x : Vector ℝ 2) : sliver.objective.eval x = 1e12 * x[(0 : Fin 2)] :=
  Quadratic.eval_coordinate _ _ x

/-- The side of the sliver is frozen, so the value in its middle is the answer, though there is less
to be had at its lower end. -/
theorem solve_sliver_above_least : sliver.box.IsProper ∧
    ConvexOn ℝ Set.univ sliver.objective.toFun ∧
    (∀ start, zeros.IsExactOn (mainJob ⟨.sequential, [], 0⟩ sliver (frozen sliver) start)) ∧
    ∃ report, solve zeros ⟨.sequential, [], 0⟩ sliver none () = (.ok report, ()) ∧
      report.answer.status = .feasible ∧ #v[0, 3] ∈ sliver.feasibleSet ∧
      ¬ report.answer.value ≤ (sliver.objective.eval #v[0, 3] : ℝ) := by
  have hvalue (v : Fin 2 → ℝ) : sliver.objective.toFun v = 1e12 * v 0 := by
    rw [Quadratic.toFun, eval_sliver, getElem_fin, Vector.getElem_ofFn]
  refine ⟨sliver_isProper, ⟨convex_univ, fun x _ y _ a b _ _ _ ↦ ?_⟩, fun start ↦ ?_, ?_⟩
  · simp only [hvalue, Pi.add_apply, Pi.smul_apply, smul_eq_mul]
    exact le_of_eq (by ring)
  · -- the only program without a variable is solved by its only point
    have hpoint (z : Vector ℝ (frozen sliver).count) : z = .replicate _ 0 := by
      refine Vector.ext fun k hk ↦ absurd hk ?_
      rw [count_frozen_sliver]
      exact Nat.not_lt_zero k
    refine zeros_isExactOn ⟨mem_feasibleSet_mainProgram.mpr ⟨fun k ↦ ?_, List.forall_mem_nil _⟩,
      isMinOn_iff.mpr fun z _ ↦ ?_⟩
    · exact (Fin.cast count_frozen_sliver k).elim0
    · exact (congrArg _ (hpoint z)).ge
  · have hviolation : sliver.violation (frozen sliver).base ≤ 0 := le_rfl
    refine ⟨_, solve_of_count_eq_zero count_frozen_sliver, ?_,
      ⟨fun i ↦ ?_, List.forall_mem_nil _⟩, ?_⟩
    · rw [atBase, if_pos hviolation]
      rfl
    · have hends := sliver_isProper i
      fin_cases i
      · exact ⟨le_rfl, hends⟩
      · exact ⟨le_rfl, hends⟩
    · have hbase : (frozen sliver).base[(0 : Fin 2)] = 0.5 * (0 + 1e-12) := rfl
      have hless : (1e12 : ℝ) * 0 < 1e12 * (0.5 * (0 + 1e-12)) := by norm_num
      rw [atBase, if_pos hviolation]
      refine not_le.mpr (EReal.coe_lt_coe_iff.mpr ?_)
      rw [eval_sliver, eval_sliver, hbase]
      exact hless

end Staged

end GlobalQcqp
