import GlobalQcqp.Proofs.LawfulScalar
import GlobalQcqp.Proofs.Node.LowerBound
/-!
# The calls of a lower solve

A lower solve asks once, and again from the midpoint as long as the answers are failures and the
retries are not used up.  A solver that keeps a list of its calls shows them in order.  Only the
last answer counts: it refutes the node, raises its bound and places its relaxed point in the box,
or leaves both as they are.  All of this holds of exact and of machine numbers, whatever the values
that are answered.
-/

namespace GlobalQcqp

open Scalar (isUndefined)

variable {α β σ : Type} [Scalar α] {n : ℕ}

structure ConvexCall (α β : Type) (n : ℕ) where
  problem : ConvexProblem α n
  start : Option (Vector α n)
  answer : ConvexAnswer α β

/-- The solver with a list of its calls, the last one at the end. -/
def ConvexSolver.logged (solver : ConvexSolver α β n σ) :
    ConvexSolver α β n (σ × List (ConvexCall α β n)) := fun c start (s, log) ↦
  let (answer, s) := solver c start s
  (answer, s, log ++ [⟨c, start, answer⟩])

namespace Lower

/-! ## What is asked -/

/-- Calls for one problem, the first one from `start` and the others from the midpoint.  Each but
the last has failed, and the last one may have failed too if it used up the retries. -/
structure AreAttempts (c : ConvexProblem α n) (start : Option (Vector α n)) (retries : ℕ)
    (failed : List (ConvexCall α β n)) (last : ConvexCall α β n) : Prop where
  problem_eq : ∀ call ∈ failed ++ [last], call.problem = c
  starts_eq : (failed ++ [last]).map ConvexCall.start =
    start :: List.replicate failed.length (some c.midpoint)
  failed_status : ∀ call ∈ failed, call.answer.status = .failed
  length_le : failed.length ≤ retries
  last_status : failed.length < retries → last.answer.status ≠ .failed

namespace AreAttempts

variable {c : ConvexProblem α n} {start : Option (Vector α n)} {retries : ℕ}
  {failed : List (ConvexCall α β n)} {last call : ConvexCall α β n}

theorem single (hlast : 0 < retries → last.answer.status ≠ .failed) :
    AreAttempts last.problem last.start retries [] last where
  problem_eq := by simp
  starts_eq := rfl
  failed_status := nofun
  length_le := Nat.zero_le retries
  last_status := hlast

theorem cons (h : AreAttempts c (some c.midpoint) retries failed last) (hproblem : call.problem = c)
    (hcall : call.answer.status = .failed) :
    AreAttempts c call.start (retries + 1) (call :: failed) last where
  problem_eq := List.forall_mem_cons.mpr ⟨hproblem, h.problem_eq⟩
  starts_eq := by
    rw [List.cons_append, List.map_cons, h.starts_eq, List.length_cons, List.replicate_succ]
  failed_status := List.forall_mem_cons.mpr ⟨hcall, h.failed_status⟩
  length_le := Nat.succ_le_succ h.length_le
  last_status hlt := h.last_status (Nat.lt_of_succ_lt_succ hlt)

/-- There is one call, and one more for every failure as long as there are retries. -/
theorem length_eq (h : AreAttempts c start retries failed last) : (failed ++ [last]).length =
    1 + min retries ((failed ++ [last]).countP fun call ↦ call.answer.status = .failed) := by
  have hcount : failed.countP (fun call ↦ call.answer.status = .failed) = failed.length :=
    List.countP_eq_length.mpr fun call hcall ↦ decide_eq_true (h.failed_status call hcall)
  have hle := h.length_le
  rw [List.countP_append, hcount, List.countP_singleton, List.length_append, List.length_singleton]
  split
  · have hspent : ¬ failed.length < retries :=
      fun hlt ↦ h.last_status hlt (of_decide_eq_true ‹_›)
    omega
  · omega

end AreAttempts

/-- A repeated solve keeps to the calls that are allowed, and a list of them changes nothing. -/
theorem retry_logged (solver : ConvexSolver α β n σ) (c : ConvexProblem α n) (id : ℤ) (left : ℕ)
    (call : ConvexCall α β n) (hproblem : call.problem = c) (s : σ)
    (log : List (ConvexCall α β n)) : ∃ notices failed last s',
      AreAttempts c call.start left failed last ∧
      retry solver c id left call.answer s = (notices, last.answer, s') ∧
      retry solver.logged c id left call.answer (s, log ++ [call]) =
        (notices, last.answer, s', log ++ (failed ++ [last])) := by
  induction left generalizing call s log with
  | zero => exact ⟨[], [], call, s, hproblem ▸ .single nofun, rfl, rfl⟩
  | succ left ih =>
      by_cases hfailed : call.answer.status = .failed
      · obtain ⟨notices, failed, last, s', hattempts, hretry, hlogged⟩ :=
          ih ⟨c, some c.midpoint, (solver c (some c.midpoint) s).1⟩ rfl
            (solver c (some c.midpoint) s).2 (log ++ [call])
        refine ⟨.lowerRetried id call.answer.termination :: notices, call :: failed, last, s',
          hattempts.cons hproblem hfailed, ?_, ?_⟩
        · simp only [retry, if_pos hfailed, hretry]
        · have hstep : retry solver.logged c id left
              (solver.logged c (some c.midpoint) (s, log ++ [call])).1
              (solver.logged c (some c.midpoint) (s, log ++ [call])).2 =
                (notices, last.answer, s', log ++ [call] ++ (failed ++ [last])) := hlogged
          have happend :
              log ++ (call :: failed ++ [last]) = log ++ [call] ++ (failed ++ [last]) := by
            simp
          simp only [retry, if_pos hfailed, hstep, happend]
      · refine ⟨[], [], call, s, hproblem ▸ .single fun _ ↦ hfailed, ?_, ?_⟩
        · simp only [retry, if_neg hfailed]
        · simp only [retry, if_neg hfailed]
          rfl

/-! ## What is recorded -/

variable [Scalar β] [Extended α β] {k : ℕ}

/-- Recording an answer touches nothing but the bound, the relaxed point and the status. -/
theorem record_frame (p : Problem α) (node : Node α β k) (answer : ConvexAnswer α β) :
    (record p node answer).1 = { node with
      lowerBound := (record p node answer).1.lowerBound
      relaxed := (record p node answer).1.relaxed
      status := (record p node answer).1.status } := by
  unfold record
  split
  · rfl
  · split
    · split <;> rfl
    · rfl
  · rfl

end Lower

/-- The priority is a number, the box has finite ends in order, and a relaxed point is a stored
vector. -/
structure Node.IsNumeric [Scalar β] {k : ℕ} (node : Node α β k) : Prop where
  priority_defined : isUndefined node.priority = false
  ends_finite : ∀ i : Fin k,
    Scalar.isFinite node.box.lower[i] = true ∧ Scalar.isFinite node.box.upper[i] = true
  ends_le : ∀ i : Fin k, node.box.lower[i] ≤ node.box.upper[i]
  relaxed_size : ∀ x ∈ node.relaxed, x.size = k

namespace Lower

variable [Scalar β] {p : Problem α} {node : Node α β p.stored}

/-! ### The relaxed point -/

section Point

variable [LawfulScalar α] (h : node.IsNumeric)
  (hrelaxed : ∀ start ∈ node.relaxed, ∀ a ∈ start, Scalar.isFinite a = true)
include h hrelaxed

theorem isUndefined_warmStart (i : Fin p.stored) : isUndefined (warmStart node)[i] = false := by
  have hmiddle : isUndefined node.box.midpoint[i] = false := by
    obtain ⟨hlo, hhi⟩ := h.ends_finite i
    simpa only [Box.midpoint, getElem_fin, Vector.getElem_ofFn] using
      LawfulScalar.isUndefined_middle hlo hhi
  unfold warmStart
  split
  · split
    · exact LawfulScalar.isUndefined_of_isFinite (hrelaxed _ ‹_› _ (Array.getElem_mem _))
    · exact hmiddle
  · exact hmiddle

variable {x : Vector α p.size} (hx : ∀ a ∈ x, Scalar.isFinite a = true)
include hx

theorem isUndefined_scatter (i : Fin p.stored) :
    isUndefined (p.scatter (warmStart node) x)[i] = false := by
  rw [p.getElem_scatter]
  cases p.variableAt? i with
  | none => exact isUndefined_warmStart h hrelaxed i
  | some j => exact LawfulScalar.isUndefined_of_isFinite (hx _ (Vector.getElem_mem j.isLt))

theorem clamp_scatter_mem (i : Fin p.stored) :
    node.box.lower[i] ≤ (node.box.clamp (p.scatter (warmStart node) x))[i] ∧
      (node.box.clamp (p.scatter (warmStart node) x))[i] ≤ node.box.upper[i] := by
  obtain ⟨hlo, hhi⟩ := h.ends_finite i
  simpa only [Box.clamp, getElem_fin, Vector.getElem_ofFn] using
    Scalar.clamp_mem (LawfulScalar.isUndefined_of_isFinite hlo)
      (LawfulScalar.isUndefined_of_isFinite hhi) (isUndefined_scatter h hrelaxed hx i)
      (h.ends_le i)

end Point

/-! ### The outcome -/

variable [Extended α β] {answer : ConvexAnswer α β}

/-- What a lower solve makes of a node when the last answer is this one. -/
structure Outcome (node : Node α β p.stored) (answer : ConvexAnswer α β)
    (node' : Node α β p.stored) : Prop where
  frame : node' = { node with
    lowerBound := node'.lowerBound, relaxed := node'.relaxed, status := node'.status }
  bound_beq : (node'.bound == node'.lowerBound) = true
  priority_le : node.priority ≤ node'.lowerBound
  infeasible_iff : node'.status = .infeasible ↔ answer.status = .infeasible
  feasible_iff : node'.status = .feasible ↔ answer.status = .feasible ∧
    Scalar.isFinite answer.value = true ∧ ∃ x ∈ answer.point, x.size = p.size
  of_infeasible : node'.status = .infeasible →
    node'.lowerBound = posInf ∧ node'.relaxed = node.relaxed
  of_feasible : node'.status = .feasible →
    node'.lowerBound = Scalar.max answer.value node.priority ∧
      ∃ x : Vector α p.size, answer.point = some x.toArray ∧
        ∃ y : Vector α p.stored, node'.relaxed = some y.toArray ∧
          y = node.box.clamp (p.scatter (warmStart node) x) ∧
          ((∀ start ∈ node.relaxed, ∀ a ∈ start, Scalar.isFinite a = true) →
            (∀ a ∈ x, Scalar.isFinite a = true) →
            ∀ i : Fin p.stored, node.box.lower[i] ≤ y[i] ∧ y[i] ≤ node.box.upper[i])
  of_other : node'.status ≠ .infeasible → node'.status ≠ .feasible →
    node'.status = .failed ∧ node'.lowerBound = node.priority ∧ node'.relaxed = node.relaxed

section Lawful

variable [LawfulScalar β]

theorem keepBound_outcome (h : node.IsNumeric) (hinfeasible : answer.status ≠ .infeasible)
    (hfeasible : ¬ (answer.status = .feasible ∧ Scalar.isFinite answer.value = true ∧
      ∃ x ∈ answer.point, x.size = p.size)) : Outcome node answer (keepBound node) where
  frame := rfl
  bound_beq := Scalar.max_beq_right h.priority_defined (Scalar.le_self h.priority_defined)
  priority_le := Scalar.le_self h.priority_defined
  infeasible_iff := iff_of_false nofun hinfeasible
  feasible_iff := iff_of_false nofun hfeasible
  of_infeasible := nofun
  of_feasible := nofun
  of_other _ _ := ⟨rfl, rfl, rfl⟩

theorem markInfeasible_outcome [LawfulExtended α β] (h : node.IsNumeric)
    (hstatus : answer.status = .infeasible) : Outcome node answer node.markInfeasible where
  frame := rfl
  bound_beq := Scalar.max_beq_right LawfulExtended.isUndefined_posInf
    (LawfulExtended.le_posInf h.priority_defined)
  priority_le := LawfulExtended.le_posInf h.priority_defined
  infeasible_iff := iff_of_true rfl hstatus
  feasible_iff := iff_of_false nofun fun ⟨hfeasible, _⟩ ↦ by
    rw [hstatus] at hfeasible
    cases hfeasible
  of_infeasible _ := ⟨rfl, rfl⟩
  of_feasible := nofun
  of_other hne _ := absurd rfl hne

variable [LawfulScalar α]

theorem placed_outcome (h : node.IsNumeric) (hstatus : answer.status = .feasible)
    (hvalue : Scalar.isFinite answer.value = true) {x : Vector α p.size}
    (hpoint : answer.point = some x.toArray) : Outcome node answer { node with
      relaxed := some (node.box.clamp (p.scatter (warmStart node) x)).toArray
      lowerBound := Scalar.max answer.value node.priority
      status := .feasible } where
  frame := rfl
  bound_beq := by
    have hdefined := LawfulScalar.isUndefined_of_isFinite hvalue
    exact Scalar.max_beq_right (Scalar.isUndefined_max hdefined h.priority_defined)
      (Scalar.le_max_right hdefined h.priority_defined)
  priority_le :=
    Scalar.le_max_right (LawfulScalar.isUndefined_of_isFinite hvalue) h.priority_defined
  infeasible_iff := iff_of_false nofun fun hinfeasible ↦ by
    rw [hstatus] at hinfeasible
    cases hinfeasible
  feasible_iff := iff_of_true rfl ⟨hstatus, hvalue, _, hpoint, x.size_toArray⟩
  of_infeasible := nofun
  of_feasible _ := ⟨rfl, x, hpoint, _, rfl, rfl,
    fun hrelaxed hx ↦ clamp_scatter_mem h hrelaxed hx⟩
  of_other _ hne := absurd rfl hne

theorem record_outcome [LawfulExtended α β] (h : node.IsNumeric) (answer : ConvexAnswer α β) :
    Outcome node answer (record p node answer).1 := by
  unfold record
  split
  · exact markInfeasible_outcome h ‹_›
  · rename_i x hstatus hpoint
    have hne : answer.status ≠ .infeasible := by
      rw [hstatus]
      decide
    split
    · rename_i hvalue
      by_cases hx : x.size = p.size
      · obtain ⟨v, rfl⟩ : ∃ v : Vector α p.size, x = v.toArray := ⟨⟨x, hx⟩, rfl⟩
        rw [writeBack_toArray]
        exact placed_outcome h hstatus hvalue hpoint
      · rw [writeBack, dif_neg hx]
        refine keepBound_outcome h hne ?_
        rintro ⟨-, -, x', hpoint', hsize⟩
        cases hpoint.symm.trans hpoint'
        exact hx hsize
    · rename_i hinfinite
      exact keepBound_outcome h hne fun hall ↦ hinfinite hall.2.1
  · rename_i hinfeasible hfeasible
    refine keepBound_outcome h hinfeasible ?_
    rintro ⟨hstatus, -, x, hpoint, -⟩
    exact hfeasible x hstatus hpoint

end Lawful

/-! ## Whole solves -/

/-- What a solve leaves was recorded from an answer. -/
theorem exists_record_of_solve {solver : ConvexSolver α β p.size σ} {retries : ℕ}
    {c : ConvexProblem α p.size} {s : σ} {r : Lowered α β p.stored σ}
    (h : solve p solver retries node c s = .ok r) : ∃ last, r.node = (record p node last).1 := by
  simp only [solve] at h
  split at h
  · cases h
    exact ⟨_, rfl⟩
  · split at h
    · cases h
    · cases h
      exact ⟨_, rfl⟩

/-- A solve that finds where to start asks, repeats what failed and records the last answer. -/
theorem solve_eq {τ : Type} {k : ℕ} {node : Node α β k}
    (hstart : ∀ x ∈ node.relaxed, p.restrict? x ≠ none)
    (solver : ConvexSolver α β p.size τ) (retries : ℕ) (c : ConvexProblem α p.size) (s : τ) :
    solve p solver retries node c s =
      let asked := solver c (node.relaxed.bind p.restrict?) s
      let settled := retry solver c node.id retries asked.1 asked.2
      let recorded := record p node settled.2.1
      .ok ⟨recorded.1, settled.1 ++ recorded.2, settled.2.2⟩ := by
  unfold solve
  cases hrelaxed : node.relaxed with
  | none => rfl
  | some x =>
      obtain ⟨start, hx⟩ := Option.ne_none_iff_exists'.mp (hstart x hrelaxed)
      simp only [Option.bind_some, hx]
      rfl

/-- A solve of which a list of calls is kept is the same solve, and its calls are attempts. -/
theorem exists_attempts {k : ℕ} {node : Node α β k}
    (hstart : ∀ x ∈ node.relaxed, p.restrict? x ≠ none)
    (solver : ConvexSolver α β p.size σ) (retries : ℕ) (c : ConvexProblem α p.size) (s : σ) :
    ∃ notices failed last s',
      AreAttempts c (node.relaxed.bind p.restrict?) retries failed last ∧
      solve p solver retries node c s = .ok ⟨(record p node last.answer).1, notices, s'⟩ ∧
      solve p solver.logged retries node c (s, []) =
        .ok ⟨(record p node last.answer).1, notices, s', failed ++ [last]⟩ := by
  rw [solve_eq hstart, solve_eq hstart]
  generalize node.relaxed.bind p.restrict? = start
  obtain ⟨notices, failed, last, s', hattempts, hretry, hlogged⟩ := retry_logged solver c node.id
    retries ⟨c, start, (solver c start s).1⟩ rfl (solver c start s).2 []
  have hlogged : retry solver.logged c node.id retries (solver.logged c start (s, [])).1
      (solver.logged c start (s, [])).2 = (notices, last.answer, s', failed ++ [last]) := hlogged
  refine ⟨notices ++ (record p node last.answer).2, failed, last, s', hattempts, ?_, ?_⟩
  · simp only [hretry]
  · simp only [hlogged]

theorem solve_logged (hsize : ∀ x ∈ node.relaxed, x.size = p.stored)
    (solver : ConvexSolver α β p.size σ) (retries : ℕ) (c : ConvexProblem α p.size) (s : σ) :
    ∃ notices failed last s',
      AreAttempts c (node.relaxed.bind p.restrict?) retries failed last ∧
      solve p solver retries node c s = .ok ⟨(record p node last.answer).1, notices, s'⟩ ∧
      solve p solver.logged retries node c (s, []) =
        .ok ⟨(record p node last.answer).1, notices, s', failed ++ [last]⟩ := by
  refine exists_attempts (fun x hrelaxed ↦ ?_) solver retries c s
  exact Option.ne_none_iff_exists'.mpr (p.restrict?_eq_some (hsize x hrelaxed))

/-- A lower solve asks once, and once more from the midpoint for every failure up to the limit on
retries.  It always returns, and the last answer decides what becomes of the node. -/
theorem solve_outcome [LawfulScalar α] [LawfulScalar β] [LawfulExtended α β]
    (hnode : node.IsNumeric) (solver : ConvexSolver α β p.size σ) (retries : ℕ)
    (c : ConvexProblem α p.size) (s : σ) : ∃ node' notices s' failed last,
      solve p solver retries node c s = .ok ⟨node', notices, s'⟩ ∧
      solve p solver.logged retries node c (s, []) = .ok ⟨node', notices, s', failed ++ [last]⟩ ∧
      AreAttempts c (node.relaxed.bind p.restrict?) retries failed last ∧
      (failed ++ [last]).length = 1 + min retries
        ((failed ++ [last]).countP fun call ↦ call.answer.status = .failed) ∧
      Outcome node last.answer node' := by
  obtain ⟨notices, failed, last, s', hattempts, hsolve, hlogged⟩ :=
    solve_logged hnode.relaxed_size solver retries c s
  exact ⟨_, notices, s', failed, last, hsolve, hlogged, hattempts, hattempts.length_eq,
    record_outcome hnode last.answer⟩

end Lower

namespace MachineLine

/-- Minimizes the only variable over the unit interval, in machine numbers. -/
abbrev problem : Problem Float where
  stored := 1
  size := 1
  objective := .coordinate (Fin.last 0) 1
  constraints := []
  equalities := []
  box := ⟨#v[0], #v[1]⟩
  places := #v[Fin.last 0]
  branchable := .replicate 1 true
  absTol := 0
  relTol := 0
  epigraph := none
  not_crossed := by decide
  places_injective i j _ := Subsingleton.elim i j
  absTol_nonneg := by decide
  relTol_nonneg := by decide

/-- Fails at first, and then answers with a point outside the box. -/
def unsteady : ConvexSolver Float Float 1 ℕ := fun _ _ asked ↦
  (if asked = 0 then ⟨.numericalError, .unknown, 0, none⟩
    else ⟨.optimal, .feasiblePoint, 0.25, some #[1.5]⟩, asked + 1)

/-- The second call settles the node, and the third one that is allowed is not made. -/
theorem solve_outcome_unsteady :
    let node : Node Float Float 1 := Node.fresh negInf 0 0 problem.box none
    let c : ConvexProblem Float 1 := ⟨problem.objective, [], problem.box⟩
    node.IsNumeric ∧ ∃ node' notices s' failed last,
      Lower.solve problem unsteady.logged 2 node c (0, []) =
        .ok ⟨node', notices, s', failed ++ [last]⟩ ∧
      failed.length = 1 ∧ node'.status = .feasible ∧ (node'.bound == node'.lowerBound) = true ∧
      ∃ y : Vector Float 1, node'.relaxed = some y.toArray := by
  intro node c
  have hnode : node.IsNumeric := ⟨by decide, by decide, by decide, nofun⟩
  have hrun : (Lower.solve problem unsteady.logged 2 node c (0, [])).toOption.map
      (fun r ↦ (r.node.status, r.solver.2.length)) = some (.feasible, 2) := by
    decide +kernel
  obtain ⟨node', notices, s', failed, last, -, hlogged, -, -, houtcome⟩ :=
    Lower.solve_outcome (p := problem) hnode unsteady 2 c 0
  rw [hlogged] at hrun
  obtain ⟨hstatus, hlength⟩ : node'.status = .feasible ∧ (failed ++ [last]).length = 2 := by
    simpa [Except.toOption] using hrun
  obtain ⟨-, x, -, y, hy, -⟩ := houtcome.of_feasible hstatus
  rw [List.length_append, List.length_singleton] at hlength
  exact ⟨hnode, node', notices, s', failed, last, hlogged, by omega, hstatus, houtcome.bound_beq,
    y, hy⟩

end MachineLine

end GlobalQcqp
