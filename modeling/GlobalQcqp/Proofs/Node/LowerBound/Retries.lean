import GlobalQcqp.Proofs.Node.LowerBound.Calls
/-!
# Failed lower solves

A call is repeated only if its answer is classified as a failure.  An answer that is classified as
feasible ends the calls, also if nothing can be recorded from it: its value may be infinite, and its
point may be missing or have the wrong length.  So a solve that fails has used up its retries or
ended with such an answer, and nothing could be recorded from any of its answers.
-/

namespace GlobalQcqp

theorem classify_ne_unsolved (termination : Termination) (primal : PrimalStatus) :
    classify termination primal ≠ .unsolved := by
  cases termination <;> cases primal <;> decide

namespace Lower

variable {α β σ : Type} [Scalar α] [Scalar β] {k : ℕ} {p : Problem α}

/-- A node with `k` stored variables is refuted by the answer, or bounded by it and given its
point. -/
def IsUsable (p : Problem α) (k : ℕ) (answer : ConvexAnswer α β) : Prop :=
  answer.status = .infeasible ∨ answer.status = .feasible ∧
    Scalar.isFinite answer.value = true ∧ k = p.stored ∧ ∃ x ∈ answer.point, x.size = p.size

theorem not_isUsable_of_failed {answer : ConvexAnswer α β} (h : answer.status = .failed) :
    ¬ IsUsable p k answer := by
  rintro (hstatus | ⟨hstatus, -⟩) <;> simp [h] at hstatus

omit [Scalar β] in
theorem exists_writeBack_iff (node : Node α β k) (x : Array α) :
    (∃ y, writeBack p node x = .ok y) ↔ k = p.stored ∧ x.size = p.size := by
  unfold writeBack
  split
  · split <;> simp_all
  · simp_all

variable [Extended α β]

/-- Recording leaves a failure exactly where the answer is of no use. -/
theorem record_status_eq_failed_iff (node : Node α β k) (answer : ConvexAnswer α β) :
    (record p node answer).1.status = .failed ↔ ¬ IsUsable p k answer := by
  cases hstatus : answer.status with
  | infeasible => simp [record, IsUsable, hstatus, Node.markInfeasible]
  | feasible =>
      cases hpoint : answer.point with
      | none => simp [record, IsUsable, hstatus, hpoint, keepBound]
      | some x =>
          by_cases hvalue : Scalar.isFinite answer.value = true
          · have hwrite := exists_writeBack_iff (p := p) node x
            cases hwritten : writeBack p node x with
            | error cause => simp_all [record, IsUsable, keepBound]
            | ok y => simp_all [record, IsUsable]
          · simp [record, IsUsable, hstatus, hpoint, hvalue, keepBound]
  | failed => simp [record, IsUsable, hstatus, keepBound]
  | unsolved => exact absurd hstatus (classify_ne_unsolved _ _)

namespace AreAttempts

variable {c : ConvexProblem α p.size} {start : Option (Vector α p.size)} {retries : ℕ}
  {failed : List (ConvexCall α β p.size)} {last : ConvexCall α β p.size}

omit [Extended α β] in
/-- The last answer of a solve can be recorded if any one can. -/
theorem forall_not_isUsable_iff (h : AreAttempts c start retries failed last) :
    (∀ call ∈ failed ++ [last], ¬ IsUsable p k call.answer) ↔ ¬ IsUsable p k last.answer := by
  simp only [List.forall_mem_append, List.forall_mem_singleton]
  exact and_iff_right fun call hcall ↦ not_isUsable_of_failed (h.failed_status call hcall)

omit [Scalar β] [Extended α β] in
/-- Calls that end before the limit on retries end with an answer that is no failure. -/
theorem length_eq_or_status_eq (h : AreAttempts c start retries failed last)
    (hinfeasible : last.answer.status ≠ .infeasible) :
    (failed ++ [last]).length = 1 + retries ∨ last.answer.status = .feasible := by
  rcases h.length_le.lt_or_eq with hlt | heq
  · right
    have hfailed := h.last_status hlt
    cases hstatus : last.answer.status with
    | feasible => rfl
    | infeasible => exact absurd hstatus hinfeasible
    | failed => exact absurd hstatus hfailed
    | unsolved => exact absurd hstatus (classify_ne_unsolved _ _)
  · left
    rw [List.length_append, List.length_singleton, heq, Nat.add_comm]

end AreAttempts

/-- A solve that returns fails exactly if none of its answers can be recorded.  It has then used up
its retries, or its last answer is classified as feasible.  Only a node whose relaxed point cannot
be restricted is refused. -/
theorem failed_solve_spends_retries_or_ends_feasible (p : Problem α) (node : Node α β k)
    (solver : ConvexSolver α β p.size σ) (retries : ℕ) (c : ConvexProblem α p.size) (s : σ) :
    ((∃ x ∈ node.relaxed, p.restrict? x = none) ∧
      solve p solver.logged retries node c (s, []) = .error (.misfit .position)) ∨
    ∃ node' notices s' failed last,
      solve p solver retries node c s = .ok ⟨node', notices, s'⟩ ∧
      solve p solver.logged retries node c (s, []) = .ok ⟨node', notices, s', failed ++ [last]⟩ ∧
      AreAttempts c (node.relaxed.bind p.restrict?) retries failed last ∧
      (node'.status = .failed ↔ ∀ call ∈ failed ++ [last], ¬ IsUsable p k call.answer) ∧
      (node'.status = .failed →
        (failed ++ [last]).length = 1 + retries ∨ last.answer.status = .feasible) := by
  by_cases hstart : ∀ x ∈ node.relaxed, p.restrict? x ≠ none
  · right
    obtain ⟨notices, failed, last, s', hattempts, hsolve, hlogged⟩ :=
      exists_attempts hstart solver retries c s
    have hstatus := record_status_eq_failed_iff (p := p) node last.answer
    refine ⟨_, notices, s', failed, last, hsolve, hlogged, hattempts,
      hstatus.trans hattempts.forall_not_isUsable_iff.symm, fun hfailed ↦ ?_⟩
    apply hattempts.length_eq_or_status_eq
    exact fun hinfeasible ↦ hstatus.mp hfailed (Or.inl hinfeasible)
  · left
    push Not at hstart
    obtain ⟨x, hx, hmisfit⟩ := hstart
    refine ⟨⟨x, hx, hmisfit⟩, ?_⟩
    rw [Option.mem_def] at hx
    simp only [solve, hx, hmisfit]
    rfl

end Lower

namespace MachineLine

/-- Answers at first without a point, and then with one. -/
def pointlessAtFirst : ConvexSolver Float Float 1 ℕ := fun _ _ asked ↦
  (⟨.optimal, .feasiblePoint, 0.25, if asked = 0 then none else some #[0.5]⟩, asked + 1)

/-- The retries that are left are not used, and the second answer, which could be recorded, is not
asked for. -/
theorem failed_solve_pointlessAtFirst :
    let node : Node Float Float 1 := Node.fresh negInf 0 0 problem.box none
    let c : ConvexProblem Float 1 := ⟨problem.objective, [], problem.box⟩
    ∃ node' notices s' call,
      Lower.solve problem pointlessAtFirst.logged 2 node c (0, []) =
        .ok ⟨node', notices, s', [call]⟩ ∧
      node'.status = .failed ∧ call.answer.status = .feasible ∧
      ¬ Lower.IsUsable problem 1 call.answer ∧
      Lower.IsUsable problem 1 (pointlessAtFirst c none 1).1 := by
  intro node c
  have hrun : (Lower.solve problem pointlessAtFirst.logged 2 node c (0, [])).toOption.map
      (fun r ↦ (r.node.status, r.solver.2.length)) = some (.failed, 1) := by
    decide +kernel
  obtain ⟨⟨x, hx, -⟩, -⟩ | ⟨node', notices, s', failed, last, -, hlogged, -, hfailed, hlength⟩ :=
    Lower.failed_solve_spends_retries_or_ends_feasible problem node pointlessAtFirst 2 c 0
  · cases hx
  · rw [hlogged] at hrun
    obtain ⟨hstatus, hcalls⟩ : node'.status = .failed ∧ (failed ++ [last]).length = 1 := by
      simpa [Except.toOption] using hrun
    rw [List.length_append, List.length_singleton, Nat.add_eq_right, List.length_eq_zero_iff]
      at hcalls
    subst hcalls
    refine ⟨node', notices, s', last, hlogged, hstatus, ?_,
      hfailed.mp hstatus last (List.mem_singleton_self _), Or.inr ⟨rfl, ?_, rfl, #[0.5], rfl, rfl⟩⟩
    · exact (hlength hstatus).resolve_left (by simp)
    · decide

end MachineLine

end GlobalQcqp
