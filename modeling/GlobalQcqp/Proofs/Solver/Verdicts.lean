import GlobalQcqp.Proofs.Except
import GlobalQcqp.Proofs.OrderedScalar
import GlobalQcqp.Proofs.Solver.Staged
/-!
# Verdicts of staged solves

A minimizer may answer a job with any point, any claim of success and any status, or break down.  A
staged solve asks it at most three times, and what it concludes rests on what it has measured: a
problem is solved only at a point whose violation is within the tolerance, and refuted only by a
point that violates a constraint by more.  Everything else is a failure.

A constraint without a defined value at a point is passed over when the violation is measured.
-/

namespace GlobalQcqp

open Scalar (isUndefined)

variable {α β ε σ : Type} {n : ℕ}

/-! ## Calls of a minimizer -/

structure MinimizerCall (α β ε : Type) where
  job : Job α
  outcome : Outcome α β ε

/-- The minimizer with a list of its calls, the last one at the end. -/
def Minimizer.logged (minimize : Minimizer α β ε σ) :
    Minimizer α β ε (σ × List (MinimizerCall α β ε)) := fun job (s, log) ↦
  let (outcome, s) := minimize job s
  (outcome, s, log ++ [⟨job, outcome⟩])

/-- A breakdown, or a minimum whose point has a coordinate for each variable of the job, with a
claim of success or failure and a status. -/
inductive Outcome.Fits (job : Job α) : Outcome α β ε → Prop
  | brokeDown (message : String) : Fits job (.brokeDown message)
  | finished {m : Minimum α β} (z : Vector α job.size) (success : Bool) (code : Setting)
      (hpoint : m.point = .ok (.ofVector z)) (hsuccess : m.success = .ok success)
      (hstatus : m.status = some code) : Fits job (.finished m)

def Minimizer.Fits (minimize : Minimizer α β ε σ) : Prop :=
  ∀ job s, (minimize job s).1.Fits job

def AllFinished (calls : List (MinimizerCall α β ε)) : Prop :=
  ∀ call ∈ calls, ∃ m, call.outcome = .finished m

theorem AllFinished.nil : AllFinished ([] : List (MinimizerCall α β ε)) :=
  List.forall_mem_nil _

theorem AllFinished.concat {calls : List (MinimizerCall α β ε)} (h : AllFinished calls)
    (job : Job α) (m : Minimum α β) : AllFinished (calls ++ [⟨job, .finished m⟩]) :=
  List.forall_mem_append.mpr ⟨h, List.forall_mem_singleton.mpr ⟨m, rfl⟩⟩

theorem AllFinished.ne_brokeDown {calls : List (MinimizerCall α β ε)} (h : AllFinished calls)
    {call : MinimizerCall α β ε} (hcall : call ∈ calls) (message : String) :
    call.outcome ≠ .brokeDown message := by
  obtain ⟨m, hm⟩ := h call hcall
  rw [hm]
  exact nofun

/-! ## Measured violations -/

variable [Scalar α]

namespace ConvexProblem

variable {c : ConvexProblem α n} {x : Vector α n} {a : α}

/-- No measured violation is above the bound, so a constraint holds up to the bound if only it has a
defined value. -/
def MeetsWithin (c : ConvexProblem α n) (x : Vector α n) (a : α) : Prop :=
  c.violation x ≤ a ∧ ∀ g ∈ c.constraints, g.eval x ≤ a ↔ isUndefined (g.eval x) = false

variable [OrderedScalar α]

theorem lt_violation_iff : a < c.violation x ↔ a < 0 ∨ ∃ g ∈ c.constraints, a < g.eval x :=
  Scalar.lt_foldl_max_iff c.constraints OrderedScalar.isUndefined_zero

theorem isUndefined_violation : isUndefined (c.violation x) = false :=
  Scalar.isUndefined_foldl_max c.constraints OrderedScalar.isUndefined_zero

theorem meetsWithin_of_violation_le (h : c.violation x ≤ a) : c.MeetsWithin x a := by
  refine ⟨h, fun g hg ↦ ⟨fun hle ↦ (OrderedScalar.isUndefined_of_le hle).1, fun hdefined ↦ ?_⟩⟩
  refine LawfulScalar.le_of_not_lt (OrderedScalar.isUndefined_of_le h).2 hdefined fun hlt ↦ ?_
  exact Scalar.not_lt_of_le h (lt_violation_iff.mpr (Or.inr ⟨g, hg, hlt⟩))

end ConvexProblem

namespace Staged

variable [Scalar β] [Extended α β]

/-- The job of phase one from a vector. -/
def vectorSlackJob (stages : Staged α) (c : ConvexProblem α n) (b : FrozenBox α n)
    (z : Vector α b.count) : Job α :=
  ⟨b.count + 1, slackProgram c b z, .ofVector (z.push (worst c (b.full z))), .sequential,
    stages.settings⟩

theorem slackJob_ofVector (stages : Staged α) (c : ConvexProblem α n) (b : FrozenBox α n)
    (z : Vector α b.count) :
    slackJob stages c b (.ofVector z) = .ok (vectorSlackJob stages c b z) :=
  rfl

/-! ## What is concluded -/

/-- Phase one has ended with success at this point. -/
structure IsPhaseOneSuccess (stages : Staged α) (c : ConvexProblem α n) (b : FrozenBox α n)
    (call : MinimizerCall α β ε) (z : Vector α b.count) : Prop where
  job : ∃ start, call.job = vectorSlackJob stages c b start
  outcome : ∃ (m : Minimum α β) (y : Vector α (b.count + 1)), call.outcome = .finished m ∧
    m.success = .ok true ∧ m.point = .ok (.ofVector y) ∧ y.pop = z

/-- The reports of a solve after its calls. -/
inductive Rests (stages : Staged α) (c : ConvexProblem α n) (b : FrozenBox α n)
    (calls : List (MinimizerCall α β ε)) : Report α β → Prop
  | solved (z : Vector α b.count) (found : Option (Minimum α β)) (hcalls : AllFinished calls)
      (hviolation : c.violation (b.full z) ≤ stages.tol) :
      Rests stages c b calls (.solved c .feasiblePoint (b.full z) found)
  | nearly (z : Vector α b.count) (found : Option (Minimum α β)) (hcalls : AllFinished calls)
      (hlength : calls.length = 1) (hviolation : c.violation (b.full z) ≤ 10.0 * stages.tol) :
      Rests stages c b calls (.solved c .nearlyFeasiblePoint (b.full z) found)
  | refuted (z : Vector α b.count) (found : Option (Minimum α β)) (hcalls : AllFinished calls)
      (hsource : calls = [] ∨ ∃ call ∈ calls.getLast?, IsPhaseOneSuccess stages c b call z)
      (hviolation : stages.tol < c.violation (b.full z)) :
      Rests stages c b calls (.refuted found)
  | unsolved (report : Report α β) (hstatus : report.answer.status = .failed) :
      Rests stages c b calls report

section

variable {stages : Staged α} {c : ConvexProblem α n} {b : FrozenBox α n} {main m : Minimum α β}
  {z : Vector α b.count} {calls : List (MinimizerCall α β ε)} {call : MinimizerCall α β ε}

theorem Rests.unknown (termination : Termination) (point : Option (Array α))
    (found : Option (Minimum α β)) (notices : List (Notice β)) :
    Rests stages c b calls (.unknown termination point found notices) :=
  .unsolved _ (status_unknown _ _ _ _)

/-! ## The stages -/

theorem afterMain_rests (stages : Staged α) (c : ConvexProblem α n) (hcalls : AllFinished [call])
    {success : Bool} {code : Setting} (hpoint : m.point = .ok (.ofVector z))
    (hsuccess : m.success = .ok success) (hstatus : m.status = some code) :
    (afterMain stages c b m : Except (SolveError ε) _) = .ok (.inr (.ofVector z)) ∨
      ∃ report, (afterMain stages c b m : Except (SolveError ε) _) = .ok (.inl report) ∧
        Rests stages c b [call] report := by
  have hmeasured {a : α} (h : (success && decide (c.violation (b.full z) ≤ a)) = true) :
      c.violation (b.full z) ≤ a :=
    of_decide_eq_true (Bool.and_eq_true_iff.mp h).2
  rw [afterMain, hpoint, written_ofVector, hsuccess]
  simp only [ok_bind, pure_eq_ok, Except.mapError, hstatus, Start.ofVector]
  split
  · exact Or.inr ⟨_, rfl, .solved z _ hcalls (hmeasured ‹_›)⟩
  split
  · exact Or.inr ⟨_, rfl, .nearly z _ hcalls rfl (hmeasured ‹_›)⟩
  split
  · exact Or.inr ⟨_, rfl, .unknown _ _ _ _⟩
  split
  · exact Or.inl rfl
  split
  · exact Or.inr ⟨_, rfl, .unknown _ _ _ _⟩
  · rename_i hnone
    cases hnone
  · split
    · exact Or.inl rfl
    · exact Or.inr ⟨_, rfl, .unknown _ _ _ _⟩

theorem afterPhaseOne_rests (stages : Staged α) (c : ConvexProblem α n) (z : Vector α b.count)
    (main : Minimum α β) (hcalls : AllFinished calls) {success : Bool}
    {y : Vector α (b.count + 1)} (hpoint : m.point = .ok (.ofVector y))
    (hsuccess : m.success = .ok success) :
    (afterPhaseOne stages c b main m : Except (SolveError ε) _) = .ok (.inr (.ofVector y.pop)) ∨
      ∃ report, (afterPhaseOne stages c b main m : Except (SolveError ε) _) = .ok (.inl report) ∧
        Rests stages c b (calls ++ [⟨vectorSlackJob stages c b z, .finished m⟩]) report := by
  have hlast : (m.point.bind (·.dropLast)) = .ok (.ofVector y.pop) := by
    rw [hpoint]
    exact Tensor.dropLast_ofVector y
  rw [afterPhaseOne, hsuccess, hlast, written_ofVector]
  simp only [ok_bind, pure_eq_ok, Except.mapError, Start.ofVector]
  cases success with
  | false => exact Or.inr ⟨_, rfl, .unknown _ _ _ _⟩
  | true =>
      simp only [if_true]
      split
      · have hsource : IsPhaseOneSuccess stages c b
            (⟨vectorSlackJob stages c b z, .finished m⟩ : MinimizerCall α β ε) y.pop :=
          ⟨⟨z, rfl⟩, m, y, rfl, hsuccess, hpoint, rfl⟩
        refine Or.inr ⟨_, rfl, .refuted y.pop _ (hcalls.concat _ m) (Or.inr ?_) ‹_›⟩
        exact ⟨_, List.getLast?_concat, hsource⟩
      · exact Or.inl rfl

theorem afterRetry_rests (hcalls : AllFinished calls) {success : Bool}
    (hpoint : m.point = .ok (.ofVector z)) (hsuccess : m.success = .ok success) :
    ∃ report, (afterRetry stages c b m : Except (SolveError ε) _) = .ok report ∧
      Rests stages c b calls report := by
  rw [afterRetry, hsuccess, hpoint, written_ofVector]
  simp only [ok_bind, pure_eq_ok, Except.mapError, Start.ofVector]
  cases success with
  | false => exact ⟨_, rfl, .unknown _ _ _ _⟩
  | true =>
      refine ⟨_, rfl, ?_⟩
      split
      · exact .solved z _ hcalls ‹_›
      · exact .unknown _ _ _ _

/-! ## Whole solves -/

variable {minimize : Minimizer α β ε σ} (hfits : minimize.Fits)
include hfits

theorem retry_rests (stages : Staged α) (c : ConvexProblem α n) (main : Minimum α β)
    (z : Vector α b.count) (hcalls : AllFinished calls) (s : σ) : ∃ report s' call,
      retry minimize.logged stages c b main (.ofVector z) (s, calls) =
        (.ok report, s', calls ++ [call]) ∧ Rests stages c b (calls ++ [call]) report := by
  have hanswer := hfits (mainJob stages c b (.ofVector z)) s
  simp only [retry, Minimizer.logged]
  generalize minimize (mainJob stages c b (.ofVector z)) s = asked at hanswer ⊢
  obtain ⟨outcome, s'⟩ := asked
  cases hanswer with
  | brokeDown message => exact ⟨_, _, _, rfl, .unknown _ _ _ _⟩
  | @finished m y success code hpoint hsuccess hstatus =>
      obtain ⟨report, hreport, hrests⟩ :=
        afterRetry_rests (hcalls.concat (mainJob stages c b (.ofVector z)) m) hpoint hsuccess
      exact ⟨report, s', _, congrArg (·, _) hreport, hrests⟩

theorem phaseOne_rests (stages : Staged α) (c : ConvexProblem α n) (main : Minimum α β)
    (z : Vector α b.count) (hcalls : AllFinished calls) (s : σ) : ∃ report s' later,
      phaseOne minimize.logged stages c b main (.ofVector z) (s, calls) =
        (.ok report, s', calls ++ later) ∧
      later.length ≤ 2 ∧ Rests stages c b (calls ++ later) report := by
  have hanswer := hfits (vectorSlackJob stages c b z) s
  simp only [phaseOne, slackJob_ofVector, Minimizer.logged]
  generalize minimize (vectorSlackJob stages c b z) s = asked at hanswer ⊢
  obtain ⟨outcome, s'⟩ := asked
  cases hanswer with
  | brokeDown message => exact ⟨_, _, _, rfl, Nat.one_le_ofNat, .unknown _ _ _ _⟩
  | @finished m y success code hpoint hsuccess hstatus =>
      rcases afterPhaseOne_rests stages c z main hcalls hpoint hsuccess with
        hretry | ⟨report, hreport, hrests⟩
      · obtain ⟨report, s'', call, hrun, hrests⟩ :=
          retry_rests hfits stages c main y.pop (hcalls.concat (vectorSlackJob stages c b z) m) s'
        rw [List.append_assoc] at hrun hrests
        refine ⟨report, s'', _, ?_, le_rfl, hrests⟩
        simp only [hretry]
        exact hrun
      · simp only [hreport]
        exact ⟨report, s', _, rfl, Nat.one_le_ofNat, hrests⟩

variable [OrderedScalar α] (htol : 0 ≤ stages.tol)
include htol

omit hfits in
theorem atBase_rests : Rests stages c b ([] : List (MinimizerCall α β ε)) (atBase stages c b) := by
  have hbase : b.full (b.gather b.base) = b.base := b.full_gather fun _ _ ↦ rfl
  unfold atBase
  split
  · rename_i hwithin
    rw [← hbase] at hwithin ⊢
    exact .solved _ _ .nil hwithin
  · rename_i hwithin
    have hdefined := (OrderedScalar.isUndefined_of_le htol).2
    have hlt := Scalar.lt_of_not_le ConvexProblem.isUndefined_violation hdefined hwithin
    rw [← hbase] at hlt
    exact .refuted _ _ .nil (Or.inl rfl) hlt

theorem solve_rests (start : Option (Vector α n)) (s : σ) :
    ∃ report s' calls,
      solve minimize.logged stages c (start.map .ofVector) (s, []) = (.ok report, s', calls) ∧
      calls.length ≤ 3 ∧ (calls = [] ↔ (FrozenBox.ofBox Defaults.nearZero c.box).count = 0) ∧
      Rests stages c (.ofBox Defaults.nearZero c.box) calls report := by
  by_cases hcount : (FrozenBox.ofBox Defaults.nearZero c.box).count = 0
  · exact ⟨_, s, [], if_pos hcount, Nat.zero_le 3, iff_of_true rfl hcount, atBase_rests htol⟩
  obtain ⟨z, hz⟩ : ∃ z, reduce (.ofBox Defaults.nearZero c.box)
      ((start.map .ofVector).getD (.ofVector c.midpoint)) = .ok (.ofVector z) := by
    cases start with
    | none => exact ⟨_, reduce_ofVector c.midpoint⟩
    | some x => exact ⟨_, reduce_ofVector x⟩
  have hanswer := hfits (mainJob stages c _ (.ofVector z)) s
  simp only [solve, if_neg hcount, hz, Minimizer.logged]
  generalize minimize (mainJob stages c _ (.ofVector z)) s = asked at hanswer ⊢
  obtain ⟨outcome, s'⟩ := asked
  cases hanswer with
  | brokeDown message =>
      exact ⟨_, _, _, rfl, Nat.one_le_ofNat, iff_of_false (List.cons_ne_nil _ _) hcount,
        .unknown _ _ _ _⟩
  | @finished m y success code hpoint hsuccess hstatus =>
      have hcalls : AllFinished
          [(⟨mainJob stages c _ (.ofVector z), .finished m⟩ : MinimizerCall α β ε)] :=
        AllFinished.nil.concat _ m
      rcases afterMain_rests stages c hcalls hpoint hsuccess hstatus with
        hphase | ⟨report, hreport, hrests⟩
      · obtain ⟨report, s'', later, hrun, hlength, hrests⟩ :=
          phaseOne_rests hfits stages c m y hcalls s'
        simp only [hphase]
        exact ⟨report, s'', _, hrun, Nat.succ_le_succ hlength,
          iff_of_false (List.cons_ne_nil _ _) hcount, hrests⟩
      · simp only [hreport]
        exact ⟨report, s', _, rfl, Nat.one_le_ofNat, iff_of_false (List.cons_ne_nil _ _) hcount,
          hrests⟩

end

/-! ### The list of calls changes nothing -/

section

variable (minimize : Minimizer α β ε σ) (stages : Staged α) (c : ConvexProblem α n)
  (log : List (MinimizerCall α β ε))

theorem retry_logged {b : FrozenBox α n} (main : Minimum α β) (z : Start α b.count) (s : σ) :
    (retry minimize.logged stages c b main z (s, log)).map id Prod.fst =
      retry minimize stages c b main z s := by
  simp only [retry, Minimizer.logged]
  rcases minimize (mainJob stages c b z) s with ⟨_ | _ | _, s'⟩ <;> rfl

theorem phaseOne_logged {b : FrozenBox α n} (main : Minimum α β) (z : Start α b.count) (s : σ) :
    (phaseOne minimize.logged stages c b main z (s, log)).map id Prod.fst =
      phaseOne minimize stages c b main z s := by
  simp only [phaseOne]
  cases slackJob stages c b z with
  | error mismatch => rfl
  | ok job =>
      simp only [Minimizer.logged]
      rcases minimize job s with ⟨m | message | cause, s'⟩
      · dsimp only
        rcases (afterPhaseOne stages c b main m : Except (SolveError ε) _) with cause | report | y
        · rfl
        · rfl
        · exact retry_logged minimize stages c _ main y s'
      · rfl
      · rfl

theorem solve_logged (start : Option (Tensor α)) (s : σ) :
    (solve minimize.logged stages c start (s, log)).map id Prod.fst =
      solve minimize stages c start s := by
  simp only [solve]
  split
  · rfl
  · rcases reduce (FrozenBox.ofBox Defaults.nearZero c.box) (start.getD (.ofVector c.midpoint)) with
      (cause | cause) | z
    · rfl
    · rfl
    · simp only [Minimizer.logged]
      rcases minimize (mainJob stages c _ z) s with ⟨m | message | cause, s'⟩
      · dsimp only
        rcases (afterMain stages c _ m : Except (SolveError ε) _) with cause | report | y
        · rfl
        · rfl
        · exact phaseOne_logged minimize stages c _ m y s'
      · rfl
      · rfl

end

/-! ## What supports an answer -/

/-- The answer of a solve after its calls.  A feasible one has the value of its point, which meets
the constraints within the tolerance, or after a single call within ten times as much; an infeasible
one has a point that violates a constraint by more than the tolerance, the middle of the box or the
point of phase one. -/
structure IsSupported (stages : Staged α) (c : ConvexProblem α n)
    (calls : List (MinimizerCall α β ε)) (r : ConvexAnswer α β) : Prop where
  length_le : calls.length ≤ 3
  eq_nil_iff : calls = [] ↔ ∀ i : Fin n, ¬ Defaults.nearZero < c.box.upper[i] - c.box.lower[i]
  of_feasible : r.status = .feasible → ∃ x : Vector α n,
    r.point = some x.toArray ∧ r.value = ofNumber (c.objective.eval x) ∧
    (∀ i : Fin n, ¬ Defaults.nearZero < c.box.upper[i] - c.box.lower[i] →
      x[i] = c.box.midpoint[i]) ∧
    (c.MeetsWithin x stages.tol ∨ c.MeetsWithin x (10.0 * stages.tol) ∧
      r.primal = .nearlyFeasiblePoint ∧ calls.length = 1)
  of_infeasible : r.status = .infeasible → r.point = none ∧ r.value = posInf ∧
    ∃ x, (∃ g ∈ c.constraints, stages.tol < g.eval x) ∧
      (calls = [] ∧ x = c.box.midpoint ∨ ∃ call ∈ calls.getLast?, ∃ z,
        IsPhaseOneSuccess stages c (.ofBox Defaults.nearZero c.box) call z ∧
          x = (FrozenBox.ofBox Defaults.nearZero c.box).full z)
  of_other : r.status ≠ .feasible → r.status ≠ .infeasible → r.status = .failed
  of_brokeDown : ∀ call ∈ calls, ∀ message, call.outcome = .brokeDown message →
    r.status = .failed

section

variable {stages : Staged α} {c : ConvexProblem α n} {b : FrozenBox α n}
  {calls : List (MinimizerCall α β ε)} {report : Report α β}

theorem Rests.status_cases (h : Rests stages c b calls report) :
    report.answer.status = .feasible ∨ report.answer.status = .infeasible ∨
      report.answer.status = .failed := by
  cases h with
  | solved => exact Or.inl rfl
  | nearly => exact Or.inl rfl
  | refuted => exact Or.inr (Or.inl rfl)
  | unsolved report hfailed => exact Or.inr (Or.inr hfailed)

theorem Rests.failed_of_brokeDown (h : Rests stages c b calls report) {call : MinimizerCall α β ε}
    (hcall : call ∈ calls) {message : String} (hbroke : call.outcome = .brokeDown message) :
    report.answer.status = .failed := by
  cases h with
  | solved z found hcalls => exact absurd hbroke (hcalls.ne_brokeDown hcall message)
  | nearly z found hcalls => exact absurd hbroke (hcalls.ne_brokeDown hcall message)
  | refuted z found hcalls => exact absurd hbroke (hcalls.ne_brokeDown hcall message)
  | unsolved report hfailed => exact hfailed

variable [OrderedScalar α]

theorem Rests.of_feasible (h : Rests stages c b calls report)
    (hstatus : report.answer.status = .feasible) : ∃ z : Vector α b.count,
      report.answer.point = some (b.full z).toArray ∧
      report.answer.value = ofNumber (c.objective.eval (b.full z)) ∧
      (c.MeetsWithin (b.full z) stages.tol ∨ c.MeetsWithin (b.full z) (10.0 * stages.tol) ∧
        report.answer.primal = .nearlyFeasiblePoint ∧ calls.length = 1) := by
  cases h with
  | solved z found hcalls hviolation =>
      exact ⟨z, rfl, rfl, Or.inl (ConvexProblem.meetsWithin_of_violation_le hviolation)⟩
  | nearly z found hcalls hlength hviolation =>
      have hmeets := ConvexProblem.meetsWithin_of_violation_le hviolation
      exact ⟨z, rfl, rfl, Or.inr ⟨hmeets, rfl, hlength⟩⟩
  | refuted z found hcalls hsource hviolation => cases hstatus
  | unsolved report hfailed =>
      rw [hfailed] at hstatus
      cases hstatus

theorem Rests.of_infeasible (htol : 0 ≤ stages.tol) (h : Rests stages c b calls report)
    (hstatus : report.answer.status = .infeasible) :
    report.answer.point = none ∧ report.answer.value = posInf ∧ ∃ z : Vector α b.count,
      (∃ g ∈ c.constraints, stages.tol < g.eval (b.full z)) ∧
      (calls = [] ∨ ∃ call ∈ calls.getLast?, IsPhaseOneSuccess stages c b call z) := by
  cases h with
  | solved z found hcalls hviolation => cases hstatus
  | nearly z found hcalls hlength hviolation => cases hstatus
  | refuted z found hcalls hsource hviolation =>
      have hviolated := (ConvexProblem.lt_violation_iff.mp hviolation).resolve_left
        (Scalar.not_lt_of_le htol)
      exact ⟨rfl, rfl, z, hviolated, hsource⟩
  | unsolved report hfailed =>
      rw [hfailed] at hstatus
      cases hstatus

/-- A solve by a minimizer whose answers fit always reports, and what it reports is supported by
what it measured. -/
theorem solve_supported {minimize : Minimizer α β ε σ} (hfits : minimize.Fits)
    (stages : Staged α) (htol : 0 ≤ stages.tol) (c : ConvexProblem α n)
    (start : Option (Vector α n)) (s : σ) : ∃ report s' calls,
      solve minimize stages c (start.map .ofVector) s = (.ok report, s') ∧
      solve minimize.logged stages c (start.map .ofVector) (s, []) = (.ok report, s', calls) ∧
      IsSupported stages c calls report.answer := by
  obtain ⟨report, s', calls, hlogged, hlength, hnil, hrests⟩ := solve_rests hfits htol start s
  have hsolve : solve minimize stages c (start.map .ofVector) s = (.ok report, s') := by
    rw [← solve_logged minimize stages c [], hlogged]
    rfl
  refine ⟨report, s', calls, hsolve, hlogged, hlength,
    hnil.trans FrozenBox.count_ofBox_eq_zero_iff, fun hstatus ↦ ?_, fun hstatus ↦ ?_,
    fun hfeasible hinfeasible ↦ ?_, fun call hcall message ↦ hrests.failed_of_brokeDown hcall⟩
  · obtain ⟨z, hpoint, hvalue, hmeets⟩ := hrests.of_feasible hstatus
    refine ⟨_, hpoint, hvalue, fun i hi ↦ ?_, hmeets⟩
    exact FrozenBox.getElem_full_of_notMem z (mt FrozenBox.mem_free_ofBox.mp hi)
  · obtain ⟨hpoint, hvalue, z, hviolated, hsource⟩ := hrests.of_infeasible htol hstatus
    refine ⟨hpoint, hvalue, _, hviolated, hsource.imp (fun hcalls ↦ ⟨hcalls, ?_⟩) ?_⟩
    · exact FrozenBox.full_of_count_eq_zero (hnil.mp hcalls) z
    · rintro ⟨call, hcall, hsuccess⟩
      exact ⟨call, hcall, z, hsuccess, rfl⟩
  · exact (hrests.status_cases.resolve_left hfeasible).resolve_left hinfeasible

end

/-- Minimizes the only variable where `1e300 (x^2 / 2 - x)` is not positive.  The products overflow,
and the value at a large coordinate is the difference of two infinities. -/
def steep : ConvexProblem Float 1 where
  objective := .coordinate (Fin.last 0) 1
  constraints := [.ofMatrix (.replicate 1 (.replicate 1 1e300)) (.replicate 1 (-1e300)) 0]
  box := ⟨.replicate 1 0, .replicate 1 1e10⟩

/-- Answers every job with the same large coordinates and claims success. -/
def billions : Minimizer Float Float Empty Unit := fun job s ↦
  let z := Vector.replicate job.size 1e9
  (.finished ⟨.ok (.ofVector z), .ok 0, .ok true, some (.int 0), "", .int 1⟩, s)

/-- No constraint has a defined value at the point. -/
def undefinedAt (c : ConvexProblem Float n) (x : Array Float) : Bool :=
  if h : x.size = n then c.constraints.all fun g ↦ isUndefined (g.eval ⟨x, h⟩) else false

/-- The point is accepted, though the only constraint has no defined value there. -/
theorem solve_steep :
    let stages : Staged Float := ⟨.sequential, [], 1e-6⟩
    billions.Fits ∧ 0 ≤ stages.tol ∧ ∃ report, ∃ calls : List (MinimizerCall Float Float Empty),
      solve billions stages steep none () = (.ok report, ()) ∧
      IsSupported stages steep calls report.answer ∧ report.answer.status = .feasible ∧
      ∃ x : Vector Float 1, report.answer.point = some x.toArray ∧
        ∀ g ∈ steep.constraints, ¬ g.eval x ≤ 10.0 * stages.tol := by
  intro stages
  have hfits : billions.Fits := fun job s ↦ .finished _ true (.int 0) rfl rfl rfl
  have htol : 0 ≤ stages.tol := by decide
  have hrun : (solve billions stages steep none ()).1.toOption.map (fun report ↦
      (report.answer.status, report.answer.point.map (undefinedAt steep))) =
        some (.feasible, some true) := by
    decide +kernel
  obtain ⟨report, s', calls, hsolve, -, hsupported⟩ :=
    solve_supported hfits stages htol steep none ()
  have hsolve : solve billions stages steep none () = (.ok report, ()) := hsolve
  rw [hsolve] at hrun
  obtain ⟨hstatus, hundefined⟩ : report.answer.status = .feasible ∧
      report.answer.point.map (undefinedAt steep) = some true := by
    simpa [Except.toOption] using hrun
  obtain ⟨x, hpoint, -⟩ := hsupported.of_feasible hstatus
  refine ⟨hfits, htol, report, calls, hsolve, hsupported, hstatus, x, hpoint, fun g hg hle ↦ ?_⟩
  have hall : steep.constraints.all (fun g ↦ isUndefined (g.eval x)) = true := by
    simpa [hpoint, undefinedAt] using hundefined
  have hdefined := (OrderedScalar.isUndefined_of_le hle).1
  rw [List.all_eq_true.mp hall g hg] at hdefined
  cases hdefined

end Staged

end GlobalQcqp
