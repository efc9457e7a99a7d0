import GlobalQcqp.Proofs.Except
import GlobalQcqp.Proofs.Solver
import GlobalQcqp.Node.LowerBound
/-!
# Bounds from relaxations

Recording an answer never lowers the bound of a node, and touches nothing but its bound, its relaxed
point and its status.  With sound answers the new bound is still below the objective at every
feasible point of the box, and only a node without such a point is refuted.
-/

namespace GlobalQcqp

variable {k n : Nat} {σ : Type}

theorem Node.bound_eq_max (node : Node ℝ EReal k) :
    node.bound = max node.priority node.lowerBound := by
  rw [bound, Scalar.max_ereal]

theorem Node.priority_le_bound (node : Node ℝ EReal k) : node.priority ≤ node.bound := by
  rw [bound_eq_max]
  exact le_max_left _ _

namespace Lower

/-- The answer is one the solver gives for the problem, from some point and state. -/
def IsAnswer (solver : ConvexSolver ℝ EReal n σ) (c : ConvexProblem ℝ n)
    (answer : ConvexAnswer ℝ EReal) : Prop :=
  ∃ start s, (solver c start s).1 = answer

theorem retry_isAnswer {solver : ConvexSolver ℝ EReal n σ} {c : ConvexProblem ℝ n} (id : Int)
    (left : Nat) {answer : ConvexAnswer ℝ EReal} (hanswer : IsAnswer solver c answer) (s : σ) :
    IsAnswer solver c (retry solver c id left answer s).2.1 := by
  induction left generalizing answer s with
  | zero => exact hanswer
  | succ left ih =>
      simp only [retry]
      split
      · exact ih ⟨_, _, rfl⟩ _
      · exact hanswer

theorem writeBack_toArray {α β : Type} [Scalar α] (p : Problem α) (node : Node α β p.stored)
    (x : Vector α p.size) :
    writeBack p node x.toArray = .ok (node.box.clamp (p.scatter (warmStart node) x)) := by
  rw [writeBack, dif_pos x.size_toArray, dif_pos rfl]
  rfl

/-- What an answer makes of a node. -/
inductive Recorded (node : Node ℝ EReal k) (answer : ConvexAnswer ℝ EReal) :
    Node ℝ EReal k → Prop where
  | refuted (hstatus : answer.status = .infeasible) : Recorded node answer node.markInfeasible
  | bounded (hstatus : answer.status = .feasible) (hvalue : Scalar.isFinite answer.value = true)
      (x : Vector ℝ k) : Recorded node answer
        { node with
          relaxed := some x.toArray
          lowerBound := Scalar.max answer.value node.priority
          status := .feasible }
  | kept (hstatus : answer.status ≠ .infeasible) : Recorded node answer (keepBound node)

theorem record_recorded (p : Problem ℝ) (node : Node ℝ EReal k) (answer : ConvexAnswer ℝ EReal) :
    Recorded node answer (record p node answer).1 := by
  unfold record
  split
  · exact .refuted ‹_›
  · have hne : answer.status ≠ .infeasible := by simp_all
    split
    · split
      · exact .kept hne
      · exact .bounded ‹_› ‹_› _
    · exact .kept hne
  · exact .kept ‹_›

theorem solve_eq_ok {p : Problem ℝ} {solver : ConvexSolver ℝ EReal p.size σ} {retries : Nat}
    {node : Node ℝ EReal k} {c : ConvexProblem ℝ p.size} {s : σ} {r : Lowered ℝ EReal k σ}
    (h : solve p solver retries node c s = .ok r) :
    ∃ answer, IsAnswer solver c answer ∧ Recorded node answer r.node := by
  have hdone (start : Option (Vector ℝ p.size)) : ∃ answer, IsAnswer solver c answer ∧
      Recorded node answer (record p node
        (retry solver c node.id retries (solver c start s).1 (solver c start s).2).2.1).1 :=
    ⟨_, retry_isAnswer node.id retries ⟨start, s, rfl⟩ _, record_recorded p node _⟩
  simp only [solve] at h
  split at h
  · cases h
    exact hdone none
  · split at h
    · cases h
    · cases h
      exact hdone (some _)

namespace Recorded

variable {node node' : Node ℝ EReal k} {answer : ConvexAnswer ℝ EReal}

theorem frame (h : Recorded node answer node') : node' =
    { node with
      lowerBound := node'.lowerBound, relaxed := node'.relaxed, status := node'.status } := by
  cases h <;> rfl

theorem box_eq (h : Recorded node answer node') : node'.box = node.box := by
  rw [h.frame]

theorem priority_eq (h : Recorded node answer node') : node'.priority = node.priority := by
  rw [h.frame]

theorem priority_le_bound (h : Recorded node answer node') : node.priority ≤ node'.bound := by
  rw [← h.priority_eq]
  exact node'.priority_le_bound

/-- A feasible point of the problem that was solved is not lost. -/
theorem bound_le (h : Recorded node answer node') {c : ConvexProblem ℝ n}
    (hsound : answer.IsSoundFor c) {x : Vector ℝ n} (hx : x ∈ c.feasibleSet) {v : EReal}
    (hpriority : node.priority ≤ v) (hv : c.objective.eval x ≤ v) :
    node'.status ≠ .infeasible ∧ node'.bound ≤ v := by
  cases h with
  | refuted hstatus =>
      have hempty := hsound.refuted hstatus
      rw [hempty] at hx
      cases hx
  | bounded hstatus hvalue y =>
      have hle := (hsound.value_le hstatus x hx).trans hv
      refine ⟨by simp, ?_⟩
      simp only [Node.bound_eq_max, Scalar.max_ereal]
      exact max_le hpriority (max_le hle hpriority)
  | kept hstatus =>
      refine ⟨by simp [keepBound], ?_⟩
      simp only [Node.bound_eq_max, keepBound]
      exact max_le hpriority hpriority

end Recorded

end Lower

end GlobalQcqp
