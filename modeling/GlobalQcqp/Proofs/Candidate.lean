import GlobalQcqp.Proofs.Problem
import GlobalQcqp.Candidate
/-!
# Certified candidates

A search for a feasible point tries points of the box only, so what it finds lies in the box, has
the objective value there, and violates no constraint by more than the tolerance.  This asks nothing
of the local solver.
-/

namespace GlobalQcqp

/-- Every point that the solver answers with is a vector of the right length. -/
def LocalSolver.AnswersVectors {n : Nat} {σ : Type} (solver : LocalSolver ℝ n σ) : Prop :=
  ∀ q s, ∀ x ∈ (solver q s).1.point, ∃ v : Vector ℝ n, x = .ofVector v

/-- Every point that the solver answers with can be read as one of the box. -/
def LocalSolver.AnswersFit {α : Type} {n : Nat} {σ : Type} (solver : LocalSolver α n σ) : Prop :=
  ∀ q s, ∀ x ∈ (solver q s).1.point, ∃ v, Candidate.fit n x = .ok v

namespace Candidate

/-- A search breaks off with an answer of the local solver that does not fit, and for no other
reason. -/
theorem search_eq_misfit_iff {α β σ : Type} [Scalar α] {p : Problem α} {box : Box α p.size}
    {tol : α} {solver : LocalSolver α p.size σ} {id : Int} {relaxed : Option (Vector α p.size)}
    {s : σ} {cause : Misfit} :
    (search p (some solver) tol id box relaxed s : UpperOutcome α β p.size σ).result =
      .error (.misfit cause) ↔
    ∃ x ∈ (solver (p.localProblem box (seed box relaxed)) s).1.point,
      fit p.size x = .error cause := by
  have hclose (found : Option (Candidate α p.size)) : found.elim (.error .noFeasiblePoint) .ok ≠
      (.error (.misfit cause) : Except UpperError (Candidate α p.size)) := by
    cases found with
    | none => simp
    | some c => simp
  simp only [search]
  cases hpoint : (solver (p.localProblem box (seed box relaxed)) s).1.point with
  | none => simpa using hclose _
  | some x =>
      cases hfit : fit p.size x with
      | ok v => simpa [hfit] using hclose _
      | error cause' => simp [hfit]

variable {σ : Type} {p : Problem ℝ} {box : Box ℝ p.size} {tol : ℝ} {c : Candidate ℝ p.size}

structure IsCertified (p : Problem ℝ) (box : Box ℝ p.size) (tol : ℝ) (c : Candidate ℝ p.size) :
    Prop where
  mem : c.point ∈ box
  value_eq : c.value = p.objective.eval c.point
  violation_le : p.violation c.point ≤ tol

theorem consider_isCertified {found : Option (Candidate ℝ p.size)} {x : Vector ℝ p.size × Source}
    (hx : x.1 ∈ box) (hfound : ∀ b ∈ found, IsCertified p box tol b) :
    ∀ c ∈ best.consider p box tol found x, IsCertified p box tol c := by
  intro c hc
  simp only [best.consider, Scalar.isFinite_real, if_true] at hc
  split at hc
  · have hfeasible : p.isFeasibleIn box tol x.1 = true := ‹_›
    have hviolation := decide_eq_true_iff.mp ((Bool.and_eq_true _ _).mp hfeasible).2
    have hnew : IsCertified p box tol ⟨x.1, p.objective.eval x.1, x.2⟩ := ⟨hx, rfl, hviolation⟩
    split at hc
    · cases hc
      exact hnew
    · split at hc
      · cases hc
        exact hnew
      · exact hfound c hc
  · exact hfound c hc

theorem foldl_consider_isCertified {points : List (Vector ℝ p.size × Source)}
    {found : Option (Candidate ℝ p.size)} (hpoints : ∀ x ∈ points, x.1 ∈ box)
    (hfound : ∀ b ∈ found, IsCertified p box tol b) :
    ∀ c ∈ points.foldl (best.consider p box tol) found, IsCertified p box tol c := by
  induction points generalizing found with
  | nil => exact hfound
  | cons x points ih =>
      have hx := hpoints x List.mem_cons_self
      refine ih (fun y hy ↦ ?_) (consider_isCertified hx hfound)
      exact hpoints y (List.mem_cons_of_mem x hy)

theorem best_isCertified {points : List (Vector ℝ p.size × Source)}
    (hpoints : ∀ x ∈ points, x.1 ∈ box) (h : best p box tol points = some c) :
    IsCertified p box tol c :=
  foldl_consider_isCertified hpoints (fun b hb ↦ absurd hb (Option.not_mem_none b)) c h

/-- Both searches start in the box, and the answer of the local solver is moved into it. -/
theorem search_isCertified {solver : Option (LocalSolver ℝ p.size σ)} {id : Int}
    {relaxed : Option (Vector ℝ p.size)} {s : σ} (hbox : box.IsProper)
    (h : (search p solver tol id box relaxed s : UpperOutcome ℝ EReal p.size σ).result = .ok c) :
    IsCertified p box tol c := by
  have hstart : seed box relaxed ∈ box := by
    cases relaxed with
    | none => exact Box.midpoint_mem hbox
    | some x => exact Box.clamp_mem hbox x
  have hclose {points : List (Vector ℝ p.size × Source)} (hpoints : ∀ x ∈ points, x.1 ∈ box)
      (h : (best p box tol points).elim (.error .noFeasiblePoint) .ok =
        (.ok c : Except UpperError (Candidate ℝ p.size))) : IsCertified p box tol c := by
    cases hbest : best p box tol points with
    | none =>
        rw [hbest] at h
        cases h
    | some found =>
        rw [hbest] at h
        cases h
        exact best_isCertified hpoints hbest
  have hsingle : ∀ x ∈ [(seed box relaxed, Source.relaxation)], x.1 ∈ box := by
    simpa using hstart
  simp only [search] at h
  split at h
  · exact hclose hsingle h
  · split at h
    · exact hclose hsingle h
    · split at h
      · cases h
      · refine hclose ?_ h
        simpa using ⟨hstart, Box.clamp_mem hbox _⟩

/-- A vector fits unless it has another length and more or less than one entry. -/
theorem fit_ofVector_eq_error_iff {α : Type} {m n : Nat} {x : Vector α m} {cause : Misfit} :
    fit n (.ofVector x) = .error cause ↔ (m ≠ n ∧ m ≠ 1) ∧ cause = .content := by
  have hshape : (Tensor.ofVector x).shape.length ≤ 1 ∨ n = 1 := Or.inl le_rfl
  have hmatrix : (Tensor.ofVector x).shape ≠ [n, n] := by simp [Tensor.ofVector]
  rw [fit, if_pos hshape, if_neg hmatrix, ← Tensor.fillVector?_ofVector_eq_none_iff (v := x)]
  cases (Tensor.ofVector x).fillVector? n with
  | none => simp [eq_comm]
  | some v => simp

end Candidate

/-- Vectors of the right length fit, and so do single entries. -/
theorem LocalSolver.answersFit_of_vectors {α σ : Type} {n : Nat} {solver : LocalSolver α n σ}
    (h : ∀ q s, ∀ x ∈ (solver q s).1.point,
      ∃ m, (m = n ∨ m = 1) ∧ ∃ v : Vector α m, x = .ofVector v) : solver.AnswersFit := by
  intro q s x hx
  obtain ⟨m, hlength, v, rfl⟩ := h q s x hx
  cases hfit : Candidate.fit n (.ofVector v) with
  | ok w => exact ⟨w, rfl⟩
  | error cause =>
      obtain ⟨⟨hne, hone⟩, -⟩ := Candidate.fit_ofVector_eq_error_iff.mp hfit
      exact absurd hlength (not_or.mpr ⟨hne, hone⟩)

theorem LocalSolver.AnswersVectors.answersFit {n : Nat} {σ : Type} {solver : LocalSolver ℝ n σ}
    (h : solver.AnswersVectors) : solver.AnswersFit := by
  refine answersFit_of_vectors fun q s x hx ↦ ?_
  obtain ⟨v, rfl⟩ := h q s x hx
  exact ⟨n, Or.inl rfl, v, rfl⟩

end GlobalQcqp
