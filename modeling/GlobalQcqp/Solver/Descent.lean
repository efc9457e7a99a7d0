import GlobalQcqp.Minimizer
import GlobalQcqp.Notice
import GlobalQcqp.Setting.Entries
/-!
# Local solves

Two ways to solve a problem locally.  A minimizer takes it as a program; its answer is handed on as
it is.  An interior-point routine takes it as a ranged program and answers with a status code, and
only some codes vouch for the point.
-/

namespace GlobalQcqp

variable {α β ε σ : Type} [Scalar α] [Scalar β] [Extended α β] {n : Nat}

namespace Descent

/-- An answer with the minimum it was read off, if any. -/
structure Report (α β : Type) where
  answer : LocalAnswer α
  value : β
  success : Bool
  minimum : Option (Minimum α β)
  notices : List (Notice β)

/-- The minimizer broke down. -/
def Report.brokeDown (message : String) : Report α β :=
  ⟨⟨none, message⟩, posInf, false, none, [.solveRaised .localSearch message]⟩

/-- Reads a minimum part by part. -/
def read (m : Minimum α β) : Except Misfit (Report α β) := do
  let point ← m.point
  let value ← m.value
  let success ← m.success
  return ⟨⟨some point, m.message⟩, value, success, some m, []⟩

def solve (minimize : Minimizer α β ε σ) (method : Method) (settings : List (String × Setting))
    (c : LocalProblem α n) (s : σ) : Except (SolveError ε) (Report α β) × σ :=
  match minimize ⟨n, c.program, .ofVector c.program.start, method, settings⟩ s with
  | (.failed cause, s) => (.error (.failed cause), s)
  | (.brokeDown message, s) => (.ok (.brokeDown message), s)
  | (.finished m, s) => ((read m).mapError .misfit, s)

/-- A minimizer as a local solver. A minimum that cannot be read is no answer. -/
def solver (minimize : Minimizer α β Empty σ) (method : Method)
    (settings : List (String × Setting)) : LocalSolver α n σ := fun c s ↦
  match solve minimize method settings c s with
  | (.ok report, s) => (report.answer, s)
  | (.error _, s) => (⟨none, ""⟩, s)

end Descent

namespace InteriorPoint

/-- The answer of an interior-point routine. Point and value are read only if the status vouches for
them. -/
structure Answer (α β : Type) where
  point : Except Misfit (Tensor α)
  status : Setting
  value : Except Misfit β
  message : String

/-- Solved, solved to an acceptable level, or a feasible point. -/
def accepted : List Int :=
  [0, 1, 6]

def noStatus : Setting := .int (-100)

/-- Hands on a point whose status vouches for it. -/
def Answer.report (a : Answer α β) : Except Misfit (Descent.Report α β) := do
  if !a.status.isName then .error .kind
  if accepted.any fun n ↦ a.status.equals (.int n) then
    let point ← a.point
    return ⟨⟨some point, a.message⟩, ← a.value, true, none, []⟩
  else return ⟨⟨none, a.message⟩, posInf, false, none, []⟩

end InteriorPoint

end GlobalQcqp
