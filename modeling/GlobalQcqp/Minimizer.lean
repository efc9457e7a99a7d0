import GlobalQcqp.Program
import GlobalQcqp.Setting.Order
import GlobalQcqp.Tensor
/-!
# Minimizers

A minimizer solves nonlinear programs.  It answers with a point and a claim of success, or it breaks
down numerically, which counts as an answer, or it fails for a reason of its own, which is passed
on.  Like a solver it is an answering machine with a state, and nothing is assumed of its answers.
-/

namespace GlobalQcqp

inductive Method where
  | sequential
  | trustRegion
deriving DecidableEq, Repr

namespace Method

def text : Method → String
  | sequential => "SLSQP"
  | trustRegion => "trust-constr"

def ofText? (s : String) : Option Method :=
  [sequential, trustRegion].find? (·.text == s)

end Method

structure Job (α : Type) where
  size : Nat
  program : Program α size
  /-- The starting point as it was handed on. The program starts from the vector that it stands
  for. -/
  start : Tensor α
  method : Method
  settings : List (String × Setting)

/-- What a minimizer has found. The point may have any shape. A part may be missing or no number,
which is a misfit where the part is used. -/
structure Minimum (α β : Type) where
  point : Except Misfit (Tensor α)
  value : Except Misfit β
  success : Except Misfit Bool
  status : Option Setting
  message : String
  iterations : Setting

inductive Outcome (α β ε : Type) where
  | finished (m : Minimum α β)
  | brokeDown (message : String)
  | failed (cause : ε)

abbrev Minimizer (α β ε σ : Type) :=
  Job α → σ → Outcome α β ε × σ

/-- Why a solve by a minimizer has no answer. -/
inductive SolveError (ε : Type) where
  | misfit (cause : Misfit)
  | failed (cause : ε)

namespace Minimum

variable {α β : Type}

/-- The status of an unsuccessful minimum. Either method has its own codes. -/
def termination (method : Method) (m : Minimum α β) : Termination :=
  match method, m.status with
  | _, none => .otherError
  | .trustRegion, some code => if code.equals (.int 0) then .iterationLimit else .otherError
  | .sequential, some code =>
    if code.equals (.int 9) then .iterationLimit
    else if [5, 6, 7, 8].any fun n ↦ code.equals (.int n) then .numericalError
    else .otherError

/-- The code of the sequential method for conditions that exclude each other near the current
point. -/
def incompatible : Int := 4

end Minimum

end GlobalQcqp
