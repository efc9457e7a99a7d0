import GlobalQcqp.Quadratic.Build
import GlobalQcqp.Setting.Reader
import GlobalQcqp.Tensor.Reader
/-!
# Reading quadratics

A quadratic is written as a dictionary with its matrix, its vector and, unless it is zero, its
constant.
-/

namespace GlobalQcqp

namespace Setting

/-- A matrix without rows is written as a word, since lists cannot tell how long the rows would
be. -/
def toMatrix : Setting → Except Misfit (Tensor Float)
  | text "0x0" => .ok ⟨[0, 0], #[]⟩
  | v => v.worded.toNumbers

/-- The constant of a function. An integer has to fit a machine word. A list of one number is tested
like a number but is none, and a longer one has no single test. -/
def toConstant (v : Setting) : Except Misfit Float :=
  match v with
  | bool _ | real _ => v.toFloat
  | int n => if -positionLimit ≤ n ∧ n < 2 * positionLimit then v.toFloat else .error .kind
  | list _ =>
    if v.shape?.isNone then .error .content
    else if v.leaves.all (·.number?.isSome) && v.leaves.length != 1 then .error .content
    else .error .kind
  | _ => .error .kind

end Setting

def Quadratic.ofSetting (v : Setting) : Except (Fault Float) (SizedQuadratic Float) := do
  let part {ε : Type} (x : Except Misfit ε) : Except (Fault Float) ε := x.mapError .misfit
  let matrix ← part (v.entry "Q")
  let linear ← part (v.entry "c")
  let constant := (v.entry? "constant").elim (.ok 0.0) (·.worded.toConstant)
  Quadratic.build (← part matrix.toMatrix) (← part linear.worded.toNumbers) constant

end GlobalQcqp
