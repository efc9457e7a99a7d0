import GlobalQcqp.Defaults
import GlobalQcqp.Problem.Build
import GlobalQcqp.Quadratic.Reader
/-!
# Reading problems

A problem is written as a dictionary.  Its functions are read first; its other parts are read when
their turn comes, and those that are left open have their defaults.
-/

namespace GlobalQcqp.Problem

private def functions (v : Setting) (name : String) :
    Except (Fault Float) (List (SizedQuadratic Float)) :=
  match v.filled? name with
  | none => .ok []
  | some fs => do (← fs.sequence.mapError .misfit).mapM Quadratic.ofSetting

private def tolerance (v : Setting) (name : String) : Except Misfit Float :=
  match v.entry? name with
  | none => .ok Defaults.gap
  | some tol => if tol.worded.number?.isNone then .error .kind else tol.worded.toFloat

def ofSetting (v : Setting) : Except (Fault Float) (Problem Float) := do
  let target := (v.entry? "objective").getD .none
  let objective ←
    match target with
    | .fields _ => some <$> Quadratic.ofSetting target
    | _ => pure none
  let constraints ← functions v "constraints"
  let equalities ← functions v "equalities"
  let part {ε : Type} (name : String) (read : Setting → Except Misfit (Tensor ε)) :
      Option (Except Misfit (Array ε)) :=
    (v.filled? name).map fun x ↦ (·.entries) <$> read x.worded
  match objective with
  | none => .error (.objectiveKind target.kindName)
  | some objective =>
    let epigraph ← (v.filled? "epigraph_index").mapM fun k ↦ k.worded.toInt.mapError .misfit
    let p ← build {
      objective, constraints, equalities, epigraph
      lower := part "lower" Setting.toNumbers
      upper := part "upper" Setting.toNumbers
      branchMask := part "branch_mask" (Setting.toTensor Setting.toFlag)
      places := (v.filled? "variable_indices").map (·.worded.toPositions)
      absTol := tolerance v "abs_tol"
      relTol := tolerance v "rel_tol" }
    if (v.entry? "epigraph").any (!·.isBlank) then p.withEpigraph else return p

end GlobalQcqp.Problem
