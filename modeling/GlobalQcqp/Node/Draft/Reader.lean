import GlobalQcqp.Node.Draft
import GlobalQcqp.Setting.Reader
/-!
# Reading nodes

A node is written as a dictionary.  Only the ends of its box have to be given.
-/

namespace GlobalQcqp

namespace LowerStatus

def ofSetting : Setting → Except Misfit LowerStatus
  | .text s => (ofText? s).elim (.error .name) .ok
  | .list _ | .fields _ => .error .kind
  | _ => .error .name

end LowerStatus

def NodeDraft.ofSetting (v : Setting) : Except DraftError NodeDraft := do
  let value (name : String) (default : Setting) : Setting := (v.entry? name).elim default (·.worded)
  let lower ← misfit (v.entry "lower")
  let upper ← misfit (v.entry "upper")
  let relaxed ← misfit ((v.filled? "lower_solution").mapM (·.worded.toNumbers))
  let status ← misfit ((v.entry? "lower_status").mapM LowerStatus.ofSetting)
  let d : NodeDraft := {
    relaxed
    lower := ← misfit lower.worded.toNumbers
    upper := ← misfit upper.worded.toNumbers
    priority := value "priority" (.real negInf)
    id := value "node_id" (.int 0)
    depth := value "depth" (.int 0)
    lowerBound := value "lower_bound_value" (.real negInf)
    status := status.getD .unsolved }
  d.checked

end GlobalQcqp
