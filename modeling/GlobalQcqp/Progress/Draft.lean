import GlobalQcqp.Progress
import GlobalQcqp.Tensor.Reader
/-!
# Progress from data

The progress of a search whose candidates and lower bound are given as data.  A bound may be stored
that is no number; the gaps cannot be told from it until it is replaced.
-/

namespace GlobalQcqp

structure ProgressDraft where
  progress : Progress Float (Tensor Float)
  bound : Setting

namespace ProgressDraft

def start : ProgressDraft :=
  ⟨Progress.start, .real negInf⟩

def offer (s : ProgressDraft) (value : Setting) (point : Except Misfit (Tensor Float)) :
    Except Misfit Bool × ProgressDraft :=
  match value.isLess (.real s.progress.incumbentValue), value.toFloat with
  | .error cause, _ => (.error cause, s)
  | .ok false, _ => (.ok false, s)
  | .ok true, .error cause => (.error cause, s)
  | .ok true, .ok x =>
    let (progress, offer) := s.progress.offer x point.toOption
    match offer, point with
    | .unreadable, .error cause => (.error cause, { s with progress })
    | offer, _ => (.ok (offer == .accepted), { s with progress })

def setBound (s : ProgressDraft) (bound : Setting) : ProgressDraft :=
  { progress := { s.progress with lowerBound := bound.toFloat.toOption.getD s.progress.lowerBound }
    bound }

/-- The gaps can be told. -/
def gapsKnown (s : ProgressDraft) : Except Misfit Unit := do
  if s.bound.number?.isNone then .error .kind
  let _ ← s.bound.toFloat

/-- The progress can be written: the bound entry by entry, and then the gaps. -/
def writable (s : ProgressDraft) : Except Misfit Unit := do
  if !s.bound.isNone then
    let _ ← s.bound.toTensor Setting.toFloat
  s.gapsKnown

end ProgressDraft

end GlobalQcqp
