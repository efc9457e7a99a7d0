import GlobalQcqp.Progress
/-!
# Progress records

One line of the progress of a search.  The marker is empty on periodic records, a star where the
incumbent improved, and the name of the final state on the last record.
-/

namespace GlobalQcqp

structure Record (β : Type) where
  iteration : Int
  nodes : Int
  openNodes : Int
  lowerBound : β
  upperBound : β
  gap : β
  ratio : β
  elapsed : β
  remaining : β
  marker : String

variable {α β π : Type} [Scalar α] [Scalar β] [Extended α β]

def Progress.record (s : Progress β π) (openNodes : Nat) (maxTime : β) (marker : String) :
    Record β where
  iteration := s.iterations
  nodes := s.nodesCreated
  openNodes := openNodes
  lowerBound := s.lowerBound
  upperBound := s.incumbentValue
  gap := s.absoluteGap
  ratio := s.relativeGap
  elapsed := s.elapsed
  remaining := Scalar.max 0 (maxTime - s.elapsed)
  marker := marker

end GlobalQcqp
