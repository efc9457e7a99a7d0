import GlobalQcqp.Decimal.Shortest
import GlobalQcqp.Fault
/-!
# Wording of faults

A misfit has no wording of its own.
-/

namespace GlobalQcqp

/-- Lengths in round brackets, with a comma after a single one. -/
def shapeText : List Nat → String
  | [] => "()"
  | [n] => s!"({n},)"
  | ns => "(" ++ ", ".intercalate (ns.map Nat.repr) ++ ")"

def positionsText (ns : List Nat) : String :=
  "[" ++ ", ".intercalate (ns.map Nat.repr) ++ "]"

def Role.text : Role → String
  | .objective => "objective"
  | .constraint => "constraint"
  | .equality => "equality"

def NodeError.message : NodeError → String
  | .lengths => "Node bound vectors must have the same length"
  | .crossed => "Node box must satisfy lower <= upper"

def Fault.message? : Fault Float → Option String
  | .misfit _ => none
  | .node cause => some cause.message
  | .matrixShape shape => some s!"Q must be a square matrix, got shape {shapeText shape}"
  | .vectorShape size shape =>
    some s!"c must be a vector of length {size}, got shape {shapeText shape}"
  | .infiniteEntries => some "Q and c must have finite entries"
  | .infiniteConstant value => some ("constant must be finite, got " ++ Decimal.shortest value)
  | .placeCount size places =>
    some s!"Cannot embed a {size}-variable function at {places} indices"
  | .spectrumShape shape => some s!"Q must be square, got shape {shapeText shape}"
  | .boxSize box size => some s!"Box has {box} dimensions, function has {size}"
  | .objectiveKind kind => some s!"Objective must be a QuadraticFunction, got {kind}"
  | .problemKind kind => some s!"Expected a Problem, got {kind}"
  | .noBox => some "A finite variable box is required"
  | .boundLengths lower upper => some s!"Bound vectors differ in length: {lower} vs {upper}"
  | .infiniteBounds => some "Variable bounds must be finite"
  | .crossedBounds positions => some s!"lower > upper for variables {positionsText positions}"
  | .repeatedVariables => some "variable_indices must be unique"
  | .variablesOutside stored => some s!"variable_indices must lie in [0, {stored})"
  | .arity role size expected =>
    some s!"{role.text} acts on {size} variables, expected {expected}"
  | .maskLength stored given => some s!"branch_mask must have length {stored}, got {given}"
  | .negativeTolerance => some "Tolerances must be non-negative"

end GlobalQcqp
