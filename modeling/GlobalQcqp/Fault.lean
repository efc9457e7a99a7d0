/-!
# Faults

Why data is refused.  A `Fault` names the rule that the data of a function, a relaxation or a
problem breaks.  A `Misfit` says only that two pieces of data do not go together.
-/

namespace GlobalQcqp

/-- Data that does not fit where it is used. -/
inductive Misfit where
  /-- A position outside a sequence. -/
  | position
  /-- Sequences of different lengths, or data that is no sequence of numbers. -/
  | content
  /-- A value of a kind the operation does not take. -/
  | kind
  /-- A number too large for an integer. -/
  | overflow
  /-- A part of an answer that is not there. -/
  | absent
  /-- Text where numbers are combined. -/
  | operand
  /-- A dimension that the data does not have. -/
  | dimension
  /-- A name that a dictionary does not have. -/
  | name
deriving DecidableEq, Repr

inductive Role where
  | objective
  | constraint
  | equality
deriving DecidableEq, Repr

/-- Why two vectors are not the box of a node. -/
inductive NodeError where
  | lengths
  | crossed
deriving DecidableEq, Repr

/-- The rule broken by the data of a function, a relaxation or a problem. -/
inductive Fault (α : Type) where
  | misfit (cause : Misfit)
  | node (cause : NodeError)
  | matrixShape (shape : List Nat)
  | vectorShape (size : Nat) (shape : List Nat)
  | infiniteEntries
  | infiniteConstant (value : α)
  | placeCount (size places : Nat)
  | spectrumShape (shape : List Nat)
  | boxSize (box size : Nat)
  | objectiveKind (kind : String)
  | problemKind (kind : String)
  | noBox
  | boundLengths (lower upper : Nat)
  | infiniteBounds
  | crossedBounds (positions : List Nat)
  | repeatedVariables
  | variablesOutside (stored : Nat)
  | arity (role : Role) (size expected : Nat)
  | maskLength (stored given : Nat)
  | negativeTolerance
deriving DecidableEq, Repr

end GlobalQcqp
