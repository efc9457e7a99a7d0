/-!
# Default settings
-/

namespace GlobalQcqp.Defaults

variable {α : Type} [OfScientific α]

def gap : α := 1e-4

def feasibilityTol : α := 1e-6

/-- Variables narrower than this are not split. -/
def minWidth : α := 1e-7

/-- Coordinates narrower than this are fixed in a convex solve. -/
def nearZero : α := 1e-12

/-- How far a probe is trusted. -/
def backoff : α := 1e-6

def convexTol : α := 1e-10

def localTol : α := 1e-9

def maxIterations : Int := 500

def maxPasses : Nat := 5

end GlobalQcqp.Defaults
