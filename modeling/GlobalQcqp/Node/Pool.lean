import GlobalQcqp.Node
/-!
# The pool of open nodes

Best first takes the node with the least priority, depth first the deepest one, and of equals each
takes the earliest created.  The hybrid policy goes depth first with a best-first pick at regular
intervals.

The pool is kept as a list in no particular order.  `pick` takes out the preferred node.
-/

namespace GlobalQcqp

inductive NodeSelection where
  | bestFirst
  | depthFirst
  | hybrid
deriving DecidableEq, Repr

structure Pool (α β : Type) (k : Nat) where
  selection : NodeSelection
  /-- Under the hybrid policy one pick in so many is best first. -/
  interval : Nat
  nodes : List (Node α β k)
  pops : Nat

/-- Takes out the element that no other is preferred to, of equals the first. -/
def pick? {ν : Type} (prefers : ν → ν → Bool) : List ν → Option (ν × List ν)
  | [] => none
  | x :: xs =>
    match pick? prefers xs with
    | none => some (x, [])
    | some (y, rest) => if prefers y x then some (y, x :: rest) else some (x, xs)

namespace Node

variable {α β : Type} [Scalar β] {k : Nat}

/-- Smaller priority, or equal priority and created earlier. -/
def isBetter (a b : Node α β k) : Bool :=
  decide (a.priority < b.priority) || (a.priority == b.priority && a.id < b.id)

/-- Deeper, or equally deep and created earlier. -/
def isDeeper (a b : Node α β k) : Bool :=
  b.depth < a.depth || (a.depth == b.depth && a.id < b.id)

end Node

namespace Pool

variable {α β : Type} [Scalar α] [Scalar β] [Extended α β] {k : Nat}

def empty (selection : NodeSelection) (interval : Int) : Pool α β k where
  selection := selection
  interval := (max 1 interval).toNat
  nodes := []
  pops := 0

def size (p : Pool α β k) : Nat :=
  p.nodes.length

def isEmpty (p : Pool α β k) : Bool :=
  p.nodes.isEmpty

def push (p : Pool α β k) (node : Node α β k) : Pool α β k :=
  { p with nodes := node :: p.nodes }

def picksBest (p : Pool α β k) : Bool :=
  match p.selection with
  | .bestFirst => true
  | .depthFirst => false
  | .hybrid => p.pops % p.interval == 0

def pop? (p : Pool α β k) : Option (Node α β k × Pool α β k) :=
  (pick? (if p.picksBest then Node.isBetter else Node.isDeeper) p.nodes).map fun (node, rest) ↦
    (node, { p with nodes := rest, pops := p.pops + 1 })

def emptyMessage : String :=
  "pop from an empty node pool"

def ordered (p : Pool α β k) : List (Node α β k) :=
  p.nodes.mergeSort fun a b ↦ !b.isBetter a

def minBound (p : Pool α β k) : β :=
  match p.nodes with
  | [] => posInf
  | node :: nodes => nodes.foldl (fun b a ↦ Scalar.min b a.priority) node.priority

/-- Drops the nodes whose priority is not below the threshold, and counts them. -/
def prune (p : Pool α β k) (threshold : β) : Pool α β k × Nat :=
  let kept := p.nodes.filter fun node ↦ decide (node.priority < threshold)
  ({ p with nodes := kept }, p.nodes.length - kept.length)

end Pool

end GlobalQcqp
