import GlobalQcqp.Heap
import GlobalQcqp.Node.Pool
/-!
# Pools kept as heaps

The pool of open nodes as a heap of elements that stand for nodes.  The least element by the first
comparison is at its root.  A pick of the deepest element looks at all of them, and the rest are
made a heap again.
-/

namespace GlobalQcqp

/-- How a pool compares its elements. A comparison may have no answer. -/
structure Ranking (ν ε : Type) where
  /-- Smaller priority, or equal priority and created earlier. -/
  isBefore : Less ν ε
  /-- Deeper, or equally deep and created earlier. -/
  isDeeper : Less ν ε

structure HeapPool (ν : Type) where
  selection : NodeSelection
  /-- Under the hybrid policy one pick in so many is best first. -/
  interval : Nat
  heap : Array ν
  pops : Nat

namespace HeapPool

variable {ν ε : Type}

def empty (selection : NodeSelection) (interval : Int) : HeapPool ν where
  selection := selection
  interval := (max 1 interval).toNat
  heap := #[]
  pops := 0

private def withHeap {δ : Type} (p : HeapPool ν) (r : Except ε δ × Array ν) :
    Except ε δ × HeapPool ν :=
  (r.1, { p with heap := r.2 })

variable (ranking : Ranking ν ε)

def push (p : HeapPool ν) (x : ν) : Except ε Unit × HeapPool ν :=
  p.withHeap (Heap.push ranking.isBefore p.heap x)

def deepest (heap : Array ν) (first : ν) : Except ε (Nat × ν) :=
  heap.zipIdx.foldlM (fun (best : Nat × ν) (x, i) ↦ do
    return if ← ranking.isDeeper x best.2 then (i, x) else best) (0, first)

/-- Takes out the deepest element. The rest are made a heap again. -/
def popDeepest (heap : Array ν) : Except ε (Option ν) × Array ν :=
  match heap[0]? with
  | none => (.ok none, heap)
  | some first =>
    match deepest ranking heap first with
    | .error cause => (.error cause, heap)
    | .ok (i, x) =>
      match Heap.ofArray ranking.isBefore (heap.eraseIdxIfInBounds i) with
      | (.error cause, heap) => (.error cause, heap)
      | (.ok (), heap) => (.ok (some x), heap)

def picksBest (p : HeapPool ν) : Bool :=
  match p.selection with
  | .bestFirst => true
  | .depthFirst => false
  | .hybrid => p.pops % p.interval == 0

/-- Takes out the next element, none from an empty pool. A pick counts even if it fails. -/
def pop (p : HeapPool ν) : Except ε (Option ν) × HeapPool ν :=
  if p.heap.isEmpty then (.ok none, p)
  else
    let counted := { p with pops := p.pops + 1 }
    counted.withHeap
      (if p.picksBest then Heap.pop ranking.isBefore p.heap else popDeepest ranking p.heap)

/-- Drops the elements that are not below a threshold, and counts them. -/
def prune (isBelow : ν → Except ε Bool) (p : HeapPool ν) : Except ε Nat × HeapPool ν :=
  match p.heap.toList.filterM isBelow with
  | .error cause => (.error cause, p)
  | .ok kept =>
    match Heap.ofArray ranking.isBefore kept.toArray with
    | (.error cause, heap) => (.error cause, { p with heap })
    | (.ok (), heap) => (.ok (p.heap.size - kept.length), { p with heap })

def ordered (p : HeapPool ν) : Except ε (List ν) :=
  Heap.sorted ranking.isBefore p.heap

end HeapPool

end GlobalQcqp
