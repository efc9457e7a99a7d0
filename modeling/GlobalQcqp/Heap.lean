/-!
# Binary heaps

A heap is an array in which no element is smaller than its parent, which stands at half its
position.  The comparison may have no answer; an operation then stops where it is.  Elements only
ever change places, so that none is lost.
-/

namespace GlobalQcqp

/-- A comparison that may have no answer. -/
abbrev Less (ν ε : Type) :=
  ν → ν → Except ε Bool

namespace Heap

variable {ν ε : Type}

/-- Moves the element at position `i` up to `top` at most, as long as it is smaller than its
parent. -/
def rise (less : Less ν ε) (top i : Nat) (heap : Array ν) : Except ε Unit × Array ν :=
  if _ : top < i then
    let parent := (i - 1) / 2
    match heap[i]?, heap[parent]? with
    | some a, some b =>
      match less a b with
      | .error e => (.error e, heap)
      | .ok false => (.ok (), heap)
      | .ok true => rise less top parent (heap.swapIfInBounds i parent)
    | _, _ => (.ok (), heap)
  else (.ok (), heap)
termination_by i
decreasing_by
  exact Nat.lt_of_le_of_lt (Nat.div_le_self _ _)
    (Nat.sub_lt (Nat.zero_lt_of_lt ‹top < i›) Nat.one_pos)

/-- The position of the smaller child of position `i`, of equals the second. -/
def smallerChild (less : Less ν ε) (i : Nat) (heap : Array ν) : Except ε Nat :=
  match heap[2 * i + 1]?, heap[2 * i + 2]? with
  | some a, some b => do return if ← less a b then 2 * i + 1 else 2 * i + 2
  | _, _ => .ok (2 * i + 1)

/-- Moves the element at position `i` down to a leaf along the smaller children; answers where it
ends. -/
def fall (less : Less ν ε) : Nat → Nat → Array ν → Except ε Nat × Array ν
  | 0, i, heap => (.ok i, heap)
  | left + 1, i, heap =>
    if 2 * i + 1 < heap.size then
      match smallerChild less i heap with
      | .error e => (.error e, heap)
      | .ok child => fall less left child (heap.swapIfInBounds i child)
    else (.ok i, heap)

def sink (less : Less ν ε) (i : Nat) (heap : Array ν) : Except ε Unit × Array ν :=
  match fall less heap.size i heap with
  | (.error e, heap) => (.error e, heap)
  | (.ok leaf, heap) => rise less i leaf heap

def push (less : Less ν ε) (heap : Array ν) (x : ν) : Except ε Unit × Array ν :=
  rise less 0 heap.size (heap.push x)

def pop (less : Less ν ε) (heap : Array ν) : Except ε (Option ν) × Array ν :=
  match heap[0]?, heap.back? with
  | some root, some last =>
    let rest := heap.pop
    if rest.isEmpty then (.ok (some root), rest)
    else
      match sink less 0 (rest.setIfInBounds 0 last) with
      | (.error e, heap) => (.error e, heap)
      | (.ok (), heap) => (.ok (some root), heap)
  | _, _ => (.ok none, heap)

/-- Restores the order below all the positions before `i`, the last one first. -/
def settle (less : Less ν ε) : Nat → Array ν → Except ε Unit × Array ν
  | 0, heap => (.ok (), heap)
  | i + 1, heap =>
    match sink less i heap with
    | (.error e, heap) => (.error e, heap)
    | (.ok (), heap) => settle less i heap

def ofArray (less : Less ν ε) (xs : Array ν) : Except ε Unit × Array ν :=
  settle less (xs.size / 2) xs

/-! ## Elements in order -/

/-- Adds elements to a run, which is kept last first, as long as each goes on from the one before
it. -/
private def extend (goesOn : Less ν ε) (last : ν) (run : List ν) :
    List ν → Except ε (List ν × List ν)
  | [] => .ok (last :: run, [])
  | x :: xs => do
    if ← goesOn last x then extend goesOn x (last :: run) xs else return (last :: run, x :: xs)

/-- Splits off the first elements that do not fall, or that strictly fall and are then turned
round. -/
private def firstRun (less : Less ν ε) : List ν → Except ε (List ν × List ν)
  | x :: y :: rest => do
    if ← less y x then extend (fun a b ↦ less b a) y [x] rest
    else
      let (run, rest) ← extend (fun a b ↦ return !(← less b a)) y [x] rest
      return (run.reverse, rest)
  | xs => .ok (xs, [])

/-- The place of `x` among sorted elements, after all that are not larger, between two positions. -/
private def place (less : Less ν ε) (sorted : Array ν) (x : ν) : Nat → Nat → Nat → Except ε Nat
  | 0, low, _ => .ok low
  | left + 1, low, high =>
    if low < high then
      let middle := low + (high - low) / 2
      match sorted[middle]? with
      | none => .ok low
      | some y => do
        if ← less x y then place less sorted x left low middle
        else place less sorted x left (middle + 1) high
    else .ok low

/-- Sorts elements, which need not be a heap: the rest are inserted one by one into the first
run. -/
def sorted (less : Less ν ε) (xs : Array ν) : Except ε (List ν) := do
  let (run, rest) ← firstRun less xs.toList
  let all ← rest.foldlM (fun (all : Array ν) x ↦ do
    let i ← place less all x (all.size + 1) 0 all.size
    return all.extract 0 i ++ #[x] ++ all.extract i all.size) run.toArray
  return all.toList

end Heap

end GlobalQcqp
