import GlobalQcqp.Fault
import GlobalQcqp.Linear
/-!
# Tensors

Entries in row order with the length of each dimension.  A tensor without dimensions is a single
entry.

Two tensors are combined entry by entry after both have been stretched to a common shape: dimensions
are matched from the last one on, and one that is missing or of length one is repeated.
-/

namespace GlobalQcqp

structure Tensor (α : Type) where
  shape : List Nat
  entries : Array α

namespace Tensor

variable {α β γ : Type}

def volume (shape : List Nat) : Nat :=
  shape.foldr (· * ·) 1

def single (a : α) : Tensor α :=
  ⟨[], #[a]⟩

def ofArray (xs : Array α) : Tensor α :=
  ⟨[xs.size], xs⟩

def ofVector {n : Nat} (v : Vector α n) : Tensor α :=
  ⟨[n], v.toArray⟩

def ofMatrix {n : Nat} (M : SquareMatrix α n) : Tensor α :=
  ⟨[n, n], M.toArray.flatMap (·.toArray)⟩

def map (f : α → β) (t : Tensor α) : Tensor β :=
  ⟨t.shape, t.entries.map f⟩

def toVector? (n : Nat) (t : Tensor α) : Option (Vector α n) :=
  if h : t.shape = [n] ∧ t.entries.size = n then some ⟨t.entries, h.2⟩ else none

def only? (t : Tensor α) : Option α :=
  match t.entries.toList with
  | [a] => some a
  | _ => none

/-! ## Rows -/

/-- The `i`-th of the pieces of equal size that follow one another. -/
def piece (size i : Nat) (xs : Array α) : Array α :=
  xs.extract (i * size) ((i + 1) * size)

/-- The part at position `k` of the first dimension, counted from the end when negative. -/
def row (t : Tensor α) (k : Int) : Except Misfit (Tensor α) :=
  match t.shape with
  | [] => .error .position
  | n :: rest =>
    match position? n k with
    | none => .error .position
    | some i => .ok ⟨rest, piece (volume rest) i t.entries⟩

/-- The parts at the given positions of the first dimension. -/
def rows (t : Tensor α) (ks : List Int) : Except Misfit (Tensor α) :=
  match t.shape with
  | [] => .error .position
  | _ :: rest => do
    let parts ← ks.mapM t.row
    return ⟨ks.length :: rest, (parts.map (·.entries)).toArray.flatten⟩

/-! ## Stretching -/

/-- The entries of a tensor repeated along the dimensions of length one, for shapes of equally many
dimensions. -/
private def repeated : List Nat → List Nat → Array α → Option (Array α)
  | [], [], xs => some xs
  | n :: shape, m :: own, xs =>
    if m = n then do
      let parts ← (List.range n).mapM fun i ↦ repeated shape own (piece (volume own) i xs)
      return parts.toArray.flatten
    else if m = 1 then do
      let part ← repeated shape own xs
      return (List.replicate n part).toArray.flatten
    else none
  | _, _, _ => none

def stretch? (shape : List Nat) (t : Tensor α) : Option (Tensor α) :=
  let own := List.replicate (shape.length - t.shape.length) 1 ++ t.shape
  (repeated shape own t.entries).map (⟨shape, ·⟩)

/-- The shape two tensors are stretched to, last dimension first. -/
private def joined? : List Nat → List Nat → Option (List Nat)
  | [], bs => some bs
  | as, [] => some as
  | a :: as, b :: bs =>
    if a = b || b = 1 then (joined? as bs).map (a :: ·)
    else if a = 1 then (joined? as bs).map (b :: ·)
    else none

def joinedShape? (a b : List Nat) : Option (List Nat) :=
  (joined? a.reverse b.reverse).map List.reverse

/-- Combines two tensors entry by entry; shapes that do not go together are a misfit. -/
def zipWith (f : α → β → γ) (a : Tensor α) (b : Tensor β) : Except Misfit (Tensor γ) :=
  match joinedShape? a.shape b.shape with
  | none => .error .content
  | some shape =>
    match stretch? shape a, stretch? shape b with
    | some a, some b => .ok ⟨shape, Array.zipWith f a.entries b.entries⟩
    | _, _ => .error .content

/-- The tensor as the new content of a part of the given shape. Surplus dimensions in front may have
length one. -/
def fill? (shape : List Nat) (t : Tensor α) : Option (Tensor α) :=
  let surplus := t.shape.length - shape.length
  if (t.shape.take surplus).all (· == 1) then stretch? shape ⟨t.shape.drop surplus, t.entries⟩
  else none

def fillVector? (n : Nat) (t : Tensor α) : Option (Vector α n) :=
  (t.fill? [n]).bind (toVector? n)

/-- The pieces of size one, put together again. -/
theorem flatten_pieces (xs : Array α) :
    ((List.range xs.size).map fun i ↦ piece 1 i xs).toArray.flatten = xs := by
  have hstart (count : Nat) :
      ((List.range count).map fun i ↦ (piece 1 i xs).toList).flatten = xs.toList.take count := by
    induction count with
    | zero => rfl
    | succ count ih =>
        rw [List.range_succ, List.map_append, List.flatten_append, ih, List.take_add]
        simp [piece]
  refine Array.toList_inj.mp ?_
  rw [Array.toList_flatten, List.map_map]
  exact (hstart xs.size).trans (List.take_of_length_le (Nat.le_refl _))

private theorem repeated_self (n : Nat) (xs : Array α) (hxs : xs.size = n) :
    repeated [n] [n] xs = some xs := by
  have hparts : (List.range n).mapM (fun i ↦ some (piece (volume []) i xs)) =
      some ((List.range n).map fun i ↦ piece 1 i xs) := List.mapM_pure
  simp only [repeated, if_true]
  rw [hparts, ← hxs]
  exact congrArg some (flatten_pieces xs)

theorem stretch?_ofVector {n : Nat} (v : Vector α n) :
    stretch? [n] (ofVector v) = some (ofVector v) := by
  rw [stretch?]
  exact congrArg (Option.map _) (repeated_self n v.toArray v.size_toArray)

/-- Vectors of one length are combined without being stretched. -/
theorem zipWith_ofVector {n : Nat} (f : α → β → γ) (v : Vector α n) (w : Vector β n) :
    zipWith f (ofVector v) (ofVector w) = .ok (ofVector (Vector.zipWith f v w)) := by
  have hshape : joinedShape? (ofVector v).shape (ofVector w).shape = some [n] := by
    simp [joinedShape?, ofVector, joined?]
  simp only [zipWith, hshape, stretch?_ofVector]
  simp [ofVector]

/-- A vector fills a vector of its own length. -/
theorem fillVector?_ofVector {n : Nat} (v : Vector α n) : (ofVector v).fillVector? n = some v := by
  have hfill : (ofVector v).fill? [n] = some (ofVector v) := stretch?_ofVector v
  rw [fillVector?, hfill]
  exact dif_pos ⟨rfl, v.size_toArray⟩

/-- The only entry of a vector is repeated to fill another one. -/
theorem fillVector?_ofVector_one (v : Vector α 1) {n : Nat} (hlength : 1 ≠ n) :
    ∃ w, (ofVector v).fillVector? n = some w := by
  have hstretch : stretch? [n] (ofVector v) =
      some ⟨[n], (List.replicate n v.toArray).toArray.flatten⟩ := by
    simp [stretch?, ofVector, repeated, hlength]
  have hfill : (ofVector v).fill? [n] = _ := hstretch
  rw [fillVector?, hfill]
  exact ⟨_, dif_pos ⟨rfl, by simp⟩⟩

/-- A vector of another length is no content, unless its only entry is repeated. -/
theorem fillVector?_ofVector_eq_none_iff {m n : Nat} {v : Vector α m} :
    (ofVector v).fillVector? n = none ↔ m ≠ n ∧ m ≠ 1 := by
  by_cases hlength : m = n
  · subst hlength
    simp [fillVector?_ofVector]
  · by_cases hone : m = 1
    · subst hone
      obtain ⟨w, hw⟩ := fillVector?_ofVector_one v hlength
      simp [hw]
    · have hstretch : stretch? [n] (ofVector v) = none := by
        simp [stretch?, ofVector, repeated, hlength, hone]
      have hfill : (ofVector v).fill? [n] = none := hstretch
      rw [fillVector?, hfill]
      exact iff_of_true rfl ⟨hlength, hone⟩

/-- Replaces the part at position `k` of the first dimension. A single entry is replaced by a single
one. -/
def setRow (t : Tensor α) (k : Int) (v : Tensor α) : Except Misfit (Tensor α) := do
  let old ← t.row k
  let new := if old.shape.isEmpty then v.stretch? [] else v.fill? old.shape
  match position? (t.shape.headD 0) k, new with
  | some i, some new =>
    let size := volume old.shape
    return ⟨t.shape, t.entries.extract 0 (i * size) ++ new.entries ++
      t.entries.extract ((i + 1) * size) t.entries.size⟩
  | _, _ => .error .content

/-! ## Products -/

section Product

variable [Scalar α]

private def sumOfProducts (xs ys : Array α) : α :=
  (Array.zipWith (· * ·) xs ys).foldl (· + ·) 0

/-- Column `j` of rows of `width` entries. -/
private def column (width j : Nat) (xs : Array α) : Array α :=
  ((Array.range (xs.size / width)).map fun i ↦ xs[i * width + j]?).reduceOption

/-- The product of tensors: entries along the last dimension of the first are matched with those
along the last but one of the second, or along its only one. A single entry multiplies every
entry. -/
def dot (a b : Tensor α) : Except Misfit (Tensor α) :=
  match a.shape.reverse, b.shape.reverse with
  | [], _ => .ok (b.map (a.entries.getD 0 0 * ·))
  | _, [] => .ok (a.map (· * b.entries.getD 0 0))
  | n :: outer, [m] =>
    if n = m then
      .ok ⟨outer.reverse, (Array.range (volume outer)).map fun i ↦
        sumOfProducts (piece n i a.entries) b.entries⟩
    else .error .content
  | n :: outer, width :: m :: blocks =>
    if n = m then
      .ok ⟨outer.reverse ++ blocks.reverse ++ [width],
        (Array.range (volume outer)).flatMap fun i ↦
          (Array.range (volume blocks)).flatMap fun o ↦
            (Array.range width).map fun j ↦
              sumOfProducts (piece n i a.entries) (column width j (piece (m * width) o b.entries))⟩
    else .error .content

/-- The product of two vectors of one length is a single entry. -/
theorem dot_ofVector {n : Nat} (v w : Vector α n) :
    dot (ofVector v) (ofVector w) = .ok (single (GlobalQcqp.dot v w)) := by
  have hproducts : (Array.zipWith (· * ·) v.toArray w.toArray).toList =
      (List.finRange n).map fun i ↦ v[i] * w[i] := by
    refine List.ext_getElem (by simp) fun i _ _ ↦ ?_
    simp
  have hsum : sumOfProducts (piece n 0 v.toArray) w.toArray = GlobalQcqp.dot v w := by
    have hpiece : piece n 0 v.toArray = v.toArray := by simp [piece]
    rw [hpiece, sumOfProducts, ← Array.foldl_toList, hproducts, List.foldl_map]
    rfl
  have hrange : Array.range (volume []) = #[0] := rfl
  simp only [dot, ofVector, List.reverse_singleton, if_true, List.reverse_nil, hrange,
    List.map_toArray, List.map_cons, List.map_nil, hsum, single]

end Product

end Tensor

end GlobalQcqp
