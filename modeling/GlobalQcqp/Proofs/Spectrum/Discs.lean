import Mathlib
import GlobalQcqp.Proofs.Except
import GlobalQcqp.Spectrum.Discs
/-!
# Discs of a square matrix

The rows of a square matrix follow one another in its tensor, so the discs of the tensor are those
of the matrix.  This holds for numbers of any kind.
-/

namespace GlobalQcqp.Tensor

/-! ## Rows and entries -/

section Entries

variable {ε : Type} {n : ℕ} (M : SquareMatrix ε n)

theorem toList_ofMatrix : (ofMatrix M).entries.toList = (M.toList.map (·.toList)).flatten := by
  rw [ofMatrix, Array.toList_flatMap]
  rfl

theorem sum_take_lengths {k : ℕ} (hk : k ≤ n) :
    (((M.toList.map (·.toList)).map List.length).take k).sum = k * n := by
  have hlengths : (M.toList.map (·.toList)).map List.length = List.replicate n n :=
    List.eq_replicate_iff.mpr ⟨by simp, by simp⟩
  rw [hlengths, List.take_replicate, List.sum_replicate, min_eq_left hk, smul_eq_mul]

theorem size_ofMatrix : (ofMatrix M).entries.size = n * n := by
  have hall : ((M.toList.map (·.toList)).map List.length).take n =
      (M.toList.map (·.toList)).map List.length := List.take_of_length_le (by simp)
  rw [← Array.length_toList, toList_ofMatrix, List.length_flatten, ← hall,
    sum_take_lengths M le_rfl]

/-- The pieces of the entries are the rows. -/
theorem piece_ofMatrix (i : Fin n) : piece n i (ofMatrix M).entries = M[i].toArray := by
  have hrow := List.drop_take_succ_flatten_eq_getElem (M.toList.map (·.toList)) i (by simp)
  rw [sum_take_lengths M i.isLt.le, sum_take_lengths M i.isLt, ← toList_ofMatrix] at hrow
  refine Array.toList_inj.mp ?_
  rw [piece, Array.toList_extract, List.extract_eq_drop_take', hrow, List.getElem_map,
    Vector.getElem_toList]
  rfl

theorem getElem?_ofMatrix (i j : Fin n) : (ofMatrix M).entries[i * n + j]? = some M[i][j] := by
  have hend : (i + 1) * n ≤ (ofMatrix M).entries.size := by
    rw [size_ofMatrix]
    exact Nat.mul_le_mul_right n i.isLt
  have hinside : j.val < (i + 1) * n - i * n := by
    rw [Nat.succ_mul, Nat.add_sub_cancel_left]
    exact j.isLt
  have hentry : (piece n i (ofMatrix M).entries)[j.val]? = some M[i][j] := by
    rw [piece_ofMatrix]
    simp
  rwa [piece, Array.getElem?_extract, Nat.min_eq_left hend, if_pos hinside] at hentry

theorem diagonal_ofMatrix :
    diagonal n n (ofMatrix M).entries = (Vector.ofFn fun i : Fin n ↦ M[i][i]).toArray := by
  have hentries : (Array.range (min n n)).map (fun i ↦ (ofMatrix M).entries[i * n + i]?) =
      (Array.ofFn fun i : Fin n ↦ some M[i][i]) := by
    refine Array.ext (by simp) fun i hi _ ↦ ?_
    have hlt : i < n := by simpa using hi
    have hentry := getElem?_ofMatrix M ⟨i, hlt⟩ ⟨i, hlt⟩
    simpa using hentry
  have hsome : (List.ofFn fun i : Fin n ↦ some M[i][i]) =
      (List.ofFn fun i : Fin n ↦ M[i][i]).map some := by
    rw [List.map_ofFn]
    rfl
  rw [diagonal, hentries, Array.reduceOption]
  refine Array.toList_inj.mp ?_
  rw [Array.toList_filterMap, Array.toList_ofFn, hsome, List.filterMap_map, Vector.toArray_ofFn,
    Array.toList_ofFn]
  exact List.filterMap_some

end Entries

/-! ## Discs -/

variable {α : Type} [Scalar α] {n : ℕ} (M : SquareMatrix α n)

theorem absoluteSums_ofMatrix : absoluteSums n n (ofMatrix M).entries =
    (Vector.ofFn fun i : Fin n ↦ total fun j : Fin n ↦ Scalar.abs M[i][j]).toArray := by
  have hsum (i : Fin n) : M[i].toArray.foldl (fun sum a ↦ sum + Scalar.abs a) 0 =
      total fun j : Fin n ↦ Scalar.abs M[i][j] := by
    have hrow : M[i].toArray.toList = (List.finRange n).map fun j ↦ M[i][j] :=
      List.ext_getElem (by simp) fun j _ _ ↦ by simp
    rw [← Array.foldl_toList, hrow, List.foldl_map]
    rfl
  refine Array.ext (by simp [absoluteSums]) fun i hi _ ↦ ?_
  have hlt : i < n := by simpa [absoluteSums] using hi
  have hpiece := piece_ofMatrix M ⟨i, hlt⟩
  simp only [absoluteSums, Array.getElem_map, Array.getElem_range, hpiece, hsum,
    Vector.getElem_toArray, Vector.getElem_ofFn]

/-- A matrix with a row has a least end of a disc, which its tensor has as well. -/
theorem discBound_ofMatrix {d : α} (h : discBound? M = some d) :
    (ofMatrix M).discBound = .ok d := by
  have hvector (v : Vector α n) : ofArray v.toArray = ofVector v := by
    simp [ofArray, ofVector]
  have hmap (v : Vector α n) (f : α → α) : (ofVector v).map f = ofVector (v.map f) := by
    simp [map, ofVector]
  have hends : (Vector.zipWith (· - ·) (Vector.ofFn fun i : Fin n ↦ M[i][i])
      (Vector.zipWith (· - ·)
        (Vector.ofFn fun i : Fin n ↦ total fun j : Fin n ↦ Scalar.abs M[i][j])
        ((Vector.ofFn fun i : Fin n ↦ M[i][i]).map Scalar.abs))).toArray.toList =
          (List.finRange n).map (discEnd M) := by
    refine List.ext_getElem (by simp) fun i _ _ ↦ ?_
    simp [discEnd]
  have hshape : (ofMatrix M).shape = [n, n] := rfl
  unfold discBound
  simp only [hshape, diagonal_ofMatrix, absoluteSums_ofMatrix, hvector, hmap, zipWith_ofVector,
    ok_bind, pure_eq_ok]
  unfold discBound? at h
  dsimp only [ofVector]
  rw [hends]
  cases hlist : (List.finRange n).map (discEnd M) with
  | nil => simp [hlist] at h
  | cons first rest =>
      rw [hlist] at h
      cases h
      rfl

end GlobalQcqp.Tensor
