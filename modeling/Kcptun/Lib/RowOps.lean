/- Kcptun/Lib/RowOps
   digest: Row operations on matrices over a field: what they preserve, where a pivot is, and how
     an inverse is read off. -/

import Mathlib.LinearAlgebra.Matrix.NonsingularInverse
import Mathlib.LinearAlgebra.Matrix.Transvection
import Mathlib.LinearAlgebra.Matrix.ToLin
import Mathlib.LinearAlgebra.Matrix.Permutation
import Mathlib.LinearAlgebra.FiniteDimensional.Lemmas
import Mathlib.LinearAlgebra.Vandermonde

set_option autoImplicit false
set_option relaxedAutoImplicit false

namespace Kcptun.Lib

/-- Matrices with numbered rows and columns. -/
abbrev Mat (n m : ℕ) (K : Type*) := Matrix (Fin n) (Fin m) K

variable {K : Type*} [Field K] {n m k : ℕ}

/-- One matrix arises from the other by an invertible transformation of its rows. -/
def RowEquiv (A B : Mat n m K) : Prop := ∃ E : Mat n n K, IsUnit E ∧ B = E * A

namespace RowEquiv

theorem refl (A : Mat n m K) : RowEquiv A A := ⟨1, isUnit_one, (Matrix.one_mul A).symm⟩

theorem trans {A B C : Mat n m K} (h : RowEquiv A B) (h' : RowEquiv B C) : RowEquiv A C := by
  obtain ⟨E, hE, rfl⟩ := h
  obtain ⟨F, hF, rfl⟩ := h'
  exact ⟨F * E, hF.mul hE, (Matrix.mul_assoc F E A).symm⟩

theorem swap {A B : Mat n m K} (r s : Fin n) (h : ∀ i j, B i j = A (Equiv.swap r s i) j) :
    RowEquiv A B := by
  refine ⟨(Equiv.swap r s).permMatrix K, ?_, ?_⟩
  · rw [Matrix.isUnit_iff_isUnit_det, Matrix.det_permutation]
    exact (Equiv.Perm.sign (Equiv.swap r s)).isUnit.map (Int.castRingHom K)
  · ext i j
    rw [h, Equiv.Perm.permMatrix, PEquiv.toMatrix_toPEquiv_mul]
    rfl

theorem scale {A B : Mat n m K} (r : Fin n) {c : K} (hc : c ≠ 0)
    (h : ∀ i j, B i j = if i = r then A i j * c else A i j) : RowEquiv A B := by
  refine ⟨Matrix.diagonal fun i => if i = r then c else 1, ?_, ?_⟩
  · rw [Matrix.isUnit_iff_isUnit_det, Matrix.det_diagonal, isUnit_iff_ne_zero]
    apply Finset.prod_ne_zero_iff.mpr
    intro i _
    split_ifs
    · exact hc
    · exact one_ne_zero
  · ext i j
    rw [h, Matrix.diagonal_mul]
    split_ifs
    · exact mul_comm _ _
    · exact (one_mul _).symm

theorem add {A B : Mat n m K} (dst src : Fin n) (hne : dst ≠ src) (c : K)
    (h : ∀ i j, B i j = if i = dst then A i j + c * A src j else A i j) : RowEquiv A B := by
  refine ⟨Matrix.transvection dst src c, ?_, ?_⟩
  · rw [Matrix.isUnit_iff_isUnit_det, Matrix.det_transvection_of_ne dst src hne]
    exact isUnit_one
  · ext i j
    rw [h]
    split_ifs with hi
    · rw [hi, Matrix.transvection_mul_apply_same]
    · rw [Matrix.transvection_mul_apply_of_ne _ _ _ _ hi]

theorem isUnit {A B : Mat n n K} (h : RowEquiv A B) (hA : IsUnit A) : IsUnit B := by
  obtain ⟨E, hE, rfl⟩ := h
  exact hE.mul hA

theorem cols {A B : Mat n m K} (h : RowEquiv A B) (f : Fin k → Fin m) :
    RowEquiv (A.submatrix id f) (B.submatrix id f) := by
  obtain ⟨E, hE, rfl⟩ := h
  exact ⟨E, hE, rfl⟩

theorem inverse {A B : Mat n m K} (h : RowEquiv A B) (left right : Fin n → Fin m)
    (hA : A.submatrix id right = 1) (hB : B.submatrix id left = 1) :
    B.submatrix id right * A.submatrix id left = 1 := by
  obtain ⟨E, hE, rfl⟩ := h
  have hright : (E * A).submatrix id right = E * A.submatrix id right := rfl
  have hleft : (E * A).submatrix id left = E * A.submatrix id left := rfl
  rw [hright, hA, Matrix.mul_one, ← hleft, hB]

end RowEquiv

/-- Fewer equations than unknowns: the columns up to `r` vanish together if they reach only the
rows before `r`. -/
private theorem exists_kernel (M : Mat n n K) (r : Fin n) (h : ∀ i j, j ≤ r → r ≤ i → M i j = 0) :
    ∃ w : Fin n → K, w ≠ 0 ∧ M.mulVec w = 0 := by
  let top : Matrix { i // i < r } { j // j ≤ r } K := M.submatrix Subtype.val Subtype.val
  have hrank : Module.finrank K ({ i // i < r } → K) < Module.finrank K ({ j // j ≤ r } → K) := by
    rw [Module.finrank_fintype_fun_eq_card, Module.finrank_fintype_fun_eq_card,
      Fintype.card_subtype, Fintype.card_subtype]
    refine Finset.card_lt_card ⟨?_, ?_⟩
    · intro i hi
      exact Finset.mem_filter.mpr ⟨Finset.mem_univ i, (Finset.mem_filter.mp hi).2.le⟩
    · intro hsub
      have hr := hsub (Finset.mem_filter.mpr ⟨Finset.mem_univ r, le_rfl⟩)
      exact lt_irrefl r (Finset.mem_filter.mp hr).2
  obtain ⟨v, hv, hne⟩ := (Submodule.ne_bot_iff _).mp
    (LinearMap.ker_ne_bot_of_finrank_lt (f := top.mulVecLin) hrank)
  refine ⟨fun j => if hj : j ≤ r then v ⟨j, hj⟩ else 0, fun hzero => hne ?_, ?_⟩
  · funext j
    have := congrFun hzero j.1
    simpa [j.2] using this
  · funext i
    have hsum : M.mulVec (fun j => if hj : j ≤ r then v ⟨j, hj⟩ else 0) i =
        ∑ j : { j // j ≤ r }, M i j.1 * v j := by
      rw [Matrix.mulVec, dotProduct, ← Fintype.sum_subtype_add_sum_subtype (· ≤ r)]
      have hout : ∑ j : { j // ¬ j ≤ r }, M i j.1 * (if hj : j.1 ≤ r then v ⟨j.1, hj⟩ else 0) = 0 :=
        Finset.sum_eq_zero fun j _ => by rw [dif_neg j.2, mul_zero]
      rw [hout, add_zero]
      exact Finset.sum_congr rfl fun j _ => by rw [dif_pos j.2]
    rw [hsum, Pi.zero_apply]
    rcases lt_or_ge i r with hi | hi
    · exact congrFun (LinearMap.mem_ker.mp hv) ⟨i, hi⟩
    · exact Finset.sum_eq_zero fun j _ => by rw [h i j.1 j.2 hi, zero_mul]

/-- An invertible matrix whose first `r` columns are cleared from row `r` on has a pivot in
column `r`. -/
theorem exists_pivot {M : Mat n n K} (hM : IsUnit M) (r : Fin n)
    (h : ∀ i j, j < r → r ≤ i → M i j = 0) : ∃ i, r ≤ i ∧ M i r ≠ 0 := by
  by_contra hnone
  push Not at hnone
  obtain ⟨w, hw, hzero⟩ := exists_kernel M r fun i j hj hi => by
    rcases lt_or_eq_of_le hj with hlt | rfl
    · exact h i j hlt hi
    · exact hnone i hi
  obtain ⟨N, hN⟩ := hM.exists_left_inv
  apply hw
  calc w = (N * M).mulVec w := by rw [hN, Matrix.one_mulVec]
    _ = N.mulVec (M.mulVec w) := (Matrix.mulVec_mulVec w N M).symm
    _ = 0 := by rw [hzero, Matrix.mulVec_zero]

theorem isUnit_of_vandermonde {v : Fin n → K} (hv : Function.Injective v) {M : Mat n n K}
    (h : ∀ i j, M i j = v i ^ (j : ℕ)) : IsUnit M := by
  have hM : M = Matrix.vandermonde v := by
    ext i j
    exact h i j
  rw [hM, Matrix.isUnit_iff_isUnit_det, isUnit_iff_ne_zero]
  exact Matrix.det_vandermonde_ne_zero_iff.mpr hv

end Kcptun.Lib
