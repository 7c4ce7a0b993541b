/- Kcptun/Rs/Inversion
   source: crates/kcp/src/rs/matrix.rs (from_rows, multiply, invert, gaussian_elimination)
   digest: Inversion of a square matrix gives its two-sided inverse, and refuses exactly the
     singular ones. -/

import Kcptun.Rs.Erasure

set_option autoImplicit false
set_option relaxedAutoImplicit false

namespace Kcptun.Rs

open Kcptun.Lib Kcptun.Lib.LittleEndian

namespace Matrix

/-- A matrix from its rows; there is at least one, and they are as long as the first. -/
def fromRows (rows : List Bytes) : Except Error Matrix :=
  match rows with
  | [] => .error .invalidRowSize
  | first :: rest =>
    if first.length = 0 then .error .invalidColSize
    else if h : ∀ row ∈ first :: rest, row.length = first.length then
      .ok ⟨(first :: rest).length, first.length, first :: rest, rfl, h⟩
    else .error .colSizeMismatch

variable {n c : ℕ} {p q m : Matrix}

private theorem ext_toMat (hp : p.Shape n c) (hq : q.Shape n c) (h : p.toMat n c = q.toMat n c) :
    p = q := by
  have hdata : p.data = q.data := by
    refine List.ext_getElem (by rw [p.rows_eq, q.rows_eq, hp.rows, hq.rows]) ?_
    intro i hi hi'
    have hrow : p.data[i] = p.row i := by rw [row, List.getD_eq_getElem _ _ hi]
    have hrow' : q.data[i] = q.row i := by rw [row, List.getD_eq_getElem _ _ hi']
    have hlen : (p.row i).length = c := by rw [← hrow, p.cols_eq _ (List.getElem_mem hi), hp.cols]
    have hlen' : (q.row i).length = c := by
      rw [← hrow', q.cols_eq _ (List.getElem_mem hi'), hq.cols]
    rw [hrow, hrow']
    apply List.ext_getElem (hlen.trans hlen'.symm)
    intro j hj hj'
    have hin : i < n := by rwa [p.rows_eq, hp.rows] at hi
    have hentry := congrArg Gal.byte (congrFun (congrFun h ⟨i, hin⟩) ⟨j, hlen ▸ hj⟩)
    change p.get i j = q.get i j at hentry
    rwa [get, get, List.getD_eq_getElem _ _ hj, List.getD_eq_getElem _ _ hj'] at hentry
  obtain ⟨prows, pcols, pdata, hprows, hpcols⟩ := p
  obtain ⟨qrows, qcols, qdata, hqrows, hqcols⟩ := q
  obtain ⟨rfl, rfl⟩ := hp
  obtain ⟨rfl, rfl⟩ := hq
  cases hdata
  rfl

private theorem identity_spec (hn : 0 < n) :
    ∃ one, identity n = .ok one ∧ one.Shape n n ∧ one.toMat n n = 1 := by
  refine ⟨_, fill_eq _ hn hn, ⟨rfl, rfl⟩, ?_⟩
  ext i j
  rw [Matrix.one_apply, toMat, get_ofFn _ i.2 j.2]
  simp only [Fin.ext_iff]
  split_ifs <;> rfl

private theorem multiply_eq_identity (hn : 0 < n) (hp : p.Shape n n) (hq : q.Shape n n)
    (h : p.toMat n n * q.toMat n n = 1) : p.multiply q = identity n := by
  obtain ⟨product, hproduct, hshape, hmat⟩ := multiply_spec hp hq hn hn
  obtain ⟨one, hone, hshape', hmat'⟩ := identity_spec hn
  rw [hproduct, hone, ext_toMat hshape hshape' (hmat.trans (h.trans hmat'.symm))]

/-- A matrix that is not singular has its inverse on both sides, and the singular ones are refused,
wherever the pivots are. -/
theorem invert_correct (hsize : 0 < m.rows) (hsquare : m.isSquare) :
    ((m.toMat m.rows m.rows).det ≠ 0 → ∃ inv, m.invert = .ok inv ∧
      m.multiply inv = identity m.rows ∧ inv.multiply m = identity m.rows) ∧
    (m.invert = .error .singular ↔ (m.toMat m.rows m.rows).det = 0) := by
  have hm : m.Shape m.rows m.rows := ⟨rfl, (of_decide_eq_true hsquare).symm⟩
  have hdet : IsUnit (m.toMat m.rows m.rows) ↔ (m.toMat m.rows m.rows).det ≠ 0 := by
    rw [Matrix.isUnit_iff_isUnit_det, isUnit_iff_ne_zero]
  rcases invert_cases hsize hm with ⟨inv, hok, hinv, hleft⟩ | ⟨herr, hsing⟩
  · have hright : m.toMat m.rows m.rows * inv.toMat m.rows m.rows = 1 := mul_eq_one_comm.mp hleft
    have hunit : IsUnit (m.toMat m.rows m.rows) := .of_mul_eq_one _ hright
    refine ⟨fun _ => ⟨inv, hok, multiply_eq_identity hsize hm hinv hright,
      multiply_eq_identity hsize hinv hm hleft⟩, ?_⟩
    rw [hok]
    exact ⟨fun h => (by cases h), fun h => absurd h (hdet.mp hunit)⟩
  · rw [hdet, not_not] at hsing
    exact ⟨fun h => absurd hsing h, fun _ => hsing, fun _ => herr⟩

/-- A matrix with a zero pivot. -/
theorem invert_correct_zeroPivot : ∃ m, fromRows [[0, 1], [2, 3]] = .ok m ∧
    ∃ inv, m.invert = .ok inv ∧ m.multiply inv = identity 2 ∧ inv.multiply m = identity 2 := by
  obtain ⟨m, hm⟩ : ∃ m, fromRows [[0, 1], [2, 3]] = .ok m := ⟨_, rfl⟩
  refine ⟨m, hm, ?_⟩
  cases hm
  obtain ⟨hinverse, hsing⟩ := invert_correct
    (m := ⟨2, 2, [[0, 1], [2, 3]], rfl, by decide⟩) (by decide) (by decide)
  apply hinverse
  intro hdet
  have hsome : (invert ⟨2, 2, [[0, 1], [2, 3]], rfl, by decide⟩).toOption.isSome := by
    decide +kernel
  rw [hsing.mpr hdet] at hsome
  cases hsome

end Matrix

end Kcptun.Rs
