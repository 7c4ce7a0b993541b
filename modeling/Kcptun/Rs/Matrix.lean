/- Kcptun/Rs/Matrix
   source: crates/kcp/src/rs/matrix.rs, rs/mod.rs (Error)
   digest: Matrices of bytes, and that Gauss-Jordan elimination inverts every invertible one. -/

import Kcptun.Lib.RowOps
import Kcptun.Rs.Galois

set_option autoImplicit false
set_option relaxedAutoImplicit false

namespace Kcptun.Rs

open Kcptun.Lib Kcptun.Lib.LittleEndian

inductive Error where
  | invShardNum
  | maxShardNum
  | tooFewShards
  | shardNoData
  | shardSize
  | invalidRowSize
  | invalidColSize
  | colSizeMismatch
  | matrixSize
  | multiplySize (leftCols rightRows : ℕ)
  | singular
  | notSquare
  deriving DecidableEq, Repr

/-- A matrix of bytes, one list for each row. -/
structure Matrix where
  rows : ℕ
  cols : ℕ
  data : List Bytes
  rows_eq : data.length = rows
  cols_eq : ∀ row ∈ data, row.length = cols

namespace Matrix

def ofFn (rows cols : ℕ) (f : ℕ → ℕ → UInt8) : Matrix where
  rows := rows
  cols := cols
  data := (List.range rows).map fun r => (List.range cols).map (f r)
  rows_eq := by simp
  cols_eq := by simp

def row (m : Matrix) (r : ℕ) : Bytes := m.data.getD r []

/-- Element `m[r][c]`; the source panics out of range. -/
def get (m : Matrix) (r c : ℕ) : UInt8 := (m.row r).getD c 0

def new (rows cols : ℕ) : Except Error Matrix :=
  if rows = 0 then .error .invalidRowSize
  else if cols = 0 then .error .invalidColSize
  else .ok (ofFn rows cols fun _ _ => 0)

def fill (rows cols : ℕ) (f : ℕ → ℕ → UInt8) : Except Error Matrix := do
  let result ← new rows cols
  return ofFn result.rows result.cols f

def identity (size : ℕ) : Except Error Matrix :=
  fill size size fun r c => if r = c then 1 else 0

def multiply (m right : Matrix) : Except Error Matrix :=
  if m.cols ≠ right.rows then .error (.multiplySize m.cols right.rows)
  else fill m.rows right.cols fun r c =>
    (List.range m.cols).foldl (fun value i => value ^^^ galMultiply (m.get r i) (right.get i c)) 0

def augment (m right : Matrix) : Except Error Matrix :=
  if m.rows ≠ right.rows then .error .matrixSize
  else fill m.rows (m.cols + right.cols) fun r c =>
    if c < m.cols then m.get r c else right.get r (c - m.cols)

def subMatrix (m : Matrix) (rmin cmin rmax cmax : ℕ) : Except Error Matrix :=
  fill (rmax - rmin) (cmax - cmin) fun r c => m.get (r + rmin) (c + cmin)

def swapRows (m : Matrix) (r1 r2 : ℕ) : Except Error Matrix :=
  if r1 ≥ m.rows ∨ r2 ≥ m.rows then .error .invalidRowSize
  else .ok (ofFn m.rows m.cols fun r c =>
    if r = r1 then m.get r2 c else if r = r2 then m.get r1 c else m.get r c)

def isSquare (m : Matrix) : Bool := m.rows = m.cols

def scaleRow (m : Matrix) (dst : ℕ) (scale : UInt8) : Matrix :=
  ofFn m.rows m.cols fun r c => if r = dst then galMultiply (m.get r c) scale else m.get r c

def subScaledRow (m : Matrix) (dst src : ℕ) (scale : UInt8) : Matrix :=
  ofFn m.rows m.cols fun r c =>
    if r = dst then m.get r c ^^^ galMultiply scale (m.get src c) else m.get r c

/-- Clears column `col` of one row, if it is not zero there. -/
def clearEntry (col : ℕ) (m : Matrix) (r : ℕ) : Matrix :=
  if m.get r col ≠ 0 then m.subScaledRow r col (m.get r col) else m

/-- If the element on the diagonal is 0, exchanges the row with the first one below that has a
non-zero there. -/
def pivotRow (m : Matrix) (r : ℕ) : Except Error Matrix :=
  if m.get r r = 0 then
    match (List.range' (r + 1) (m.rows - (r + 1))).find? fun below => m.get below r ≠ 0 with
    | some below => m.swapRows r below
    | none => .ok m
  else .ok m

def scalePivot (m : Matrix) (r : ℕ) : Matrix :=
  if m.get r r ≠ 1 then m.scaleRow r (galOneOver (m.get r r)) else m

def clearBelow (m : Matrix) (r : ℕ) : Except Error Matrix := do
  let m ← m.pivotRow r
  if m.get r r = 0 then throw .singular
  return (List.range' (r + 1) (m.rows - (r + 1))).foldl (clearEntry r) (m.scalePivot r)

def clearAbove (m : Matrix) (d : ℕ) : Matrix := (List.range d).foldl (clearEntry d) m

def gaussianElimination (m : Matrix) : Except Error Matrix := do
  let m ← (List.range m.rows).foldlM clearBelow m
  return (List.range m.rows).foldl clearAbove m

/-- The inverse: elimination on `[m | I]`. -/
def invert (m : Matrix) : Except Error Matrix := do
  if !m.isSquare then throw .notSquare
  let size := m.rows
  let work ← identity size
  let work ← m.augment work
  let work ← work.gaussianElimination
  work.subMatrix 0 size size (size * 2)

def vandermonde (rows cols : ℕ) : Except Error Matrix :=
  fill rows cols fun r c => galExp (UInt8.ofNat r) c

section Entries

@[simp] theorem rows_ofFn (rows cols : ℕ) (f : ℕ → ℕ → UInt8) : (ofFn rows cols f).rows = rows :=
  rfl

@[simp] theorem cols_ofFn (rows cols : ℕ) (f : ℕ → ℕ → UInt8) : (ofFn rows cols f).cols = cols :=
  rfl

private theorem row_ofFn {rows cols r : ℕ} (f : ℕ → ℕ → UInt8) (hr : r < rows) :
    (ofFn rows cols f).row r = (List.range cols).map (f r) := by
  simp [row, ofFn, List.getD_eq_getElem?_getD, hr]

theorem get_ofFn {rows cols r c : ℕ} (f : ℕ → ℕ → UInt8) (hr : r < rows) (hc : c < cols) :
    (ofFn rows cols f).get r c = f r c := by
  simp [get, row_ofFn f hr, List.getD_eq_getElem?_getD, hc]

theorem fill_eq {rows cols : ℕ} (f : ℕ → ℕ → UInt8) (hr : 0 < rows) (hc : 0 < cols) :
    fill rows cols f = .ok (ofFn rows cols f) := by
  unfold fill new
  rw [if_neg (by omega), if_neg (by omega)]
  rfl

theorem length_row (m : Matrix) {r : ℕ} (hr : r < m.rows) : (m.row r).length = m.cols := by
  have hlt : r < m.data.length := by rw [m.rows_eq]; exact hr
  refine m.cols_eq _ ?_
  rw [row, List.getD_eq_getElem?_getD, List.getElem?_eq_getElem hlt]
  exact List.getElem_mem hlt

end Entries

def toMat (n c : ℕ) (m : Matrix) : Mat n c Gal := fun i j => ⟨m.get i j⟩

structure Shape (n c : ℕ) (m : Matrix) : Prop where
  rows : m.rows = n
  cols : m.cols = c

/-- Row operations lead from one matrix to the other. -/
structure Reduces (n c : ℕ) (m m' : Matrix) : Prop where
  shape : m'.Shape n c
  equiv : RowEquiv (m.toMat n c) (m'.toMat n c)

/-- The first `r` columns have a 1 on the diagonal and nothing below it. -/
structure Cleared (n r : ℕ) (m : Matrix) : Prop where
  one : ∀ j < r, m.get j j = 1
  zero : ∀ j < r, ∀ i, j < i → i < n → m.get i j = 0

/-- The outcome of a part of the elimination: a matrix that row operations lead to and that has
the property, or the refusal of a singular matrix. -/
def ReducesOrSingular (n c : ℕ) (m : Matrix) (result : Except Error Matrix)
    (property : Matrix → Prop) : Prop :=
  (∃ m', result = .ok m' ∧ m.Reduces n c m' ∧ property m') ∨
    result = .error .singular ∧ ¬IsUnit (m.toMat n n)

section Elimination

variable {n c : ℕ} {m : Matrix}

private theorem Reduces.refl (hm : m.Shape n c) : m.Reduces n c m := ⟨hm, .refl _⟩

private theorem Reduces.trans {m' m'' : Matrix} (h : m.Reduces n c m') (h' : m'.Reduces n c m'') :
    m.Reduces n c m'' := ⟨h'.shape, h.equiv.trans h'.equiv⟩

private theorem get_subScaledRow (hm : m.Shape n c) (dst src : ℕ) (scale : UInt8) {i j : ℕ}
    (hi : i < n) (hj : j < c) : (m.subScaledRow dst src scale).get i j =
      if i = dst then m.get i j ^^^ galMultiply scale (m.get src j) else m.get i j := by
  obtain ⟨rfl, rfl⟩ := hm
  exact get_ofFn _ hi hj

private theorem get_scaleRow (hm : m.Shape n c) (dst : ℕ) (scale : UInt8) {i j : ℕ} (hi : i < n)
    (hj : j < c) : (m.scaleRow dst scale).get i j =
      if i = dst then galMultiply (m.get i j) scale else m.get i j := by
  obtain ⟨rfl, rfl⟩ := hm
  exact get_ofFn _ hi hj

private theorem swapRows_eq (hm : m.Shape n c) {r s : ℕ} (hr : r < n) (hs : s < n) :
    ∃ m', m.swapRows r s = .ok m' ∧ m'.Shape n c ∧ ∀ i < n, ∀ j < c, m'.get i j =
      if i = r then m.get s j else if i = s then m.get r j else m.get i j := by
  obtain ⟨rfl, rfl⟩ := hm
  refine ⟨_, if_neg (by omega), ⟨rfl, rfl⟩, fun i hi j hj => get_ofFn _ hi hj⟩

private theorem reduces_subScaledRow (hm : m.Shape n c) {dst src : ℕ} (hdst : dst < n)
    (hsrc : src < n)
    (hne : dst ≠ src) (scale : UInt8) : m.Reduces n c (m.subScaledRow dst src scale) := by
  refine ⟨⟨hm.rows, hm.cols⟩, ?_⟩
  refine RowEquiv.add ⟨dst, hdst⟩ ⟨src, hsrc⟩ (by simpa using hne) ⟨scale⟩ ?_
  intro i j
  simp only [toMat, get_subScaledRow hm dst src scale i.2 j.2, Fin.ext_iff]
  split_ifs <;> rfl

private theorem reduces_scaleRow (hm : m.Shape n c) {dst : ℕ} (hdst : dst < n) {scale : UInt8}
    (hscale : scale ≠ 0) : m.Reduces n c (m.scaleRow dst scale) := by
  refine ⟨⟨hm.rows, hm.cols⟩, ?_⟩
  refine RowEquiv.scale ⟨dst, hdst⟩ (c := ⟨scale⟩) (Gal.mk_eq_zero.not.mpr hscale) ?_
  intro i j
  simp only [toMat, get_scaleRow hm dst scale i.2 j.2, Fin.ext_iff]
  split_ifs <;> rfl

private theorem reduces_swapRows {m' : Matrix} (hm' : m'.Shape n c) {r s : ℕ} (hr : r < n)
    (hs : s < n) (h : ∀ i < n, ∀ j < c, m'.get i j =
      if i = r then m.get s j else if i = s then m.get r j else m.get i j) :
    m.Reduces n c m' := by
  refine ⟨hm', RowEquiv.swap ⟨r, hr⟩ ⟨s, hs⟩ ?_⟩
  intro i j
  simp only [toMat, h i i.2 j j.2, Equiv.swap_apply_def, Fin.ext_iff]
  split_ifs <;> rfl

private theorem foldl_clearEntry (hnc : n ≤ c) {col : ℕ} (hcol : col < n) (rs : List ℕ)
    (hrs : ∀ i ∈ rs, i < n ∧ i ≠ col) (hm : m.Shape n c) (hone : m.get col col = 1) :
    let m' := rs.foldl (clearEntry col) m
    m.Reduces n c m' ∧
    (∀ i < n, i ∉ rs → ∀ j < c, m'.get i j = m.get i j) ∧
    (∀ i ∈ rs, m'.get i col = 0) ∧
    (∀ j < c, m.get col j = 0 → ∀ i < n, m'.get i j = m.get i j) := by
  induction rs generalizing m with
  | nil => exact ⟨.refl hm, fun _ _ _ _ _ => rfl, by simp, fun _ _ _ _ _ => rfl⟩
  | cons r rs ih =>
    obtain ⟨hr, hne⟩ := hrs r List.mem_cons_self
    have hstep : m.Reduces n c (clearEntry col m r) := by
      unfold clearEntry
      split_ifs
      · exact reduces_subScaledRow hm hr hcol hne _
      · exact .refl hm
    have hkeep : ∀ i < n, ∀ j < c, i ≠ r ∨ m.get col j = 0 →
        (clearEntry col m r).get i j = m.get i j := by
      intro i hi j hj hor
      unfold clearEntry
      split_ifs
      · rw [get_subScaledRow hm _ _ _ hi hj]
        split_ifs with hir
        · rw [hor.resolve_left (not_not.mpr hir)]
          simp
        · rfl
      · rfl
    have hzero : (clearEntry col m r).get r col = 0 := by
      unfold clearEntry
      split_ifs with hz
      · rw [get_subScaledRow hm _ _ _ hr (by omega), if_pos rfl, hone, galMultiply_comm,
          one_galMultiply, UInt8.xor_self]
      · exact not_not.mp hz
    have hone' : (clearEntry col m r).get col col = 1 := by
      rw [hkeep col hcol col (by omega) (.inl (Ne.symm hne)), hone]
    obtain ⟨h1, h2, h3, h4⟩ := ih (fun i hi => hrs i (List.mem_cons_of_mem r hi)) hstep.shape hone'
    refine ⟨hstep.trans h1, ?_, ?_, ?_⟩
    · intro i hi hmem j hj
      rw [List.mem_cons, not_or] at hmem
      rw [List.foldl_cons, h2 i hi hmem.2 j hj, hkeep i hi j hj (.inl hmem.1)]
    · intro i hi
      by_cases hmem : i ∈ rs
      · exact h3 i hmem
      · obtain rfl := (List.mem_cons.mp hi).resolve_right hmem
        rw [List.foldl_cons, h2 i hr hmem col (by omega), hzero]
    · intro j hj hz i hi
      have hz' : (clearEntry col m r).get col j = 0 := by
        rw [hkeep col hcol j hj (.inl (Ne.symm hne)), hz]
      rw [List.foldl_cons, h4 j hj hz' i hi, hkeep i hi j hj (.inr hz)]

private theorem pivotRow_spec (hnc : n ≤ c) (hm : m.Shape n c) {r : ℕ} (hr : r < n)
    (hclear : m.Cleared n r) :
    ∃ m', m.pivotRow r = .ok m' ∧ m.Reduces n c m' ∧ m'.Cleared n r ∧
      (IsUnit (m.toMat n n) → m'.get r r ≠ 0) := by
  unfold pivotRow
  by_cases hdiag : m.get r r = 0
  · rw [if_pos hdiag]
    split
    · rename_i below hfind
      have hmem := List.mem_of_find?_eq_some hfind
      have hbelow : m.get below r ≠ 0 := by simpa using List.find?_some hfind
      rw [List.mem_range'_1, hm.rows] at hmem
      obtain ⟨m', heq, hshape, hget⟩ := swapRows_eq hm hr (s := below) (by omega)
      refine ⟨m', heq, reduces_swapRows hshape hr (by omega) hget, ⟨?_, ?_⟩, ?_⟩
      · intro j hj
        rw [hget j (by omega) j (by omega), if_neg (by omega), if_neg (by omega), hclear.one j hj]
      · intro j hj i hji hi
        rw [hget i hi j (by omega)]
        split_ifs
        · exact hclear.zero j hj below (by omega) (by omega)
        · exact hclear.zero j hj r hj hr
        · exact hclear.zero j hj i hji hi
      · intro _
        rw [hget r hr r (by omega), if_pos rfl]
        exact hbelow
    · rename_i hfind
      refine ⟨m, rfl, .refl hm, hclear, ?_⟩
      intro hunit
      obtain ⟨i, hle, hpivot⟩ := exists_pivot hunit ⟨r, hr⟩ fun i j hj hi =>
        Gal.mk_eq_zero.mpr (hclear.zero j hj i (lt_of_lt_of_le hj hi) i.2)
      have hpivot' : m.get i r ≠ 0 := fun h => hpivot (Gal.mk_eq_zero.mpr h)
      have hne : i.1 ≠ r := fun h => hpivot' (h ▸ hdiag)
      have hle' : r ≤ i.1 := hle
      have hnone := List.find?_eq_none.mp hfind i (by
        rw [List.mem_range'_1, hm.rows]
        have := i.2
        omega)
      simp [hpivot'] at hnone
  · rw [if_neg hdiag]
    exact ⟨m, rfl, .refl hm, hclear, fun _ => hdiag⟩

private theorem galOneOver_ne_zero {a : UInt8} (ha : a ≠ 0) : galOneOver a ≠ 0 := by
  intro h
  have := galMultiply_galOneOver ha
  rw [h, galMultiply_zero] at this
  exact absurd this (by decide)

private theorem scalePivot_spec (hnc : n ≤ c) (hm : m.Shape n c) {r : ℕ} (hr : r < n)
    (hclear : m.Cleared n r) (hdiag : m.get r r ≠ 0) :
    m.Reduces n c (m.scalePivot r) ∧ (m.scalePivot r).Cleared n r ∧
      (m.scalePivot r).get r r = 1 := by
  unfold scalePivot
  split_ifs with hone
  · refine ⟨reduces_scaleRow hm hr (galOneOver_ne_zero hdiag), ⟨?_, ?_⟩, ?_⟩
    · intro j hj
      rw [get_scaleRow hm _ _ (by omega) (by omega), if_neg (by omega), hclear.one j hj]
    · intro j hj i hji hi
      rw [get_scaleRow hm _ _ hi (by omega), hclear.zero j hj i hji hi, zero_galMultiply, ite_self]
    · rw [get_scaleRow hm _ _ hr (by omega), if_pos rfl, galMultiply_galOneOver hdiag]
  · exact ⟨.refl hm, hclear, not_not.mp hone⟩

private theorem clearBelow_spec (hnc : n ≤ c) (hm : m.Shape n c) {r : ℕ} (hr : r < n)
    (hclear : m.Cleared n r) :
    m.ReducesOrSingular n c (m.clearBelow r) fun m' => m'.Cleared n (r + 1) := by
  obtain ⟨m₁, heq, hred₁, hclear₁, hunit⟩ := pivotRow_spec hnc hm hr hclear
  by_cases hdiag : m₁.get r r = 0
  · refine .inr ⟨?_, fun h => hunit h hdiag⟩
    unfold clearBelow
    rw [heq]
    change (if m₁.get r r = 0 then _ else _) = _
    rw [if_pos hdiag]
    rfl
  obtain ⟨hred₂, hclear₂, hone⟩ := scalePivot_spec hnc hred₁.shape hr hclear₁ hdiag
  have hmem : ∀ i, i ∈ List.range' (r + 1) (m₁.rows - (r + 1)) ↔ r < i ∧ i < n := by
    intro i
    rw [List.mem_range'_1, hred₁.shape.rows]
    omega
  obtain ⟨hred₃, hkeep, hzero, hcols⟩ := foldl_clearEntry hnc hr
    (List.range' (r + 1) (m₁.rows - (r + 1)))
    (fun i hi => by rw [hmem] at hi; omega) hred₂.shape hone
  refine .inl ⟨_, ?_, (hred₁.trans hred₂).trans hred₃, ⟨?_, ?_⟩⟩
  · unfold clearBelow
    rw [heq]
    change (if m₁.get r r = 0 then _ else _) = _
    rw [if_neg hdiag]
    rfl
  · intro j hj
    rcases Nat.lt_succ_iff_lt_or_eq.mp hj with hlt | rfl
    · rw [hcols j (by omega) (hclear₂.zero j hlt r hlt hr) j (by omega), hclear₂.one j hlt]
    · rw [hkeep j hr (by rw [hmem]; omega) j (by omega), hone]
  · intro j hj i hji hi
    rcases Nat.lt_succ_iff_lt_or_eq.mp hj with hlt | rfl
    · rw [hcols j (by omega) (hclear₂.zero j hlt r hlt hr) i hi, hclear₂.zero j hlt i hji hi]
    · exact hzero i ((hmem i).mpr ⟨hji, hi⟩)

private theorem foldlM_clearBelow (hnc : n ≤ c) (hm : m.Shape n c) {k : ℕ} (hk : k ≤ n) :
    m.ReducesOrSingular n c ((List.range k).foldlM clearBelow m) fun m' => m'.Cleared n k := by
  induction k with
  | zero => exact .inl ⟨m, rfl, .refl hm, ⟨by omega, by omega⟩⟩
  | succ k ih =>
    rw [List.range_succ, List.foldlM_append]
    rcases ih (by omega) with ⟨m₁, heq₁, hred₁, hclear₁⟩ | ⟨herr, hsing⟩
    · have hfold : ((List.range k).foldlM clearBelow m >>= fun m => [k].foldlM clearBelow m) =
          m₁.clearBelow k := by
        rw [heq₁]
        change (List.foldlM clearBelow m₁ [k]) = _
        rw [List.foldlM_cons]
        exact bind_pure _
      rw [hfold]
      rcases clearBelow_spec hnc hred₁.shape hk hclear₁ with ⟨m₂, heq₂, hred₂, hclear₂⟩ |
        ⟨herr, hsing⟩
      · exact .inl ⟨m₂, heq₂, hred₁.trans hred₂, hclear₂⟩
      · exact .inr ⟨herr, fun hunit => hsing ((hred₁.equiv.cols (Fin.castLE hnc)).isUnit hunit)⟩
    · rw [herr]
      exact .inr ⟨rfl, hsing⟩

private theorem foldl_clearAbove (hnc : n ≤ c) (hm : m.Shape n c) (hclear : m.Cleared n n) {k : ℕ}
    (hk : k ≤ n) :
    let m' := (List.range k).foldl clearAbove m
    m.Reduces n c m' ∧ m'.Cleared n n ∧ ∀ j < k, ∀ i < j, m'.get i j = 0 := by
  induction k with
  | zero => exact ⟨.refl hm, hclear, by omega⟩
  | succ k ih =>
    obtain ⟨hred₁, hclear₁, hzero₁⟩ := ih (by omega)
    set m₁ := (List.range k).foldl clearAbove m with hm₁
    obtain ⟨hred₂, hkeep, hzero, hcols⟩ := foldl_clearEntry hnc hk (List.range k)
      (fun i hi => by rw [List.mem_range] at hi; omega) hred₁.shape (hclear₁.one k hk)
    have hfold : (List.range (k + 1)).foldl clearAbove m = m₁.clearAbove k := by
      rw [List.range_succ, List.foldl_append, List.foldl_cons, List.foldl_nil]
    simp only [hfold]
    refine ⟨hred₁.trans hred₂, ⟨?_, ?_⟩, ?_⟩
    · intro j hj
      by_cases hjk : j < k
      · rw [clearAbove, hcols j (by omega) (hclear₁.zero j hj k hjk hk) j hj, hclear₁.one j hj]
      · rw [clearAbove, hkeep j hj (by simpa using hjk) j (by omega), hclear₁.one j hj]
    · intro j hj i hji hi
      by_cases hjk : j < k
      · rw [clearAbove, hcols j (by omega) (hclear₁.zero j hj k hjk hk) i hi,
          hclear₁.zero j hj i hji hi]
      · rw [clearAbove, hkeep i hi (by rw [List.mem_range]; omega) j (by omega),
          hclear₁.zero j hj i hji hi]
    · intro j hj i hij
      rcases Nat.lt_succ_iff_lt_or_eq.mp hj with hlt | rfl
      · rw [clearAbove, hcols j (by omega) (hclear₁.zero j (by omega) k hlt hk) i (by omega),
          hzero₁ j hlt i hij]
      · exact hzero i (List.mem_range.mpr hij)

private theorem gaussianElimination_spec (hnc : n ≤ c) (hm : m.Shape n c) :
    m.ReducesOrSingular n c m.gaussianElimination fun m' => m'.toMat n n = 1 := by
  unfold gaussianElimination
  rw [hm.rows]
  rcases foldlM_clearBelow hnc hm (le_refl n) with ⟨m₁, heq₁, hred₁, hclear₁⟩ | ⟨herr, hsing⟩
  · obtain ⟨hred₂, hclear₂, hzero₂⟩ := foldl_clearAbove hnc hred₁.shape hclear₁ (le_refl n)
    refine .inl ⟨_, ?_, hred₁.trans hred₂, ?_⟩
    · rw [heq₁]
      change Except.ok ((List.range m₁.rows).foldl clearAbove m₁) = _
      rw [hred₁.shape.rows]
    · ext i j
      rw [Matrix.one_apply]
      split_ifs with hij
      · rw [hij]
        exact Gal.ext_byte (hclear₂.one j j.2)
      · rcases lt_or_gt_of_ne hij with hlt | hlt
        · exact Gal.ext_byte (hzero₂ j j.2 i hlt)
        · exact Gal.ext_byte (hclear₂.zero j j.2 i hlt i.2)
  · rw [herr]
    exact .inr ⟨rfl, hsing⟩

theorem invert_cases (hn : 0 < n) (hm : m.Shape n n) :
    (∃ inv, m.invert = .ok inv ∧ inv.Shape n n ∧ inv.toMat n n * m.toMat n n = 1) ∨
      m.invert = .error .singular ∧ ¬IsUnit (m.toMat n n) := by
  have hid : identity n = .ok (ofFn n n fun r c => if r = c then 1 else 0) := fill_eq _ hn hn
  set id' := ofFn n n fun r c => if r = c then 1 else 0 with hid'
  have haug : m.augment id' = .ok (ofFn n (n + n) fun r c =>
      if c < n then m.get r c else id'.get r (c - n)) := by
    unfold augment
    rw [hm.rows, hm.cols, if_neg (by simp [hid'])]
    exact fill_eq _ hn (by simp [hid']; omega)
  set aug := ofFn n (n + n) fun r c => if c < n then m.get r c else id'.get r (c - n) with haug'
  have hleft : aug.toMat n n = m.toMat n n := by
    ext i j
    apply congrArg Gal.mk
    rw [haug', get_ofFn _ i.2 (by omega), if_pos j.2]
  have hright : (aug.toMat n (n + n)).submatrix id (Fin.natAdd n) = 1 := by
    ext i j
    rw [Matrix.one_apply]
    have hget : aug.get i (n + j) = if i.1 = j.1 then 1 else 0 := by
      rw [haug', get_ofFn _ i.2 (by omega), if_neg (by omega), hid', Nat.add_sub_cancel_left,
        get_ofFn _ i.2 j.2]
    change (⟨aug.get i (n + j)⟩ : Gal) = _
    rw [hget]
    simp only [Fin.ext_iff]
    split_ifs <;> rfl
  have hinvert : m.invert = aug.gaussianElimination >>= fun work =>
      work.subMatrix 0 n n (n * 2) := by
    unfold invert
    rw [show m.isSquare = true by simp [isSquare, hm.rows, hm.cols], hm.rows]
    change (do
      let work ← identity n
      let work ← m.augment work
      let work ← work.gaussianElimination
      work.subMatrix 0 n n (n * 2)) = _
    rw [hid]
    change (do
      let work ← m.augment id'
      let work ← work.gaussianElimination
      work.subMatrix 0 n n (n * 2)) = _
    rw [haug]
    rfl
  have hsub (work : Matrix) :
      work.subMatrix 0 n n (n * 2) = .ok (ofFn n n fun r c => work.get (r + 0) (c + n)) := by
    unfold subMatrix
    rw [Nat.sub_zero, show n * 2 - n = n by omega]
    exact fill_eq _ hn hn
  rw [hinvert]
  rcases gaussianElimination_spec (m := aug) (Nat.le_add_right n n) ⟨rfl, rfl⟩ with
    ⟨work, hwork, hred, hone⟩ | ⟨herr, hsing⟩
  · have hinv := hred.equiv.inverse (Fin.castAdd n) (Fin.natAdd n) hright hone
    refine .inl ⟨ofFn n n fun r c => work.get (r + 0) (c + n), ?_, ⟨rfl, rfl⟩, ?_⟩
    · rw [hwork]
      exact hsub work
    · have hmat : (ofFn n n fun r c => work.get (r + 0) (c + n)).toMat n n =
          (work.toMat n (n + n)).submatrix id (Fin.natAdd n) := by
        ext i j
        apply congrArg Gal.mk
        rw [get_ofFn _ i.2 j.2, Nat.add_zero, Nat.add_comm]
        rfl
      rw [hmat, ← hleft]
      exact hinv
  · rw [herr]
    exact .inr ⟨rfl, hleft ▸ hsing⟩

theorem invert_spec (hn : 0 < n) (hm : m.Shape n n) (hunit : IsUnit (m.toMat n n)) :
    ∃ inv, m.invert = .ok inv ∧ inv.Shape n n ∧ inv.toMat n n * m.toMat n n = 1 :=
  (invert_cases hn hm).resolve_right fun h => h.2 hunit

end Elimination

end Matrix

end Kcptun.Rs
