/- Kcptun/Rs/MatrixInRange
   source: crates/kcp/src/rs/matrix.rs
   digest: The matrix operations with every row and element access checked, and that none of the
     accesses the codec makes is out of range. -/

import Kcptun.Rs.Erasure

set_option autoImplicit false
set_option relaxedAutoImplicit false

namespace Kcptun.Rs

open Kcptun.Lib Kcptun.Lib.LittleEndian

/-- Code that returns a `Result` and may panic: `none` stands for an access out of range. -/
abbrev Checked (α : Type) := ExceptT Error Option α

def total {α : Type} (e : Except Error α) : Checked α := ExceptT.mk (some e)

def access {α : Type} (x : Option α) : Checked α := ExceptT.mk (x.map .ok)

section Total

variable {α β : Type}

private theorem total_ok_bind (x : α) (f : α → Checked β) : total (.ok x) >>= f = f x := rfl

theorem total_bind {e : Except Error α} {f : α → Checked β} {g : α → Except Error β}
    (h : ∀ x, e = .ok x → f x = total (g x)) : total e >>= f = total (e >>= g) := by
  cases e with
  | error err => rfl
  | ok x => exact h x rfl

private theorem access_bind {x : Option α} {a : α} (h : x = some a) (f : α → Checked β) :
    access x >>= f = f a := by
  subst h
  rfl

private theorem access_eq {x : Option α} {a : α} (h : x = some a) : access x = total (.ok a) := by
  subst h
  rfl

end Total

namespace Matrix

/-- `row(r)`; panics if `r >= rows`. -/
def rowChecked (m : Matrix) (r : ℕ) : Option Bytes := m.data[r]?

/-- `get(r, c)`; panics if out of range. -/
def getChecked (m : Matrix) (r c : ℕ) : Option UInt8 :=
  if c < m.cols then (m.rowChecked r).bind fun row => row[c]? else none

/-- `set(r, c, v)`; panics if out of range. -/
def setChecked (m : Matrix) (r c : ℕ) (v : UInt8) : Option Matrix :=
  if r < m.rows ∧ c < m.cols then
    some (ofFn m.rows m.cols fun i j => if i = r ∧ j = c then v else m.get i j)
  else none

def cells (rows cols : ℕ) : List (ℕ × ℕ) :=
  (List.range rows).flatMap fun r => (List.range cols).map fun c => (r, c)

def fillChecked (rows cols : ℕ) (f : ℕ → ℕ → Option UInt8) : Checked Matrix := do
  let result ← total (new rows cols)
  access ((cells result.rows result.cols).foldlM
    (fun m p => (f p.1 p.2).bind fun v => m.setChecked p.1 p.2 v) result)

def identityChecked (size : ℕ) : Checked Matrix :=
  fillChecked size size fun r c => some (if r = c then 1 else 0)

def productChecked (m right : Matrix) (r c : ℕ) : Option UInt8 :=
  (List.range m.cols).foldlM (fun value i =>
    (m.getChecked r i).bind fun a => (right.getChecked i c).map fun b =>
      value ^^^ galMultiply a b) 0

def multiplyChecked (m right : Matrix) : Checked Matrix :=
  if m.cols ≠ right.rows then throw (.multiplySize m.cols right.rows)
  else fillChecked m.rows right.cols (m.productChecked right)

def augmentChecked (m right : Matrix) : Checked Matrix :=
  if m.rows ≠ right.rows then throw .matrixSize
  else fillChecked m.rows (m.cols + right.cols) fun r c =>
    if c < m.cols then m.getChecked r c else right.getChecked r (c - m.cols)

def subMatrixChecked (m : Matrix) (rmin cmin rmax cmax : ℕ) : Checked Matrix :=
  fillChecked (rmax - rmin) (cmax - cmin) fun r c => m.getChecked (r + rmin) (c + cmin)

/-- `row_mut(dst)`, each element multiplied by `scale`. -/
def scaleRowChecked (m : Matrix) (dst : ℕ) (scale : UInt8) : Option Matrix :=
  if dst < m.rows then some (m.scaleRow dst scale) else none

/-- `sub_scaled_row`, which splits the storage between the two rows. -/
def subScaledRowChecked (m : Matrix) (dst src : ℕ) (scale : UInt8) : Option Matrix :=
  if dst < m.rows ∧ src < m.rows ∧ dst ≠ src then some (m.subScaledRow dst src scale) else none

def clearEntryChecked (col : ℕ) (m : Matrix) (r : ℕ) : Option Matrix :=
  (m.getChecked r col).bind fun scale =>
    if scale ≠ 0 then m.subScaledRowChecked r col scale else some m

def findBelow (m : Matrix) (col : ℕ) : List ℕ → Option (Option ℕ)
  | [] => some none
  | below :: rest => (m.getChecked below col).bind fun v =>
    if v ≠ 0 then some (some below) else findBelow m col rest

def pivotRowChecked (m : Matrix) (r : ℕ) : Checked Matrix := do
  let v ← access (m.getChecked r r)
  if v = 0 then
    let found ← access (m.findBelow r (List.range' (r + 1) (m.rows - (r + 1))))
    match found with
    | some below => total (m.swapRows r below)
    | none => return m
  else return m

/-- Scales the diagonal element of row `r` to 1; `gal_one_over` panics for a zero. -/
def scalePivotChecked (m : Matrix) (r : ℕ) : Option Matrix :=
  (m.getChecked r r).bind fun v =>
    if v ≠ 1 then (if v = 0 then none else m.scaleRowChecked r (galOneOver v)) else some m

def clearBelowChecked (m : Matrix) (r : ℕ) : Checked Matrix := do
  let m ← m.pivotRowChecked r
  let v ← access (m.getChecked r r)
  if v = 0 then throw .singular
  let below := List.range' (r + 1) (m.rows - (r + 1))
  access ((m.scalePivotChecked r).bind (below.foldlM (clearEntryChecked r)))

def clearAboveChecked (m : Matrix) (d : ℕ) : Option Matrix :=
  (List.range d).foldlM (clearEntryChecked d) m

def gaussianEliminationChecked (m : Matrix) : Checked Matrix := do
  let m ← (List.range m.rows).foldlM clearBelowChecked m
  access ((List.range m.rows).foldlM clearAboveChecked m)

def invertChecked (m : Matrix) : Checked Matrix := do
  if !m.isSquare then throw .notSquare
  let size := m.rows
  let work ← identityChecked size
  let work ← m.augmentChecked work
  let work ← work.gaussianEliminationChecked
  work.subMatrixChecked 0 size size (size * 2)

def vandermondeChecked (rows cols : ℕ) : Checked Matrix :=
  fillChecked rows cols fun r c => some (galExp (UInt8.ofNat r) c)

/-! Every access is in range. -/

theorem rowChecked_eq {m : Matrix} {r : ℕ} (hr : r < m.rows) : m.rowChecked r = some (m.row r) := by
  have hlt : r < m.data.length := by rw [m.rows_eq]; exact hr
  rw [rowChecked, row, List.getD_eq_getElem?_getD, List.getElem?_eq_getElem hlt, Option.getD_some]

private theorem getChecked_eq {m : Matrix} {r c : ℕ} (hr : r < m.rows) (hc : c < m.cols) :
    m.getChecked r c = some (m.get r c) := by
  have hlt : c < (m.row r).length := by rw [length_row m hr]; exact hc
  rw [getChecked, if_pos hc, rowChecked_eq hr, Option.bind_some, get, List.getD_eq_getElem?_getD,
    List.getElem?_eq_getElem hlt, Option.getD_some]

private theorem ofFn_congr {rows cols : ℕ} {f g : ℕ → ℕ → UInt8}
    (h : ∀ i < rows, ∀ j < cols, f i j = g i j) : ofFn rows cols f = ofFn rows cols g := by
  have hdata : ((List.range rows).map fun r => (List.range cols).map (f r)) =
      (List.range rows).map fun r => (List.range cols).map (g r) :=
    List.map_congr_left fun i hi => List.map_congr_left fun j hj =>
      h i (List.mem_range.mp hi) j (List.mem_range.mp hj)
  unfold ofFn
  congr 1

private theorem foldlM_set {rows cols : ℕ} {f : ℕ → ℕ → UInt8} {f' : ℕ → ℕ → Option UInt8}
    (es : List (ℕ × ℕ)) (hes : ∀ p ∈ es, p.1 < rows ∧ p.2 < cols ∧ f' p.1 p.2 = some (f p.1 p.2))
    (g : ℕ → ℕ → UInt8) :
    es.foldlM (fun m p => (f' p.1 p.2).bind fun v => m.setChecked p.1 p.2 v) (ofFn rows cols g) =
      some (ofFn rows cols fun i j => if (i, j) ∈ es then f i j else g i j) := by
  induction es generalizing g with
  | nil => exact congrArg some (ofFn_congr fun i _ j _ => rfl)
  | cons p es ih =>
    obtain ⟨hr, hc, hf⟩ := hes p List.mem_cons_self
    have hset : (ofFn rows cols g).setChecked p.1 p.2 (f p.1 p.2) =
        some (ofFn rows cols fun i j => if i = p.1 ∧ j = p.2 then f p.1 p.2 else g i j) := by
      rw [setChecked, if_pos ⟨hr, hc⟩]
      refine congrArg some (ofFn_congr ?_)
      intro i hi j hj
      rw [@get_ofFn rows cols i j g hi hj]
    rw [List.foldlM_cons, hf, Option.bind_some, hset]
    change es.foldlM _ (ofFn rows cols _) = _
    rw [ih fun q hq => hes q (List.mem_cons_of_mem p hq)]
    refine congrArg some (ofFn_congr ?_)
    intro i hi j hj
    by_cases hmem : (i, j) ∈ es
    · rw [if_pos hmem, if_pos (List.mem_cons_of_mem p hmem)]
    · by_cases heq : i = p.1 ∧ j = p.2
      · obtain ⟨rfl, rfl⟩ := heq
        rw [if_neg hmem, if_pos ⟨rfl, rfl⟩, if_pos List.mem_cons_self]
      · rw [if_neg hmem, if_neg heq, if_neg]
        rintro hcons
        rcases List.mem_cons.mp hcons with h | h
        · exact heq ⟨congrArg Prod.fst h, congrArg Prod.snd h⟩
        · exact hmem h

private theorem mem_cells {rows cols : ℕ} {p : ℕ × ℕ} :
    p ∈ cells rows cols ↔ p.1 < rows ∧ p.2 < cols := by
  obtain ⟨i, j⟩ := p
  simp [cells]

theorem fillChecked_eq {rows cols : ℕ} {f : ℕ → ℕ → UInt8} {f' : ℕ → ℕ → Option UInt8}
    (h : ∀ r < rows, ∀ c < cols, f' r c = some (f r c)) :
    fillChecked rows cols f' = total (fill rows cols f) := by
  apply total_bind
  intro result hresult
  have heq : result = ofFn rows cols fun _ _ => 0 := by
    unfold new at hresult
    split_ifs at hresult
    exact (Except.ok.inj hresult).symm
  subst heq
  have hset := foldlM_set (f := f) (cells rows cols) (fun p hp => by
    obtain ⟨hr, hc⟩ := mem_cells.mp hp
    exact ⟨hr, hc, h p.1 hr p.2 hc⟩) fun _ _ => 0
  refine access_eq (hset.trans (congrArg some (ofFn_congr ?_)))
  intro i hi j hj
  exact if_pos (mem_cells.mpr ⟨hi, hj⟩)

section InRange

variable {n c : ℕ} {m : Matrix}

private theorem productChecked_eq {right : Matrix} {r j : ℕ} (hr : r < m.rows) (hj : j < right.cols)
    (hdim : m.cols = right.rows) : m.productChecked right r j = some ((List.range m.cols).foldl
      (fun value i => value ^^^ galMultiply (m.get r i) (right.get i j)) 0) := by
  have hfold : ∀ (is : List ℕ) (value : UInt8), (∀ i ∈ is, i < m.cols) →
      is.foldlM (fun value i => (m.getChecked r i).bind fun a => (right.getChecked i j).map fun b =>
        value ^^^ galMultiply a b) value =
      some (is.foldl (fun value i => value ^^^ galMultiply (m.get r i) (right.get i j)) value) := by
    intro is
    induction is with
    | nil => exact fun value _ => rfl
    | cons i is ih =>
      intro value his
      have hi := his i List.mem_cons_self
      rw [List.foldlM_cons, getChecked_eq hr hi, getChecked_eq (hdim ▸ hi) hj]
      exact ih _ fun k hk => his k (List.mem_cons_of_mem i hk)
  exact hfold _ 0 fun i hi => List.mem_range.mp hi

theorem multiplyChecked_eq (m right : Matrix) :
    m.multiplyChecked right = total (m.multiply right) := by
  unfold multiplyChecked multiply
  split_ifs with hdim
  · rfl
  · exact fillChecked_eq fun r hr j hj => productChecked_eq hr hj (not_not.mp hdim)

private theorem augmentChecked_eq (m right : Matrix) :
    m.augmentChecked right = total (m.augment right) := by
  unfold augmentChecked augment
  split_ifs with hrows
  · rfl
  · rw [not_not] at hrows
    apply fillChecked_eq
    intro r hr j hj
    split_ifs with hleft
    · exact getChecked_eq hr hleft
    · exact getChecked_eq (hrows ▸ hr) (by omega)

theorem subMatrixChecked_eq {rmin cmin rmax cmax : ℕ} (hr : rmax ≤ m.rows) (hc : cmax ≤ m.cols) :
    m.subMatrixChecked rmin cmin rmax cmax = total (m.subMatrix rmin cmin rmax cmax) :=
  fillChecked_eq fun _ _ _ _ => getChecked_eq (by omega) (by omega)

private theorem clearEntryChecked_eq (hm : m.Shape n c) {col r : ℕ} (hcol : col < n) (hnc : n ≤ c)
    (hr : r < n) (hne : r ≠ col) : clearEntryChecked col m r = some (clearEntry col m r) := by
  obtain ⟨rfl, rfl⟩ := hm
  rw [clearEntryChecked, getChecked_eq hr (by omega), Option.bind_some, clearEntry]
  split_ifs
  · rw [subScaledRowChecked, if_pos ⟨hr, hcol, hne⟩]
  · rfl

private theorem shape_clearEntry (hm : m.Shape n c) (col r : ℕ) :
    (clearEntry col m r).Shape n c := by
  unfold clearEntry
  split_ifs
  · exact ⟨hm.rows, hm.cols⟩
  · exact hm

private theorem foldlM_clearEntryChecked (hm : m.Shape n c) {col : ℕ} (hcol : col < n) (hnc : n ≤ c)
    (rs : List ℕ) (hrs : ∀ r ∈ rs, r < n ∧ r ≠ col) :
    rs.foldlM (clearEntryChecked col) m = some (rs.foldl (clearEntry col) m) ∧
      (rs.foldl (clearEntry col) m).Shape n c := by
  induction rs generalizing m with
  | nil => exact ⟨rfl, hm⟩
  | cons r rs ih =>
    obtain ⟨hr, hne⟩ := hrs r List.mem_cons_self
    rw [List.foldlM_cons, clearEntryChecked_eq hm hcol hnc hr hne]
    exact ih (shape_clearEntry hm col r) fun k hk => hrs k (List.mem_cons_of_mem r hk)

private theorem findBelow_eq {col : ℕ} (hcol : col < m.cols) (rs : List ℕ)
    (hrs : ∀ r ∈ rs, r < m.rows) :
    m.findBelow col rs = some (rs.find? fun below => m.get below col ≠ 0) := by
  induction rs with
  | nil => rfl
  | cons r rs ih =>
    rw [findBelow, getChecked_eq (hrs r List.mem_cons_self) hcol, Option.bind_some, List.find?_cons]
    by_cases hzero : m.get r col = 0
    · rw [if_neg (not_not.mpr hzero), ih fun k hk => hrs k (List.mem_cons_of_mem r hk)]
      simp [hzero]
    · rw [if_pos hzero]
      simp [hzero]

private theorem pivotRowChecked_eq (hm : m.Shape n c) (hnc : n ≤ c) {r : ℕ} (hr : r < n) :
    m.pivotRowChecked r = total (m.pivotRow r) := by
  obtain ⟨rfl, rfl⟩ := hm
  unfold pivotRowChecked pivotRow
  rw [access_bind (getChecked_eq hr (by omega))]
  split_ifs
  · rw [access_bind (findBelow_eq (by omega) _ fun k hk => ?_)]
    · cases List.find? (fun below => decide (m.get below r ≠ 0))
        (List.range' (r + 1) (m.rows - (r + 1))) <;> rfl
    · have := List.mem_range'_1.mp hk
      omega
  · rfl

private theorem shape_pivotRow {m' : Matrix} (hm : m.Shape n c) {r : ℕ}
    (h : m.pivotRow r = .ok m') : m'.Shape n c := by
  unfold pivotRow at h
  split_ifs at h
  · split at h
    · unfold swapRows at h
      split_ifs at h
      obtain rfl := Except.ok.inj h
      exact ⟨hm.rows, hm.cols⟩
    · obtain rfl := Except.ok.inj h
      exact hm
  · obtain rfl := Except.ok.inj h
    exact hm

private theorem scalePivotChecked_eq (hm : m.Shape n c) (hnc : n ≤ c) {r : ℕ} (hr : r < n)
    (hne : m.get r r ≠ 0) :
    m.scalePivotChecked r = some (m.scalePivot r) ∧ (m.scalePivot r).Shape n c := by
  obtain ⟨rfl, rfl⟩ := hm
  rw [scalePivotChecked, getChecked_eq hr (by omega), Option.bind_some, scalePivot, if_neg hne]
  split_ifs
  · rw [scaleRowChecked, if_pos hr]
    exact ⟨rfl, rfl, rfl⟩
  · exact ⟨rfl, rfl, rfl⟩

private theorem clearBelow_of_pivotRow {m' : Matrix} {r : ℕ} (h : m.pivotRow r = .ok m') :
    m.clearBelow r = if m'.get r r = 0 then .error .singular else
      .ok ((List.range' (r + 1) (m'.rows - (r + 1))).foldl (clearEntry r) (m'.scalePivot r)) := by
  unfold clearBelow
  rw [h]
  change (if m'.get r r = 0 then _ else _) = _
  split_ifs <;> rfl

private theorem clearBelowChecked_eq (hm : m.Shape n c) (hnc : n ≤ c) {r : ℕ} (hr : r < n) :
    m.clearBelowChecked r = total (m.clearBelow r) ∧
      ∀ m', m.clearBelow r = .ok m' → m'.Shape n c := by
  cases hpivot : m.pivotRow r with
  | error e =>
    have hclear : m.clearBelow r = .error e := by
      unfold clearBelow
      rw [hpivot]
      rfl
    unfold clearBelowChecked
    rw [pivotRowChecked_eq hm hnc hr, hpivot, hclear]
    exact ⟨rfl, nofun⟩
  | ok m₁ =>
    have hm₁ := shape_pivotRow hm hpivot
    have hget : m₁.getChecked r r = some (m₁.get r r) :=
      getChecked_eq (hm₁.rows ▸ hr) (by rw [hm₁.cols]; omega)
    unfold clearBelowChecked
    rw [pivotRowChecked_eq hm hnc hr, hpivot, total_ok_bind, access_bind hget,
      clearBelow_of_pivotRow hpivot]
    by_cases hzero : m₁.get r r = 0
    · rw [if_pos hzero, if_pos hzero]
      exact ⟨rfl, nofun⟩
    · obtain ⟨hscale, hshape⟩ := scalePivotChecked_eq hm₁ hnc hr hzero
      have hbelow : ∀ k ∈ List.range' (r + 1) (m₁.rows - (r + 1)), k < n ∧ k ≠ r := by
        intro k hk
        have := List.mem_range'_1.mp hk
        have := hm₁.rows
        omega
      obtain ⟨hclear, hshape'⟩ := foldlM_clearEntryChecked hshape hr hnc _ hbelow
      rw [if_neg hzero, if_neg hzero]
      refine ⟨access_eq ?_, fun m' h => Except.ok.inj h ▸ hshape'⟩
      rw [hscale, Option.bind_some, hclear]

private theorem foldlM_clearBelowChecked (hm : m.Shape n c) (hnc : n ≤ c) (rs : List ℕ)
    (hrs : ∀ r ∈ rs, r < n) :
    rs.foldlM clearBelowChecked m = total (rs.foldlM clearBelow m) ∧
      ∀ m', rs.foldlM clearBelow m = .ok m' → m'.Shape n c := by
  induction rs generalizing m with
  | nil => exact ⟨rfl, fun m' h => Except.ok.inj h ▸ hm⟩
  | cons r rs ih =>
    obtain ⟨hstep, hshape⟩ := clearBelowChecked_eq hm hnc (hrs r List.mem_cons_self)
    have hrest : ∀ k ∈ rs, k < n := fun k hk => hrs k (List.mem_cons_of_mem r hk)
    rw [List.foldlM_cons, List.foldlM_cons, hstep]
    refine ⟨total_bind fun m₁ h₁ => (ih (hshape m₁ h₁) hrest).1, ?_⟩
    intro m' h
    cases h₁ : m.clearBelow r with
    | error e =>
      rw [h₁] at h
      cases h
    | ok m₁ =>
      rw [h₁] at h
      exact (ih (hshape m₁ h₁) hrest).2 m' h

private theorem foldlM_clearAboveChecked (hm : m.Shape n c) (hnc : n ≤ c) (cols : List ℕ)
    (hcols : ∀ d ∈ cols, d < n) :
    cols.foldlM clearAboveChecked m = some (cols.foldl clearAbove m) ∧
      (cols.foldl clearAbove m).Shape n c := by
  induction cols generalizing m with
  | nil => exact ⟨rfl, hm⟩
  | cons d cols ih =>
    have hd := hcols d List.mem_cons_self
    obtain ⟨hclear, hshape⟩ := foldlM_clearEntryChecked hm hd hnc (List.range d) fun k hk => by
      have := List.mem_range.mp hk
      omega
    have hstep : m.clearAboveChecked d = some (m.clearAbove d) := hclear
    rw [List.foldlM_cons, hstep]
    exact ih hshape fun k hk => hcols k (List.mem_cons_of_mem d hk)

private theorem gaussianEliminationChecked_eq (hm : m.Shape n c) (hnc : n ≤ c) :
    m.gaussianEliminationChecked = total m.gaussianElimination ∧
      ∀ m', m.gaussianElimination = .ok m' → m'.Shape n c := by
  obtain ⟨hbelow, hshape⟩ := foldlM_clearBelowChecked hm hnc (List.range m.rows) fun r hr =>
    hm.rows ▸ List.mem_range.mp hr
  have habove : ∀ m₁, (List.range m.rows).foldlM clearBelow m = .ok m₁ →
      (List.range m₁.rows).foldlM clearAboveChecked m₁ =
        some ((List.range m₁.rows).foldl clearAbove m₁) ∧
      ((List.range m₁.rows).foldl clearAbove m₁).Shape n c := fun m₁ h₁ =>
    foldlM_clearAboveChecked (hshape m₁ h₁) hnc _ fun d hd =>
      (hshape m₁ h₁).rows ▸ List.mem_range.mp hd
  unfold gaussianEliminationChecked gaussianElimination
  rw [hbelow]
  refine ⟨total_bind fun m₁ h₁ => access_eq (habove m₁ h₁).1, ?_⟩
  intro m' h
  cases h₁ : (List.range m.rows).foldlM clearBelow m with
  | error e =>
    rw [h₁] at h
    cases h
  | ok m₁ =>
    rw [h₁] at h
    exact Except.ok.inj h ▸ (habove m₁ h₁).2

theorem fill_shape {f : ℕ → ℕ → UInt8} {rows cols : ℕ} {m' : Matrix}
    (h : fill rows cols f = .ok m') : m'.Shape rows cols := by
  unfold fill new at h
  split_ifs at h
  · cases h
  · cases h
  · exact Except.ok.inj h ▸ ⟨rfl, rfl⟩

theorem invertChecked_eq (m : Matrix) : m.invertChecked = total m.invert := by
  unfold invertChecked invert
  by_cases hsquare : m.isSquare
  · have hcols : m.rows = m.cols := by simpa [isSquare] using hsquare
    rw [hsquare]
    change identityChecked m.rows >>= _ = total (identity m.rows >>= _)
    rw [show identityChecked m.rows = total (identity m.rows) from fillChecked_eq fun _ _ _ _ => rfl]
    apply total_bind
    intro right hright
    have hid := fill_shape hright
    rw [augmentChecked_eq]
    apply total_bind
    intro aug haug
    have hshape : aug.Shape m.rows (m.cols + m.rows) := by
      unfold augment at haug
      split_ifs at haug
      rw [hid.cols] at haug
      exact fill_shape haug
    obtain ⟨hgauss, hwork⟩ := gaussianEliminationChecked_eq hshape (by omega)
    rw [hgauss]
    apply total_bind
    intro work h
    exact subMatrixChecked_eq (by rw [(hwork work h).rows]) (by rw [(hwork work h).cols]; omega)
  · rw [Bool.not_eq_true] at hsquare
    rw [hsquare]
    rfl

theorem vandermondeChecked_eq (rows cols : ℕ) :
    vandermondeChecked rows cols = total (vandermonde rows cols) :=
  fillChecked_eq fun _ _ _ _ => rfl

end InRange

end Matrix

end Kcptun.Rs
