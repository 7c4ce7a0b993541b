/- Kcptun/Rs/CodecInRange
   source: crates/kcp/src/rs/codec.rs, rs/galois.rs, rs/simd/mod.rs (code_block, code_block_scalar)
   digest: The construction of a codec and the reconstruction with every index and slice checked,
     and that none is out of range, whatever shards are given. -/

import Kcptun.Lib.Splice
import Kcptun.Rs.MatrixInRange

set_option autoImplicit false
set_option relaxedAutoImplicit false

namespace Kcptun.Rs

open Kcptun.Lib Kcptun.Lib.LittleEndian

def buildMatrixChecked (dataShards totalShards : ℕ) : Checked Matrix := do
  let vm ← Matrix.vandermondeChecked totalShards dataShards
  let top ← vm.subMatrixChecked 0 0 dataShards dataShards
  let topInv ← top.invertChecked
  vm.multiplyChecked topInv

/-- `gal_mul_slice`; panics if `out` is shorter than `input`. -/
def galMulSliceChecked (coef : UInt8) (input out : Bytes) : Option Bytes :=
  (slice out 0 input.length).map fun _ => galMulSlice coef input ++ out.drop input.length

/-- `gal_mul_slice_xor`; panics if `out` is shorter than `input`. -/
def galMulSliceXorChecked (coef : UInt8) (input out : Bytes) : Option Bytes :=
  (slice out 0 input.length).map fun front =>
    galMulSliceXor coef input front ++ out.drop input.length

/-- One coefficient of one output: `matrix_rows[i_row][c]` and `output[start..end]`. -/
def codeSliceChecked (row : Bytes) (c : ℕ) (input : Bytes) (start stop : ℕ) (output : Bytes) :
    Option Bytes :=
  (row[c]?).bind fun coef => (slice output start stop).bind fun out =>
    (if c = 0 then galMulSliceChecked coef input out
      else galMulSliceXorChecked coef input out).bind (splice output start)

/-- One input, `input[start..end]`, for all outputs. -/
def codeInputChecked (matrixRows : List Bytes) (start stop : ℕ) (outputs : List Bytes)
    (p : Bytes × ℕ) : Option (List Bytes) :=
  (slice p.1 start stop).bind fun input => outputs.zipIdx.mapM fun q =>
    (matrixRows[q.2]?).bind fun row => codeSliceChecked row p.2 input start stop q.1

def codeBlockChecked (matrixRows inputs outputs : List Bytes) (start stop : ℕ) :
    Option (List Bytes) :=
  if start ≤ stop ∧ matrixRows.length = outputs.length ∧
      (∀ r ∈ matrixRows, inputs.length ≤ r.length) ∧ (∀ s ∈ inputs, stop ≤ s.length) ∧
      ∀ s ∈ outputs, stop ≤ s.length then
    inputs.zipIdx.foldlM (codeInputChecked matrixRows start stop) outputs
  else none

def codeRoundsChecked (matrixRows inputs : List Bytes) (len : ℕ) :
    ℕ → ℕ → ℕ → List Bytes → Option (List Bytes)
  | 0, _, _, outputs => some outputs
  | fuel + 1, start, stop, outputs =>
    if start < len then
      (codeBlockChecked matrixRows inputs outputs start stop).bind
        (codeRoundsChecked matrixRows inputs len fuel stop (min (stop + PER_ROUND) len))
    else some outputs

def codeSomeShardsChecked (matrixRows inputs outputs : List Bytes) : Option (List Bytes) :=
  match inputs with
  | [] => some outputs
  | first :: _ =>
    if outputs.isEmpty then some outputs
    else codeRoundsChecked matrixRows inputs first.length first.length 0
      (min PER_ROUND first.length) outputs

/-- The scan for valid rows; `invalid_indices` has 64 bits an element. -/
def splitRowsChecked (dataShards : ℕ) :
    ℕ → List Bytes → List ℕ → ShardMask → Option (List ℕ × ShardMask)
  | _, [], valid, invalid => some (valid, invalid)
  | row, s :: rest, valid, invalid =>
    if valid.length ≥ dataShards then some (valid, invalid)
    else if s.isEmpty then
      if row / 64 < MAX_TOTAL_SHARDS / 64 then
        splitRowsChecked dataShards (row + 1) rest valid (invalid ++ [row])
      else none
    else splitRowsChecked dataShards (row + 1) rest (valid ++ [row]) invalid

/-- `row_mut(r).copy_from_slice(m.row(valid))` for each valid row, then the inverse. -/
def Codec.invertRowsChecked (m : Matrix) (dataShards : ℕ) (validIndices : List ℕ) : Checked Matrix := do
  let subMatrix ← Matrix.fillChecked dataShards dataShards fun r c =>
    match validIndices[r]? with
    | none => some 0
    | some valid => (m.rowChecked valid).bind fun row =>
      if row.length = dataShards then row[c]? else none
  subMatrix.invertChecked

namespace Codec

def newChecked (dataShards parityShards : ℕ) : Checked Codec := do
  let totShards := dataShards + parityShards
  if totShards > MAX_TOTAL_SHARDS then throw .maxShardNum
  if dataShards = 0 then throw .invShardNum
  let m ← if parityShards = 0 then pure none else some <$> buildMatrixChecked dataShards totShards
  return { dataShards := dataShards, parityShards := parityShards, totalShards := totShards, m := m }

def getDecodeMatrixChecked (codec : Codec) (validIndices : List ℕ) (invalidIndices : ShardMask) :
    Option (Codec × Except Error Matrix) :=
  match codec.m with
  | none => some (codec, .error .tooFewShards)
  | some m =>
    let full := codec.tree.length ≥ INVERSION_CACHE_MAX && (codec.tree.lookup invalidIndices).isNone
    let tree := if full then [] else codec.tree
    match tree.lookup invalidIndices with
    | some inv => some ({ codec with tree := tree }, .ok inv)
    | none => (invertRowsChecked m codec.dataShards validIndices).run.map fun result =>
      match result with
      | .error e => ({ codec with tree := tree }, .error e)
      | .ok inv => ({ codec with tree := (invalidIndices, inv) :: tree }, .ok inv)

/-- The missing data shards; `is_output` has an element for each of 256 shards. -/
def restoreChecked (codec : Codec) (matrix : Matrix) (validIndices : List ℕ) (shardSize : ℕ)
    (shards : List Bytes) : Option (List Bytes) :=
  if shards.length ≤ MAX_TOTAL_SHARDS then
    let missing := (List.range codec.dataShards).filter fun i => (shards.getD i []).isEmpty
    let inputs := validIndices.map fun i => shards.getD i []
    let outputs := missing.map fun _ => List.replicate shardSize 0
    (missing.mapM matrix.rowChecked).bind fun rows =>
      (codeSomeShardsChecked rows inputs outputs).map fun coded =>
        (missing.zip coded).foldl (fun shards p => shards.set p.1 p.2) shards
  else none

/-- `reconstruct_data`; nothing when an index or a slice is out of range. -/
def reconstructDataChecked (codec : Codec) (shards : List Bytes) :
    Option (Codec × Except Error (List Bytes)) :=
  if shards.length ≠ codec.totalShards then some (codec, .error .tooFewShards) else
    match checkShards (shards.map List.length) true with
    | .error e => some (codec, .error e)
    | .ok shardSize =>
      let numberPresent := shards.countP fun s => !s.isEmpty
      let dataPresent := (shards.take codec.dataShards).countP fun s => !s.isEmpty
      if numberPresent = codec.totalShards ∨ dataPresent = codec.dataShards then
        some (codec, .ok shards)
      else if numberPresent < codec.dataShards then some (codec, .error .tooFewShards)
      else
        (splitRowsChecked codec.dataShards 0 shards [] []).bind fun rows =>
          (codec.getDecodeMatrixChecked rows.1 rows.2).bind fun found =>
            match found.2 with
            | .error e => some (found.1, .error e)
            | .ok matrix => (found.1.restoreChecked matrix rows.1 shardSize shards).map fun out =>
              (found.1, .ok out)

end Codec

section Coding

private theorem slice_eq {b : Bytes} {start stop : ℕ} (hle : start ≤ stop)
    (hstop : stop ≤ b.length) : slice b start stop = some ((b.drop start).take (stop - start)) := by
  rw [slice, if_pos ⟨hle, hstop⟩, List.drop_take]

private theorem codeSliceChecked_eq {row input output : Bytes} {c len start stop : ℕ}
    (hc : c < row.length) (hin : input.length = len) (hout : output.length = len)
    (hle : start ≤ stop) (hstop : stop ≤ len) :
    codeSliceChecked row c ((input.drop start).take (stop - start)) start stop output =
      some (codeSlice (row.getD c 0) c input start stop output) := by
  set slice' := (input.drop start).take (stop - start) with hslice
  set out := (output.drop start).take (stop - start) with hout'
  have hlen : slice'.length = stop - start := by
    rw [hslice, List.length_take, List.length_drop]
    omega
  have hlen' : out.length = stop - start := by
    rw [hout', List.length_take, List.length_drop]
    omega
  have hfront : slice out 0 slice'.length = some out := by
    rw [slice_eq (Nat.zero_le _) (by omega), List.drop_zero, Nat.sub_zero, hlen, ← hlen',
      List.take_length]
  have hdrop : out.drop slice'.length = [] := List.drop_eq_nil_of_le (by omega)
  have hcoded : ∀ coded : Bytes, coded.length = stop - start →
      splice output start coded = some (output.take start ++ coded ++ output.drop stop) := by
    intro coded hcoded
    rw [splice, if_pos (by omega), hcoded, Nat.add_sub_cancel' hle]
  unfold codeSliceChecked
  rw [List.getElem?_eq_getElem hc, Option.bind_some, slice_eq hle (by omega), Option.bind_some,
    ← hout', galMulSliceChecked, galMulSliceXorChecked, hfront, hdrop, Option.map_some,
    Option.map_some, codeSlice, List.getD_eq_getElem?_getD, List.getElem?_eq_getElem hc,
    Option.getD_some, ← hslice, ← hout', List.append_nil, List.append_nil]
  split_ifs with hzero
  · rw [Option.bind_some, hcoded _ (by rw [galMulSlice_eq, List.length_map, hlen])]
  · rw [Option.bind_some, hcoded _ (by
      rw [galMulSliceXor_eq, List.length_zipWith, hlen, hlen', Nat.min_self])]

private theorem codeInputChecked_eq {rows outputs : List Bytes} {input : Bytes}
    {c len start stop : ℕ} (hrows : rows.length = outputs.length) (hc : ∀ r ∈ rows, c < r.length)
    (hin : input.length = len) (hout : ∀ s ∈ outputs, s.length = len) (hle : start ≤ stop)
    (hstop : stop ≤ len) :
    codeInputChecked rows start stop outputs (input, c) =
      some (List.zipWith (fun row output => codeSlice (row.getD c 0) c input start stop output)
        rows outputs) := by
  have hloop : ∀ (rows' outputs : List Bytes) (k : ℕ), rows.drop k = rows' →
      rows'.length = outputs.length → (∀ s ∈ outputs, s.length = len) →
      ((outputs.zipIdx k).mapM fun q => (rows[q.2]?).bind fun row =>
        codeSliceChecked row c ((input.drop start).take (stop - start)) start stop q.1) =
      some (List.zipWith (fun row output => codeSlice (row.getD c 0) c input start stop output)
        rows' outputs) := by
    intro rows' outputs
    induction outputs generalizing rows' with
    | nil =>
      intro k _ hlen _
      obtain rfl := List.length_eq_zero_iff.mp hlen
      rfl
    | cons output outputs ih =>
      intro k hdrop hlen hout
      cases rows' with
      | nil => cases hlen
      | cons row rows' =>
        have hk : rows[k]? = some row := by
          rw [← List.head?_drop, hdrop]
          rfl
        have hmem : row ∈ rows := List.mem_of_getElem? hk
        have hdrop' : rows.drop (k + 1) = rows' := by
          rw [← List.drop_drop, hdrop]
          rfl
        rw [List.zipIdx_cons, List.mapM_cons]
        dsimp only
        rw [hk, Option.bind_some, codeSliceChecked_eq (hc row hmem) hin
          (hout output List.mem_cons_self) hle hstop, ih rows' (k + 1) hdrop'
          (Nat.succ.inj hlen) fun s hs => hout s (List.mem_cons_of_mem output hs)]
        rfl
  have hslice : slice (input, c).1 start stop = some ((input.drop start).take (stop - start)) :=
    slice_eq hle (hin.symm ▸ hstop)
  unfold codeInputChecked
  rw [hslice, Option.bind_some]
  exact hloop rows outputs 0 List.drop_zero hrows hout

/-- Outputs that stand beside the rows, all of one length. -/
private def Aligned (rows : List Bytes) (len : ℕ) (outputs : List Bytes) : Prop :=
  rows.length = outputs.length ∧ ∀ s ∈ outputs, s.length = len

private theorem aligned_codeSlice {rows outputs : List Bytes} {len : ℕ}
    (h : Aligned rows len outputs) {input : Bytes} (c : ℕ) {start stop : ℕ}
    (hin : input.length = len) (hle : start ≤ stop) (hstop : stop ≤ len) :
    Aligned rows len (List.zipWith
      (fun row output => codeSlice (row.getD c 0) c input start stop output) rows outputs) := by
  refine ⟨by rw [List.length_zipWith, ← h.1, Nat.min_self], ?_⟩
  intro s hs
  obtain ⟨i, hi, rfl⟩ := List.mem_iff_getElem.mp hs
  rw [List.getElem_zipWith]
  exact length_codeSlice _ c hin (h.2 _ (List.getElem_mem _)) hle hstop

private theorem foldlM_codeInput {rows outputs : List Bytes} {len start stop : ℕ}
    (h : Aligned rows len outputs) (hle : start ≤ stop) (hstop : stop ≤ len)
    (inputs : List (Bytes × ℕ))
    (hin : ∀ p ∈ inputs, p.1.length = len ∧ ∀ r ∈ rows, p.2 < r.length) :
    inputs.foldlM (codeInputChecked rows start stop) outputs =
      some (inputs.foldl (fun outputs p => List.zipWith
        (fun row output => codeSlice (row.getD p.2 0) p.2 p.1 start stop output) rows outputs)
        outputs) ∧
      Aligned rows len (inputs.foldl (fun outputs p => List.zipWith
        (fun row output => codeSlice (row.getD p.2 0) p.2 p.1 start stop output) rows outputs)
        outputs) := by
  induction inputs generalizing outputs with
  | nil => exact ⟨rfl, h⟩
  | cons p inputs ih =>
    obtain ⟨hlen, hc⟩ := hin p List.mem_cons_self
    rw [List.foldlM_cons, codeInputChecked_eq h.1 hc hlen h.2 hle hstop]
    exact ih (aligned_codeSlice h p.2 hlen hle hstop) fun q hq => hin q (List.mem_cons_of_mem p hq)

private theorem codeBlockChecked_eq {rows inputs outputs : List Bytes} {len start stop : ℕ}
    (h : Aligned rows len outputs) (hrows : ∀ r ∈ rows, inputs.length ≤ r.length)
    (hin : ∀ s ∈ inputs, s.length = len) (hle : start ≤ stop) (hstop : stop ≤ len) :
    codeBlockChecked rows inputs outputs start stop =
      some (codeBlock rows inputs outputs start stop) ∧
      Aligned rows len (codeBlock rows inputs outputs start stop) := by
  have hassert : start ≤ stop ∧ rows.length = outputs.length ∧
      (∀ r ∈ rows, inputs.length ≤ r.length) ∧ (∀ s ∈ inputs, stop ≤ s.length) ∧
      ∀ s ∈ outputs, stop ≤ s.length :=
    ⟨hle, h.1, hrows, fun s hs => by rw [hin s hs]; exact hstop,
      fun s hs => by rw [h.2 s hs]; exact hstop⟩
  rw [codeBlockChecked, if_pos hassert]
  apply foldlM_codeInput h hle hstop inputs.zipIdx
  intro p hp
  have hmem := List.mem_zipIdx hp
  refine ⟨?_, fun r hr => lt_of_lt_of_le ?_ (hrows r hr)⟩
  · rw [hmem.2.2]
    exact hin _ (List.getElem_mem _)
  · omega

private theorem codeRoundsChecked_eq {rows inputs : List Bytes} {len : ℕ}
    (hrows : ∀ r ∈ rows, inputs.length ≤ r.length) (hin : ∀ s ∈ inputs, s.length = len)
    (fuel : ℕ) {start stop : ℕ} {outputs : List Bytes} (h : Aligned rows len outputs)
    (hle : start ≤ stop) (hstop : stop ≤ len) :
    codeRoundsChecked rows inputs len fuel start stop outputs =
      some (codeRounds rows inputs len fuel start stop outputs) := by
  induction fuel generalizing start stop outputs with
  | zero => rfl
  | succ fuel ih =>
    unfold codeRoundsChecked codeRounds
    split_ifs
    · obtain ⟨hblock, haligned⟩ := codeBlockChecked_eq h hrows hin hle hstop
      rw [hblock, Option.bind_some]
      exact ih haligned (by omega) (Nat.min_le_right _ _)
    · rfl

private theorem codeSomeShardsChecked_eq {rows inputs outputs : List Bytes} {len : ℕ}
    (hrows : ∀ r ∈ rows, inputs.length ≤ r.length) (hin : ∀ s ∈ inputs, s.length = len)
    (hlen : rows.length = outputs.length) (hout : ∀ s ∈ outputs, s.length = len) :
    codeSomeShardsChecked rows inputs outputs = some (codeSomeShards rows inputs outputs) := by
  cases inputs with
  | nil => rfl
  | cons first rest =>
    have hfirst := hin first List.mem_cons_self
    unfold codeSomeShardsChecked codeSomeShards
    dsimp only
    split_ifs
    · rfl
    · rw [hfirst]
      exact codeRoundsChecked_eq hrows hin len ⟨hlen, hout⟩ (Nat.zero_le _) (Nat.min_le_right _ _)

end Coding

section Construction

private theorem buildMatrixChecked_eq {ds total' : ℕ} (hle : ds ≤ total') :
    buildMatrixChecked ds total' = total (buildMatrix ds total') := by
  unfold buildMatrixChecked buildMatrix
  rw [Matrix.vandermondeChecked_eq]
  apply total_bind
  intro vm hvm
  have hshape := Matrix.fill_shape hvm
  rw [Matrix.subMatrixChecked_eq (by rw [hshape.rows]; exact hle) (by rw [hshape.cols])]
  apply total_bind
  intro top _
  rw [Matrix.invertChecked_eq]
  exact total_bind fun topInv _ => Matrix.multiplyChecked_eq vm topInv

theorem Codec.newChecked_eq (ds ps : ℕ) : Codec.newChecked ds ps = total (Codec.new ds ps) := by
  unfold newChecked new
  dsimp only
  rw [buildMatrixChecked_eq (Nat.le_add_right ds ps)]
  cases buildMatrix ds (ds + ps) <;> split_ifs <;> rfl

private theorem splitRowsChecked_eq (ds row : ℕ) (shards : List Bytes) (valid : List ℕ)
    (invalid : ShardMask) (hfit : row + shards.length ≤ MAX_TOTAL_SHARDS) :
    splitRowsChecked ds row shards valid invalid = some (splitRows ds row shards valid invalid) := by
  unfold MAX_TOTAL_SHARDS at hfit
  induction shards generalizing row valid invalid with
  | nil => rfl
  | cons s rest ih =>
    rw [List.length_cons] at hfit
    have hword : row / 64 < MAX_TOTAL_SHARDS / 64 := by
      unfold MAX_TOTAL_SHARDS
      omega
    unfold splitRowsChecked splitRows
    rw [if_pos hword]
    split_ifs
    · rfl
    · exact ih (row + 1) valid (invalid ++ [row]) (by omega)
    · exact ih (row + 1) (valid ++ [row]) invalid (by omega)

private theorem Codec.invertRowsChecked_eq {m : Matrix} {ds : ℕ} {valid : List ℕ}
    (hcols : m.cols = ds) (hvalid : ∀ i ∈ valid, i < m.rows) :
    invertRowsChecked m ds valid = total (invertRows m ds valid) := by
  unfold invertRowsChecked invertRows
  rw [Matrix.fillChecked_eq (f := fun r c => ((valid[r]?).map fun v => m.get v c).getD 0)]
  · exact total_bind fun sub _ => Matrix.invertChecked_eq sub
  · intro r _ j hj
    cases hr : valid[r]? with
    | none => rfl
    | some v =>
      have hv := hvalid v (List.mem_of_getElem? hr)
      have hlen : (m.row v).length = ds := (Matrix.length_row m hv).trans hcols
      dsimp only
      rw [Matrix.rowChecked_eq hv, Option.bind_some, if_pos hlen,
        List.getElem?_eq_getElem (by omega), Option.map_some, Option.getD_some, Matrix.get,
        List.getD_eq_getElem?_getD, List.getElem?_eq_getElem (by omega), Option.getD_some]

end Construction

namespace Codec

variable {codec : Codec} {ds ps : ℕ} {m : Matrix}

private theorem getDecodeMatrixChecked_eq (h : codec.Ok ds ps m) {valid : List ℕ} (mask : ShardMask)
    (hvalid : ∀ i ∈ valid, i < ds + ps) :
    codec.getDecodeMatrixChecked valid mask = some (codec.getDecodeMatrix valid mask) := by
  unfold getDecodeMatrixChecked getDecodeMatrix
  rw [h.matrix]
  dsimp only
  set tree := if codec.tree.length ≥ INVERSION_CACHE_MAX && (codec.tree.lookup mask).isNone then []
    else codec.tree
  cases tree.lookup mask with
  | some inv => rfl
  | none =>
    dsimp only
    rw [invertRowsChecked_eq (h.generator.shape.cols.trans h.data.symm)
      fun i hi => by rw [h.generator.shape.rows]; exact hvalid i hi]
    cases invertRows m codec.dataShards valid <;> rfl

private theorem restoreChecked_eq (h : codec.Ok ds ps m) {matrix : Matrix}
    (hmatrix : matrix.Shape ds ds)
    {valid : List ℕ} (hvalid : valid.length = ds) {shards : List Bytes} {size : ℕ}
    (hlen : shards.length ≤ MAX_TOTAL_SHARDS)
    (hsize : ∀ i ∈ valid, (shards.getD i []).length = size) :
    codec.restoreChecked matrix valid size shards =
      some (codec.restore matrix valid size shards) := by
  set missing := (List.range codec.dataShards).filter fun i => (shards.getD i []).isEmpty with hmiss
  have hrow : ∀ i ∈ missing, i < matrix.rows := by
    intro i hi
    rw [hmatrix.rows, ← h.data]
    exact List.mem_range.mp (List.mem_of_mem_filter hi)
  have hrows : missing.mapM matrix.rowChecked = some (missing.map matrix.row) :=
    mapM_of_some fun i hi => Matrix.rowChecked_eq (hrow i hi)
  unfold restoreChecked restore
  dsimp only
  rw [if_pos hlen, ← hmiss, hrows, Option.bind_some, @codeSomeShardsChecked_eq _ _ _ size]
  · rfl
  · intro r hr
    obtain ⟨i, hi, rfl⟩ := List.mem_map.mp hr
    rw [List.length_map, hvalid, Matrix.length_row matrix (hrow i hi), hmatrix.cols]
  · intro s hs
    obtain ⟨i, hi, rfl⟩ := List.mem_map.mp hs
    exact hsize i hi
  · rw [List.length_map, List.length_map]
  · intro s hs
    obtain ⟨i, -, rfl⟩ := List.mem_map.mp hs
    exact List.length_replicate

private theorem checkShards_sound {shards : List Bytes} {size : ℕ}
    (h : checkShards (shards.map List.length) true = .ok size) :
    (∀ s ∈ shards, s ≠ [] → s.length = size) ∧ ∃ s ∈ shards, s ≠ [] ∧ s.length = size := by
  unfold checkShards at h
  split at h
  · cases h
  · next found hfind =>
    split_ifs at h with hany
    cases h
    constructor
    · intro s hs hne
      by_contra hother
      refine hany (List.any_eq_true.mpr ⟨_, List.mem_map_of_mem hs, ?_⟩)
      have hpos : s.length ≠ 0 := fun hz => hne (List.length_eq_zero_iff.mp hz)
      simp [hother, hpos]
    · obtain ⟨s, hs, hlen⟩ := List.mem_map.mp (List.mem_of_find?_eq_some hfind)
      have hpos := List.find?_some hfind
      refine ⟨s, hs, ?_, hlen⟩
      intro hnil
      rw [← hlen, hnil] at hpos
      cases hpos

private theorem restore_length (h : codec.Ok ds ps m) (matrix : Matrix) {valid : List ℕ}
    (hvalid : valid.length = ds) {shards : List Bytes} {size i : ℕ}
    (hsize : ∀ k ∈ valid, (shards.getD k []).length = size) (hlen : ds ≤ shards.length) (hi : i < ds)
    (hmissing : shards.getD i [] = []) :
    ((codec.restore matrix valid size shards).getD i []).length = size := by
  set missing := (List.range ds).filter fun k => (shards.getD k []).isEmpty with hmiss
  have hmem : i ∈ missing := by
    rw [hmiss, List.mem_filter, List.mem_range, hmissing]
    exact ⟨hi, rfl⟩
  have hne : (valid.map fun k => shards.getD k []) ≠ [] := by
    have hpos := h.pos
    intro hnil
    rw [List.map_eq_nil_iff] at hnil
    rw [hnil, List.length_nil] at hvalid
    omega
  unfold restore
  dsimp only
  rw [h.data, ← hmiss, @codeSomeShards_eq _ _ _ size hne, List.map_map]
  · obtain ⟨-, hget⟩ := getD_foldl_set missing
      (fun k => codeRow (matrix.row k) (valid.map fun k => shards.getD k []) size) shards
      fun k hk => lt_of_lt_of_le (List.mem_range.mp (List.mem_of_mem_filter hk)) hlen
    refine (congrArg List.length (hget i)).trans ?_
    rw [if_pos hmem, length_codeRow]
  · intro s hs
    obtain ⟨k, hk, rfl⟩ := List.mem_map.mp hs
    exact hsize k hk
  · rw [List.length_map, List.length_map]
  · intro s hs
    obtain ⟨k, -, rfl⟩ := List.mem_map.mp hs
    exact List.length_replicate

theorem reconstructDataChecked_eq (h : codec.Ok ds ps m) (hsum : ds + ps ≤ MAX_TOTAL_SHARDS)
    (shards : List Bytes) :
    codec.reconstructDataChecked shards = some (codec.reconstructData shards) := by
  unfold reconstructDataChecked reconstructData
  split_ifs with hlen
  · rfl
  cases hcheck : checkShards (shards.map List.length) true with
  | error e => rfl
  | ok size =>
    dsimp only
    split_ifs with hall hfew
    · rfl
    · rfl
    · rw [not_not] at hlen
      have hfit : shards.length ≤ MAX_TOTAL_SHARDS := by
        rw [hlen, h.total]
        exact hsum
      have hsize := (checkShards_sound hcheck).1
      obtain ⟨hvalid, hpresent, codec', inv, hget, hok, hdec⟩ := rows_spec h hlen (not_lt.mp hfew)
      rw [splitRowsChecked_eq codec.dataShards 0 shards [] [] (by rwa [Nat.zero_add]),
        Option.bind_some, getDecodeMatrixChecked_eq h _ fun i hi => (hpresent i hi).1,
        Option.bind_some, hget]
      dsimp only
      rw [restoreChecked_eq hok hdec.shape hvalid hfit fun i hi => hsize _ ?_ (hpresent i hi).2]
      · rfl
      · have hlt : i < shards.length := by
          rw [hlen, h.total]
          exact (hpresent i hi).1
        rw [List.getD_eq_getElem?_getD, List.getElem?_eq_getElem hlt, Option.getD_some]
        exact List.getElem_mem hlt

theorem reconstructData_length (h : codec.Ok ds ps m) {shards out : List Bytes} {size i : ℕ}
    (hout : (codec.reconstructData shards).2 = .ok out)
    (hsize : ∀ s ∈ shards, s ≠ [] → s.length = size) (hi : i < ds)
    (hmissing : shards.getD i [] = []) :
    (out.getD i []).length = size := by
  unfold reconstructData at hout
  split_ifs at hout with hlen
  rw [not_not] at hlen
  have hmem : ∀ k < ds + ps, shards.getD k [] ∈ shards := by
    intro k hk
    have hlt : k < shards.length := by rwa [hlen, h.total]
    rw [List.getD_eq_getElem?_getD, List.getElem?_eq_getElem hlt, Option.getD_some]
    exact List.getElem_mem hlt
  cases hcheck : checkShards (shards.map List.length) true with
  | error e =>
    rw [hcheck] at hout
    cases hout
  | ok size' =>
    rw [hcheck] at hout
    dsimp only at hout
    obtain ⟨s, hs, hne, hlens⟩ := (checkShards_sound hcheck).2
    have heq : size' = size := by rw [← hlens, hsize s hs hne]
    split_ifs at hout with hall hfew
    · -- the shard is missing, so neither count is full
      exfalso
      rcases hall with hall | hall
      · rw [← hlen] at hall
        have := List.countP_eq_length.mp hall _ (hmem i (by omega))
        rw [hmissing] at this
        cases this
      · have htake : (shards.take codec.dataShards).length = codec.dataShards := by
          rw [List.length_take, hlen, h.total, h.data]
          omega
        have hin : shards.getD i [] ∈ shards.take codec.dataShards := by
          have hlt : i < (shards.take codec.dataShards).length := by rwa [htake, h.data]
          have := List.getElem_mem hlt
          rw [List.getElem_take] at this
          rwa [List.getD_eq_getElem?_getD, List.getElem?_eq_getElem, Option.getD_some]
        have := List.countP_eq_length.mp (hall.trans htake.symm) _ hin
        rw [hmissing] at this
        cases this
    · obtain ⟨hvalid, hpresent, codec', inv, hget, hok, hdec⟩ := rows_spec h hlen (not_lt.mp hfew)
      rw [hget] at hout
      cases hout
      rw [heq]
      exact restore_length hok inv hvalid
        (fun k hk => hsize _ (hmem k (hpresent k hk).1) (hpresent k hk).2)
        (by rw [hlen, h.total]; exact Nat.le_add_right ds ps) hi hmissing

end Codec

end Kcptun.Rs
