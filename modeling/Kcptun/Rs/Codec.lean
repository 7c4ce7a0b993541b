/- Kcptun/Rs/Codec
   source: crates/kcp/src/rs/codec.rs, rs/simd/mod.rs (code_block, code_block_scalar)
   digest: The Reed-Solomon encoder and the reconstruction of missing data shards, with the cache
     of inverted matrices; what the coding loop computes. -/

import Kcptun.Rs.Matrix

set_option autoImplicit false
set_option relaxedAutoImplicit false

namespace Kcptun.Rs

open Kcptun.Lib Kcptun.Lib.LittleEndian

def MAX_TOTAL_SHARDS : ℕ := 256

/-- Bound of the inversion cache. When full, it is cleared before the next insert. -/
def INVERSION_CACHE_MAX : ℕ := 256

def PER_ROUND : ℕ := 32 * 1024

/-- The set bits of the cache key, in increasing order. -/
abbrev ShardMask := List ℕ

/-- A Reed-Solomon code. The multiply kernel is the scalar one. -/
structure Codec where
  dataShards : ℕ
  parityShards : ℕ
  totalShards : ℕ
  m : Option Matrix
  tree : List (ShardMask × Matrix) := []

def buildMatrix (dataShards totalShards : ℕ) : Except Error Matrix := do
  let vm ← Matrix.vandermonde totalShards dataShards
  let top ← vm.subMatrix 0 0 dataShards dataShards
  let topInv ← top.invert
  vm.multiply topInv

def checkShards (lens : List ℕ) (nilok : Bool) : Except Error ℕ :=
  match lens.find? (· ≠ 0) with
  | none => .error .shardNoData
  | some size =>
    if lens.any fun n => n ≠ size && (n ≠ 0 || !nilok) then .error .shardSize else .ok size

/-- One coefficient of one output of the scalar kernel, on bytes `start..stop`. -/
def codeSlice (coef : UInt8) (c : ℕ) (input : Bytes) (start stop : ℕ) (output : Bytes) : Bytes :=
  let slice := (input.drop start).take (stop - start)
  let out := (output.drop start).take (stop - start)
  let coded := if c = 0 then galMulSlice coef slice else galMulSliceXor coef slice out
  output.take start ++ coded ++ output.drop stop

/-- `code_block_scalar`: each input times each coefficient, accumulated into the outputs. -/
def codeBlock (matrixRows inputs outputs : List Bytes) (start stop : ℕ) : List Bytes :=
  inputs.zipIdx.foldl (fun outputs (input, c) =>
    List.zipWith (fun row output => codeSlice (row.getD c 0) c input start stop output)
      matrixRows outputs) outputs

/-- The rounds of `code_some_shards`; each one moves `start` on. -/
def codeRounds (matrixRows inputs : List Bytes) (len : ℕ) :
    ℕ → ℕ → ℕ → List Bytes → List Bytes
  | 0, _, _, outputs => outputs
  | fuel + 1, start, stop, outputs =>
    if start < len then
      codeRounds matrixRows inputs len fuel stop (min (stop + PER_ROUND) len)
        (codeBlock matrixRows inputs outputs start stop)
    else outputs

def codeSomeShards (matrixRows inputs outputs : List Bytes) : List Bytes :=
  match inputs with
  | [] => outputs
  | first :: _ =>
    if outputs.isEmpty then outputs
    else codeRounds matrixRows inputs first.length first.length 0 (min PER_ROUND first.length) outputs

/-- The indices of the valid rows, and the invalid ones up until there are enough valid rows. -/
def splitRows (dataShards : ℕ) : ℕ → List Bytes → List ℕ → ShardMask → List ℕ × ShardMask
  | _, [], valid, invalid => (valid, invalid)
  | row, s :: rest, valid, invalid =>
    if valid.length ≥ dataShards then (valid, invalid)
    else if s.isEmpty then splitRows dataShards (row + 1) rest valid (invalid ++ [row])
    else splitRows dataShards (row + 1) rest (valid ++ [row]) invalid

namespace Codec

def new (dataShards parityShards : ℕ) : Except Error Codec := do
  let totShards := dataShards + parityShards
  if totShards > MAX_TOTAL_SHARDS then throw .maxShardNum
  if dataShards = 0 then throw .invShardNum
  let m ← if parityShards = 0 then pure none else some <$> buildMatrix dataShards totShards
  return { dataShards := dataShards, parityShards := parityShards, totalShards := totShards, m := m }

def encode (codec : Codec) (shards : List Bytes) : Except Error (List Bytes) := do
  if shards.length ≠ codec.totalShards then throw .tooFewShards
  let _ ← checkShards (shards.map List.length) false
  match codec.m with
  | none => return shards
  | some m =>
    let data := shards.take codec.dataShards
    let parity := shards.drop codec.dataShards
    let rows := (List.range' codec.dataShards (codec.totalShards - codec.dataShards)).map m.row
    return data ++ codeSomeShards rows data parity

def invertRows (m : Matrix) (dataShards : ℕ) (validIndices : List ℕ) : Except Error Matrix := do
  let subMatrix ← Matrix.fill dataShards dataShards fun r c =>
    ((validIndices[r]?).map fun valid => m.get valid c).getD 0
  subMatrix.invert

/-- The inverse of the sub-matrix of the valid rows, from the cache or computed and cached. -/
def getDecodeMatrix (codec : Codec) (validIndices : List ℕ) (invalidIndices : ShardMask) :
    Codec × Except Error Matrix :=
  match codec.m with
  | none => (codec, .error .tooFewShards)
  | some m =>
    let full := codec.tree.length ≥ INVERSION_CACHE_MAX && (codec.tree.lookup invalidIndices).isNone
    let tree := if full then [] else codec.tree
    match tree.lookup invalidIndices with
    | some inv => ({ codec with tree := tree }, .ok inv)
    | none =>
      match invertRows m codec.dataShards validIndices with
      | .error e => ({ codec with tree := tree }, .error e)
      | .ok inv => ({ codec with tree := (invalidIndices, inv) :: tree }, .ok inv)

/-- The missing data shards from the decode matrix and the valid shards, put in their places. -/
def restore (codec : Codec) (matrix : Matrix) (validIndices : List ℕ) (shardSize : ℕ)
    (shards : List Bytes) : List Bytes :=
  let missing := (List.range codec.dataShards).filter fun i => (shards.getD i []).isEmpty
  let inputs := validIndices.map fun i => shards.getD i []
  let outputs := missing.map fun _ => List.replicate shardSize 0
  let coded := codeSomeShards (missing.map matrix.row) inputs outputs
  (missing.zip coded).foldl (fun shards (i, out) => shards.set i out) shards

/-- Recreates the missing data shards, if possible. A shard is missing when it is empty; missing
parity shards stay missing. -/
def reconstructData (codec : Codec) (shards : List Bytes) : Codec × Except Error (List Bytes) :=
  if shards.length ≠ codec.totalShards then (codec, .error .tooFewShards) else
    match checkShards (shards.map List.length) true with
    | .error e => (codec, .error e)
    | .ok shardSize =>
      let numberPresent := shards.countP fun s => !s.isEmpty
      let dataPresent := (shards.take codec.dataShards).countP fun s => !s.isEmpty
      if numberPresent = codec.totalShards ∨ dataPresent = codec.dataShards then (codec, .ok shards)
      else if numberPresent < codec.dataShards then (codec, .error .tooFewShards)
      else
        let (validIndices, invalidIndices) := splitRows codec.dataShards 0 shards [] []
        match codec.getDecodeMatrix validIndices invalidIndices with
        | (codec, .error e) => (codec, .error e)
        | (codec, .ok matrix) => (codec, .ok (codec.restore matrix validIndices shardSize shards))

end Codec

section Coding

def dot (row : Bytes) (inputs : List Bytes) (x : ℕ) : UInt8 :=
  inputs.zipIdx.foldl (fun v (input, c) => v ^^^ galMultiply (row.getD c 0) (input.getD x 0)) 0

def codeRow (row : Bytes) (inputs : List Bytes) (len : ℕ) : Bytes :=
  (List.range len).map (dot row inputs)

@[simp] theorem length_codeRow (row : Bytes) (inputs : List Bytes) (len : ℕ) :
    (codeRow row inputs len).length = len := by
  simp [codeRow]

theorem getD_codeRow {row : Bytes} {inputs : List Bytes} {len x : ℕ} (hx : x < len) :
    (codeRow row inputs len).getD x 0 = dot row inputs x := by
  simp [codeRow, List.getD_eq_getElem?_getD, hx]

theorem galMulSlice_eq (c : UInt8) (input : Bytes) :
    galMulSlice c input = input.map (galMultiply c) := by
  unfold galMulSlice
  split_ifs with hc
  · have hid : galMultiply 1 = id := funext one_galMultiply
    rw [hc, hid, List.map_id]
  · rfl

theorem galMulSliceXor_eq (c : UInt8) (input out : Bytes) :
    galMulSliceXor c input out = List.zipWith (fun o i => o ^^^ galMultiply c i) out input := by
  unfold galMulSliceXor sliceXor
  split_ifs with hc
  · simp [hc]
  · rfl

theorem length_codeSlice (coef : UInt8) (c : ℕ) {len start stop : ℕ} {input output : Bytes}
    (hin : input.length = len) (hout : output.length = len) (hle : start ≤ stop)
    (hstop : stop ≤ len) : (codeSlice coef c input start stop output).length = len := by
  simp only [codeSlice, galMulSlice_eq, galMulSliceXor_eq]
  split_ifs <;> simp [hin, hout] <;> omega

private theorem getD_codeSlice {coef : UInt8} {c len start stop : ℕ} {input output : Bytes}
    (hin : input.length = len) (hout : output.length = len) (hle : start ≤ stop)
    (hstop : stop ≤ len) (x : ℕ) :
    (codeSlice coef c input start stop output).getD x 0 =
      if start ≤ x ∧ x < stop then
        (if c = 0 then 0 else output.getD x 0) ^^^ galMultiply coef (input.getD x 0)
      else output.getD x 0 := by
  have hcoded : ∀ coded : Bytes, coded.length = stop - start →
      (output.take start ++ coded ++ output.drop stop).getD x 0 =
        if start ≤ x ∧ x < stop then coded.getD (x - start) 0 else output.getD x 0 := by
    intro coded hlen
    simp only [List.getD_eq_getElem?_getD, List.getElem?_append, List.length_append,
      List.length_take, hlen, List.getElem?_take, List.getElem?_drop]
    have hmin : min start output.length = start := by omega
    rw [hmin]
    split_ifs <;> first | rfl | omega | skip
    · rw [show stop + (x - (start + (stop - start))) = x by omega]
  have hslice : ∀ y < stop - start,
      ((input.drop start).take (stop - start))[y]? = input[start + y]? := by
    intro y hy
    rw [List.getElem?_take, if_pos hy, List.getElem?_drop]
  have hin' : ((input.drop start).take (stop - start)).length = stop - start := by
    simp [hin]
    omega
  have hout' : ((output.drop start).take (stop - start)).length = stop - start := by
    simp [hout]
    omega
  simp only [codeSlice, galMulSlice_eq, galMulSliceXor_eq]
  rw [hcoded _ (by split_ifs <;> simp [hin, hout] <;> omega)]
  by_cases hx : start ≤ x ∧ x < stop
  · rw [if_pos hx, if_pos hx]
    have hlt : x < input.length := by omega
    have hlt' : x < output.length := by omega
    have hy : x - start < stop - start := by omega
    have hadd : start + (x - start) = x := by omega
    split_ifs with hc
    · simp only [List.getD_eq_getElem?_getD, List.getElem?_map, hslice _ hy, hadd,
        List.getElem?_eq_getElem hlt]
      simp
    · simp only [List.getD_eq_getElem?_getD, List.getElem?_zipWith, hslice _ hy, hadd,
        List.getElem?_eq_getElem hlt, List.getElem?_take, if_pos hy, List.getElem?_drop,
        List.getElem?_eq_getElem hlt']
      simp
  · rw [if_neg hx, if_neg hx]

def codeOutput (row : Bytes) (inputs : List (Bytes × ℕ)) (start stop : ℕ) (output : Bytes) :
    Bytes :=
  inputs.foldl (fun output (input, c) => codeSlice (row.getD c 0) c input start stop output) output

theorem codeBlock_eq (rows outputs : List Bytes) (hlen : rows.length = outputs.length)
    (inputs : List (Bytes × ℕ)) (start stop : ℕ) :
    inputs.foldl (fun outputs (input, c) =>
      List.zipWith (fun row output => codeSlice (row.getD c 0) c input start stop output)
        rows outputs) outputs =
      List.zipWith (fun row output => codeOutput row inputs start stop output) rows outputs := by
  induction inputs generalizing outputs with
  | nil =>
    have hright : List.zipWith (fun (_ : Bytes) (output : Bytes) => output) rows outputs = outputs := by
      rw [← List.map_uncurry_zip_eq_zipWith]
      exact List.map_snd_zip hlen.ge
    exact hright.symm
  | cons i inputs ih =>
    rw [List.foldl_cons, ih _ (by simp [hlen])]
    refine List.ext_getElem (by simp) ?_
    intro j h1 h2
    simp [codeOutput]

private theorem codeOutput_spec (row : Bytes) {output : Bytes} {len start stop : ℕ}
    (hle : start ≤ stop) (hstop : stop ≤ len) (inputs : List (Bytes × ℕ))
    (hin : ∀ i ∈ inputs, i.1.length = len ∧ i.2 ≠ 0) (hout : output.length = len) :
    (codeOutput row inputs start stop output).length = len ∧
    ∀ x, (codeOutput row inputs start stop output).getD x 0 =
      if start ≤ x ∧ x < stop then inputs.foldl (fun v (input, c) =>
        v ^^^ galMultiply (row.getD c 0) (input.getD x 0)) (output.getD x 0)
      else output.getD x 0 := by
  induction inputs generalizing output with
  | nil => exact ⟨hout, fun x => by simp [codeOutput]⟩
  | cons i inputs ih =>
    obtain ⟨hi, hc⟩ := hin i List.mem_cons_self
    obtain ⟨hlen, hget⟩ := ih (fun j hj => hin j (List.mem_cons_of_mem i hj))
      (length_codeSlice (row.getD i.2 0) i.2 hi hout hle hstop)
    refine ⟨hlen, ?_⟩
    intro x
    rw [codeOutput, List.foldl_cons, ← codeOutput, hget x]
    rw [getD_codeSlice hi hout hle hstop x, if_neg hc]
    split_ifs <;> rfl

private def CodedTo (inputs : List Bytes) (len start : ℕ) (row output : Bytes) : Prop :=
  output.length = len ∧ ∀ x < start, output.getD x 0 = dot row inputs x

private theorem codedTo_codeBlock {rows inputs outputs : List Bytes} {len start stop : ℕ}
    (hne : inputs ≠ []) (hin : ∀ input ∈ inputs, input.length = len) (hle : start ≤ stop)
    (hstop : stop ≤ len) (h : List.Forall₂ (CodedTo inputs len start) rows outputs) :
    List.Forall₂ (CodedTo inputs len stop) rows (codeBlock rows inputs outputs start stop) := by
  rw [codeBlock, codeBlock_eq _ _ h.length_eq]
  obtain ⟨first, rest, rfl⟩ := List.exists_cons_of_ne_nil hne
  have hrest : ∀ i ∈ rest.zipIdx 1, i.1.length = len ∧ i.2 ≠ 0 := by
    intro i hi
    have hmem := List.mem_zipIdx hi
    refine ⟨hin _ (List.mem_cons_of_mem first ?_), by omega⟩
    rw [hmem.2.2]
    exact List.getElem_mem _
  have hone : ∀ row output, CodedTo (first :: rest) len start row output →
      CodedTo (first :: rest) len stop row
        (codeOutput row ((first :: rest).zipIdx) start stop output) := by
    intro row output ⟨hlen, hget⟩
    have hfirst := hin first List.mem_cons_self
    obtain ⟨hlen', hget'⟩ := codeOutput_spec row hle hstop (rest.zipIdx 1) hrest
      (length_codeSlice (row.getD 0 0) 0 hfirst hlen hle hstop)
    have hcode : codeOutput row ((first :: rest).zipIdx) start stop output =
        codeOutput row (rest.zipIdx 1) start stop
          (codeSlice (row.getD 0 0) 0 first start stop output) := by
      rw [codeOutput, List.zipIdx_cons, List.foldl_cons]
      rfl
    rw [hcode]
    refine ⟨hlen', ?_⟩
    intro x hx
    rw [hget' x, getD_codeSlice hfirst hlen hle hstop x, if_pos rfl]
    by_cases hstart : start ≤ x
    · rw [if_pos ⟨hstart, hx⟩, if_pos ⟨hstart, hx⟩, dot, List.zipIdx_cons, List.foldl_cons]
    · rw [if_neg (by omega), if_neg (by omega), hget x (by omega)]
  clear hne hin
  induction h with
  | nil => exact .nil
  | cons hhead _ ih => exact .cons (hone _ _ hhead) ih

private theorem codedTo_codeRounds {rows inputs : List Bytes} {len : ℕ} (hne : inputs ≠ [])
    (hin : ∀ input ∈ inputs, input.length = len) (fuel start stop : ℕ)
    (outputs : List Bytes) (hfuel : len ≤ start + fuel) (hstart : start ≤ len)
    (hstop : stop ≤ len) (hlt : start < len → start < stop)
    (h : List.Forall₂ (CodedTo inputs len start) rows outputs) :
    List.Forall₂ (CodedTo inputs len len) rows
      (codeRounds rows inputs len fuel start stop outputs) := by
  induction fuel generalizing start stop outputs with
  | zero =>
    obtain rfl : start = len := by omega
    exact h
  | succ fuel ih =>
    rw [codeRounds]
    split_ifs with hmore
    · have hgt := hlt hmore
      refine ih _ _ _ (by omega) hstop (Nat.min_le_right _ _) ?_
        (codedTo_codeBlock hne hin hgt.le hstop h)
      intro hmore'
      unfold PER_ROUND
      omega
    · obtain rfl : start = len := by omega
      exact h

private theorem eq_map_of_forall₂ {α β : Type} {f : α → β} {xs : List α} {ys : List β}
    (h : List.Forall₂ (fun x y => y = f x) xs ys) : ys = xs.map f := by
  induction h with
  | nil => rfl
  | cons hhead _ ih => rw [hhead, ih, List.map_cons]

theorem codeSomeShards_eq {rows inputs outputs : List Bytes} {len : ℕ} (hne : inputs ≠ [])
    (hin : ∀ input ∈ inputs, input.length = len) (hlen : rows.length = outputs.length)
    (hout : ∀ output ∈ outputs, output.length = len) :
    codeSomeShards rows inputs outputs = rows.map fun row => codeRow row inputs len := by
  have hstart : List.Forall₂ (CodedTo inputs len 0) rows outputs :=
    List.forall₂_iff_get.mpr ⟨hlen, fun i h1 h2 => ⟨hout _ (List.getElem_mem h2), by omega⟩⟩
  have hdone : ∀ row output, CodedTo inputs len len row output → output = codeRow row inputs len := by
    intro row output ⟨hlen, hget⟩
    refine List.ext_getElem (by simp [codeRow, hlen]) ?_
    intro x h1 h2
    have := hget x (by omega)
    rw [List.getD_eq_getElem?_getD, List.getElem?_eq_getElem h1, Option.getD_some] at this
    simp [codeRow, this]
  obtain ⟨first, rest, rfl⟩ := List.exists_cons_of_ne_nil hne
  have hfirst := hin first List.mem_cons_self
  rw [codeSomeShards]
  split_ifs with hempty
  · rw [List.isEmpty_iff] at hempty
    rw [hempty, List.length_nil, List.length_eq_zero_iff] at hlen
    rw [hempty, hlen, List.map_nil]
  · have hrounds := codedTo_codeRounds hne hin len 0 (min PER_ROUND len) outputs
      (by omega) (by omega) (Nat.min_le_right _ _) (fun h => by unfold PER_ROUND; omega) hstart
    rw [hfirst]
    exact eq_map_of_forall₂ (hrounds.imp hdone)

theorem mk_foldl_xor {α : Type} (l : List α) (f : α → UInt8) (v : UInt8) :
    (⟨l.foldl (fun v a => v ^^^ f a) v⟩ : Gal) = ⟨v⟩ + (l.map fun a => (⟨f a⟩ : Gal)).sum := by
  induction l generalizing v with
  | nil => simp
  | cons a l ih => rw [List.foldl_cons, ih, Gal.mk_xor, List.map_cons, List.sum_cons, add_assoc]

theorem mk_dot (row : Bytes) (inputs : List Bytes) (x : ℕ) :
    (⟨dot row inputs x⟩ : Gal) =
      ∑ c : Fin inputs.length, ⟨row.getD c 0⟩ * ⟨(inputs.getD c []).getD x 0⟩ := by
  have hsum : ∀ (inputs : List Bytes) (n : ℕ),
      ((inputs.zipIdx n).map fun i : Bytes × ℕ =>
        (⟨galMultiply (row.getD i.2 0) (i.1.getD x 0)⟩ : Gal)).sum =
      ∑ c : Fin inputs.length, ⟨row.getD (n + c) 0⟩ * ⟨(inputs.getD c []).getD x 0⟩ := by
    intro inputs
    induction inputs with
    | nil => simp
    | cons input inputs ih =>
      intro n
      rw [List.zipIdx_cons, List.map_cons, List.sum_cons, ih (n + 1)]
      simp only [List.length_cons, Fin.sum_univ_succ]
      congr 1
      apply Finset.sum_congr rfl
      intro c _
      rw [Fin.val_succ, List.getD_cons_succ, Nat.add_assoc, Nat.add_comm 1]
  have h := mk_foldl_xor inputs.zipIdx (fun i => galMultiply (row.getD i.2 0) (i.1.getD x 0)) 0
  rw [hsum inputs 0, Gal.mk_zero, zero_add] at h
  simp only [Nat.zero_add] at h
  exact h

end Coding

end Kcptun.Rs
