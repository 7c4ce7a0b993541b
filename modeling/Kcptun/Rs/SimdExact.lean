/- Kcptun/Rs/SimdExact
   source: crates/kcp/src/rs/simd/mod.rs, rs/simd/x86.rs
   digest: Every vector kernel computes the bytes of the scalar code in the range it is given, leaves
     the others alone, and makes no access outside a slice. -/

import Kcptun.Lib.RangeUpdate
import Kcptun.Rs.Simd

set_option autoImplicit false
set_option relaxedAutoImplicit false

namespace Kcptun.Rs.Simd

open Kcptun.Rs
open Kcptun.Lib (onRange length_onRange getElem?_onRange_of_not eq_onRange onRange_empty
  onRange_onRange onRange_comp onRange_congr replace_eq_onRange mapM_ok zip_mapM_ok)
open Kcptun.Lib.LittleEndian

section Nibbles

private theorem forall_byte {p : UInt8 → Prop} (h : ∀ i : Fin 256, p (UInt8.ofFin i)) (b : UInt8) :
    p b :=
  h b.toFin

private theorem shift_in (a b : UInt8) : (a >>> 4 ||| b <<< 4) &&& (0x0f : UInt8) = a >>> 4 := by
  have ha : ∀ a : UInt8, a >>> 4 &&& (0x0f : UInt8) = a >>> 4 := forall_byte (by decide +kernel)
  have hb : ∀ b : UInt8, b <<< 4 &&& (0x0f : UInt8) = 0 := forall_byte (by decide +kernel)
  have hdistrib : (a >>> 4 ||| b <<< 4) &&& (0x0f : UInt8) =
      a >>> 4 &&& (0x0f : UInt8) ||| b <<< 4 &&& (0x0f : UInt8) := by
    apply UInt8.toBitVec_inj.mp
    ext i hi
    simp [Bool.and_or_distrib_right]
  rw [hdistrib, ha, hb, UInt8.or_zero]

variable {l : ℕ} {tables : UInt8 → Reg l × Reg l}

theorem nibbles_fst (x : Reg l) (j : Fin (16 * l)) : (nibbles x).1 j = x j &&& 0x0f := rfl

private theorem nibbles_snd (x : Reg l) (j : Fin (16 * l)) : (nibbles x).2 j = x j >>> 4 := by
  show srli4 x j &&& (0x0f : UInt8) = x j >>> 4
  unfold srli4
  split_ifs with h
  · have ha : ∀ a : UInt8, a >>> 4 &&& (0x0f : UInt8) = a >>> 4 := forall_byte (by decide +kernel)
    exact ha (x j)
  · exact shift_in _ _

def TablesOk (tables : UInt8 → Reg l × Reg l) : Prop :=
  ∀ (c : UInt8) (j : Fin (16 * l)) (n : Fin 16),
    (tables c).1 ⟨16 * (j.val / 16) + n.val, by omega⟩ = mulTableLow c n ∧
    (tables c).2 ⟨16 * (j.val / 16) + n.val, by omega⟩ = mulTableHigh c n

private theorem tables128_ok : TablesOk tables128 := by
  intro c j n
  have hlane : 16 * (j.val / 16) + n.val = n.val := by omega
  simp only [hlane]
  exact ⟨rfl, rfl⟩

private theorem tables256_ok : TablesOk tables256 := by
  intro c j n
  have hlane : (16 * (j.val / 16) + n.val) % 16 = n.val := by omega
  simp only [tables256, broadcast, hlane]
  exact ⟨rfl, rfl⟩

private theorem product_nibbles (h : TablesOk tables) (c : UInt8) (x : Reg l) :
    product tables c (nibbles x) = fun j => galMultiply c (x j) := by
  funext j
  have hlow : ∀ b : UInt8, ¬(b &&& 0x0f) ≥ 0x80 := forall_byte (by decide +kernel)
  have hhigh : ∀ b : UInt8, ¬b >>> 4 ≥ 0x80 := forall_byte (by decide +kernel)
  have hjoin : ∀ b : UInt8, UInt8.ofNat ((b &&& 0x0f).toNat % 16) ^^^
      UInt8.ofNat ((b >>> 4).toNat % 16 * 16) = b := forall_byte (by decide +kernel)
  have hnibble : ∀ n : ℕ, n % 16 < 16 := fun n => Nat.mod_lt n (by decide)
  have hlookupLow : shuffle (tables c).1 (nibbles x).1 j =
      mulTableLow c ⟨(x j &&& 0x0f).toNat % 16, hnibble _⟩ := by
    unfold shuffle
    simp only [nibbles_fst]
    exact (if_neg (hlow _)).trans (h c j ⟨(x j &&& 0x0f).toNat % 16, hnibble _⟩).1
  have hlookupHigh : shuffle (tables c).2 (nibbles x).2 j =
      mulTableHigh c ⟨(x j >>> 4).toNat % 16, hnibble _⟩ := by
    unfold shuffle
    simp only [nibbles_snd]
    exact (if_neg (hhigh _)).trans (h c j ⟨(x j >>> 4).toNat % 16, hnibble _⟩).2
  show shuffle _ _ j ^^^ shuffle _ _ j = _
  rw [hlookupLow, hlookupHigh, mulTableLow, mulTableHigh, ← galMultiply_xor, hjoin]

end Nibbles

section Accumulators

variable {l : ℕ} {tables : UInt8 → Reg l × Reg l} {rows inputs : List Bytes}

/-- Accumulators of `v` vectors of every output, given byte by byte: `sum row k j` is byte `j` of
vector `k`. -/
def accOf (rows : List Bytes) (v : ℕ) (sum : Bytes → ℕ → Reg l) : List (List (Reg l)) :=
  rows.map fun row => (List.range v).map (sum row)

/-- The sum of the first inputs of a byte, continued over `inputs`. -/
def sumOn (row : Bytes) (inputs : List (Bytes × ℕ)) (val : Bytes → UInt8) (s : UInt8) : UInt8 :=
  inputs.foldl (fun s input => s ^^^ galMultiply (row.getD input.2 0) (val input.1)) s

private theorem sumOn_congr {row : Bytes} {inputs : List (Bytes × ℕ)} {val val' : Bytes → UInt8}
    (h : ∀ input ∈ inputs, val input.1 = val' input.1) (s : UInt8) :
    sumOn row inputs val s = sumOn row inputs val' s := by
  induction inputs generalizing s with
  | nil => rfl
  | cons input inputs ih =>
    rw [List.forall_mem_cons] at h
    rw [sumOn, List.foldl_cons, h.1]
    exact ih h.2 _

private theorem mulAdd_spec (h : TablesOk tables) {i v : ℕ} (hrows : ∀ row ∈ rows, i < row.length)
    (sum : Bytes → ℕ → Reg l) (val : ℕ → Reg l) :
    mulAdd tables rows i (((List.range v).map val).map nibbles) (accOf rows v sum) =
      .ok (accOf rows v fun row k j => sum row k j ^^^ galMultiply (row.getD i 0) (val k j)) := by
  have hzip : rows.zip (accOf rows v sum) =
      rows.map fun row => (row, (List.range v).map (sum row)) := by
    have hid := @List.zip_map' _ _ _ id (fun row => (List.range v).map (sum row)) rows
    rw [List.map_id] at hid
    exact hid
  rw [mulAdd, hzip, List.mapM_map]
  apply mapM_ok
  intro row hrow
  have hget : row[i]? = some (row.getD i 0) := by
    rw [List.getD_eq_getElem?_getD, List.getElem?_eq_getElem (hrows row hrow)]
    rfl
  rw [Function.comp_apply]
  dsimp only
  rw [hget]
  dsimp only
  rw [List.map_map, List.zipWith_map, List.zipWith_self]
  refine congrArg Except.ok (List.map_congr_left ?_)
  intro k _
  show xor (sum row k) (product tables (row.getD i 0) (nibbles (val k))) = _
  rw [product_nibbles h]
  rfl

private theorem accumulate_spec (h : TablesOk tables) {v : ℕ}
    {load : Bytes → Except Fault (List (Reg l))}
    (hrows : ∀ row ∈ rows, inputs.length ≤ row.length) (val : Bytes → ℕ → Reg l)
    (hload : ∀ input ∈ inputs, load input = .ok ((List.range v).map (val input))) :
    accumulate tables load v rows inputs = .ok (accOf rows v fun row k j =>
      sumOn row inputs.zipIdx (fun input => val input k j) 0) := by
  have hloop : ∀ (later : List (Bytes × ℕ)) (sum : Bytes → ℕ → Reg l),
      (∀ input ∈ later, load input.1 = .ok ((List.range v).map (val input.1)) ∧
        ∀ row ∈ rows, input.2 < row.length) →
      later.foldlM (fun acc input => do
        let xs ← load input.1
        mulAdd tables rows input.2 (xs.map nibbles) acc) (accOf rows v sum) =
      .ok (accOf rows v fun row k j => sumOn row later (fun input => val input k j)
        (sum row k j)) := by
    intro later
    induction later with
    | nil => exact fun sum _ => rfl
    | cons input later ih =>
      intro sum hlater
      rw [List.forall_mem_cons] at hlater
      rw [List.foldlM_cons, hlater.1.1]
      show (mulAdd tables rows input.2 _ _).bind _ = _
      rw [mulAdd_spec h hlater.1.2]
      exact ih _ hlater.2
  have hzero : (rows.map fun _ => List.replicate v (setzero : Reg l)) =
      accOf rows v fun _ _ _ => 0 := by
    apply List.map_congr_left
    intro row _
    rw [List.map_const', List.length_range]
    rfl
  rw [accumulate, hzero]
  refine hloop inputs.zipIdx _ ?_
  intro input hinput
  obtain ⟨-, hlt, hval⟩ := List.mem_zipIdx hinput
  have hmem : input.1 ∈ inputs := hval ▸ List.getElem_mem _
  exact ⟨hload _ hmem, fun row hrow => by have := hrows row hrow; omega⟩

end Accumulators

section Writes

variable {l : ℕ} {out : Bytes} {pos : ℕ}

/-- What a byte becomes: the sum, added to it or in its place. -/
def mix (isXor : Bool) (sum : ℕ → UInt8) (x : ℕ) (b : UInt8) : UInt8 :=
  (if isXor then b else 0) ^^^ sum x

private theorem loadu_spec (h : pos + 16 * l ≤ out.length) :
    loadu out pos = .ok (fun j : Fin (16 * l) => out.getD (pos + j.val) 0) := if_pos h

private theorem storeu_spec (sum : ℕ → UInt8) (h : pos + 16 * l ≤ out.length) :
    storeu out pos (fun j : Fin (16 * l) => sum (pos + j.val)) =
      .ok (onRange pos (pos + 16 * l) (fun x _ => sum x) out) := by
  rw [storeu, if_pos h]
  refine congrArg Except.ok (replace_eq_onRange List.length_ofFn h ?_)
  intro j _ hj _
  rw [List.getElem?_ofFn, dif_pos hj]

private theorem writeVector_spec (isXor : Bool) (sum : ℕ → UInt8) (k : ℕ)
    (h : pos + 16 * l * k + 16 * l ≤ out.length) :
    writeVector isXor pos out ((fun j : Fin (16 * l) => sum (pos + 16 * l * k + j.val)), k) =
      .ok (onRange (pos + 16 * l * k) (pos + 16 * l * k + 16 * l) (mix isXor sum) out) := by
  rw [writeVector]
  cases isXor with
  | false =>
    refine (storeu_spec sum h).trans (congrArg Except.ok (onRange_congr ?_))
    intro x b _ _ _
    exact (UInt8.zero_xor).symm
  | true =>
    have hload := @loadu_spec l out _ h
    rw [if_pos rfl, hload]
    refine (storeu_spec (fun x => sum x ^^^ out.getD x 0) h).trans
      (congrArg Except.ok (onRange_congr ?_))
    intro x b hb _ _
    have hget : out.getD x 0 = b := by
      rw [List.getD_eq_getElem?_getD, hb]
      rfl
    rw [hget]
    exact UInt8.xor_comm _ _

private theorem writeVectors_spec (isXor : Bool) (sum : ℕ → UInt8) (v : ℕ)
    (h : pos + 16 * l * v ≤ out.length) :
    ((List.range v).map fun k (j : Fin (16 * l)) => sum (pos + 16 * l * k + j.val)).zipIdx.foldlM
      (writeVector isXor pos) out =
      .ok (onRange pos (pos + 16 * l * v) (mix isXor sum) out) := by
  induction v with
  | zero =>
    rw [Nat.mul_zero, Nat.add_zero, onRange_empty]
    rfl
  | succ v ih =>
    rw [Nat.mul_succ] at h ⊢
    have hnext := @writeVector_spec l (onRange pos (pos + 16 * l * v) (mix isXor sum) out) pos isXor
      sum v (by rw [length_onRange]; omega)
    rw [List.range_succ, List.map_append, List.zipIdx_append, List.foldlM_append, ih (by omega)]
    simp only [List.length_map, List.length_range, Nat.zero_add, List.map_cons, List.map_nil,
      List.zipIdx_singleton, List.foldlM_cons, List.foldlM_nil]
    show (writeVector _ _ _ _).bind _ = _
    rw [hnext, onRange_onRange (by omega) (by omega), Nat.add_assoc]
    rfl

end Writes

section Coding

variable {rows inputs outputs : List Bytes} {isXor : Bool} {pos a b c : ℕ}

/-- The bytes `a..b` of every output, from all inputs. -/
def coded (isXor : Bool) (rows inputs : List Bytes) (a b : ℕ) (outputs : List Bytes) :
    List Bytes :=
  List.zipWith (fun row out => onRange a b (mix isXor (dot row inputs)) out) rows outputs

/-- Rows and slices a range up to `stop` can be computed with. -/
structure Fits (rows inputs outputs : List Bytes) (stop : ℕ) : Prop where
  rows : ∀ row ∈ rows, inputs.length ≤ row.length
  inputs : ∀ s ∈ inputs, stop ≤ s.length
  outputs : ∀ s ∈ outputs, stop ≤ s.length

private theorem sumOn_getD (row : Bytes) (x : ℕ) :
    sumOn row inputs.zipIdx (fun input => input.getD x 0) 0 = dot row inputs x := rfl

private theorem step_spec {l v : ℕ} {tables : UInt8 → Reg l × Reg l} (h : TablesOk tables)
    (hfits : Fits rows inputs outputs (pos + 16 * l * v)) :
    step tables v isXor rows inputs outputs pos =
      .ok (coded isXor rows inputs pos (pos + 16 * l * v) outputs) := by
  have hroom : ∀ k < v, pos + 16 * l * k + 16 * l ≤ pos + 16 * l * v := by
    intro k hk
    have hmul := Nat.mul_le_mul_left (16 * l) (Nat.succ_le_of_lt hk)
    rw [Nat.mul_succ] at hmul
    omega
  have hload : ∀ input ∈ inputs, ((List.range v).mapM fun k => loadu input (pos + 16 * l * k)) =
      Except.ok ((List.range v).map fun k (j : Fin (16 * l)) =>
        input.getD (pos + 16 * l * k + j.val) 0) := by
    intro input hinput
    refine mapM_ok fun k hk => loadu_spec ?_
    exact (hroom k (List.mem_range.mp hk)).trans (hfits.inputs input hinput)
  have hacc := accumulate_spec h hfits.rows
    (fun input k j => input.getD (pos + 16 * l * k + j.val) 0) hload
  rw [step, hacc]
  apply zip_mapM_ok
  intro row hrow out hout
  exact writeVectors_spec isXor (dot row inputs) v (hfits.outputs out hout)

private theorem writePartial_spec {out : Bytes} {rem : ℕ} (sum : ℕ → UInt8) (acc : Reg 1)
    (hrem : rem < 16) (hacc : ∀ j : Fin (16 * 1), j.val < rem → acc j = sum (pos + j.val))
    (hout : pos + rem ≤ out.length) :
    writePartial isXor pos rem out [acc] =
      .ok (onRange pos (pos + rem) (mix isXor sum) out) := by
  have hbuf : ((List.ofFn acc).take rem).length = rem := by
    rw [List.length_take, List.length_ofFn]
    omega
  have hdst : ((out.drop pos).take rem).length = rem := by
    rw [List.length_take, List.length_drop]
    omega
  have hget : ∀ j < rem, ((List.ofFn acc).take rem)[j]? = some (sum (pos + j)) := by
    intro j hj
    rw [List.getElem?_take, if_pos hj, List.getElem?_ofFn, dif_pos (by omega)]
    exact congrArg some (hacc ⟨j, by omega⟩ hj)
  rw [writePartial, if_pos hout]
  refine congrArg Except.ok (replace_eq_onRange ?_ hout ?_)
  · cases isXor with
    | false => exact hbuf
    | true =>
      rw [if_pos rfl, List.length_zipWith, hdst]
      exact (congrArg (min rem) hbuf).trans (min_self rem)
  · intro j x hj hx
    cases isXor with
    | false => exact (hget j hj).trans (congrArg some UInt8.zero_xor.symm)
    | true =>
      rw [if_pos rfl, List.getElem?_zipWith, List.getElem?_take, if_pos hj, List.getElem?_drop, hx]
      simp only [List.headD_cons, hget j hj]
      rfl

private theorem partial128_spec {rem : ℕ} (hrem : rem < 16)
    (hfits : Fits rows inputs outputs (pos + rem)) : partial128 isXor rows inputs outputs pos rem =
      .ok (coded isXor rows inputs pos (pos + rem) outputs) := by
  have hload : ∀ input ∈ inputs, padded pos rem input =
      Except.ok ((List.range 1).map fun _ (j : Fin (16 * 1)) =>
        (((input.drop pos).take rem) ++ List.replicate (16 - rem) 0).getD j.val 0) :=
    fun input hinput => if_pos (hfits.inputs input hinput)
  have hacc := accumulate_spec tables128_ok hfits.rows _ hload
  rw [partial128, hacc]
  apply zip_mapM_ok
  intro row hrow out hout
  refine writePartial_spec (dot row inputs) _ hrem ?_ (hfits.outputs out hout)
  intro j hj
  rw [← sumOn_getD]
  refine sumOn_congr ?_ 0
  intro input hinput
  obtain ⟨-, hlt, hval⟩ := List.mem_zipIdx hinput
  have hin := hfits.inputs input.1 (hval ▸ List.getElem_mem _)
  have hlen : j.val < ((input.1.drop pos).take rem).length := by
    rw [List.length_take, List.length_drop]
    omega
  rw [List.getD_eq_getElem?_getD, List.getElem?_append_left hlen, List.getElem?_take, if_pos hj,
    List.getElem?_drop, List.getD_eq_getElem?_getD]

@[simp] theorem length_coded (hlen : rows.length = outputs.length) :
    (coded isXor rows inputs a b outputs).length = outputs.length := by
  rw [coded, List.length_zipWith, hlen, min_self]

private theorem coded_empty (hlen : rows.length = outputs.length) :
    coded isXor rows inputs a a outputs = outputs := by
  rw [coded]
  simp only [onRange_empty]
  rw [← List.map_uncurry_zip_eq_zipWith]
  exact List.map_snd_zip hlen.ge

private theorem coded_coded (hab : a ≤ b) (hbc : b ≤ c) :
    coded isXor rows inputs b c (coded isXor rows inputs a b outputs) =
      coded isXor rows inputs a c outputs := by
  unfold coded
  induction rows generalizing outputs with
  | nil => rfl
  | cons row rows ih =>
    cases outputs with
    | nil => rfl
    | cons out outputs =>
      rw [List.zipWith_cons_cons, List.zipWith_cons_cons, List.zipWith_cons_cons, ih,
        onRange_onRange hab hbc]

private theorem Fits.coded {stop : ℕ} (h : Fits rows inputs outputs stop) :
    Fits rows inputs (coded isXor rows inputs a b outputs) stop := by
  refine ⟨h.rows, h.inputs, ?_⟩
  intro s hs
  rw [Simd.coded, ← List.map_uncurry_zip_eq_zipWith] at hs
  obtain ⟨p, hp, rfl⟩ := List.mem_map.mp hs
  have hout := h.outputs p.2 (List.of_mem_zip hp).2
  rwa [Function.uncurry, length_onRange]

private theorem Fits.le {stop stop' : ℕ} (h : Fits rows inputs outputs stop) (hle : stop' ≤ stop) :
    Fits rows inputs outputs stop' :=
  ⟨h.rows, fun s hs => hle.trans (h.inputs s hs), fun s hs => hle.trans (h.outputs s hs)⟩

private theorem Fits.sub {rows' outputs' : List Bytes} {stop : ℕ}
    (h : Fits rows inputs outputs stop)
    (hrows : rows' ⊆ rows) (houtputs : outputs' ⊆ outputs) : Fits rows' inputs outputs' stop :=
  ⟨fun row hrow => h.rows row (hrows hrow), h.inputs, fun s hs => h.outputs s (houtputs hs)⟩

/-- Steps that each code their own bytes code the bytes they pass; with enough turns less than a
step is left. -/
theorem strides_spec {stepAt : List Bytes → ℕ → Except Fault (List Bytes)} {width stop : ℕ}
    (hstep : ∀ outputs pos, Fits rows inputs outputs (pos + width) →
      stepAt outputs pos = .ok (coded isXor rows inputs pos (pos + width) outputs))
    (fuel : ℕ) (hfits : Fits rows inputs outputs stop) (hlen : rows.length = outputs.length)
    (hpos : pos ≤ stop) : ∃ next, pos ≤ next ∧ next ≤ stop ∧
      strides stepAt width stop fuel (outputs, pos) =
        .ok (coded isXor rows inputs pos next outputs, next) ∧
      (stop < pos + (fuel + 1) * width → stop < next + width) := by
  induction fuel generalizing outputs pos with
  | zero =>
    refine ⟨pos, le_rfl, hpos, ?_, fun h => by omega⟩
    rw [strides, coded_empty hlen]
  | succ fuel ih =>
    rw [strides]
    dsimp only
    split_ifs with hroom
    · have hfit : pos + width ≤ stop := by omega
      rw [hstep _ _ (hfits.le hfit)]
      obtain ⟨next, hle, hstop, hrun, hrest⟩ :=
        ih hfits.coded (hlen.trans (length_coded hlen).symm) hfit
      refine ⟨next, by omega, hstop, ?_, fun h => hrest ?_⟩
      · show strides _ _ _ _ _ = _
        rw [hrun, coded_coded (by omega) hle]
      · rw [Nat.succ_mul] at h
        omega
    · refine ⟨pos, le_rfl, hpos, ?_, fun _ => by omega⟩
      rw [coded_empty hlen]

private theorem finish_spec {stop : ℕ} (hfits : Fits rows inputs outputs stop)
    (hlen : rows.length = outputs.length) (hpos : pos ≤ stop) (hrest : stop < pos + 16) :
    finish isXor rows inputs stop (outputs, pos) =
      .ok (coded isXor rows inputs pos stop outputs) := by
  have hadd : pos + (stop - pos) = stop := by omega
  rw [finish]
  dsimp only
  split_ifs with hmore
  · rw [partial128_spec (by omega) (hadd.symm ▸ hfits), hadd]
  · obtain rfl : pos = stop := by omega
    rw [coded_empty hlen]

private theorem group_ok {n : ℕ} (hrows : rows.length = n) (hlen : rows.length = outputs.length)
    (hcoef : ∀ row ∈ rows, inputs.length ≤ row.length) :
    group n rows inputs outputs = .ok () := if_pos ⟨hrows, hlen ▸ hrows, hcoef⟩

private theorem wide_spec {stepAt : List Bytes → ℕ → Except Fault (List Bytes)}
    {width start stop n : ℕ} (hstep : ∀ outputs pos, Fits rows inputs outputs (pos + width) →
      stepAt outputs pos = .ok (coded isXor rows inputs pos (pos + width) outputs))
    (hfits : Fits rows inputs outputs stop) (hlen : rows.length = outputs.length)
    (hstart : start ≤ stop) : ∃ next, start ≤ next ∧ next ≤ stop ∧
      unrolled n stepAt width stop (stop - start) (outputs, start) =
        .ok (coded isXor rows inputs start next outputs, next) := by
  rw [unrolled]
  split_ifs
  · obtain ⟨next, hle, hstop, hrun, -⟩ := strides_spec hstep (stop - start) hfits hlen hstart
    exact ⟨next, hle, hstop, hrun⟩
  · exact ⟨start, le_rfl, hstart, by rw [coded_empty hlen]⟩

private theorem narrow_spec {start mid stop : ℕ} (hfits : Fits rows inputs outputs stop)
    (hlen : rows.length = outputs.length) (hstart : start ≤ mid) (hmid : mid ≤ stop) (fuel : ℕ)
    (hfuel : stop < mid + (fuel + 1) * 16) :
    ((strides (step128 1 isXor rows inputs) 16 stop fuel
      (coded isXor rows inputs start mid outputs, mid)).bind
        fun s => finish isXor rows inputs stop s) =
      .ok (coded isXor rows inputs start stop outputs) := by
  have hlen' : rows.length = (coded isXor rows inputs start mid outputs).length :=
    hlen.trans (length_coded hlen).symm
  obtain ⟨next, hle, hstop, hrun, hrest⟩ := strides_spec
    (fun outputs pos h => @step_spec rows inputs outputs isXor pos 1 1 tables128 tables128_ok h)
    fuel hfits.coded hlen' hmid
  rw [step128, hrun]
  show finish _ _ _ _ _ = _
  rw [coded_coded hstart hle]
  have hfits' : Fits rows inputs (coded isXor rows inputs start next outputs) stop := hfits.coded
  rw [finish_spec hfits' (hlen.trans (length_coded hlen).symm) hstop (hrest hfuel),
    coded_coded (by omega) hstop]

private theorem codeGroupSsse3_spec {n start stop : ℕ} (hfits : Fits rows inputs outputs stop)
    (hrows : rows.length = n) (hlen : rows.length = outputs.length) (hstart : start ≤ stop) :
    codeGroupSsse3 n isXor rows inputs outputs start stop =
      .ok (coded isXor rows inputs start stop outputs) := by
  obtain ⟨mid, hle, hmid, hwide⟩ := @wide_spec rows inputs outputs isXor
    (step128 2 isXor rows inputs) 32 start stop n (fun _ _ h => step_spec tables128_ok h) hfits hlen
    hstart
  rw [codeGroupSsse3, group_ok hrows hlen hfits.rows, hwide]
  exact narrow_spec hfits hlen hle hmid (stop - start) (by omega)

private theorem codeGroupAvx2_spec {n start stop : ℕ} (hfits : Fits rows inputs outputs stop)
    (hrows : rows.length = n) (hlen : rows.length = outputs.length) (hstart : start ≤ stop) :
    codeGroupAvx2 n isXor rows inputs outputs start stop =
      .ok (coded isXor rows inputs start stop outputs) := by
  obtain ⟨mid, hle, hmid, hwide⟩ := @wide_spec rows inputs outputs isXor
    (step256 2 isXor rows inputs) 64 start stop n (fun _ _ h => step_spec tables256_ok h) hfits hlen
    hstart
  have hfits' : Fits rows inputs (coded isXor rows inputs start mid outputs) stop := hfits.coded
  obtain ⟨next, hle', hnext, hrun, hrest⟩ := @strides_spec rows inputs _ isXor mid
    (step256 1 isXor rows inputs) 32 stop (fun _ _ h => step_spec tables256_ok h) (stop - start)
    hfits' (hlen.trans (length_coded hlen).symm) hmid
  rw [codeGroupAvx2, group_ok hrows hlen hfits.rows, hwide]
  show (strides _ _ _ _ _).bind _ = _
  rw [hrun, coded_coded hle hle']
  have hless := hrest (by omega)
  exact narrow_spec hfits hlen (by omega) hnext 1 (by omega)

private theorem codeGroup_spec {kernel : Kernel} (hkernel : kernel ≠ .scalar) {n start stop : ℕ}
    (hfits : Fits rows inputs outputs stop) (hrows : rows.length = n)
    (hlen : rows.length = outputs.length) (hstart : start ≤ stop) :
    codeGroup kernel n rows inputs outputs start stop =
      .ok (coded false rows inputs start stop outputs) := by
  cases kernel with
  | scalar => exact absurd rfl hkernel
  | ssse3 => exact codeGroupSsse3_spec hfits hrows hlen hstart
  | avx2 => exact codeGroupAvx2_spec hfits hrows hlen hstart

private theorem codeGroups_spec {kernel : Kernel} (hkernel : kernel ≠ .scalar) {start stop : ℕ}
    (fuel : ℕ) (hfits : Fits rows inputs outputs stop) (hlen : rows.length = outputs.length)
    (hstart : start ≤ stop) (hfuel : outputs.length ≤ fuel) :
    codeGroups kernel inputs start stop fuel rows outputs =
      .ok (coded false rows inputs start stop outputs) := by
  induction fuel generalizing rows outputs with
  | zero =>
    have hnil : outputs = [] := List.eq_nil_of_length_eq_zero (Nat.le_zero.mp hfuel)
    rw [codeGroups, hnil, coded, List.zipWith_nil_right]
  | succ fuel ih =>
    rw [codeGroups]
    split_ifs with hnil
    · rcases hnil with rfl | rfl
      · rw [List.eq_nil_of_length_eq_zero hlen.symm]
        rfl
      · rw [coded, List.zipWith_nil_right]
    · have htake : (rows.take OUTPUT_GROUP).length = (outputs.take OUTPUT_GROUP).length := by
        rw [List.length_take, List.length_take, hlen]
      have hdrop : (rows.drop OUTPUT_GROUP).length = (outputs.drop OUTPUT_GROUP).length := by
        rw [List.length_drop, List.length_drop, hlen]
      have hcount : (rows.take OUTPUT_GROUP).length = if (rows.take OUTPUT_GROUP).length < OUTPUT_GROUP
          then (rows.take OUTPUT_GROUP).length else OUTPUT_GROUP := by
        split_ifs with hshort
        · rfl
        · exact le_antisymm (List.length_take_le _ _) (not_lt.mp hshort)
      have hless : (outputs.drop OUTPUT_GROUP).length ≤ fuel := by
        have hsome : outputs.length ≠ 0 := fun h => hnil (.inr (List.eq_nil_of_length_eq_zero h))
        rw [List.length_drop, OUTPUT_GROUP]
        omega
      have hgroup := codeGroup_spec hkernel (hfits.sub (List.take_subset _ _)
        (List.take_subset _ _)) hcount htake hstart
      have hrest := ih (hfits.sub (List.drop_subset _ _) (List.drop_subset _ _)) hdrop hless
      dsimp only
      rw [hgroup, hrest]
      show Except.ok (coded _ _ _ _ _ _ ++ coded _ _ _ _ _ _) = _
      rw [coded, coded, ← List.zipWith_append htake, List.take_append_drop, List.take_append_drop]
      rfl

end Coding

section Scalar

variable {rows inputs outputs : List Bytes} {start stop : ℕ}

private theorem codeSlice_onRange {coef : UInt8} {c : ℕ} {input output : Bytes} (hle : start ≤ stop)
    (hin : stop ≤ input.length) (hout : stop ≤ output.length) :
    codeSlice coef c input start stop output = onRange start stop
      (fun x b => (if c = 0 then 0 else b) ^^^ galMultiply coef (input.getD x 0)) output := by
  have hadd : start + (stop - start) = stop := by omega
  have hslice : ((input.drop start).take (stop - start)).length = stop - start := by
    rw [List.length_take, List.length_drop]
    omega
  have hmid : ((output.drop start).take (stop - start)).length = stop - start := by
    rw [List.length_take, List.length_drop]
    omega
  have hget : ∀ j < stop - start,
      ((input.drop start).take (stop - start))[j]? = some (input.getD (start + j) 0) := by
    intro j hj
    rw [List.getElem?_take, if_pos hj, List.getElem?_drop, List.getD_eq_getElem?_getD,
      List.getElem?_eq_getElem (by omega)]
    rfl
  have hrange := @replace_eq_onRange _
    (fun x b => (if c = 0 then 0 else b) ^^^ galMultiply coef (input.getD x 0)) output start
    (stop - start) (if c = 0 then galMulSlice coef ((input.drop start).take (stop - start))
      else galMulSliceXor coef ((input.drop start).take (stop - start))
        ((output.drop start).take (stop - start)))
  rw [hadd] at hrange
  refine hrange ?_ hout ?_
  · rw [galMulSlice_eq, galMulSliceXor_eq]
    split_ifs
    · rw [List.length_map, hslice]
    · rw [List.length_zipWith, hslice, hmid, min_self]
  · intro j b hj hb
    rw [galMulSlice_eq, galMulSliceXor_eq]
    split_ifs
    · rw [List.getElem?_map, hget j hj, Option.map_some, UInt8.zero_xor]
    · rw [List.getElem?_zipWith, hget j hj, List.getElem?_take, if_pos hj, List.getElem?_drop, hb]

private theorem codeOutput_cons (row : Bytes) (i : Bytes × ℕ) (later : List (Bytes × ℕ))
    (output : Bytes) : codeOutput row (i :: later) start stop output =
      codeOutput row later start stop (codeSlice (row.getD i.2 0) i.2 i.1 start stop output) := rfl

private theorem codeOutput_onRange {row output : Bytes} (later : List (Bytes × ℕ))
    (hle : start ≤ stop)
    (hin : ∀ i ∈ later, stop ≤ i.1.length ∧ i.2 ≠ 0) (hout : stop ≤ output.length) :
    codeOutput row later start stop output =
      onRange start stop (fun x b => sumOn row later (fun input => input.getD x 0) b) output := by
  induction later generalizing output with
  | nil =>
    refine eq_onRange rfl ?_
    intro i b hb
    rw [codeOutput, List.foldl_nil, hb]
    split_ifs <;> rfl
  | cons i later ih =>
    rw [List.forall_mem_cons] at hin
    rw [codeOutput_cons, codeSlice_onRange hle hin.1.1 hout,
      ih hin.2 (by rwa [length_onRange]), onRange_comp]
    apply onRange_congr
    intro x b _ _ _
    rw [if_neg hin.1.2, sumOn, sumOn, List.foldl_cons]

private theorem codeBlock_spec (hne : inputs ≠ []) (hfits : Fits rows inputs outputs stop)
    (hlen : rows.length = outputs.length) (hstart : start ≤ stop) :
    codeBlock rows inputs outputs start stop = coded false rows inputs start stop outputs := by
  obtain ⟨first, rest, rfl⟩ := List.exists_cons_of_ne_nil hne
  rw [codeBlock, codeBlock_eq _ _ hlen, coded, ← List.map_uncurry_zip_eq_zipWith,
    ← List.map_uncurry_zip_eq_zipWith]
  apply List.map_congr_left
  intro p hp
  have hout := hfits.outputs p.2 (List.of_mem_zip hp).2
  have hrest : ∀ i ∈ rest.zipIdx 1, stop ≤ i.1.length ∧ i.2 ≠ 0 := by
    intro i hi
    obtain ⟨hge, -, hval⟩ := List.mem_zipIdx hi
    have hmem : i.1 ∈ rest := hval ▸ List.getElem_mem _
    exact ⟨hfits.inputs i.1 (List.mem_cons_of_mem first hmem), by omega⟩
  have hfirst := @codeSlice_onRange start stop (p.1.getD 0 0) 0 first p.2 hstart
    (hfits.inputs first List.mem_cons_self) hout
  rw [Function.uncurry, Function.uncurry, List.zipIdx_cons, codeOutput_cons, hfirst,
    codeOutput_onRange _ hstart hrest (by rwa [length_onRange]), onRange_comp]
  apply onRange_congr
  intro x b _ _ _
  have hdot : sumOn p.1 (rest.zipIdx 1) (fun input => input.getD x 0)
      (0 ^^^ galMultiply (p.1.getD 0 0) (first.getD x 0)) = dot p.1 (first :: rest) x := rfl
  rw [if_pos rfl, hdot]
  exact UInt8.zero_xor.symm

end Scalar

section Exact

variable {rows inputs outputs : List Bytes} {start stop : ℕ}

def Untouched (start stop : ℕ) (out out' : Bytes) : Prop :=
  out'.length = out.length ∧ ∀ x, ¬(start ≤ x ∧ x < stop) → out'[x]? = out[x]?

private theorem Untouched.refl (out : Bytes) : Untouched start stop out out := ⟨rfl, fun _ _ => rfl⟩

/-- A range within the shards, one row per output and one coefficient per input. -/
structure InBounds (rows inputs outputs : List Bytes) (start stop : ℕ) : Prop where
  range : start ≤ stop
  shape : rows.length = outputs.length
  fits : Fits rows inputs outputs stop

private theorem coded_untouched (isXor : Bool) (hlen : rows.length = outputs.length) :
    List.Forall₂ (Untouched start stop) outputs (coded isXor rows inputs start stop outputs) := by
  unfold coded
  induction rows generalizing outputs with
  | nil =>
    rw [List.eq_nil_of_length_eq_zero hlen.symm]
    exact .nil
  | cons row rows ih =>
    cases outputs with
    | nil => exact .nil
    | cons out outputs =>
      refine .cons ⟨length_onRange, fun x hx => getElem?_onRange_of_not hx⟩ (ih ?_)
      exact Nat.succ.inj hlen

/-- Every kernel codes the range, leaves the arguments alone when there is nothing to code, or
panics at the check. -/
theorem codeBlockWith_eq (kernel : Kernel) (rows inputs outputs : List Bytes) (start stop : ℕ) :
    codeBlockWith kernel rows inputs outputs start stop =
      if inputs = [] ∨ outputs = [] then .ok outputs
      else if start ≤ stop ∧ rows.length = outputs.length ∧
          (∀ row ∈ rows, inputs.length ≤ row.length) ∧ (∀ s ∈ inputs, stop ≤ s.length) ∧
          ∀ s ∈ outputs, stop ≤ s.length then .ok (coded false rows inputs start stop outputs)
      else .error .panic := by
  rw [codeBlockWith]
  split_ifs with hnil hok hscalar
  · rfl
  · obtain ⟨hstart, hlen, hrows, hin, hout⟩ := hok
    rw [codeBlock_spec (fun h => hnil (.inl h)) ⟨hrows, hin, hout⟩ hlen hstart]
  · obtain ⟨hstart, hlen, hrows, hin, hout⟩ := hok
    exact codeGroups_spec hscalar outputs.length ⟨hrows, hin, hout⟩ hlen hstart le_rfl
  · rfl

private theorem codeBlockWith_total {kernel : Kernel}
    (h : InBounds rows inputs outputs start stop) :
    ∃ r, codeBlockWith kernel rows inputs outputs start stop = .ok r ∧
      List.Forall₂ (Untouched start stop) outputs r := by
  rw [codeBlockWith_eq]
  split_ifs with hnil hok
  · exact ⟨outputs, rfl, List.forall₂_same.mpr fun out _ => .refl out⟩
  · exact ⟨_, rfl, coded_untouched false h.shape⟩
  · exact absurd ⟨h.range, h.shape, h.fits.rows, h.fits.inputs, h.fits.outputs⟩ hok

private theorem mulSlice_spec (kernel : Kernel) (isXor : Bool) (c : UInt8) {input out : Bytes}
    (hlen : input.length = out.length) : mulSlice kernel isXor c input out =
      .ok (onRange 0 input.length (mix isXor fun x => galMultiply c (input.getD x 0)) out) := by
  have hdot : dot [c] [input] = fun x => galMultiply c (input.getD x 0) :=
    funext fun x => UInt8.zero_xor
  have hfits : Fits [[c]] [input] [out] input.length := by
    refine ⟨?_, ?_, ?_⟩ <;> simp only [List.mem_singleton, forall_eq]
    · exact le_rfl
    · exact le_rfl
    · exact hlen.le
  have hcoded : (coded isXor [[c]] [input] 0 input.length [out]).headD [] =
      onRange 0 input.length (mix isXor fun x => galMultiply c (input.getD x 0)) out := by
    rw [← hdot]
    rfl
  cases kernel with
  | scalar =>
    refine congrArg Except.ok (eq_onRange ?_ ?_)
    · rw [galMulSliceXor_eq, galMulSlice_eq]
      split_ifs
      · rw [List.length_zipWith, hlen, min_self]
      · rw [List.length_map, hlen]
    · intro x b hb
      obtain ⟨hx, -⟩ := List.getElem?_eq_some_iff.mp hb
      have hin : input[x]? = some (input.getD x 0) := by
        rw [List.getD_eq_getElem?_getD, List.getElem?_eq_getElem (by omega)]
        rfl
      have hrange : 0 ≤ x ∧ x < input.length := ⟨Nat.zero_le x, by omega⟩
      rw [galMulSliceXor_eq, galMulSlice_eq, if_pos hrange, mix]
      cases isXor
      · show (input.map _)[x]? = some (0 ^^^ _)
        rw [List.getElem?_map, hin, UInt8.zero_xor]
        rfl
      · show (List.zipWith _ out input)[x]? = some (b ^^^ _)
        rw [List.getElem?_zipWith, hb, hin]
  | ssse3 =>
    have hgroup := @codeGroupSsse3_spec _ _ _ isXor 1 0 input.length hfits rfl rfl (Nat.zero_le _)
    rw [mulSlice, hgroup]
    exact congrArg Except.ok hcoded
  | avx2 =>
    have hgroup := @codeGroupAvx2_spec _ _ _ isXor 1 0 input.length hfits rfl rfl (Nat.zero_le _)
    rw [mulSlice, hgroup]
    exact congrArg Except.ok hcoded

private theorem untouched_append {front out : Bytes} {n : ℕ} (hfront : front.length = n)
    (hn : n ≤ out.length) : Untouched 0 n out (front ++ out.drop n) := by
  constructor
  · rw [List.length_append, List.length_drop, hfront]
    omega
  · intro x hx
    have hge : front.length ≤ x := by omega
    have hadd : n + (x - front.length) = x := by omega
    rw [List.getElem?_append_right hge, List.getElem?_drop, hadd]

private theorem galMulSliceWith_eq (kernel : Kernel) (c : UInt8) (input out : Bytes) :
    galMulSliceWith kernel c input out = galMulSliceWith .scalar c input out := by
  unfold galMulSliceWith
  split_ifs with hle
  · rfl
  · have hlen : input.length = (out.take input.length).length := by
      rw [List.length_take, min_eq_left hle]
    rw [mulSlice_spec kernel false c hlen, mulSlice_spec .scalar false c hlen]
  · rfl

private theorem galMulSliceXorWith_eq (kernel : Kernel) (c : UInt8) (input out : Bytes) :
    galMulSliceXorWith kernel c input out = galMulSliceXorWith .scalar c input out := by
  unfold galMulSliceXorWith
  split_ifs with hle
  · rfl
  · have hlen : input.length = (out.take input.length).length := by
      rw [List.length_take, min_eq_left hle]
    rw [mulSlice_spec kernel true c hlen, mulSlice_spec .scalar true c hlen]
  · rfl

private theorem galMulSliceWith_total (kernel : Kernel) (c : UInt8) {input out : Bytes}
    (hle : input.length ≤ out.length) : ∃ r, galMulSliceWith kernel c input out = .ok r ∧
      Untouched 0 input.length out r := by
  have hlen : input.length = (out.take input.length).length := by
    rw [List.length_take, min_eq_left hle]
  rw [galMulSliceWith, if_pos hle]
  split_ifs
  · exact ⟨_, rfl, untouched_append rfl hle⟩
  · rw [mulSlice_spec kernel false c hlen]
    exact ⟨_, rfl, untouched_append (length_onRange.trans hlen.symm) hle⟩

private theorem galMulSliceXorWith_total (kernel : Kernel) (c : UInt8) {input out : Bytes}
    (hle : input.length ≤ out.length) : ∃ r, galMulSliceXorWith kernel c input out = .ok r ∧
      Untouched 0 input.length out r := by
  have hlen : input.length = (out.take input.length).length := by
    rw [List.length_take, min_eq_left hle]
  rw [galMulSliceXorWith, if_pos hle]
  split_ifs
  · refine ⟨_, rfl, untouched_append ?_ hle⟩
    rw [sliceXor, List.length_zipWith, ← hlen, min_self]
  · rw [mulSlice_spec kernel true c hlen]
    exact ⟨_, rfl, untouched_append (length_onRange.trans hlen.symm) hle⟩

/-- For every kernel: within the shards the coding loop ends with the bytes of the scalar loop and
touches nothing outside the range, and so do the products of one slice; outside the shards all
kernels stop at the same check, and none makes an access outside a slice. -/
theorem kernels_exact (kernel : Kernel) :
    (∀ rows inputs outputs start stop,
      codeBlockWith kernel rows inputs outputs start stop =
        codeBlockWith .scalar rows inputs outputs start stop ∧
      codeBlockWith kernel rows inputs outputs start stop ≠ .error .outOfBounds ∧
      (InBounds rows inputs outputs start stop →
        ∃ r, codeBlockWith kernel rows inputs outputs start stop = .ok r ∧
          List.Forall₂ (Untouched start stop) outputs r)) ∧
    (∀ c input out,
      galMulSliceWith kernel c input out = galMulSliceWith .scalar c input out ∧
      galMulSliceXorWith kernel c input out = galMulSliceXorWith .scalar c input out ∧
      galMulSliceWith kernel c input out ≠ .error .outOfBounds ∧
      galMulSliceXorWith kernel c input out ≠ .error .outOfBounds ∧
      (input.length ≤ out.length →
        (∃ r, galMulSliceWith kernel c input out = .ok r ∧ Untouched 0 input.length out r) ∧
        ∃ r, galMulSliceXorWith kernel c input out = .ok r ∧ Untouched 0 input.length out r)) := by
  constructor
  · intro rows inputs outputs start stop
    refine ⟨?_, ?_, codeBlockWith_total⟩
    · rw [codeBlockWith_eq, codeBlockWith_eq]
    · rw [codeBlockWith_eq]
      split_ifs <;> exact fun h => nomatch h
  · intro c input out
    refine ⟨galMulSliceWith_eq kernel c input out, galMulSliceXorWith_eq kernel c input out, ?_, ?_,
      fun hle => ⟨galMulSliceWith_total kernel c hle, galMulSliceXorWith_total kernel c hle⟩⟩
    · by_cases hle : input.length ≤ out.length
      · obtain ⟨r, hr, -⟩ := galMulSliceWith_total kernel c hle
        rw [hr]
        intro h
        exact nomatch h
      · rw [galMulSliceWith, if_neg hle]
        intro h
        exact nomatch h
    · by_cases hle : input.length ≤ out.length
      · obtain ⟨r, hr, -⟩ := galMulSliceXorWith_total kernel c hle
        rw [hr]
        intro h
        exact nomatch h
      · rw [galMulSliceXorWith, if_neg hle]
        intro h
        exact nomatch h

/-- Two rows over two shards of seventeen bytes, for the AVX2 kernel. -/
theorem kernels_exact_avx2 :
    let rows : List Bytes := [[1, 2], [3, 4]]
    let shards : List Bytes := [List.replicate 17 5, List.replicate 17 6]
    (∃ r, codeBlockWith .avx2 rows shards shards 0 17 = .ok r ∧
      List.Forall₂ (Untouched 0 17) shards r) ∧
    ∃ r, galMulSliceWith .avx2 7 [1, 2, 3] [0, 0, 0, 9] = .ok r ∧
      Untouched 0 3 [0, 0, 0, 9] r := by
  refine ⟨((kernels_exact .avx2).1 _ _ _ 0 17).2.2 ⟨by decide, rfl, ?_⟩,
    (((kernels_exact .avx2).2 7 [1, 2, 3] [0, 0, 0, 9]).2.2.2.2 (by decide)).1⟩
  exact ⟨by decide, by decide, by decide⟩

end Exact

end Kcptun.Rs.Simd
