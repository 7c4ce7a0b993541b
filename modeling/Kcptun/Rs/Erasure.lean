/- Kcptun/Rs/Erasure
   source: crates/kcp/src/rs/codec.rs
   digest: Any `dataShards` shards determine the data, the cache of inverted matrices never holds
     a wrong one, and so reconstruction restores every erased data shard. -/

import Mathlib.Data.List.GetD
import Kcptun.Lib.Run
import Kcptun.Rs.Codec

set_option autoImplicit false
set_option relaxedAutoImplicit false

namespace Kcptun.Rs

open Kcptun.Lib Kcptun.Lib.LittleEndian

/-- A matrix that stores the data unchanged and any `ds` of whose rows can be inverted. -/
structure Generator (ds total : ℕ) (m : Matrix) : Prop where
  shape : m.Shape total ds
  top : ∀ i < ds, ∀ j < ds, m.get i j = if i = j then 1 else 0
  mds : ∀ σ : Fin ds → Fin total, Function.Injective σ →
    IsUnit ((m.toMat total ds).submatrix σ id)

section Build

private theorem sum_range_map (k : ℕ) (f : ℕ → Gal) :
    ((List.range k).map f).sum = ∑ i : Fin k, f i := by
  induction k with
  | zero => simp
  | succ k ih =>
    rw [List.range_succ, List.map_append, List.sum_append, ih, Fin.sum_univ_castSucc]
    simp

theorem Matrix.multiply_spec {m right : Matrix} {n k c : ℕ} (hm : m.Shape n k)
    (hright : right.Shape k c) (hn : 0 < n) (hc : 0 < c) :
    ∃ p, m.multiply right = .ok p ∧ p.Shape n c ∧ p.toMat n c = m.toMat n k * right.toMat k c := by
  obtain ⟨rfl, rfl⟩ := hm
  obtain ⟨hrows, rfl⟩ := hright
  refine ⟨Matrix.ofFn m.rows right.cols fun r c => (List.range m.cols).foldl
    (fun value i => value ^^^ galMultiply (m.get r i) (right.get i c)) 0, ?_, ⟨rfl, rfl⟩, ?_⟩
  · unfold Matrix.multiply
    rw [if_neg (not_not.mpr hrows.symm)]
    exact Matrix.fill_eq _ hn hc
  · ext i j
    rw [Matrix.mul_apply, Matrix.toMat, Matrix.get_ofFn _ i.2 j.2, mk_foldl_xor, Gal.mk_zero,
      zero_add, sum_range_map]
    rfl

private def node (total : ℕ) (i : Fin total) : Gal := ⟨UInt8.ofNat i⟩

private theorem node_injective {total : ℕ} (htot : total ≤ 256) :
    Function.Injective (node total) := by
  intro i j hij
  have hbyte : UInt8.ofNat i = UInt8.ofNat j := congrArg Gal.byte hij
  have hnat := congrArg UInt8.toNat hbyte
  rw [UInt8.toNat_ofNat', UInt8.toNat_ofNat'] at hnat
  apply Fin.ext
  have := i.2
  have := j.2
  omega

private theorem buildMatrix_spec {ds : ℕ} (total : ℕ) (hds : 0 < ds) (hle : ds ≤ total)
    (htot : total ≤ 256) : ∃ m, buildMatrix ds total = .ok m ∧ Generator ds total m := by
  have hvm : Matrix.vandermonde total ds = .ok (Matrix.ofFn total ds fun r c =>
      galExp (UInt8.ofNat r) c) := Matrix.fill_eq _ (by omega) hds
  set vm := Matrix.ofFn total ds fun r c => galExp (UInt8.ofNat r) c with hvm'
  have hunit : ∀ σ : Fin ds → Fin total, Function.Injective σ →
      IsUnit ((vm.toMat total ds).submatrix σ id) := by
    intro σ hσ
    apply isUnit_of_vandermonde ((node_injective htot).comp hσ)
    intro i j
    rw [Matrix.submatrix_apply, Matrix.toMat, hvm', id_eq, Matrix.get_ofFn _ (σ i).2 j.2,
      Gal.mk_galExp]
    rfl
  have htop : vm.subMatrix 0 0 ds ds = .ok (Matrix.ofFn ds ds fun r c => vm.get (r + 0) (c + 0)) := by
    unfold Matrix.subMatrix
    rw [Nat.sub_zero]
    exact Matrix.fill_eq _ hds hds
  set top := Matrix.ofFn ds ds fun r c => vm.get (r + 0) (c + 0) with htop'
  have htopMat : top.toMat ds ds = (vm.toMat total ds).submatrix (Fin.castLE hle) id := by
    ext i j
    rw [Matrix.toMat, htop', Matrix.get_ofFn _ i.2 j.2]
    rfl
  obtain ⟨inv, hinv, hshape, hmul⟩ := Matrix.invert_spec (m := top) hds ⟨rfl, rfl⟩
    (by rw [htopMat]; exact hunit _ (Fin.castLE_injective hle))
  have hvmShape : vm.Shape total ds := ⟨rfl, rfl⟩
  obtain ⟨m, hm, hshape', hmat⟩ := Matrix.multiply_spec hvmShape hshape (by omega) hds
  have hmulComm : top.toMat ds ds * inv.toMat ds ds = 1 := mul_eq_one_comm.mp hmul
  have hsub : ∀ σ : Fin ds → Fin total, (m.toMat total ds).submatrix σ id =
      (vm.toMat total ds).submatrix σ id * inv.toMat ds ds := by
    intro σ
    rw [hmat]
    rfl
  refine ⟨m, ?_, hshape', ?_, ?_⟩
  · unfold buildMatrix
    rw [hvm]
    change (do
      let top ← vm.subMatrix 0 0 ds ds
      let topInv ← top.invert
      vm.multiply topInv) = _
    rw [htop]
    change (do
      let topInv ← top.invert
      vm.multiply topInv) = _
    rw [hinv]
    exact hm
  · intro i hi j hj
    have hentry := congrFun (congrFun (hsub (Fin.castLE hle)) ⟨i, hi⟩) ⟨j, hj⟩
    rw [← htopMat, hmulComm, Matrix.one_apply] at hentry
    have hbyte := congrArg Gal.byte hentry
    simp only [Fin.mk.injEq] at hbyte
    apply Eq.trans hbyte
    split_ifs <;> rfl
  · intro σ hσ
    rw [hsub]
    exact (hunit σ hσ).mul (IsUnit.of_mul_eq_one _ hmul)

end Build

section Rows

/-- The rows a decode matrix belongs to: the first `ds` that its mask leaves over. -/
def validOf (ds total : ℕ) (mask : ShardMask) : List ℕ :=
  ((List.range total).filter fun i => i ∉ mask).take ds

private theorem lt_of_scanned {row n room i : ℕ} {valid : List ℕ} {p : ℕ → Bool}
    (hi : i ∈ valid ++ ((List.range' (row + 1) n).filter p).take room) (hv : i ∉ valid) :
    row < i := by
  have hnew := (List.mem_append.mp hi).resolve_left hv
  have hrange := List.mem_of_mem_filter (List.mem_of_mem_take hnew)
  rw [List.mem_range'_1] at hrange
  omega

private theorem splitRows_spec (ds row : ℕ) (shards : List Bytes) (valid : List ℕ)
    (invalid : ShardMask) (hinvalid : ∀ i ∈ invalid, i < row) :
    let r := splitRows ds row shards valid invalid
    (∃ new, r.2 = invalid ++ new ∧ ∀ i ∈ new, row ≤ i) ∧
    r.1 = valid ++
      ((List.range' row shards.length).filter fun i => i ∉ r.2).take (ds - valid.length) ∧
    (∀ i ∈ r.1, i ∈ valid ∨ (shards.getD (i - row) []) ≠ []) ∧
    (valid.length ≤ ds →
      r.1.length = min ds (valid.length + shards.countP fun s => !s.isEmpty)) := by
  induction shards generalizing row valid invalid with
  | nil =>
    refine ⟨⟨[], by simp [splitRows], by simp⟩, by simp [splitRows], fun i hi => .inl hi, ?_⟩
    intro hle
    simp [splitRows]
    omega
  | cons s rest ih =>
    rw [splitRows]
    split_ifs with hfull hempty
    · refine ⟨⟨[], by simp, by simp⟩, ?_, fun i hi => .inl hi, ?_⟩
      · rw [Nat.sub_eq_zero_of_le hfull, List.take_zero, List.append_nil]
      · intro hle
        dsimp only
        omega
    · -- the row is missing: the mask takes it up
      obtain ⟨⟨new, hnew, hge⟩, hvalid, hmem, hlen⟩ := ih (row + 1) valid (invalid ++ [row])
        (fun i hi => by
          rcases List.mem_append.mp hi with hi | hi
          · exact Nat.lt_succ_of_lt (hinvalid i hi)
          · rw [List.mem_singleton.mp hi]
            exact Nat.lt_succ_self row)
      refine ⟨⟨row :: new, by rw [hnew]; simp, ?_⟩, ?_, ?_, ?_⟩
      · intro i hi
        rcases List.mem_cons.mp hi with rfl | hi
        · exact le_rfl
        · exact Nat.le_of_succ_le (hge i hi)
      · have hin : row ∈ (splitRows ds (row + 1) rest valid (invalid ++ [row])).2 := by
          rw [hnew]
          simp
        rw [List.length_cons, List.range'_succ, List.filter_cons_of_neg (by simpa using hin)]
        exact hvalid
      · intro i hi
        have hle : i ∈ valid ∨ rest.getD (i - (row + 1)) [] ≠ [] := hmem i hi
        by_cases hv : i ∈ valid
        · exact .inl hv
        · refine .inr ?_
          have hrest := hle.resolve_left hv
          have hgt : row < i := lt_of_scanned (hvalid ▸ hi) hv
          rwa [show i - row = (i - (row + 1)) + 1 by omega, List.getD_cons_succ]
      · intro hle
        rw [hlen hle, List.countP_cons_of_neg (by simpa using hempty)]
    · obtain ⟨⟨new, hnew, hge⟩, hvalid, hmem, hlen⟩ := ih (row + 1) (valid ++ [row]) invalid
        (fun i hi => Nat.lt_succ_of_lt (hinvalid i hi))
      refine ⟨⟨new, hnew, fun i hi => Nat.le_of_succ_le (hge i hi)⟩, ?_, ?_, ?_⟩
      · have hnot : row ∉ (splitRows ds (row + 1) rest (valid ++ [row]) invalid).2 := by
          rw [hnew, List.mem_append, not_or]
          exact ⟨fun h => lt_irrefl row (hinvalid row h), fun h => Nat.not_succ_le_self row (hge row h)⟩
        have hroom : ds - valid.length = (ds - (valid.length + 1)) + 1 := by omega
        rw [List.length_cons, List.range'_succ, List.filter_cons_of_pos (by simpa using hnot), hroom,
          List.take_succ_cons, hvalid]
        simp
      · intro i hi
        by_cases hv : i ∈ valid ++ [row]
        · rcases List.mem_append.mp hv with hv | hv
          · exact .inl hv
          · rw [List.mem_singleton.mp hv, Nat.sub_self, List.getD_cons_zero]
            exact .inr (by simpa using hempty)
        · refine .inr ?_
          have hrest := (hmem i hi).resolve_left hv
          have hgt : row < i := lt_of_scanned (hvalid ▸ hi) hv
          rwa [show i - row = (i - (row + 1)) + 1 by omega, List.getD_cons_succ]
      · intro hle
        rw [hlen (by simp; omega), List.length_append, List.length_singleton,
          List.countP_cons_of_pos (by simpa using hempty)]
        omega

private theorem splitRows_valid (ds : ℕ) {shards : List Bytes}
    (hcount : ds ≤ shards.countP fun s => !s.isEmpty) :
    let r := splitRows ds 0 shards [] []
    r.1 = validOf ds shards.length r.2 ∧ r.1.length = ds ∧ ∀ i ∈ r.1, shards.getD i [] ≠ [] := by
  obtain ⟨-, hvalid, hmem, hlen⟩ := splitRows_spec ds 0 shards [] [] (by simp)
  refine ⟨?_, ?_, ?_⟩
  · rw [validOf, List.range_eq_range']
    simpa using hvalid
  · rw [hlen (by simp)]
    simp only [List.length_nil, Nat.zero_add]
    omega
  · intro i hi
    simpa using hmem i hi

end Rows

def subMat (ds : ℕ) (m : Matrix) (valid : List ℕ) : Mat ds ds Gal :=
  fun r c => ⟨m.get (valid.getD r 0) c⟩

structure Decodes (ds : ℕ) (m : Matrix) (valid : List ℕ) (inv : Matrix) : Prop where
  shape : inv.Shape ds ds
  mul : inv.toMat ds ds * subMat ds m valid = 1

/-- The invariant of a codec: every cached matrix decodes the rows its key stands for. -/
structure Codec.Ok (codec : Codec) (ds ps : ℕ) (m : Matrix) : Prop where
  data : codec.dataShards = ds
  total : codec.totalShards = ds + ps
  matrix : codec.m = some m
  generator : Generator ds (ds + ps) m
  pos : 0 < ds
  tree : ∀ mask inv, (mask, inv) ∈ codec.tree → (validOf ds (ds + ps) mask).length = ds →
    Decodes ds m (validOf ds (ds + ps) mask) inv

namespace Codec

variable {codec : Codec} {ds ps : ℕ} {m : Matrix}

theorem new_spec {ds ps : ℕ} (hds : 1 ≤ ds) (hps : 1 ≤ ps) (hsum : ds + ps ≤ 256) :
    ∃ codec m, Codec.new ds ps = .ok codec ∧ codec.Ok ds ps m := by
  obtain ⟨m, hm, hgen⟩ := buildMatrix_spec (ds + ps) hds (by omega) hsum
  refine ⟨{ dataShards := ds, parityShards := ps, totalShards := ds + ps, m := some m }, m, ?_,
    ⟨rfl, rfl, rfl, hgen, hds, by simp⟩⟩
  unfold new
  rw [if_neg (by unfold MAX_TOTAL_SHARDS; omega), if_neg (by omega), if_neg (by omega), hm]
  rfl

private theorem isUnit_subMat (h : Generator ds (ds + ps) m) {mask : ShardMask}
    (hlen : (validOf ds (ds + ps) mask).length = ds) :
    IsUnit (subMat ds m (validOf ds (ds + ps) mask)) := by
  set valid := validOf ds (ds + ps) mask with hvalid
  have hsub : List.Sublist valid (List.range (ds + ps)) :=
    (List.take_sublist _ _).trans List.filter_sublist
  have hlt : ∀ i : Fin ds, valid.getD i 0 < ds + ps := by
    intro i
    rw [List.getD_eq_getElem?_getD, List.getElem?_eq_getElem (by omega), Option.getD_some]
    exact List.mem_range.mp (hsub.subset (List.getElem_mem _))
  refine h.mds (fun i => ⟨valid.getD i 0, hlt i⟩) ?_
  intro i j hij
  have hnodup := hsub.nodup List.nodup_range
  have heq : valid.getD i 0 = valid.getD j 0 := congrArg Fin.val hij
  rw [List.getD_eq_getElem?_getD, List.getElem?_eq_getElem (by omega), Option.getD_some,
    List.getD_eq_getElem?_getD, List.getElem?_eq_getElem (by omega), Option.getD_some] at heq
  exact Fin.ext ((List.Nodup.getElem_inj_iff hnodup).mp heq)

private theorem invertRows_spec (h : Generator ds (ds + ps) m) (hpos : 0 < ds) {mask : ShardMask}
    (hlen : (validOf ds (ds + ps) mask).length = ds) :
    ∃ inv, invertRows m ds (validOf ds (ds + ps) mask) = .ok inv ∧
      Decodes ds m (validOf ds (ds + ps) mask) inv := by
  set valid := validOf ds (ds + ps) mask with hvalid
  have hfill := Matrix.fill_eq (fun r c => ((valid[r]?).map fun v => m.get v c).getD 0) hpos hpos
  set sub := Matrix.ofFn ds ds fun r c => ((valid[r]?).map fun v => m.get v c).getD 0 with hsub
  have hmat : sub.toMat ds ds = subMat ds m valid := by
    ext i j
    rw [Matrix.toMat, hsub, Matrix.get_ofFn _ i.2 j.2, subMat, List.getD_eq_getElem?_getD,
      List.getElem?_eq_getElem (by omega)]
    rfl
  obtain ⟨inv, hinv, hshape, hmul⟩ := Matrix.invert_spec (m := sub) hpos ⟨rfl, rfl⟩
    (by rw [hmat]; exact isUnit_subMat h hlen)
  rw [hmat] at hmul
  refine ⟨inv, ?_, hshape, hmul⟩
  unfold invertRows
  rw [hfill]
  exact hinv

private theorem getDecodeMatrix_spec (h : codec.Ok ds ps m) {mask : ShardMask}
    (hlen : (validOf ds (ds + ps) mask).length = ds) :
    ∃ codec' inv, codec.getDecodeMatrix (validOf ds (ds + ps) mask) mask = (codec', .ok inv) ∧
      codec'.Ok ds ps m ∧ Decodes ds m (validOf ds (ds + ps) mask) inv := by
  set valid := validOf ds (ds + ps) mask with hvalid
  set tree := if codec.tree.length ≥ INVERSION_CACHE_MAX && (codec.tree.lookup mask).isNone then []
    else codec.tree with htree
  have hsub : ∀ e ∈ tree, e ∈ codec.tree := by
    intro e he
    rw [htree] at he
    split_ifs at he
    · cases he
    · exact he
  have hok : Codec.Ok { codec with m := some m, tree := tree } ds ps m :=
    ⟨h.data, h.total, rfl, h.generator, h.pos, fun mask inv hmem => h.tree mask inv (hsub _ hmem)⟩
  unfold getDecodeMatrix
  rw [h.matrix]
  dsimp only
  rw [← htree]
  cases hlookup : tree.lookup mask with
  | some inv =>
    obtain ⟨l₁, l₂, hsplit, -⟩ := List.lookup_eq_some_iff.mp hlookup
    have hmem : (mask, inv) ∈ codec.tree := hsub _ (by rw [hsplit]; simp)
    exact ⟨_, inv, rfl, hok, h.tree mask inv hmem hlen⟩
  | none =>
    obtain ⟨inv, hinv, hdec⟩ := invertRows_spec h.generator h.pos hlen
    rw [h.data, hinv]
    refine ⟨_, inv, rfl, ⟨rfl, h.total, rfl, h.generator, h.pos, ?_⟩, hdec⟩
    intro mask' inv' hmem hlen'
    rcases List.mem_cons.mp hmem with heq | hmem
    · cases heq
      exact hdec
    · exact h.tree mask' inv' (hsub _ hmem) hlen'

theorem rows_spec (h : codec.Ok ds ps m) {shards : List Bytes}
    (hlen : shards.length = codec.totalShards)
    (hcount : codec.dataShards ≤ shards.countP fun s => !s.isEmpty) :
    let rows := splitRows codec.dataShards 0 shards [] []
    rows.1.length = ds ∧ (∀ i ∈ rows.1, i < ds + ps ∧ shards.getD i [] ≠ []) ∧
      ∃ codec' inv, codec.getDecodeMatrix rows.1 rows.2 = (codec', .ok inv) ∧
        codec'.Ok ds ps m ∧ Decodes ds m rows.1 inv := by
  rw [h.data] at hcount ⊢
  obtain ⟨hvalid, hlen', hpresent⟩ := splitRows_valid ds hcount
  rw [hlen, h.total] at hvalid
  refine ⟨hlen', fun i hi => ⟨?_, hpresent i hi⟩, ?_⟩
  · rw [hvalid] at hi
    exact List.mem_range.mp (List.mem_of_mem_filter (List.mem_of_mem_take hi))
  · rw [hvalid] at hlen'
    rw [hvalid]
    exact getDecodeMatrix_spec h hlen'

theorem ok_reconstructData (h : codec.Ok ds ps m) (shards : List Bytes) :
    (codec.reconstructData shards).1.Ok ds ps m := by
  unfold reconstructData
  split_ifs with hlen
  · exact h
  · split
    · exact h
    · dsimp only
      split_ifs with hall hfew
      · exact h
      · exact h
      · obtain ⟨-, -, codec', inv, heq, hok, -⟩ := rows_spec h (not_not.mp hlen) (not_lt.mp hfew)
        rw [heq]
        exact hok

structure Coded (ds ps : ℕ) (m : Matrix) (data : List Bytes) (len : ℕ) (shards : List Bytes) :
    Prop where
  pos : 0 < len
  data_length : data.length = ds
  lengths : ∀ d ∈ data, d.length = len
  length : shards.length = ds + ps
  shard : ∀ i < ds + ps, shards.getD i [] = [] ∨ shards.getD i [] = codeRow (m.row i) data len

private theorem checkShards_eq {lens : List ℕ} {nilok : Bool} {size : ℕ} (hpos : 0 < size)
    (hall : ∀ n ∈ lens, n = size ∨ (n = 0 ∧ nilok = true)) (hex : size ∈ lens) :
    checkShards lens nilok = .ok size := by
  have hfind : lens.find? (· ≠ 0) = some size := by
    cases hf : lens.find? (· ≠ 0) with
    | none =>
      have := List.find?_eq_none.mp hf size hex
      simp at this
      omega
    | some n =>
      have hn := List.find?_some hf
      rcases hall n (List.mem_of_find?_eq_some hf) with rfl | ⟨rfl, -⟩
      · rfl
      · simp at hn
  unfold checkShards
  rw [hfind]
  dsimp only
  rw [if_neg]
  simp only [List.any_eq_true, not_exists, not_and]
  intro n hn
  rcases hall n hn with rfl | ⟨rfl, hnil⟩
  · simp
  · simp [hnil]

theorem codeRow_data (h : Generator ds (ds + ps) m) {data : List Bytes} {len : ℕ}
    (hdata : data.length = ds) (hlens : ∀ d ∈ data, d.length = len) {i : ℕ} (hi : i < ds) :
    codeRow (m.row i) data len = data.getD i [] := by
  have hlen : (data.getD i []).length = len := by
    rw [List.getD_eq_getElem?_getD, List.getElem?_eq_getElem (by omega), Option.getD_some]
    exact hlens _ (List.getElem_mem _)
  refine List.ext_getElem (by rw [hlen, length_codeRow]) ?_
  intro x h1 h2
  have hdot : (⟨dot (m.row i) data x⟩ : Gal) = ⟨(data.getD i []).getD x 0⟩ := by
    rw [mk_dot]
    rw [Finset.sum_eq_single (⟨i, by omega⟩ : Fin data.length)]
    · have hone : (m.row i).getD i 0 = 1 := (h.top i hi i hi).trans (if_pos rfl)
      rw [hone, Gal.mk_one, one_mul]
    · intro c _ hne
      have hzero : (m.row i).getD c 0 = 0 :=
        (h.top i hi c (by omega)).trans (if_neg fun heq => hne (Fin.ext heq.symm))
      rw [hzero, Gal.mk_zero, zero_mul]
    · intro hnot
      exact absurd (Finset.mem_univ _) hnot
  have hbyte : dot (m.row i) data x = (data.getD i []).getD x 0 := congrArg Gal.byte hdot
  have hget : (data.getD i []).getD x 0 = (data.getD i [])[x] := by
    rw [List.getD_eq_getElem?_getD, List.getElem?_eq_getElem h2, Option.getD_some]
  simp only [codeRow, List.getElem_map, List.getElem_range, hbyte, hget]

theorem encode_spec (h : codec.Ok ds ps m) {data parity : List Bytes} {len : ℕ} (hpos : 0 < len)
    (hdata : data.length = ds) (hlens : ∀ d ∈ data, d.length = len) (hparity : parity.length = ps)
    (hplens : ∀ p ∈ parity, p.length = len) :
    ∃ coded, codec.encode (data ++ parity) = .ok coded ∧
      coded = data ++ (List.range' ds ps).map (fun i => codeRow (m.row i) data len) ∧
      ∀ i < ds + ps, coded.getD i [] = codeRow (m.row i) data len := by
  have hne : data ≠ [] := by
    intro hnil
    have := h.pos
    rw [hnil] at hdata
    simp at hdata
    omega
  obtain ⟨first, hfirst⟩ := List.exists_mem_of_ne_nil data hne
  have hcheck : checkShards ((data ++ parity).map List.length) false = .ok len := by
    refine checkShards_eq hpos (fun n hn => .inl ?_) ?_
    · obtain ⟨s, hs, rfl⟩ := List.mem_map.mp hn
      exact (List.mem_append.mp hs).elim (hlens s) (hplens s)
    · exact List.mem_map.mpr ⟨first, List.mem_append_left _ hfirst, hlens first hfirst⟩
  have hrows : ((List.range' ds ps).map m.row).length = parity.length := by simp [hparity]
  refine ⟨_, ?_, rfl, ?_⟩
  · unfold encode
    rw [if_neg (by rw [h.total]; simp [hdata, hparity]), hcheck, h.matrix]
    have htake : (data ++ parity).take ds = data := by rw [← hdata, List.take_left]
    have hdrop : (data ++ parity).drop ds = parity := by rw [← hdata, List.drop_left]
    simp only [h.data, h.total, htake, hdrop, Nat.add_sub_cancel_left]
    rw [codeSomeShards_eq hne hlens hrows hplens, List.map_map]
    rfl
  · intro i hi
    rcases Nat.lt_or_ge i ds with hlt | hge
    · rw [codeRow_data h.generator hdata hlens hlt, List.getD_append _ _ _ _ (by omega)]
    · rw [List.getD_append_right _ _ _ _ (by omega), hdata, List.getD_eq_getElem?_getD,
        List.getElem?_map, List.getElem?_range' (by omega)]
      simp only [Option.map_some, Option.getD_some]
      rw [show ds + 1 * (i - ds) = i by omega]

theorem getD_foldl_set (missing : List ℕ) (f : ℕ → Bytes) (shards : List Bytes)
    (hlt : ∀ i ∈ missing, i < shards.length) :
    let r := (missing.zip (missing.map f)).foldl (fun s (i, out) => s.set i out) shards
    r.length = shards.length ∧
      ∀ i, r.getD i [] = if i ∈ missing then f i else shards.getD i [] := by
  induction missing generalizing shards with
  | nil => simp
  | cons j missing ih =>
    obtain ⟨hlen, hget⟩ := ih (shards.set j (f j)) fun i hi => by
      rw [List.length_set]
      exact hlt i (List.mem_cons_of_mem j hi)
    have hj := hlt j List.mem_cons_self
    simp only [List.map_cons, List.zip_cons_cons, List.foldl_cons]
    refine ⟨by rw [hlen, List.length_set], ?_⟩
    intro i
    rw [hget i]
    by_cases hmem : i ∈ missing
    · rw [if_pos hmem, if_pos (List.mem_cons_of_mem j hmem)]
    · rw [if_neg hmem]
      rcases eq_or_ne i j with rfl | hne
      · rw [if_pos List.mem_cons_self]
        simp [List.getD_eq_getElem?_getD, hj]
      · have hne' : ¬ (i ∈ j :: missing) := by simp [hne, hmem]
        rw [if_neg hne']
        simp [List.getD_eq_getElem?_getD, List.getElem?_set_ne (Ne.symm hne)]

/-- Decoding undoes encoding: the decode matrix applied to the shards of the valid rows gives back
the data. -/
theorem codeRow_decode (h : Generator ds (ds + ps) m) {data : List Bytes} {len : ℕ}
    (hdata : data.length = ds) (hlens : ∀ d ∈ data, d.length = len) {valid : List ℕ}
    (hvalid : valid.length = ds) {inv : Matrix} (hinv : Decodes ds m valid inv)
    {inputs : List Bytes} (hlen : inputs.length = ds)
    (hinputs : ∀ c < ds, inputs.getD c [] = codeRow (m.row (valid.getD c 0)) data len)
    {i : ℕ} (hi : i < ds) : codeRow (inv.row i) inputs len = data.getD i [] := by
  have hlen' : (data.getD i []).length = len := by
    rw [List.getD_eq_getElem?_getD, List.getElem?_eq_getElem (by omega), Option.getD_some]
    exact hlens _ (List.getElem_mem _)
  subst hdata
  refine List.ext_getElem (by rw [hlen', length_codeRow]) ?_
  intro x h1 h2
  have hx : x < len := by rwa [length_codeRow] at h1
  set d : Fin data.length → Gal := fun j => ⟨(data.getD j []).getD x 0⟩ with hd
  have hin : ∀ c : Fin data.length, (⟨(inputs.getD c []).getD x 0⟩ : Gal) =
      (subMat data.length m valid).mulVec d c := by
    intro c
    rw [hinputs c c.2, getD_codeRow hx, mk_dot]
    rfl
  have hdot : (⟨dot (inv.row i) inputs x⟩ : Gal) = d ⟨i, hi⟩ := by
    have hsum : (⟨dot (inv.row i) inputs x⟩ : Gal) =
        (inv.toMat data.length data.length).mulVec ((subMat data.length m valid).mulVec d) ⟨i, hi⟩ := by
      rw [mk_dot, Matrix.mulVec, dotProduct, Finset.sum_fin_eq_sum_range, Finset.sum_fin_eq_sum_range,
        hlen]
      apply Finset.sum_congr rfl
      intro c hc
      rw [Finset.mem_range] at hc
      rw [dif_pos (by omega), dif_pos hc, ← hin ⟨c, hc⟩]
      rfl
    rw [hsum, Matrix.mulVec_mulVec, hinv.mul, Matrix.one_mulVec]
  have hbyte : dot (inv.row i) inputs x = (data.getD i []).getD x 0 := congrArg Gal.byte hdot
  have hget : (data.getD i []).getD x 0 = (data.getD i [])[x] := by
    rw [List.getD_eq_getElem?_getD, List.getElem?_eq_getElem h2, Option.getD_some]
  simp only [codeRow, List.getElem_map, List.getElem_range, hbyte, hget]

private theorem restore_spec (h : codec.Ok ds ps m) {data shards : List Bytes} {len : ℕ}
    (hc : Coded ds ps m data len shards) {valid : List ℕ} (hvalid : valid.length = ds)
    (hpresent : ∀ i ∈ valid, i < ds + ps ∧ shards.getD i [] ≠ []) {inv : Matrix}
    (hinv : Decodes ds m valid inv) :
    codec.restore inv valid len shards = data ++ shards.drop ds := by
  have hlt : ∀ c < ds, valid.getD c 0 ∈ valid := by
    intro c hc'
    rw [List.getD_eq_getElem?_getD, List.getElem?_eq_getElem (by omega), Option.getD_some]
    exact List.getElem_mem _
  have hshard : ∀ i ∈ valid, shards.getD i [] = codeRow (m.row i) data len := fun i hi =>
    (hc.shard i (hpresent i hi).1).resolve_left (hpresent i hi).2
  set missing := (List.range ds).filter fun i => (shards.getD i []).isEmpty with hmissing
  have hmem : ∀ i, i ∈ missing ↔ i < ds ∧ shards.getD i [] = [] := by
    intro i
    rw [hmissing, List.mem_filter, List.mem_range, List.isEmpty_iff]
  set inputs := valid.map fun i => shards.getD i [] with hinputs
  have hinlen : inputs.length = ds := by rw [hinputs, List.length_map, hvalid]
  have hget : ∀ c < ds, inputs.getD c [] = codeRow (m.row (valid.getD c 0)) data len := by
    intro c hc'
    rw [← hshard _ (hlt c hc'), hinputs, List.getD_eq_getElem?_getD, List.getElem?_map,
      List.getElem?_eq_getElem (by omega), List.getD_eq_getElem?_getD (l := valid),
      List.getElem?_eq_getElem (by omega)]
    rfl
  have hcoded : codeSomeShards (missing.map inv.row) inputs
      (missing.map fun _ => List.replicate len 0) = missing.map fun i => data.getD i [] := by
    rw [@codeSomeShards_eq _ _ _ len]
    · rw [List.map_map]
      apply List.map_congr_left
      intro i hi
      exact codeRow_decode h.generator hc.data_length hc.lengths hvalid hinv hinlen hget
        ((hmem i).mp hi).1
    · intro hnil
      have hzero := congrArg List.length hnil
      have := h.pos
      simp only [List.length_nil] at hzero
      omega
    · intro input hin
      rw [hinputs] at hin
      obtain ⟨i, hi, rfl⟩ := List.mem_map.mp hin
      rw [hshard i hi, length_codeRow]
    · simp
    · intro output hout
      obtain ⟨i, -, rfl⟩ := List.mem_map.mp hout
      exact List.length_replicate
  obtain ⟨hlen, hres⟩ := getD_foldl_set missing (fun i => data.getD i []) shards fun i hi => by
    rw [hc.length]
    have := ((hmem i).mp hi).1
    omega
  unfold restore
  dsimp only
  rw [h.data, ← hmissing, ← hinputs, hcoded]
  have hds := hc.data_length
  have hls := hc.length
  refine List.ext_getElem ?_ ?_
  · rw [hlen, List.length_append, List.length_drop]
    omega
  · intro i h1 h2
    have hi : i < ds + ps := by
      have h1' := h1
      rw [hlen] at h1'
      omega
    have hleft := hres i
    rw [List.getD_eq_getElem?_getD, List.getElem?_eq_getElem h1, Option.getD_some] at hleft
    rw [hleft]
    by_cases hlt' : i < ds
    · rw [List.getElem_append_left (by omega)]
      have hdi : data.getD i [] = data[i] := by
        rw [List.getD_eq_getElem?_getD, List.getElem?_eq_getElem (by omega), Option.getD_some]
      split_ifs with hmiss
      · exact hdi
      · have hne : shards.getD i [] ≠ [] := fun hnil => hmiss ((hmem i).mpr ⟨hlt', hnil⟩)
        rw [(hc.shard i hi).resolve_left hne, codeRow_data h.generator hds hc.lengths hlt', hdi]
    · rw [if_neg (fun hmiss => hlt' ((hmem i).mp hmiss).1), List.getElem_append_right (by omega)]
      rw [List.getD_eq_getElem?_getD, List.getElem?_eq_getElem (by omega), Option.getD_some,
        List.getElem_drop]
      congr 1
      omega

theorem reconstructData_spec (h : codec.Ok ds ps m) {data shards : List Bytes} {len : ℕ}
    (hc : Coded ds ps m data len shards) (hcount : ds ≤ shards.countP fun s => !s.isEmpty) :
    (codec.reconstructData shards).2 = .ok (data ++ shards.drop ds) := by
  have hds := hc.data_length
  have hls := hc.length
  have hlens : ∀ n ∈ shards.map List.length, n = len ∨ (n = 0 ∧ true = true) := by
    intro n hn
    obtain ⟨s, hs, rfl⟩ := List.mem_map.mp hn
    obtain ⟨i, hi, rfl⟩ := List.mem_iff_getElem.mp hs
    have hshard := hc.shard i (by omega)
    rw [List.getD_eq_getElem?_getD, List.getElem?_eq_getElem hi, Option.getD_some] at hshard
    rcases hshard with hnil | hcode
    · exact .inr ⟨by rw [hnil, List.length_nil], rfl⟩
    · exact .inl (by rw [hcode, length_codeRow])
  have hexists : len ∈ shards.map List.length := by
    have hpos : 0 < shards.countP fun s => !s.isEmpty := lt_of_lt_of_le h.pos hcount
    obtain ⟨s, hs, hne⟩ := List.countP_pos_iff.mp hpos
    have hne' : s.length ≠ 0 := by simpa [List.length_eq_zero_iff] using hne
    have hmem := List.mem_map_of_mem (f := List.length) hs
    rcases hlens s.length hmem with heq | ⟨hz, -⟩
    · rwa [heq] at hmem
    · exact absurd hz hne'
  unfold reconstructData
  rw [if_neg (by rw [h.total, hls]; simp), checkShards_eq hc.pos hlens hexists]
  dsimp only
  split_ifs with hall hfew
  · -- every data shard is there
    have hdata : shards.take ds = data := by
      have hfull : ∀ s ∈ shards.take ds, s ≠ [] := by
        rw [h.total, h.data, ← hls] at hall
        rcases hall with hall | hall
        · intro s hs
          have := List.countP_eq_length.mp hall s (List.mem_of_mem_take hs)
          simpa using this
        · have hlen : (shards.take ds).length = ds := by
            rw [List.length_take]
            omega
          intro s hs
          have := List.countP_eq_length.mp (hall.trans hlen.symm) s hs
          simpa using this
      refine List.ext_getElem (by rw [List.length_take]; omega) ?_
      intro i h1 h2
      have hne := hfull _ (List.getElem_mem h1)
      have hi : i < ds := by omega
      rw [List.getElem_take] at hne ⊢
      have hget : shards.getD i [] = shards[i] := by
        rw [List.getD_eq_getElem?_getD, List.getElem?_eq_getElem (by omega), Option.getD_some]
      have hshard := (hc.shard i (by omega)).resolve_left (by rw [hget]; exact hne)
      rw [← hget, hshard, codeRow_data h.generator hds hc.lengths hi, List.getD_eq_getElem?_getD,
        List.getElem?_eq_getElem h2, Option.getD_some]
    rw [← hdata, List.take_append_drop]
  · rw [h.data] at hfew
    omega
  · obtain ⟨hvalid, hpresent, codec', inv, heq, hok, hdec⟩ :=
      rows_spec h (by rw [h.total, hls]) (not_lt.mp hfew)
    rw [heq]
    dsimp only
    rw [restore_spec hok hc hvalid hpresent hdec]

private theorem reconstructData_error (h : codec.Ok ds ps m) {shards : List Bytes}
    (hcount : (shards.countP fun s => !s.isEmpty) < ds)
    (hmissing : ∃ s ∈ shards.take ds, s = []) :
    ∃ e, (codec.reconstructData shards).2 = .error e := by
  unfold reconstructData
  split_ifs with hlen
  · exact ⟨_, rfl⟩
  · split
    · exact ⟨_, rfl⟩
    · dsimp only
      rw [h.total, h.data]
      rw [not_not, h.total] at hlen
      rw [if_neg, if_pos hcount]
      · exact ⟨_, rfl⟩
      · rintro (hall | hall)
        · omega
        · obtain ⟨s, hs, rfl⟩ := hmissing
          have htake : (shards.take ds).length = ds := by
            rw [List.length_take]
            omega
          have := List.countP_eq_length.mp (hall.trans htake.symm) [] hs
          simp at this

private theorem ok_run (h : codec.Ok ds ps m) (history : List (List Bytes)) :
    (run reconstructData codec history).1.Ok ds ps m :=
  run_invariant (fun c : Codec => c.Ok ds ps m) (fun _ => True)
    (fun _ shards _ hc => ok_reconstructData hc shards) (fun _ _ => trivial) h

def erase (erased : ℕ → Bool) (shards : List Bytes) : List Bytes :=
  shards.mapIdx fun i s => if erased i then [] else s

private theorem countP_erase (erased : ℕ → Bool) (shards : List Bytes)
    (hne : ∀ s ∈ shards, s ≠ []) :
    ((erase erased shards).countP fun s => !s.isEmpty) + (List.range shards.length).countP erased =
      shards.length := by
  induction shards using List.reverseRecOn with
  | nil => rfl
  | append_singleton shards s ih =>
    have hs := hne s (by simp)
    have ih := ih fun s' hs' => hne s' (List.mem_append_left _ hs')
    unfold erase at ih ⊢
    rw [List.length_append, List.length_singleton, List.range_succ, List.mapIdx_append,
      List.countP_append, List.countP_append]
    cases he : erased shards.length <;> simp [he, hs] <;> omega

/-- A codec restores whatever up to `ps` erasures destroy, whatever it has decoded before; beyond
that it reports an error when a data shard is missing. -/
theorem erasure_correction (ds ps : ℕ) (hds : 1 ≤ ds) (hps : 1 ≤ ps) (hsum : ds + ps ≤ 256) :
    ∃ codec, Codec.new ds ps = .ok codec ∧
      ∀ (history : List (List Bytes)) (data parity : List Bytes) (len : ℕ), 0 < len →
        data.length = ds → (∀ d ∈ data, d.length = len) →
        parity.length = ps → (∀ p ∈ parity, p.length = len) →
        let codec' := (run reconstructData codec history).1
        ∃ coded, codec'.encode (data ++ parity) = .ok coded ∧
          coded.take ds = data ∧ coded.length = ds + ps ∧
          ∀ erased : ℕ → Bool,
            let shards := erase erased coded
            let count := (List.range (ds + ps)).countP erased
            (count ≤ ps → (codec'.reconstructData shards).2 = .ok (data ++ shards.drop ds)) ∧
            (ps < count → (∃ i < ds, erased i = true) →
              ∃ e, (codec'.reconstructData shards).2 = .error e) := by
  obtain ⟨codec, m, hnew, hok⟩ := new_spec hds hps hsum
  refine ⟨codec, hnew, ?_⟩
  intro history data parity len hpos hdata hlens hparity hplens codec'
  have hok' : codec'.Ok ds ps m := ok_run hok history
  obtain ⟨coded, henc, hcoded, hget⟩ := encode_spec hok' hpos hdata hlens hparity hplens
  have hlen : coded.length = ds + ps := by
    rw [hcoded]
    simp [hdata]
  have hne : ∀ s ∈ coded, s ≠ [] := by
    intro s hs hnil
    obtain ⟨i, hi, rfl⟩ := List.mem_iff_getElem.mp hs
    have hrow := hget i (by omega)
    rw [List.getD_eq_getElem?_getD, List.getElem?_eq_getElem hi, Option.getD_some, hnil] at hrow
    have hlen' := congrArg List.length hrow
    rw [length_codeRow, List.length_nil] at hlen'
    omega
  refine ⟨coded, henc, by rw [hcoded, ← hdata, List.take_left], hlen, ?_⟩
  intro erased shards count
  have hcount : (shards.countP fun s => !s.isEmpty) + count = ds + ps := by
    have := countP_erase erased coded hne
    rwa [hlen] at this
  have hshard : ∀ i < ds + ps, shards.getD i [] = if erased i then [] else coded.getD i [] := by
    intro i hi
    have hi' : i < coded.length := by omega
    simp [shards, erase, List.getD_eq_getElem?_getD, List.getElem?_eq_getElem hi']
  constructor
  · intro hle
    refine reconstructData_spec hok' ⟨hpos, hdata, hlens, by simp [shards, erase, hlen], ?_⟩ (by omega)
    intro i hi
    rw [hshard i hi, hget i hi]
    split_ifs
    · exact .inl rfl
    · exact .inr rfl
  · intro hgt hmiss
    obtain ⟨i, hi, hei⟩ := hmiss
    refine reconstructData_error hok' (by omega) ⟨[], ?_, rfl⟩
    have hlt : i < (shards.take ds).length := by
      simp [shards, erase, hlen]
      omega
    refine List.mem_iff_getElem.mpr ⟨i, hlt, ?_⟩
    simp [shards, erase, hei]

/-- Two data shards and one parity shard, of which the first data shard is lost, after a call with
other shards that lost the second. -/
theorem erasure_correction_one : ∃ codec, Codec.new 2 1 = .ok codec ∧
    let codec' := (run reconstructData codec [[[9], [], [7]]]).1
    ∃ coded, codec'.encode [[1, 2], [3, 4], [0, 0]] = .ok coded ∧
      (codec'.reconstructData (erase (fun i => i == 0) coded)).2 =
        .ok ([[1, 2], [3, 4]] ++ (erase (fun i => i == 0) coded).drop 2) := by
  obtain ⟨codec, hnew, h⟩ := erasure_correction 2 1 (by decide) (by decide) (by decide)
  obtain ⟨coded, henc, -, -, hrec⟩ := h [[[9], [], [7]]] [[1, 2], [3, 4]] [[0, 0]] 2 (by decide) rfl
    (by simp) rfl (by simp)
  exact ⟨codec, hnew, coded, henc, (hrec fun i => i == 0).1 (by decide)⟩

end Codec

end Kcptun.Rs
