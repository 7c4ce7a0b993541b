/- Kcptun/Qpp/Pad
   source: crates/qpp/src/qpp.rs, crates/qpp/src/bigint.rs
   digest: The pads of a seed and their inverses: they are permutations of the byte values whatever
     the shuffle draws. -/

import Kcptun.Qpp.Prng
import Mathlib.Logic.Equiv.Basic
import Mathlib.Data.Fintype.EquivFin

set_option autoImplicit false
set_option relaxedAutoImplicit false

namespace Kcptun.Qpp

open Kcptun.Lib.LittleEndian

def SHUFFLE_SALT : String := "___QUANTUM_PERMUTATION_PAD_SHUFFLE_SALT___"
def CHUNK_DERIVE_SALT : String := "___QUANTUM_PERMUTATION_PAD_SEED_DERIVE___"
def CHUNK_DERIVE_LOOPS : ℕ := 1024
def QUBITS : ℕ := 8
def MATRIX_BYTES : ℕ := 256

/-- One permutation of the 256 byte values. -/
abbrev Matrix := Vector UInt8 MATRIX_BYTES

def position (b : UInt8) : Fin MATRIX_BYTES := ⟨b.toNat, b.toNat_lt⟩

def Matrix.at (pad : Matrix) (b : UInt8) : UInt8 := Vector.get pad (position b)

/-- Bits of a number; zero has none. -/
def bitLen (n : ℕ) : ℕ := if n = 0 then 0 else n.log2 + 1

/-- Bytes that hold as much entropy as the permutations of the words of `qubits` bits. -/
def qppMinimumSeedLength (qubits : ℕ) : ℕ :=
  let permsCount := if qubits < 64 then 2 ^ qubits else 0
  let perms := (List.range' 1 (permsCount - 1)).foldr (fun i perms => perms * i) permsCount
  let byteLen := (bitLen perms + 7) / 8
  if byteLen = 0 then 1 else byteLen

example : qppMinimumSeedLength QUBITS = 211 := by decide +kernel

def fillTo : (n : ℕ) → n < MATRIX_BYTES → Matrix
  | 0, _ => Vector.replicate MATRIX_BYTES 0
  | n + 1, h =>
    let pad := fillTo n (by omega)
    pad.set (n + 1) (pad.get ⟨n, by omega⟩ + 1)

def fill : Matrix := fillTo (MATRIX_BYTES - 1) (by decide)

/-- The 32-byte chunks the pads are derived from; the seed is read in a circle. -/
def seedToChunks (p : Primitives) (seed : Bytes) (qubits : ℕ) : List (Vector UInt8 32) :=
  let seed := if seed.length < 32 then
      (p.pbkdf2HmacSha1 seed (asBytes CHUNK_DERIVE_SALT) PBKDF2_LOOPS).toList
    else seed
  let chunkCount := max ((qppMinimumSeedLength qubits + 31) / 32) 1
  (List.range chunkCount).map fun k =>
    let chunk := (List.range 32).map fun j => seed.getD ((32 * k + j) % seed.length) 0
    p.pbkdf2HmacSha1 chunk (asBytes CHUNK_DERIVE_SALT) CHUNK_DERIVE_LOOPS

/-- A big-endian number modulo `m`, byte by byte. -/
def modBigEndian (sum : Bytes) (m : ℕ) (hm : 0 < m) : Fin m :=
  sum.foldl (fun rem b => ⟨(rem.val * 256 + b.toNat) % m, Nat.mod_lt _ hm⟩) ⟨0, hm⟩

def reencrypt (p : Primitives) (blocks : List (Vector UInt8 32)) (sum : Vector UInt8 32) :
    Vector UInt8 32 :=
  blocks.foldl (fun sum key =>
    p.aes256Encrypt key (Vector.cast rfl (sum.extract 0 16)) ++
      p.aes256Encrypt key (Vector.cast rfl (sum.extract 16 32))) sum

/-- The swap for entry `i + 1`: the other index comes from the running value. -/
def shuffleStep (p : Primitives) (blocks : List (Vector UInt8 32)) (i : Fin (MATRIX_BYTES - 1))
    (acc : Matrix × Vector UInt8 32) : Matrix × Vector UInt8 32 :=
  let sum := reencrypt p blocks acc.2
  let j := modBigEndian sum.toList (i.val + 1 + 1) (Nat.succ_pos _)
  (acc.1.swap (i.val + 1) j.val, sum)

def shuffle (p : Primitives) (chunk : Vector UInt8 32) (pad : Matrix) (padId : ℕ)
    (blocks : List (Vector UInt8 32)) : Matrix :=
  let message := asBytes ("QPP_" ++ String.ofList (Nat.toDigits 2 padId))
  let sum := p.hmacSha256 chunk.toList message
  ((List.finRange (MATRIX_BYTES - 1)).foldr (shuffleStep p blocks) (pad, sum)).1

def reverse (pad : Matrix) : Matrix :=
  (List.finRange MATRIX_BYTES).foldl
    (fun rpad i => rpad.set (position (Vector.get pad i)).val (UInt8.ofNat i.val))
    (Vector.replicate MATRIX_BYTES 0)

variable {pad : Matrix}

theorem position_injective : Function.Injective position := fun _ _ h =>
  UInt8.toNat_inj.mp (congrArg Fin.val h)

private theorem ofNat_position (b : UInt8) : UInt8.ofNat (position b).val = b := UInt8.ofNat_toNat

private theorem get_fillTo (n : ℕ) (hn : n < MATRIX_BYTES) (i : Fin MATRIX_BYTES) (hi : i.val ≤ n) :
    Vector.get (fillTo n hn) i = UInt8.ofNat i.val := by
  induction n generalizing i with
  | zero =>
    rw [Nat.le_zero.mp hi]
    exact Vector.getElem_replicate ..
  | succ n ih =>
    have hset : Vector.get (fillTo (n + 1) hn) i = if n + 1 = i.val then
        Vector.get (fillTo n (by omega)) ⟨n, by omega⟩ + 1
      else Vector.get (fillTo n (by omega)) i := Vector.getElem_set hn i.isLt
    rw [hset]
    split_ifs with heq
    · rw [← heq, ih _ _ le_rfl, UInt8.ofNat_add]
      rfl
    · exact ih _ i (by omega)

private theorem get_fill (i : Fin MATRIX_BYTES) : Vector.get fill i = UInt8.ofNat i.val :=
  get_fillTo _ _ i (Nat.le_pred_of_lt i.isLt)

private theorem fill_injective : Function.Injective (Vector.get fill) := by
  intro i j hij
  rw [get_fill, get_fill] at hij
  have hnat := congrArg UInt8.toNat hij
  rw [UInt8.toNat_ofNat', UInt8.toNat_ofNat'] at hnat
  have hi : i.val < 2 ^ 8 := i.isLt
  have hj : j.val < 2 ^ 8 := j.isLt
  exact Fin.ext (by omega)

private theorem get_swap (i j k : Fin MATRIX_BYTES) :
    Vector.get (pad.swap i.val j.val) k = Vector.get pad (Equiv.swap i j k) := by
  have hget : Vector.get (pad.swap i.val j.val) k =
      if k.val = i.val then pad.get j else if k.val = j.val then pad.get i else pad.get k :=
    Vector.getElem_swap ..
  rw [hget, Equiv.swap_apply_def]
  simp only [← Fin.ext_iff]
  split_ifs <;> rfl

private theorem swap_injective (h : Function.Injective (Vector.get pad)) (i j : Fin MATRIX_BYTES) :
    Function.Injective (Vector.get (pad.swap i.val j.val)) := by
  intro a b hab
  rw [get_swap, get_swap] at hab
  exact (Equiv.swap i j).injective (h hab)

private theorem shuffleStep_injective (p : Primitives) (blocks : List (Vector UInt8 32))
    (i : Fin (MATRIX_BYTES - 1)) {acc : Matrix × Vector UInt8 32}
    (h : Function.Injective (Vector.get acc.1)) :
    Function.Injective (Vector.get (shuffleStep p blocks i acc).1) :=
  swap_injective h ⟨i.val + 1, by omega⟩
    ⟨(modBigEndian (reencrypt p blocks acc.2).toList (i.val + 1 + 1) (Nat.succ_pos _)).val,
      by omega⟩

private theorem shuffle_injective (p : Primitives) (chunk : Vector UInt8 32)
    (h : Function.Injective (Vector.get pad)) (padId : ℕ) (blocks : List (Vector UInt8 32)) :
    Function.Injective (Vector.get (shuffle p chunk pad padId blocks)) := by
  unfold shuffle
  dsimp only
  induction List.finRange (MATRIX_BYTES - 1) with
  | nil => exact h
  | cons i is ih => exact shuffleStep_injective p blocks i ih

private theorem reverse_fold (h : Function.Injective (Vector.get pad))
    (is : List (Fin MATRIX_BYTES)) (rpad : Matrix) (b : UInt8)
    (hb : position b ∈ is ∨ rpad.at (pad.at b) = b) :
    Matrix.at (is.foldl (fun rpad i =>
      rpad.set (position (Vector.get pad i)).val (UInt8.ofNat i.val)) rpad) (pad.at b) = b := by
  induction is generalizing rpad with
  | nil => exact hb.resolve_left (List.not_mem_nil)
  | cons i is ih =>
    rw [List.foldl_cons]
    apply ih
    have hset : Matrix.at (rpad.set (position (Vector.get pad i)).val (UInt8.ofNat i.val))
        (pad.at b) = if (position (Vector.get pad i)).val = (position (pad.at b)).val then
          UInt8.ofNat i.val else rpad.at (pad.at b) := Vector.getElem_set ..
    rw [hset]
    by_cases hi : position b = i
    · right
      subst hi
      exact (if_pos rfl).trans (ofNat_position b)
    · refine hb.imp (fun hmem => (List.mem_cons.mp hmem).resolve_left hi) ?_
      intro hat
      rw [if_neg, hat]
      intro heq
      exact hi (h (position_injective (Fin.ext heq))).symm

private theorem reverse_at (h : Function.Injective (Vector.get pad)) (b : UInt8) :
    (reverse pad).at (pad.at b) = b :=
  reverse_fold h _ _ b (.inl (List.mem_finRange _))

/-- The permutations of a seed and their inverses, at least one. -/
structure QuantumPermutationPad where
  numPads : UInt16
  pads : Vector Matrix numPads.toNat
  rpads : Vector Matrix numPads.toNat
  encRand : Rand
  decRand : Rand
  numPads_pos : 0 < numPads.toNat
  rpads_at : ∀ (i : Fin numPads.toNat) (b : UInt8),
    Matrix.at (rpads.get i) (Matrix.at (pads.get i) b) = b

def seedPad (p : Primitives) (seed : Bytes) (i : ℕ) : Matrix :=
  let chunks := seedToChunks p seed QUBITS
  let blocks := chunks.map fun chunk =>
    p.pbkdf2HmacSha1 chunk.toList (asBytes SHUFFLE_SALT) PBKDF2_LOOPS
  shuffle p (chunks.getD (i % chunks.length) (Vector.replicate 32 0)) fill i blocks

private theorem seedPad_injective (p : Primitives) (seed : Bytes) (i : ℕ) :
    Function.Injective (Vector.get (seedPad p seed i)) :=
  shuffle_injective p _ fill_injective i _

def QuantumPermutationPad.new (p : Primitives) (seed : Bytes) (numPads : UInt16) :
    Option QuantumPermutationPad :=
  if h : 0 < numPads.toNat then
    some
      { numPads
        pads := Vector.ofFn fun i => seedPad p seed i.val
        rpads := Vector.ofFn fun i => reverse (seedPad p seed i.val)
        encRand := createPrng p seed
        decRand := createPrng p seed
        numPads_pos := h
        rpads_at := by
          intro i b
          have hpad : (Vector.ofFn fun i : Fin numPads.toNat => seedPad p seed i.val).get i =
              seedPad p seed i.val := Vector.getElem_ofFn ..
          have hrpad : (Vector.ofFn fun i : Fin numPads.toNat =>
              reverse (seedPad p seed i.val)).get i = reverse (seedPad p seed i.val) :=
            Vector.getElem_ofFn ..
          rw [hpad, hrpad]
          exact reverse_at (seedPad_injective p seed i.val) b }
  else none

theorem new_isSome_iff (p : Primitives) (seed : Bytes) (numPads : UInt16) :
    (QuantumPermutationPad.new p seed numPads).isSome ↔ numPads ≠ 0 := by
  unfold QuantumPermutationPad.new
  split_ifs with h
  · simp only [Option.isSome_some, true_iff]
    rintro rfl
    exact absurd h (by decide)
  · simp only [Option.isSome_none, Bool.false_eq_true, false_iff, not_not]
    apply UInt16.toNat_inj.mp
    simpa using h

end Kcptun.Qpp
