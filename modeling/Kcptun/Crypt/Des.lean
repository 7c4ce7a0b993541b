/- Kcptun/Crypt/Des
   source: crates/kcp/src/crypt/des.rs
   digest: DES and Triple DES with the permutations done by bit exchanges; the fused Triple DES is
     the composition of its three ciphers. -/

import Kcptun.Crypt.Cfb
import Kcptun.Lib.BigEndian
import Kcptun.Lib.Feistel
import Kcptun.Lib.XorLinear

set_option autoImplicit false
set_option relaxedAutoImplicit false

namespace Kcptun.Crypt.Des

open Kcptun.Lib Kcptun.Lib.LittleEndian Kcptun.Lib.BigEndian

def BLOCK_SIZE : ℕ := 8

/-- Why a cipher could not be made; `pkg` is its package. -/
inductive CryptError where
  | keySize (pkg : String) (size : ℕ)
  deriving DecidableEq, Repr

def INITIAL_PERMUTATION : List ℕ :=
  [6, 14, 22, 30, 38, 46, 54, 62,
    4, 12, 20, 28, 36, 44, 52, 60,
    2, 10, 18, 26, 34, 42, 50, 58,
    0, 8, 16, 24, 32, 40, 48, 56,
    7, 15, 23, 31, 39, 47, 55, 63,
    5, 13, 21, 29, 37, 45, 53, 61,
    3, 11, 19, 27, 35, 43, 51, 59,
    1, 9, 17, 25, 33, 41, 49, 57]

def FINAL_PERMUTATION : List ℕ :=
  [24, 56, 16, 48, 8, 40, 0, 32,
    25, 57, 17, 49, 9, 41, 1, 33,
    26, 58, 18, 50, 10, 42, 2, 34,
    27, 59, 19, 51, 11, 43, 3, 35,
    28, 60, 20, 52, 12, 44, 4, 36,
    29, 61, 21, 53, 13, 45, 5, 37,
    30, 62, 22, 54, 14, 46, 6, 38,
    31, 63, 23, 55, 15, 47, 7, 39]

def PERMUTATION_FUNCTION : List ℕ :=
  [16, 25, 12, 11, 3, 20, 4, 15,
    31, 17, 9, 6, 27, 14, 1, 22,
    30, 24, 8, 18, 0, 5, 29, 23,
    13, 19, 2, 26, 10, 21, 28, 7]

def PERMUTED_CHOICE1 : List ℕ :=
  [7, 15, 23, 31, 39, 47, 55, 63,
    6, 14, 22, 30, 38, 46, 54, 62,
    5, 13, 21, 29, 37, 45, 53, 61,
    4, 12, 20, 28, 1, 9, 17, 25,
    33, 41, 49, 57, 2, 10, 18, 26,
    34, 42, 50, 58, 3, 11, 19, 27,
    35, 43, 51, 59, 36, 44, 52, 60]

def PERMUTED_CHOICE2 : List ℕ :=
  [42, 39, 45, 32, 55, 51, 53, 28,
    41, 50, 35, 46, 33, 37, 44, 52,
    30, 48, 40, 49, 29, 36, 43, 54,
    15, 4, 25, 19, 9, 1, 26, 16,
    5, 11, 23, 8, 12, 7, 17, 0,
    22, 3, 10, 14, 6, 20, 27, 24]

def S_BOXES : List (List (List ℕ)) :=
  [[[14, 4, 13, 1, 2, 15, 11, 8, 3, 10, 6, 12, 5, 9, 0, 7],
      [0, 15, 7, 4, 14, 2, 13, 1, 10, 6, 12, 11, 9, 5, 3, 8],
      [4, 1, 14, 8, 13, 6, 2, 11, 15, 12, 9, 7, 3, 10, 5, 0],
      [15, 12, 8, 2, 4, 9, 1, 7, 5, 11, 3, 14, 10, 0, 6, 13]],
    [[15, 1, 8, 14, 6, 11, 3, 4, 9, 7, 2, 13, 12, 0, 5, 10],
      [3, 13, 4, 7, 15, 2, 8, 14, 12, 0, 1, 10, 6, 9, 11, 5],
      [0, 14, 7, 11, 10, 4, 13, 1, 5, 8, 12, 6, 9, 3, 2, 15],
      [13, 8, 10, 1, 3, 15, 4, 2, 11, 6, 7, 12, 0, 5, 14, 9]],
    [[10, 0, 9, 14, 6, 3, 15, 5, 1, 13, 12, 7, 11, 4, 2, 8],
      [13, 7, 0, 9, 3, 4, 6, 10, 2, 8, 5, 14, 12, 11, 15, 1],
      [13, 6, 4, 9, 8, 15, 3, 0, 11, 1, 2, 12, 5, 10, 14, 7],
      [1, 10, 13, 0, 6, 9, 8, 7, 4, 15, 14, 3, 11, 5, 2, 12]],
    [[7, 13, 14, 3, 0, 6, 9, 10, 1, 2, 8, 5, 11, 12, 4, 15],
      [13, 8, 11, 5, 6, 15, 0, 3, 4, 7, 2, 12, 1, 10, 14, 9],
      [10, 6, 9, 0, 12, 11, 7, 13, 15, 1, 3, 14, 5, 2, 8, 4],
      [3, 15, 0, 6, 10, 1, 13, 8, 9, 4, 5, 11, 12, 7, 2, 14]],
    [[2, 12, 4, 1, 7, 10, 11, 6, 8, 5, 3, 15, 13, 0, 14, 9],
      [14, 11, 2, 12, 4, 7, 13, 1, 5, 0, 15, 10, 3, 9, 8, 6],
      [4, 2, 1, 11, 10, 13, 7, 8, 15, 9, 12, 5, 6, 3, 0, 14],
      [11, 8, 12, 7, 1, 14, 2, 13, 6, 15, 0, 9, 10, 4, 5, 3]],
    [[12, 1, 10, 15, 9, 2, 6, 8, 0, 13, 3, 4, 14, 7, 5, 11],
      [10, 15, 4, 2, 7, 12, 9, 5, 6, 1, 13, 14, 0, 11, 3, 8],
      [9, 14, 15, 5, 2, 8, 12, 3, 7, 0, 4, 10, 1, 13, 11, 6],
      [4, 3, 2, 12, 9, 5, 15, 10, 11, 14, 1, 7, 6, 0, 8, 13]],
    [[4, 11, 2, 14, 15, 0, 8, 13, 3, 12, 9, 7, 5, 10, 6, 1],
      [13, 0, 11, 7, 4, 9, 1, 10, 14, 3, 5, 12, 2, 15, 8, 6],
      [1, 4, 11, 13, 12, 3, 7, 14, 10, 15, 6, 8, 0, 5, 9, 2],
      [6, 11, 13, 8, 1, 4, 10, 7, 9, 5, 0, 15, 14, 2, 3, 12]],
    [[13, 2, 8, 4, 6, 15, 11, 1, 10, 9, 3, 14, 5, 0, 12, 7],
      [1, 15, 13, 8, 10, 3, 7, 4, 12, 5, 6, 11, 0, 14, 9, 2],
      [7, 11, 4, 1, 9, 12, 14, 2, 0, 6, 10, 13, 15, 3, 5, 8],
      [2, 1, 14, 7, 4, 10, 8, 13, 15, 12, 9, 0, 3, 5, 6, 11]]]

def KS_ROTATIONS : List ℕ := [1, 1, 2, 2, 2, 2, 2, 2, 1, 2, 2, 2, 2, 2, 2, 1]

def permuteBlock (src : BitVec 64) (permutation : List ℕ) : BitVec 64 :=
  (List.range permutation.length).foldl (fun block position =>
    block ||| (src >>> permutation.getD position 0 &&& 1) <<<
      (permutation.length - 1 - position)) 0

/-- The entry of the combined table for row `i` and column `j` of a substitution box. -/
def feistelEntry (s i j : ℕ) : BitVec 32 :=
  let f := BitVec.ofNat 64 (((S_BOXES.getD s []).getD i []).getD j 0) <<< (4 * (7 - s))
  let f := permuteBlock f PERMUTATION_FUNCTION
  -- the rotation factored out of the rounds
  (f <<< 1 ||| f >>> 31).setWidth 32

/-- Row and column of an entry as its index: the row is the first and the last bit. -/
def feistelIndex (i j : ℕ) : ℕ := ((i &&& 2) <<< 4 ||| i &&& 1) ||| j <<< 1

def initFeistelBox : List (List (BitVec 32)) :=
  (List.range 8).map fun s =>
    (List.range 4).foldl (fun box i =>
      (List.range 16).foldl (fun box j => box.set (feistelIndex i j) (feistelEntry s i j)) box)
      (List.replicate 64 0)

def FEISTEL_BOX : List (List (BitVec 32)) := initFeistelBox

def sb (s : ℕ) (t : BitVec 32) : BitVec 32 :=
  (FEISTEL_BOX.getD s []).getD (t &&& 0x3f).toNat 0

def roundOutput (k : BitVec 64) (r : BitVec 32) : BitVec 32 :=
  let t := r ^^^ (k >>> 32).setWidth 32
  let t' := r.rotateLeft 28 ^^^ k.setWidth 32
  (sb 7 t ^^^ sb 5 (t >>> 8) ^^^ sb 3 (t >>> 16) ^^^ sb 1 (t >>> 24)) ^^^
    (sb 6 t' ^^^ sb 4 (t' >>> 8) ^^^ sb 2 (t' >>> 16) ^^^ sb 0 (t' >>> 24))

def feistel (l r : BitVec 32) (k0 k1 : BitVec 64) : BitVec 32 × BitVec 32 :=
  let l := l ^^^ roundOutput k0 r
  let r := r ^^^ roundOutput k1 l
  (l, r)

section Permutations

variable (block : BitVec 64)

def swapEnds : BitVec 64 :=
  let b1 := block >>> 48
  let b2 := block <<< 48
  block ^^^ (b1 ^^^ b2 ^^^ b1 <<< 48 ^^^ b2 >>> 48)

def swapBytes : BitVec 64 :=
  let b1 := block >>> 32 &&& 0xff00ff
  let b2 := block &&& 0xff00ff00
  block ^^^ (b1 <<< 32 ^^^ b2 ^^^ b1 <<< 8 ^^^ b2 <<< 24)

def swapNibbles : BitVec 64 :=
  let b1 := block &&& 0x0f0f00000f0f0000
  let b2 := block &&& 0x0000f0f00000f0f0
  block ^^^ (b1 ^^^ b2 ^^^ b1 >>> 12 ^^^ b2 <<< 12)

def swapPairs : BitVec 64 :=
  let b1 := block &&& 0x3300330033003300
  let b2 := block &&& 0x00cc00cc00cc00cc
  block ^^^ (b1 ^^^ b2 ^^^ b1 >>> 6 ^^^ b2 <<< 6)

def swapBits : BitVec 64 :=
  let b1 := block &&& 0xaaaaaaaa55555555
  block ^^^ (b1 ^^^ b1 >>> 33 ^^^ b1 <<< 33)

def permuteInitialBlock : BitVec 64 :=
  swapBits (swapPairs (swapNibbles (swapBytes (swapEnds block))))

def permuteFinalBlock : BitVec 64 :=
  swapEnds (swapBytes (swapNibbles (swapPairs (swapBits block))))

end Permutations

def ksRotate (input : BitVec 32) : List (BitVec 32) :=
  (KS_ROTATIONS.foldl (fun (acc : List (BitVec 32) × BitVec 32) rot =>
    let left := acc.2 <<< (4 + rot) >>> 4
    let right := acc.2 <<< 4 >>> (32 - rot)
    (acc.1 ++ [left ||| right], left ||| right)) ([], input)).1

/-- Pads every six bits by two, in the order of the substitution boxes. -/
def unpack (x : BitVec 64) : BitVec 64 :=
  (x >>> 6 &&& 0xff) ||| (x >>> (6 * 3) &&& 0xff) <<< 8 ||| (x >>> (6 * 5) &&& 0xff) <<< (8 * 2) |||
    (x >>> (6 * 7) &&& 0xff) <<< (8 * 3) ||| (x &&& 0xff) <<< (8 * 4) |||
    (x >>> (6 * 2) &&& 0xff) <<< (8 * 5) ||| (x >>> (6 * 4) &&& 0xff) <<< (8 * 6) |||
    (x >>> (6 * 6) &&& 0xff) <<< (8 * 7)

structure DesCipher where
  subkeys : Vector (BitVec 64) 16

/-- `u64::from_be_bytes`. -/
def fromBeBytes (block : Block BLOCK_SIZE) : BitVec 64 := BitVec.ofNat 64 (ofBe block.val)

/-- `u64::to_be_bytes`. -/
def toBeBytes (word : BitVec 64) : Block BLOCK_SIZE := ⟨toBe 8 word.toNat, length_toBe 8 _⟩

def DesCipher.generateSubkeys (keyBytes : Block 8) : DesCipher :=
  let permutedKey := permuteBlock (fromBeBytes keyBytes) PERMUTED_CHOICE1
  let leftRotations := ksRotate ((permutedKey >>> 28).setWidth 32)
  let rightRotations := ksRotate ((permutedKey <<< 4).setWidth 32 >>> 4)
  { subkeys := Vector.ofFn fun i =>
      let pc2Input := (leftRotations.getD i 0).setWidth 64 <<< 28 |||
        (rightRotations.getD i 0).setWidth 64
      unpack (permuteBlock pc2Input PERMUTED_CHOICE2) }

def DesCipher.newCipher (key : Bytes) : Except CryptError DesCipher :=
  if h : key.length = 8 then .ok (generateSubkeys ⟨key, h⟩)
  else .error (.keySize "des" key.length)

def DesCipher.subkey (c : DesCipher) (i : Fin 16) : BitVec 64 := c.subkeys.get i

def DesCipher.forwards (c : DesCipher) (p : BitVec 32 × BitVec 32) : BitVec 32 × BitVec 32 :=
  (List.finRange 8).foldl (fun p (i : Fin 8) =>
    feistel p.1 p.2 (c.subkey ⟨2 * i, by omega⟩) (c.subkey ⟨2 * i + 1, by omega⟩)) p

def DesCipher.backwards (c : DesCipher) (p : BitVec 32 × BitVec 32) : BitVec 32 × BitVec 32 :=
  (List.finRange 8).foldl (fun p (i : Fin 8) =>
    feistel p.1 p.2 (c.subkey ⟨15 - 2 * i, by omega⟩)
      (c.subkey ⟨15 - (2 * i + 1), by omega⟩)) p

/-- The two halves of a block after the initial permutation, rotated for the rounds. -/
def halves (block : Block BLOCK_SIZE) : BitVec 32 × BitVec 32 :=
  let b := permuteInitialBlock (fromBeBytes block)
  (((b >>> 32).setWidth 32).rotateLeft 1, (b.setWidth 32).rotateLeft 1)

/-- The block of two halves, exchanged and permuted finally. -/
def ofHalves (p : BitVec 32 × BitVec 32) : Block BLOCK_SIZE :=
  let preOutput := (p.2.rotateRight 1).setWidth 64 <<< 32 ||| (p.1.rotateRight 1).setWidth 64
  toBeBytes (permuteFinalBlock preOutput)

def cryptBlock (c : DesCipher) (block : Block BLOCK_SIZE) (decrypt : Bool) : Block BLOCK_SIZE :=
  ofHalves (if decrypt then c.backwards (halves block) else c.forwards (halves block))

def DesCipher.encrypt (c : DesCipher) (block : Block BLOCK_SIZE) : Block BLOCK_SIZE :=
  cryptBlock c block false

def DesCipher.decrypt (c : DesCipher) (block : Block BLOCK_SIZE) : Block BLOCK_SIZE :=
  cryptBlock c block true

structure TripleDesCipher where
  cipher1 : DesCipher
  cipher2 : DesCipher
  cipher3 : DesCipher

namespace TripleDesCipher

def newTripleDesCipher (key : Bytes) : Except CryptError TripleDesCipher :=
  if h : key.length = 24 then
    .ok
      { cipher1 := .generateSubkeys ⟨key.take 8, by simp [h]⟩
        cipher2 := .generateSubkeys ⟨(key.drop 8).take 8, by simp [h]⟩
        cipher3 := .generateSubkeys ⟨(key.drop 16).take 8, by simp [h]⟩ }
  else .error (.keySize "des" key.length)

variable (t : TripleDesCipher)

/-- The passes of the middle cipher run with the halves in each other's place. -/
def encrypt (block : Block BLOCK_SIZE) : Block BLOCK_SIZE :=
  let p := t.cipher1.forwards (halves block)
  let p := (t.cipher2.backwards (p.2, p.1)).swap
  ofHalves (t.cipher3.forwards p)

def decrypt (block : Block BLOCK_SIZE) : Block BLOCK_SIZE :=
  let p := t.cipher3.backwards (halves block)
  let p := (t.cipher2.forwards (p.2, p.1)).swap
  ofHalves (t.cipher1.backwards p)

end TripleDesCipher

section Permutations

private theorem swapEnds_linear : XorLinear swapEnds :=
  XorLinear.id.xor ((((XorLinear.id.shiftRight 48).xor (XorLinear.id.shiftLeft 48)).xor
    ((XorLinear.id.shiftRight 48).shiftLeft 48)).xor ((XorLinear.id.shiftLeft 48).shiftRight 48))

private theorem swapBytes_linear : XorLinear swapBytes := by
  have hb1 : XorLinear fun block : BitVec 64 => block >>> 32 &&& 0xff00ff :=
    (XorLinear.id.shiftRight 32).and _
  have hb2 : XorLinear fun block : BitVec 64 => block &&& 0xff00ff00 := XorLinear.id.and _
  exact XorLinear.id.xor ((((hb1.shiftLeft 32).xor hb2).xor (hb1.shiftLeft 8)).xor
    (hb2.shiftLeft 24))

private theorem exchange_linear (mask1 mask2 : BitVec 64) (k : ℕ) :
    XorLinear fun block : BitVec 64 => block ^^^ (block &&& mask1 ^^^ block &&& mask2 ^^^
      (block &&& mask1) >>> k ^^^ (block &&& mask2) <<< k) := by
  have hb1 : XorLinear fun block : BitVec 64 => block &&& mask1 := XorLinear.id.and _
  have hb2 : XorLinear fun block : BitVec 64 => block &&& mask2 := XorLinear.id.and _
  exact XorLinear.id.xor (((hb1.xor hb2).xor (hb1.shiftRight k)).xor (hb2.shiftLeft k))

private theorem swapNibbles_linear : XorLinear swapNibbles := exchange_linear _ _ 12

private theorem swapPairs_linear : XorLinear swapPairs := exchange_linear _ _ 6

private theorem swapBits_linear : XorLinear swapBits := by
  have hb1 : XorLinear fun block : BitVec 64 => block &&& 0xaaaaaaaa55555555 := XorLinear.id.and _
  exact XorLinear.id.xor ((hb1.xor (hb1.shiftRight 33)).xor (hb1.shiftLeft 33))

/-- On the words with one bit set every exchange undoes itself, and the exchanges together are the
permutations of the tables. -/
private theorem exchanges_twoPow : ∀ k : Fin 64,
    swapEnds (swapEnds (BitVec.twoPow 64 k)) = BitVec.twoPow 64 k ∧
    swapBytes (swapBytes (BitVec.twoPow 64 k)) = BitVec.twoPow 64 k ∧
    swapNibbles (swapNibbles (BitVec.twoPow 64 k)) = BitVec.twoPow 64 k ∧
    swapPairs (swapPairs (BitVec.twoPow 64 k)) = BitVec.twoPow 64 k ∧
    swapBits (swapBits (BitVec.twoPow 64 k)) = BitVec.twoPow 64 k ∧
    permuteInitialBlock (BitVec.twoPow 64 k) =
      permuteBlock (BitVec.twoPow 64 k) INITIAL_PERMUTATION ∧
    permuteFinalBlock (BitVec.twoPow 64 k) =
      permuteBlock (BitVec.twoPow 64 k) FINAL_PERMUTATION := by
  decide +kernel

private theorem swapEnds_involutive : Function.Involutive swapEnds :=
  swapEnds_linear.involutive fun k => (exchanges_twoPow k).1

private theorem swapBytes_involutive : Function.Involutive swapBytes :=
  swapBytes_linear.involutive fun k => (exchanges_twoPow k).2.1

private theorem swapNibbles_involutive : Function.Involutive swapNibbles :=
  swapNibbles_linear.involutive fun k => (exchanges_twoPow k).2.2.1

private theorem swapPairs_involutive : Function.Involutive swapPairs :=
  swapPairs_linear.involutive fun k => (exchanges_twoPow k).2.2.2.1

private theorem swapBits_involutive : Function.Involutive swapBits :=
  swapBits_linear.involutive fun k => (exchanges_twoPow k).2.2.2.2.1

private theorem permuteFinalBlock_permuteInitialBlock (block : BitVec 64) :
    permuteFinalBlock (permuteInitialBlock block) = block := by
  rw [permuteFinalBlock, permuteInitialBlock, swapBits_involutive, swapPairs_involutive,
    swapNibbles_involutive, swapBytes_involutive, swapEnds_involutive]

private theorem permuteInitialBlock_permuteFinalBlock (block : BitVec 64) :
    permuteInitialBlock (permuteFinalBlock block) = block := by
  rw [permuteFinalBlock, permuteInitialBlock, swapEnds_involutive, swapBytes_involutive,
    swapNibbles_involutive, swapPairs_involutive, swapBits_involutive]

private theorem getLsbD_permuteBlock (src : BitVec 64) {permutation : List ℕ}
    (h : permutation.length ≤ 64) (i : ℕ) :
    (permuteBlock src permutation).getLsbD i = (decide (i < permutation.length) &&
      src.getLsbD (permutation.getD (permutation.length - 1 - i) 0)) := by
  have hone (k : ℕ) : BitVec.getLsbD (1 : BitVec 64) k = decide (k = 0) := by
    rw [show (1 : BitVec 64) = 1#64 from rfl, BitVec.getLsbD_one]
    simp
  have hfold (n : ℕ) (hn : n ≤ permutation.length) :
      ((List.range n).foldl (fun block position => block |||
        (src >>> permutation.getD position 0 &&& 1) <<<
          (permutation.length - 1 - position)) (0 : BitVec 64)).getLsbD i =
      (decide (i < permutation.length ∧ permutation.length ≤ i + n) &&
        src.getLsbD (permutation.getD (permutation.length - 1 - i) 0)) := by
    induction n with
    | zero =>
      have hnone : ¬(i < permutation.length ∧ permutation.length ≤ i + 0) := by omega
      rw [decide_eq_false hnone]
      simp
    | succ n ih =>
      rw [List.range_succ, List.foldl_append, List.foldl_cons, List.foldl_nil, BitVec.getLsbD_or,
        ih (by omega), BitVec.getLsbD_shiftLeft, BitVec.getLsbD_and, BitVec.getLsbD_ushiftRight,
        hone]
      by_cases hbit : i = permutation.length - 1 - n
      · have hin : i < permutation.length ∧ permutation.length ≤ i + (n + 1) := by omega
        have hplace : permutation.length - 1 - i = n := by omega
        have hi : i < 64 := by omega
        simp [hin, hplace, ← hbit, hi]
      · have hiff : (i < permutation.length ∧ permutation.length ≤ i + (n + 1)) ↔
            (i < permutation.length ∧ permutation.length ≤ i + n) := by omega
        simp only [hiff]
        rcases Nat.lt_or_ge i (permutation.length - 1 - n) with hlt | hge
        · simp [hlt]
        · have hne : i - (permutation.length - 1 - n) ≠ 0 := by omega
          simp [hne]
  have hall := hfold permutation.length le_rfl
  have hiff : (i < permutation.length ∧ permutation.length ≤ i + permutation.length) ↔
      i < permutation.length := by omega
  simp only [hiff] at hall
  exact hall

private theorem permuteBlock_linear {permutation : List ℕ} (h : permutation.length ≤ 64) :
    XorLinear fun src => permuteBlock src permutation := by
  intro x y
  apply BitVec.eq_of_getLsbD_eq
  intro i _
  rw [BitVec.getLsbD_xor, getLsbD_permuteBlock _ h, getLsbD_permuteBlock _ h,
    getLsbD_permuteBlock _ h, BitVec.getLsbD_xor, Bool.and_xor_distrib_left]

theorem permuteInitialBlock_eq (block : BitVec 64) :
    permuteInitialBlock block = permuteBlock block INITIAL_PERMUTATION :=
  (swapBits_linear.comp (swapPairs_linear.comp (swapNibbles_linear.comp
    (swapBytes_linear.comp swapEnds_linear)))).ext_twoPow
    (permuteBlock_linear (by decide)) (fun k => (exchanges_twoPow k).2.2.2.2.2.1) block

theorem permuteFinalBlock_eq (block : BitVec 64) :
    permuteFinalBlock block = permuteBlock block FINAL_PERMUTATION :=
  (swapEnds_linear.comp (swapBytes_linear.comp (swapNibbles_linear.comp
    (swapPairs_linear.comp swapBits_linear)))).ext_twoPow
    (permuteBlock_linear (by decide)) (fun k => (exchanges_twoPow k).2.2.2.2.2.2) block

end Permutations

section Blocks

private theorem toBeBytes_fromBeBytes (block : Block BLOCK_SIZE) :
    toBeBytes (fromBeBytes block) = block := by
  have hlen : block.val.length = 8 := block.2
  have hlt : ofBe block.val < 2 ^ 64 := by
    have h := ofBe_lt block.val
    rw [hlen] at h
    exact h
  apply Subtype.ext
  change toBe 8 (BitVec.ofNat 64 (ofBe block.val)).toNat = block.val
  rw [BitVec.toNat_ofNat, Nat.mod_eq_of_lt hlt, ← hlen, toBe_ofBe]

private theorem fromBeBytes_toBeBytes (word : BitVec 64) : fromBeBytes (toBeBytes word) = word := by
  have hlt : word.toNat < 256 ^ 8 := word.isLt
  change BitVec.ofNat 64 (ofBe (toBe 8 word.toNat)) = word
  rw [ofBe_toBe hlt, BitVec.ofNat_toNat, BitVec.setWidth_eq]

private theorem high_half (a b : BitVec 32) :
    ((a.setWidth 64 <<< 32 ||| b.setWidth 64) >>> 32).setWidth 32 = a := by
  apply BitVec.eq_of_getLsbD_eq
  intro i hi
  have hlow : i < 64 := by omega
  have hhigh : 32 + i < 64 := by omega
  simp [hi, hlow, hhigh]

private theorem low_half (a b : BitVec 32) :
    (a.setWidth 64 <<< 32 ||| b.setWidth 64).setWidth 32 = b := by
  apply BitVec.eq_of_getLsbD_eq
  intro i hi
  simp [hi]

private theorem join_halves (x : BitVec 64) :
    ((x >>> 32).setWidth 32).setWidth 64 <<< 32 ||| (x.setWidth 32).setWidth 64 = x := by
  apply BitVec.eq_of_getLsbD_eq
  intro i hi
  by_cases h : i < 32
  · simp [h, hi]
  · have hsub : 32 + (i - 32) = i := by omega
    simp [h, hi, hsub]
    omega

private theorem rotateLeft_rotateRight (x : BitVec 32) : (x.rotateRight 1).rotateLeft 1 = x := by
  apply BitVec.eq_of_getLsbD_eq
  intro i hi
  rw [BitVec.getLsbD_rotateLeft, BitVec.getLsbD_rotateRight]
  by_cases hzero : i = 0
  · simp [hzero]
  · have hback : 1 + (i - 1) = i := by omega
    have hin : i - 1 < 31 := by omega
    simp [hzero, hback, hin, hi]

private theorem rotateRight_rotateLeft (x : BitVec 32) : (x.rotateLeft 1).rotateRight 1 = x := by
  apply BitVec.eq_of_getLsbD_eq
  intro i hi
  rw [BitVec.getLsbD_rotateRight, BitVec.getLsbD_rotateLeft]
  by_cases hlast : i < 31
  · have hin : 1 + i < 32 := by omega
    simp [hlast, hin]
  · have htop : i = 31 := by omega
    simp [htop]

private theorem halves_ofHalves (p : BitVec 32 × BitVec 32) : halves (ofHalves p) = p.swap := by
  obtain ⟨left, right⟩ := p
  unfold halves ofHalves
  dsimp only
  rw [fromBeBytes_toBeBytes, permuteInitialBlock_permuteFinalBlock, high_half, low_half,
    rotateLeft_rotateRight, rotateLeft_rotateRight]
  rfl

private theorem ofHalves_halves (block : Block BLOCK_SIZE) :
    ofHalves (halves block).swap = block := by
  unfold halves ofHalves
  dsimp only [Prod.swap]
  rw [rotateRight_rotateLeft, rotateRight_rotateLeft, join_halves,
    permuteFinalBlock_permuteInitialBlock, toBeBytes_fromBeBytes]

end Blocks

namespace DesCipher

variable (c : DesCipher)

/-- The subkeys of the rounds, two by two. -/
def keyPairs : List (BitVec 64 × BitVec 64) :=
  (List.finRange 8).map fun (i : Fin 8) =>
    (c.subkey ⟨2 * i, by omega⟩, c.subkey ⟨2 * i + 1, by omega⟩)

private theorem forwards_eq (p : BitVec 32 × BitVec 32) :
    c.forwards p = Feistel.rounds (· ^^^ ·) roundOutput c.keyPairs p := by
  rw [Feistel.rounds, keyPairs, List.foldl_map]
  rfl

private theorem backwards_eq (p : BitVec 32 × BitVec 32) :
    c.backwards p = Feistel.rounds (· ^^^ ·) roundOutput (Feistel.backwards c.keyPairs) p := by
  rfl

private theorem xor_cancel (a b : BitVec 32) : a ^^^ b ^^^ b = a := by
  rw [BitVec.xor_assoc, BitVec.xor_self, BitVec.xor_zero]

private theorem backwards_forwards (p : BitVec 32 × BitVec 32) :
    c.backwards (c.forwards p).swap = p.swap := by
  rw [backwards_eq, forwards_eq, Feistel.rounds_undo roundOutput xor_cancel]

private theorem forwards_backwards (p : BitVec 32 × BitVec 32) :
    c.forwards (c.backwards p).swap = p.swap := by
  rw [backwards_eq, forwards_eq, Feistel.rounds_redo roundOutput xor_cancel]

private theorem decrypt_encrypt (block : Block BLOCK_SIZE) :
    c.decrypt (c.encrypt block) = block := by
  change ofHalves (c.backwards (halves (ofHalves (c.forwards (halves block))))) = block
  rw [halves_ofHalves, backwards_forwards, ofHalves_halves]

private theorem encrypt_decrypt (block : Block BLOCK_SIZE) :
    c.encrypt (c.decrypt block) = block := by
  change ofHalves (c.forwards (halves (ofHalves (c.backwards (halves block))))) = block
  rw [halves_ofHalves, forwards_backwards, ofHalves_halves]

example : (DesCipher.generateSubkeys ⟨[0x13, 0x34, 0x57, 0x79, 0x9b, 0xbc, 0xdf, 0xf1], rfl⟩).encrypt
    ⟨[0x01, 0x23, 0x45, 0x67, 0x89, 0xab, 0xcd, 0xef], rfl⟩ =
      ⟨[0x85, 0xe8, 0x13, 0x54, 0x0f, 0x0a, 0xb4, 0x05], rfl⟩ := by
  decide +kernel

end DesCipher

namespace TripleDesCipher

variable (t : TripleDesCipher)

private theorem encrypt_eq (block : Block BLOCK_SIZE) :
    t.encrypt block = t.cipher3.encrypt (t.cipher2.decrypt (t.cipher1.encrypt block)) := by
  change _ = ofHalves (t.cipher3.forwards (halves (ofHalves (t.cipher2.backwards
    (halves (ofHalves (t.cipher1.forwards (halves block))))))))
  rw [halves_ofHalves, halves_ofHalves]
  rfl

private theorem decrypt_eq (block : Block BLOCK_SIZE) :
    t.decrypt block = t.cipher1.decrypt (t.cipher2.encrypt (t.cipher3.decrypt block)) := by
  change _ = ofHalves (t.cipher1.backwards (halves (ofHalves (t.cipher2.forwards
    (halves (ofHalves (t.cipher3.backwards (halves block))))))))
  rw [halves_ofHalves, halves_ofHalves]
  rfl

private theorem decrypt_encrypt (block : Block BLOCK_SIZE) :
    t.decrypt (t.encrypt block) = block := by
  rw [encrypt_eq, decrypt_eq, DesCipher.decrypt_encrypt, DesCipher.encrypt_decrypt,
    DesCipher.decrypt_encrypt]

private theorem encrypt_decrypt (block : Block BLOCK_SIZE) :
    t.encrypt (t.decrypt block) = block := by
  rw [encrypt_eq, decrypt_eq, DesCipher.encrypt_decrypt, DesCipher.decrypt_encrypt,
    DesCipher.encrypt_decrypt]

end TripleDesCipher

/-- The fused cipher of three keys is the composition of the three ciphers, and each direction
undoes the other; the two permutations are inverse to each other. -/
theorem triple_des_composes (k1 k2 k3 : Block 8) :
    (∃ t c1 c2 c3, TripleDesCipher.newTripleDesCipher (k1.val ++ k2.val ++ k3.val) = .ok t ∧
      DesCipher.newCipher k1.val = .ok c1 ∧ DesCipher.newCipher k2.val = .ok c2 ∧
      DesCipher.newCipher k3.val = .ok c3 ∧
      ∀ block : Block BLOCK_SIZE,
        t.encrypt block = cryptBlock c3 (cryptBlock c2 (cryptBlock c1 block false) true) false ∧
        t.decrypt (t.encrypt block) = block ∧ t.encrypt (t.decrypt block) = block) ∧
    ∀ word : BitVec 64, permuteFinalBlock (permuteInitialBlock word) = word ∧
      permuteInitialBlock (permuteFinalBlock word) = word := by
  have h1 : k1.val.length = 8 := k1.2
  have h2 : k2.val.length = 8 := k2.2
  have h3 : k3.val.length = 8 := k3.2
  have hlen : (k1.val ++ k2.val ++ k3.val).length = 24 := by simp [h1, h2, h3]
  have htake1 : (k1.val ++ k2.val ++ k3.val).take 8 = k1.val := by simp [h1]
  have htake2 : ((k1.val ++ k2.val ++ k3.val).drop 8).take 8 = k2.val := by simp [h1, h2]
  have hfront : (k1.val ++ k2.val).length = 16 := by simp [h1, h2]
  have htake3 : ((k1.val ++ k2.val ++ k3.val).drop 16).take 8 = k3.val := by
    rw [List.drop_left' hfront, List.take_of_length_le h3.le]
  refine ⟨⟨⟨.generateSubkeys k1, .generateSubkeys k2, .generateSubkeys k3⟩, .generateSubkeys k1,
    .generateSubkeys k2, .generateSubkeys k3, ?_, dif_pos h1, dif_pos h2, dif_pos h3,
    fun block => ⟨TripleDesCipher.encrypt_eq _ block, TripleDesCipher.decrypt_encrypt _ block,
      TripleDesCipher.encrypt_decrypt _ block⟩⟩,
    fun word => ⟨permuteFinalBlock_permuteInitialBlock word,
      permuteInitialBlock_permuteFinalBlock word⟩⟩
  rw [TripleDesCipher.newTripleDesCipher, dif_pos hlen]
  simp only [htake1, htake2, htake3]

end Kcptun.Crypt.Des
