/- Kcptun/Qpp/Prng
   source: crates/qpp/src/prng.rs
   digest: The generator of a pad stream: xoshiro256** state, the word being consumed, and how
     many of its bytes are gone. -/

import Kcptun.Lib.LittleEndian

set_option autoImplicit false
set_option relaxedAutoImplicit false

namespace Kcptun.Qpp

open Kcptun.Lib.LittleEndian

/-- The hash, key-derivation and block-cipher functions of the crates the generator and the pads are
derived with. -/
structure Primitives where
  hmacSha256 : Bytes → Bytes → Vector UInt8 32
  pbkdf2HmacSha1 : Bytes → Bytes → ℕ → Vector UInt8 32
  aes256Encrypt : Vector UInt8 32 → Vector UInt8 16 → Vector UInt8 16

def asBytes (s : String) : Bytes := s.toUTF8.toList

def PM_SELECTOR_IDENTIFIER : String := "PERMUTATION_MATRIX_SELECTOR"
def PRNG_SALT : String := "___QUANTUM_PERMUTATION_PAD_PRNG_SALT___"
def PBKDF2_LOOPS : ℕ := 128
def PAD_SWITCH : ℕ := 8

structure Xoshiro where
  s0 : UInt64
  s1 : UInt64
  s2 : UInt64
  s3 : UInt64
  deriving DecidableEq, Repr

/-- `u64::rotate_left` by less than a word. -/
def rol64 (x k : UInt64) : UInt64 := x <<< k ||| x >>> (64 - k)

/-- One step: the output and the next state. -/
def xoshiro256ss (s : Xoshiro) : UInt64 × Xoshiro :=
  let result := rol64 (s.s1 * 5) 7 * 9
  let t := s.s1 <<< 17
  let s2 := s.s2 ^^^ s.s0
  let s3 := s.s3 ^^^ s.s1
  let s1 := s.s1 ^^^ s2
  let s0 := s.s0 ^^^ s3
  (result, ⟨s0, s1, s2 ^^^ t, rol64 s3 45⟩)

example : (xoshiro256ss ⟨1, 2, 3, 4⟩).1 = 11520 ∧
    (xoshiro256ss (xoshiro256ss (xoshiro256ss ⟨1, 2, 3, 4⟩).2).2).1 = 1509978240 := by
  decide +kernel

/-- The cipher state of one direction of a stream. Fewer than eight bytes of the current word are
consumed. -/
structure Rand where
  xoshiro : Xoshiro
  seed64 : UInt64
  count : ℕ
  count_lt : count < PAD_SWITCH
  deriving DecidableEq, Repr

/-- `u64::from_le_bytes` of the eight bytes at `i`. -/
def word (state : Vector UInt8 32) (i : ℕ) : UInt64 :=
  ((state.toList.drop i).take 8).foldr (fun b acc => acc * 256 + b.toUInt64) 0

def newRand (state : Vector UInt8 32) : Rand :=
  let (seed64, xoshiro) :=
    xoshiro256ss ⟨word state 0, word state 8, word state 16, word state 24⟩
  { xoshiro, seed64, count := 0, count_lt := by decide }

/-- The generator of a stream, from the raw key. -/
def createPrng (p : Primitives) (seed : Bytes) : Rand :=
  let sum := p.hmacSha256 seed (asBytes PM_SELECTOR_IDENTIFIER)
  newRand (p.pbkdf2HmacSha1 sum.toList (asBytes PRNG_SALT) PBKDF2_LOOPS)

def Rand.padByte (rand : Rand) : UInt8 :=
  (rand.seed64 >>> UInt64.ofNat (8 * rand.count)).toUInt8

/-- The generator one stream position on: after eight bytes the next word. -/
def Rand.next (rand : Rand) : Rand :=
  if h : rand.count + 1 < PAD_SWITCH then { rand with count := rand.count + 1, count_lt := h }
  else
    { xoshiro := (xoshiro256ss rand.xoshiro).2
      seed64 := (xoshiro256ss rand.xoshiro).1
      count := 0
      count_lt := by decide }

end Kcptun.Qpp
