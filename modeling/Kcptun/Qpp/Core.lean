/- Kcptun/Qpp/Core
   source: crates/qpp/src/qpp.rs (new, encrypt_with_prng, decrypt_with_prng)
   digest: Every set of pads that can be built is a set of permutations with their inverses, and
     neither side of a stream sees how it was cut into slices. -/

import Kcptun.Qpp.Transform

set_option autoImplicit false
set_option relaxedAutoImplicit false

namespace Kcptun.Qpp

open Kcptun.Lib (cryptStream cryptStream_inverse)
open Kcptun.Lib.LittleEndian

def inPieces (crypt : Bytes → Rand → Bytes × Rand) : List Bytes → Rand → Bytes × Rand
  | [], rand => ([], rand)
  | piece :: rest, rand =>
    let first := crypt piece rand
    let more := inPieces crypt rest first.2
    (first.1 ++ more.1, more.2)

private theorem inPieces_eq {crypt : Bytes → Rand → Bytes × Rand} {op : Rand → UInt8 → UInt8}
    (hcrypt : ∀ data rand,
      crypt data rand = (cryptStream Rand.next op rand data, Rand.next^[data.length] rand))
    (pieces : List Bytes) (rand : Rand) :
    inPieces crypt pieces rand = crypt pieces.flatten rand := by
  induction pieces generalizing rand with
  | nil => rw [List.flatten_nil, hcrypt]; rfl
  | cons piece rest ih =>
    have hstream := @Lib.cryptStream_append _ _ _ Rand.next op rand piece rest.flatten
    have hrand : Rand.next^[(piece ++ rest.flatten).length] rand =
        Rand.next^[rest.flatten.length] (Rand.next^[piece.length] rand) := by
      rw [List.length_append, Nat.add_comm, Function.iterate_add_apply]
    rw [inPieces, List.flatten_cons, hcrypt (piece ++ rest.flatten), hstream, hrand, ih,
      hcrypt piece, hcrypt rest.flatten]

private theorem at_bijective {pad rpad : Matrix} (h : ∀ b, rpad.at (pad.at b) = b) :
    Function.Bijective pad.at ∧ Function.LeftInverse pad.at rpad.at := by
  have hinj : Function.Injective pad.at := Function.LeftInverse.injective h
  have : Finite UInt8 := Finite.of_injective position position_injective
  have hbij : Function.Bijective pad.at := Finite.injective_iff_bijective.mp hinj
  exact ⟨hbij, Function.LeftInverse.rightInverse_of_surjective h hbij.2⟩

namespace QuantumPermutationPad

variable (pad : QuantumPermutationPad)

private theorem encrypt_inPieces (pieces : List Bytes) (rand : Rand) :
    inPieces pad.encryptWithPrng pieces rand = pad.encryptWithPrng pieces.flatten rand :=
  inPieces_eq pad.encryptWithPrng_eq pieces rand

private theorem decrypt_inPieces (pieces : List Bytes) (rand : Rand) :
    inPieces pad.decryptWithPrng pieces rand = pad.decryptWithPrng pieces.flatten rand :=
  inPieces_eq pad.decryptWithPrng_eq pieces rand

private theorem decrypt_encrypt (data : Bytes) (rand : Rand) :
    pad.decryptWithPrng (pad.encryptWithPrng data rand).1 rand =
      (data, (pad.encryptWithPrng data rand).2) := by
  rw [pad.encryptWithPrng_eq, pad.decryptWithPrng_eq, pad.encryption_length]
  exact congrArg (·, _) (cryptStream_inverse pad.decryptAt_encryptAt rand data)

end QuantumPermutationPad

/-- Whatever the hash, the key derivation and the block cipher compute: a seed and at least one pad
give permutations with their inverses, and a stream is encrypted and decrypted byte for byte however
each side cuts it. -/
theorem core_exact (p : Primitives) (seed : Bytes) (numPads : UInt16) (h : 1 ≤ numPads) :
    ∃ pad, QuantumPermutationPad.new p seed numPads = some pad ∧ pad.numPads = numPads ∧
      (∀ i, Function.Bijective (pad.pads.get i).at ∧
        Function.LeftInverse (pad.rpads.get i).at (pad.pads.get i).at ∧
        Function.RightInverse (pad.rpads.get i).at (pad.pads.get i).at) ∧
      ∀ (rand : Rand) (pieces : List Bytes),
        inPieces pad.encryptWithPrng pieces rand = pad.encryptWithPrng pieces.flatten rand ∧
        ∀ cut : List Bytes, cut.flatten = (inPieces pad.encryptWithPrng pieces rand).1 →
          inPieces pad.decryptWithPrng cut rand =
            (pieces.flatten, (inPieces pad.encryptWithPrng pieces rand).2) := by
  have hpos : numPads ≠ 0 := by
    rintro rfl
    exact absurd h (by decide)
  obtain ⟨pad, hpad⟩ := Option.isSome_iff_exists.mp ((new_isSome_iff p seed numPads).mpr hpos)
  have hnum : pad.numPads = numPads := by
    unfold QuantumPermutationPad.new at hpad
    obtain ⟨_, hsome⟩ := Option.dite_none_right_eq_some.mp hpad
    rw [← Option.some.inj hsome]
  refine ⟨pad, hpad, hnum, ?_, fun rand pieces => ⟨pad.encrypt_inPieces pieces rand, ?_⟩⟩
  · intro i
    obtain ⟨hbij, hright⟩ := at_bijective (pad.rpads_at i)
    exact ⟨hbij, pad.rpads_at i, hright⟩
  · intro cut hcut
    rw [pad.encrypt_inPieces] at hcut ⊢
    rw [pad.decrypt_inPieces, hcut, pad.decrypt_encrypt]

/-- The constant functions for the crates' and a stream of three slices, one empty. -/
theorem core_exact_constant :
    ∃ pad, QuantumPermutationPad.new
        ⟨fun _ _ => Vector.replicate 32 7, fun _ _ _ => Vector.replicate 32 5, fun _ block => block⟩
        [1, 2, 3] 1 = some pad ∧
      ∀ rand : Rand,
        inPieces pad.encryptWithPrng [[10], [], [20, 30]] rand =
          pad.encryptWithPrng [10, 20, 30] rand ∧
        inPieces pad.decryptWithPrng
            [(inPieces pad.encryptWithPrng [[10], [], [20, 30]] rand).1] rand =
          ([10, 20, 30], (inPieces pad.encryptWithPrng [[10], [], [20, 30]] rand).2) := by
  obtain ⟨pad, hpad, -, -, hstream⟩ := core_exact
    ⟨fun _ _ => Vector.replicate 32 7, fun _ _ _ => Vector.replicate 32 5, fun _ block => block⟩
    [1, 2, 3] 1 (by decide)
  refine ⟨pad, hpad, ?_⟩
  intro rand
  obtain ⟨henc, hdec⟩ := hstream rand [[10], [], [20, 30]]
  exact ⟨henc, hdec _ (List.append_nil _)⟩

end Kcptun.Qpp
