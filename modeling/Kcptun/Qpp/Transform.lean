/- Kcptun/Qpp/Transform
   source: crates/qpp/src/qpp.rs (encrypt_with_prng, decrypt_with_prng)
   digest: Encryption and decryption of a slice transform each byte under the generator of its
     stream position, however the stream is cut into slices. -/

import Kcptun.Lib.StreamCipher
import Kcptun.Qpp.Pad

set_option autoImplicit false
set_option relaxedAutoImplicit false

namespace Kcptun.Qpp

open Kcptun.Lib (cryptStream cryptStream_cons cryptStream_append cryptStream_inverse_prefix
  length_cryptStream)
open Kcptun.Lib.LittleEndian

/-- One byte under its pad and the byte of the random word. -/
abbrev ByteOp := Matrix → UInt8 → UInt8 → UInt8

def encryptByte : ByteOp := fun base b rr => base.at (b ^^^ rr)

def decryptByte : ByteOp := fun base b rr => base.at b ^^^ rr

/-- The local variables of a transform; `base` is the pad of the word `r`. -/
structure Cursor where
  r : UInt64
  base : Matrix
  count : ℕ
  s : Xoshiro

section Loops

variable (table : UInt64 → Matrix) (op : ByteOp)

def Cursor.rr (c : Cursor) (k : ℕ) : UInt8 := (c.r >>> UInt64.ofNat (8 * k)).toUInt8

def Cursor.switch (c : Cursor) : Cursor :=
  let (r, s) := xoshiro256ss c.s
  { r, base := table r, count := 0, s }

/-- Bytes up to the end of a word already begun: what came out, what is left to transform. -/
def headLoop : Cursor → Bytes → Bytes × Bytes × Cursor
  | c, [] => ([], [], c)
  | c, b :: rest =>
    let out := op c.base b (c.rr c.count)
    if c.count + 1 = PAD_SWITCH then ([out], rest, c.switch table)
    else
      let more := headLoop { c with count := c.count + 1 } rest
      (out :: more.1, more.2)

def tailLoop : Cursor → Bytes → Bytes × Cursor
  | c, [] => ([], c)
  | c, b :: rest =>
    let more := tailLoop { c with count := c.count + 1 } rest
    (op c.base b (c.rr c.count) :: more.1, more.2)

/-- Whole words of eight bytes, then the tail. -/
def groupLoop : Cursor → Bytes → Bytes × Cursor
  | c, d0 :: d1 :: d2 :: d3 :: d4 :: d5 :: d6 :: d7 :: rest =>
    let more := groupLoop (c.switch table) rest
    (op c.base d0 (c.rr 0) :: op c.base d1 (c.rr 1) :: op c.base d2 (c.rr 2) ::
      op c.base d3 (c.rr 3) :: op c.base d4 (c.rr 4) :: op c.base d5 (c.rr 5) ::
      op c.base d6 (c.rr 6) :: op c.base d7 (c.rr 7) :: more.1, more.2)
  | c, tail => tailLoop op c tail

def cryptWithPrng (data : Bytes) (rand : Rand) : Bytes × Rand :=
  if data = [] then ([], rand)
  else
    let c : Cursor := ⟨rand.seed64, table rand.seed64, rand.count, rand.xoshiro⟩
    let front := if rand.count ≠ 0 then headLoop table op c data else ([], data, c)
    let back := groupLoop table op front.2.2 front.2.1
    (front.1 ++ back.1,
      { xoshiro := back.2.s
        seed64 := back.2.r
        count := (rand.count + data.length % 256) % 256 % PAD_SWITCH
        count_lt := Nat.mod_lt _ (by decide) })

def byteAt (rand : Rand) (b : UInt8) : UInt8 := op (table rand.seed64) b rand.padByte

def cursorOf (rand : Rand) : Cursor :=
  ⟨rand.seed64, table rand.seed64, rand.count, rand.xoshiro⟩

private theorem next_count (rand : Rand) : rand.next.count = (rand.count + 1) % PAD_SWITCH := by
  have hlt := rand.count_lt
  unfold Rand.next
  split_ifs with h
  · exact (Nat.mod_eq_of_lt h).symm
  · have hfull : rand.count + 1 = PAD_SWITCH := by omega
    rw [hfull, Nat.mod_self]

private theorem iterate_next_count (n : ℕ) (rand : Rand) :
    (Rand.next^[n] rand).count = (rand.count + n) % PAD_SWITCH := by
  induction n generalizing rand with
  | zero => exact (Nat.mod_eq_of_lt rand.count_lt).symm
  | succ n ih =>
    rw [Function.iterate_succ_apply, ih, next_count, Nat.mod_add_mod]
    congr 1
    omega

private theorem cursorOf_next {rand : Rand} (h : rand.count + 1 < PAD_SWITCH) :
    cursorOf table rand.next = { cursorOf table rand with count := rand.count + 1 } := by
  rw [Rand.next, dif_pos h]
  rfl

private theorem cursorOf_switch {rand : Rand} (h : rand.count + 1 = PAD_SWITCH) :
    cursorOf table rand.next = (cursorOf table rand).switch table := by
  rw [Rand.next, dif_neg (by omega)]
  rfl

private theorem headLoop_eq (data : Bytes) (rand : Rand) : ∃ k ≤ data.length,
    headLoop table op (cursorOf table rand) data =
      (cryptStream Rand.next (byteAt table op) rand (data.take k), data.drop k,
        cursorOf table (Rand.next^[k] rand)) ∧
    (data.drop k = [] ∨ (Rand.next^[k] rand).count = 0) := by
  induction data generalizing rand with
  | nil => exact ⟨0, le_rfl, rfl, .inl rfl⟩
  | cons b rest ih =>
    rw [headLoop]
    dsimp only
    split_ifs with hfull
    · refine ⟨1, by simp, ?_, .inr ?_⟩
      · rw [← cursorOf_switch table hfull]
        rfl
      · have hcount : rand.count + 1 = PAD_SWITCH := hfull
        rw [iterate_next_count, hcount, Nat.mod_self]
    · have hlt := rand.count_lt
      have hnext : rand.count + 1 < PAD_SWITCH := by
        have : rand.count + 1 ≠ PAD_SWITCH := hfull
        omega
      obtain ⟨k, hk, heq, hend⟩ := ih rand.next
      refine ⟨k + 1, by simpa using hk, ?_, hend⟩
      have hcursor : ({ cursorOf table rand with count := (cursorOf table rand).count + 1 } :
          Cursor) = cursorOf table rand.next := (cursorOf_next table hnext).symm
      rw [hcursor, heq]
      rfl

private theorem tailLoop_eq (data : Bytes) (rand : Rand)
    (h : rand.count + data.length < PAD_SWITCH) : tailLoop op (cursorOf table rand) data =
      (cryptStream Rand.next (byteAt table op) rand data,
        cursorOf table (Rand.next^[data.length] rand)) := by
  induction data generalizing rand with
  | nil => rfl
  | cons b rest ih =>
    rw [List.length_cons] at h
    have hnext : rand.count + 1 < PAD_SWITCH := by omega
    have hcount : rand.next.count = rand.count + 1 := by
      rw [next_count, Nat.mod_eq_of_lt hnext]
    have hrest := ih rand.next (by omega)
    rw [cursorOf_next table hnext] at hrest
    rw [tailLoop]
    have hcursor : ({ cursorOf table rand with count := (cursorOf table rand).count + 1 } :
        Cursor) = { cursorOf table rand with count := rand.count + 1 } := rfl
    rw [hcursor, hrest]
    rfl

private theorem next_mk {x : Xoshiro} {w : UInt64} {k : ℕ} (hk : k + 1 < PAD_SWITCH) :
    Rand.next ⟨x, w, k, Nat.lt_of_succ_lt hk⟩ = ⟨x, w, k + 1, hk⟩ := dif_pos hk

private theorem next_mk_last {x : Xoshiro} {w : UInt64} (h : 7 < PAD_SWITCH) :
    Rand.next ⟨x, w, 7, h⟩ = ⟨(xoshiro256ss x).2, (xoshiro256ss x).1, 0, by decide⟩ :=
  dif_neg (show ¬7 + 1 < PAD_SWITCH by decide)

private theorem groupLoop_eq (data : Bytes) (rand : Rand) (h : rand.count = 0) :
    groupLoop table op (cursorOf table rand) data =
      (cryptStream Rand.next (byteAt table op) rand data,
        cursorOf table (Rand.next^[data.length] rand)) := by
  induction hc : cursorOf table rand, data using groupLoop.induct table op generalizing rand with
  | case1 c d0 d1 d2 d3 d4 d5 d6 d7 rest ih =>
    obtain ⟨x, w, count, hlt⟩ := rand
    cases h
    subst hc
    have hswitch : (cursorOf table ⟨x, w, 0, hlt⟩).switch table =
        cursorOf table ⟨(xoshiro256ss x).2, (xoshiro256ss x).1, 0, hlt⟩ := rfl
    have hrest := ih ⟨(xoshiro256ss x).2, (xoshiro256ss x).1, 0, hlt⟩ rfl hswitch.symm
    rw [groupLoop, hrest]
    simp only [cryptStream_cons, List.length_cons, Function.iterate_succ_apply]
    rw [next_mk (by decide), next_mk (by decide), next_mk (by decide), next_mk (by decide),
      next_mk (by decide), next_mk (by decide), next_mk (by decide), next_mk_last]
    rfl
  | case2 c tail hshort =>
    subst hc
    rw [groupLoop.eq_2 _ _ _ _ hshort]
    apply tailLoop_eq table op tail rand
    rw [h, Nat.zero_add]
    by_contra hlong
    rcases tail with
      _ | ⟨d0, _ | ⟨d1, _ | ⟨d2, _ | ⟨d3, _ | ⟨d4, _ | ⟨d5, _ | ⟨d6, _ | ⟨d7, r⟩⟩⟩⟩⟩⟩⟩⟩
    iterate 8 exact hlong (by simp [PAD_SWITCH])
    exact hshort d0 d1 d2 d3 d4 d5 d6 d7 r rfl

/-- A slice is the next piece of the stream: every byte is transformed at its own position, and the
generator ends behind it. -/
theorem cryptWithPrng_eq (data : Bytes) (rand : Rand) :
    cryptWithPrng table op data rand =
      (cryptStream Rand.next (byteAt table op) rand data, Rand.next^[data.length] rand) := by
  by_cases hnil : data = []
  · rw [cryptWithPrng, if_pos hnil, hnil]
    rfl
  · obtain ⟨k, hk, hhead, hend⟩ : ∃ k ≤ data.length,
        (if rand.count ≠ 0 then headLoop table op (cursorOf table rand) data
          else ([], data, cursorOf table rand)) =
          (cryptStream Rand.next (byteAt table op) rand (data.take k), data.drop k,
            cursorOf table (Rand.next^[k] rand)) ∧
        (data.drop k = [] ∨ (Rand.next^[k] rand).count = 0) := by
      split_ifs with hcount
      · exact headLoop_eq table op data rand
      · exact ⟨0, Nat.zero_le _, rfl, .inr (not_not.mp hcount)⟩
    have hback : groupLoop table op (cursorOf table (Rand.next^[k] rand)) (data.drop k) =
        (cryptStream Rand.next (byteAt table op) (Rand.next^[k] rand) (data.drop k),
          cursorOf table (Rand.next^[(data.drop k).length] (Rand.next^[k] rand))) := by
      rcases hend with hdone | hfresh
      · rw [hdone, groupLoop.eq_2 _ _ _ _ (by simp)]
        rfl
      · exact groupLoop_eq table op _ _ hfresh
    have hlen : (data.drop k).length + k = data.length := by
      rw [List.length_drop]
      omega
    rw [← Function.iterate_add_apply, hlen] at hback
    have hfront : cryptStream Rand.next (byteAt table op) rand (data.take k ++ data.drop k) = _ :=
      cryptStream_append rand _ _
    rw [List.take_append_drop, List.length_take_of_le hk] at hfront
    have hcount : (rand.count + data.length % 256) % 256 % PAD_SWITCH =
        (Rand.next^[data.length] rand).count := by
      rw [iterate_next_count, PAD_SWITCH]
      omega
    have hcursor : (⟨rand.seed64, table rand.seed64, rand.count, rand.xoshiro⟩ : Cursor) =
        cursorOf table rand := rfl
    rw [cryptWithPrng, if_neg hnil]
    dsimp only
    simp only [hcursor, hhead, hback, ← hfront, hcount]
    rfl

end Loops

namespace QuantumPermutationPad

variable (pad : QuantumPermutationPad)

def padIndex (r : UInt64) : Fin pad.numPads.toNat :=
  ⟨r.toUInt16.toNat % pad.numPads.toNat, Nat.mod_lt _ pad.numPads_pos⟩

def encryptWithPrng (data : Bytes) (rand : Rand) : Bytes × Rand :=
  cryptWithPrng (fun r => pad.pads.get (pad.padIndex r)) encryptByte data rand

def decryptWithPrng (data : Bytes) (rand : Rand) : Bytes × Rand :=
  cryptWithPrng (fun r => pad.rpads.get (pad.padIndex r)) decryptByte data rand

def encryptAt (rand : Rand) (b : UInt8) : UInt8 :=
  (pad.pads.get (pad.padIndex rand.seed64)).at (b ^^^ rand.padByte)

def decryptAt (rand : Rand) (b : UInt8) : UInt8 :=
  (pad.rpads.get (pad.padIndex rand.seed64)).at b ^^^ rand.padByte

/-- The encryption of a stream, every byte at its own position. -/
def encryption (rand : Rand) (plain : Bytes) : Bytes :=
  cryptStream Rand.next pad.encryptAt rand plain

theorem encryptWithPrng_eq (data : Bytes) (rand : Rand) :
    pad.encryptWithPrng data rand = (pad.encryption rand data, Rand.next^[data.length] rand) :=
  cryptWithPrng_eq _ _ data rand

theorem decryptWithPrng_eq (data : Bytes) (rand : Rand) :
    pad.decryptWithPrng data rand =
      (cryptStream Rand.next pad.decryptAt rand data, Rand.next^[data.length] rand) :=
  cryptWithPrng_eq _ _ data rand

theorem decryptAt_encryptAt (rand : Rand) (b : UInt8) :
    pad.decryptAt rand (pad.encryptAt rand b) = b := by
  rw [decryptAt, encryptAt, pad.rpads_at, UInt8.xor_assoc, UInt8.xor_self, UInt8.xor_zero]

theorem encryption_append (rand : Rand) (front back : Bytes) :
    pad.encryption rand (front ++ back) =
      pad.encryption rand front ++ pad.encryption (Rand.next^[front.length] rand) back :=
  cryptStream_append rand front back

@[simp] theorem encryption_length (rand : Rand) (plain : Bytes) :
    (pad.encryption rand plain).length = plain.length := length_cryptStream rand plain

theorem decrypt_prefix {rand : Rand} {plain cipher : Bytes}
    (h : cipher <+: pad.encryption rand plain) :
    cryptStream Rand.next pad.decryptAt rand cipher = plain.take cipher.length :=
  cryptStream_inverse_prefix pad.decryptAt_encryptAt h

end QuantumPermutationPad

end Kcptun.Qpp
