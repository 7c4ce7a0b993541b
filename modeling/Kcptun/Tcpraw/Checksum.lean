/- Kcptun/Tcpraw/Checksum
   source: crates/tcpraw/src/checksum.rs (PseudoHeader::partial_checksum, tcpip_checksum,
     compute_checksum, verify_checksum)
   digest: The checksum of a TCP segment and its pseudo-header, and that a segment carrying its own
     checksum verifies. -/

import Kcptun.Lib.BigEndian

set_option autoImplicit false
set_option relaxedAutoImplicit false

namespace Kcptun.Tcpraw.Checksum

open Kcptun.Lib.LittleEndian (Bytes)
open Kcptun.Lib.BigEndian

def IP_PROTOCOL_TCP : UInt8 := 6

/-- The two addresses a checksum is computed over, by their octets. -/
inductive PseudoHeader where
  | V4 (src dst : Fin 4 → UInt8)
  | V6 (src dst : Fin 16 → UInt8)

private theorem octet_lt (i : Fin 8) : 2 * i.val + 1 < 16 := by
  have hi := i.isLt
  omega

private theorem even_octet_lt (i : Fin 8) : 2 * i.val < 16 := by omega

def evenOctet (octets : Fin 16 → UInt8) (i : Fin 8) : UInt8 := octets ⟨2 * i.val, even_octet_lt i⟩

def oddOctet (octets : Fin 16 → UInt8) (i : Fin 8) : UInt8 := octets ⟨2 * i.val + 1, octet_lt i⟩

def addV6 (src dst : Fin 16 → UInt8) (csum : UInt32) (i : Fin 8) : UInt32 :=
  csum + ((evenOctet src i).toUInt32 <<< 8) + (oddOctet src i).toUInt32 +
    ((evenOctet dst i).toUInt32 <<< 8) + (oddOctet dst i).toUInt32

def PseudoHeader.partialChecksum : PseudoHeader → UInt32
  | .V4 src dst =>
    (0 : UInt32) + (((src 0).toUInt32 + (src 2).toUInt32) <<< 8) +
      ((src 1).toUInt32 + (src 3).toUInt32) +
      (((dst 0).toUInt32 + (dst 2).toUInt32) <<< 8) + ((dst 1).toUInt32 + (dst 3).toUInt32)
  | .V6 src dst => (List.finRange 8).foldl (addV6 src dst) 0

/-- The loop over the chunks of two bytes, and the byte that remains of an odd length. -/
def addWords : Bytes → UInt32 → UInt32
  | hi :: lo :: rest, csum => addWords rest (csum + (hi.toUInt32 <<< 8) + lo.toUInt32)
  | [last], csum => csum + (last.toUInt32 <<< 8)
  | [], csum => csum

private theorem toNat_fold (csum : UInt32) :
    ((csum >>> 16) + (csum &&& (0xffff : UInt32))).toNat = csum.toNat / 65536 + csum.toNat % 65536 := by
  have hcsum := csum.toNat_lt
  have hshift : (csum >>> 16).toNat = csum.toNat / 65536 := by
    rw [UInt32.toNat_shiftRight]
    exact Nat.shiftRight_eq_div_pow csum.toNat 16
  have hmask : (csum &&& (0xffff : UInt32)).toNat = csum.toNat % 65536 := by
    rw [UInt32.toNat_and]
    exact Nat.and_two_pow_sub_one_eq_mod csum.toNat 16
  rw [UInt32.toNat_add, hshift, hmask]
  omega

def foldCarries (csum : UInt32) : UInt32 :=
  if csum > 0xffff then foldCarries ((csum >>> 16) + (csum &&& 0xffff)) else csum
termination_by csum.toNat
decreasing_by
  rename_i hlarge
  have hlt : (0xffff : UInt32).toNat < csum.toNat := UInt32.lt_iff_toNat_lt.mp hlarge
  have hval : (0xffff : UInt32).toNat = 65535 := rfl
  rw [toNat_fold]
  omega

/-- The one's-complement checksum of `data`, continuing from a partial sum. -/
def tcpipChecksum (data : Bytes) (csum : UInt32) : UInt16 :=
  ~~~(foldCarries (addWords data csum)).toUInt16

def computeChecksum (headerAndPayload : Bytes) (pseudo : PseudoHeader) (protocol : UInt8) :
    UInt16 :=
  let length := UInt32.ofNat headerAndPayload.length
  tcpipChecksum headerAndPayload
    (pseudo.partialChecksum + protocol.toUInt32 + (length &&& (0xffff : UInt32)) + (length >>> 16))

def verifyChecksum (headerAndPayload : Bytes) (pseudo : PseudoHeader) : Bool :=
  computeChecksum headerAndPayload pseudo IP_PROTOCOL_TCP == 0

/-- What the bytes add to the sum, as a number without a bound. -/
def wordSum : Bytes → ℕ
  | hi :: lo :: rest => hi.toNat * 256 + lo.toNat + wordSum rest
  | [last] => last.toNat * 256
  | [] => 0

private theorem toNat_high (b : UInt8) : (b.toUInt32 <<< 8).toNat = b.toNat * 256 := by
  have hb := b.toNat_lt
  rw [UInt32.toNat_shiftLeft, UInt8.toNat_toUInt32]
  show b.toNat <<< 8 % 2 ^ 32 = b.toNat * 256
  rw [Nat.shiftLeft_eq]
  omega

private theorem wordSum_le (bytes : Bytes) : wordSum bytes ≤ (bytes.length + 1) / 2 * 65535 := by
  induction bytes using wordSum.induct with
  | case1 hi lo rest ih =>
    have hhi := hi.toNat_lt
    have hlo := lo.toNat_lt
    rw [wordSum, List.length_cons, List.length_cons,
      show (rest.length + 1 + 1 + 1) / 2 = (rest.length + 1) / 2 + 1 by omega]
    omega
  | case2 last =>
    have hlast := last.toNat_lt
    rw [wordSum, List.length_singleton]
    omega
  | case3 => exact Nat.zero_le _

private theorem wordSum_append {front : Bytes} (back : Bytes) (heven : front.length % 2 = 0) :
    wordSum (front ++ back) = wordSum front + wordSum back := by
  induction front using wordSum.induct with
  | case1 hi lo rest ih =>
    have hrest : rest.length % 2 = 0 := by
      rw [List.length_cons, List.length_cons] at heven
      omega
    rw [List.cons_append, List.cons_append, wordSum, ih hrest, wordSum, ← Nat.add_assoc]
  | case2 last => cases heven
  | case3 => rw [List.nil_append, wordSum, Nat.zero_add]

private theorem toNat_addWords (bytes : Bytes) (csum : UInt32)
    (hlt : csum.toNat + wordSum bytes < 4294967296) :
    (addWords bytes csum).toNat = csum.toNat + wordSum bytes := by
  induction bytes, csum using addWords.induct with
  | case1 hi lo rest csum ih =>
    rw [wordSum] at hlt
    have hstep : (csum + (hi.toUInt32 <<< 8) + lo.toUInt32).toNat =
        csum.toNat + (hi.toNat * 256 + lo.toNat) := by
      rw [UInt32.toNat_add, UInt32.toNat_add, toNat_high, UInt8.toNat_toUInt32]
      omega
    rw [addWords, ih (by omega), hstep, wordSum]
    omega
  | case2 csum last =>
    rw [wordSum] at hlt
    rw [addWords, UInt32.toNat_add, toNat_high, wordSum]
    omega
  | case3 csum => rfl

private theorem foldCarries_spec (csum : UInt32) :
    (foldCarries csum).toNat ≤ 65535 ∧ (foldCarries csum).toNat % 65535 = csum.toNat % 65535 ∧
      (0 < csum.toNat → 0 < (foldCarries csum).toNat) := by
  have hval : (0xffff : UInt32).toNat = 65535 := rfl
  induction csum using foldCarries.induct with
  | case1 csum hlarge ih =>
    rw [foldCarries, if_pos hlarge]
    rw [toNat_fold] at ih
    obtain ⟨hle, hmod, hpos⟩ := ih
    have hlt : (0xffff : UInt32).toNat < csum.toNat := UInt32.lt_iff_toNat_lt.mp hlarge
    refine ⟨hle, ?_, fun _ => hpos (by omega)⟩
    rw [hmod]
    omega
  | case2 csum hsmall =>
    have hle : csum.toNat ≤ (0xffff : UInt32).toNat :=
      UInt32.le_iff_toNat_le.mp (UInt32.not_lt.mp hsmall)
    rw [foldCarries, if_neg hsmall]
    exact ⟨hval ▸ hle, rfl, id⟩

private theorem tcpipChecksum_spec {data : Bytes} {csum : UInt32} (hpos : 0 < csum.toNat)
    (hlt : csum.toNat + wordSum data < 4294967296) :
    (tcpipChecksum data csum).toNat < 65535 ∧
      (csum.toNat + wordSum data + (tcpipChecksum data csum).toNat) % 65535 = 0 := by
  obtain ⟨hle, hmod, hkeep⟩ := foldCarries_spec (addWords data csum)
  rw [toNat_addWords data csum hlt] at hmod hkeep
  have hfold := hkeep (by omega)
  have hnot : (tcpipChecksum data csum).toNat =
      65535 - (foldCarries (addWords data csum)).toNat := by
    rw [tcpipChecksum, UInt16.toNat_not, UInt32.toNat_toUInt16]
    show 65536 - 1 - _ % 65536 = _
    omega
  rw [hnot]
  omega

private theorem toNat_add_le (a b : UInt32) : (a + b).toNat ≤ a.toNat + b.toNat := by
  rw [UInt32.toNat_add]
  exact Nat.mod_le _ _

private theorem addV6_le (src dst : Fin 16 → UInt8) (csum : UInt32) (i : Fin 8) :
    (addV6 src dst csum i).toNat ≤ csum.toNat + 2 * 65535 := by
  unfold addV6
  generalize evenOctet src i = a, oddOctet src i = b, evenOctet dst i = c, oddOctet dst i = d
  have ha := a.toNat_lt
  have hb := b.toNat_lt
  have hc := c.toNat_lt
  have hd := d.toNat_lt
  have h1 := toNat_add_le csum (a.toUInt32 <<< 8)
  have h2 := toNat_add_le (csum + (a.toUInt32 <<< 8)) b.toUInt32
  have h3 := toNat_add_le (csum + (a.toUInt32 <<< 8) + b.toUInt32) (c.toUInt32 <<< 8)
  have h4 := toNat_add_le (csum + (a.toUInt32 <<< 8) + b.toUInt32 + (c.toUInt32 <<< 8)) d.toUInt32
  rw [toNat_high] at h1 h3
  rw [UInt8.toNat_toUInt32] at h2 h4
  omega

private theorem foldl_addV6_le (src dst : Fin 16 → UInt8) (l : List (Fin 8)) (csum : UInt32) :
    (l.foldl (addV6 src dst) csum).toNat ≤ csum.toNat + l.length * (2 * 65535) := by
  induction l generalizing csum with
  | nil => exact Nat.le_add_right _ _
  | cons i l ih =>
    have hstep := addV6_le src dst csum i
    have hrest := ih (addV6 src dst csum i)
    rw [List.foldl_cons, List.length_cons]
    omega

private theorem toNat_half (a b : UInt8) :
    ((a.toUInt32 + b.toUInt32) <<< 8).toNat = (a.toNat + b.toNat) * 256 ∧
      (a.toUInt32 + b.toUInt32).toNat = a.toNat + b.toNat := by
  have ha := a.toNat_lt
  have hb := b.toNat_lt
  have hsum : (a.toUInt32 + b.toUInt32).toNat = a.toNat + b.toNat := by
    rw [UInt32.toNat_add, UInt8.toNat_toUInt32, UInt8.toNat_toUInt32]
    omega
  refine ⟨?_, hsum⟩
  rw [UInt32.toNat_shiftLeft, hsum]
  show (a.toNat + b.toNat) <<< 8 % 2 ^ 32 = _
  rw [Nat.shiftLeft_eq]
  omega

private theorem partialChecksum_le (pseudo : PseudoHeader) :
    pseudo.partialChecksum.toNat ≤ 16 * 65535 := by
  cases pseudo with
  | V4 src dst =>
    have hs0 := (src 0).toNat_lt
    have hs1 := (src 1).toNat_lt
    have hs2 := (src 2).toNat_lt
    have hs3 := (src 3).toNat_lt
    have hd0 := (dst 0).toNat_lt
    have hd1 := (dst 1).toNat_lt
    have hd2 := (dst 2).toNat_lt
    have hd3 := (dst 3).toNat_lt
    rw [PseudoHeader.partialChecksum, UInt32.toNat_add, UInt32.toNat_add, UInt32.toNat_add,
      UInt32.toNat_add, (toNat_half (src 0) (src 2)).1, (toNat_half (src 1) (src 3)).2,
      (toNat_half (dst 0) (dst 2)).1, (toNat_half (dst 1) (dst 3)).2, UInt32.toNat_zero]
    omega
  | V6 src dst =>
    have h := foldl_addV6_le src dst (List.finRange 8) 0
    rw [List.length_finRange, UInt32.toNat_zero] at h
    rw [PseudoHeader.partialChecksum]
    omega

private theorem start_bounds (pseudo : PseudoHeader) (length : UInt32) :
    let start := pseudo.partialChecksum + IP_PROTOCOL_TCP.toUInt32 +
      (length &&& (0xffff : UInt32)) + (length >>> 16)
    0 < start.toNat ∧ start.toNat ≤ 16 * 65535 + 6 + 65535 + 65535 := by
  have haddresses := partialChecksum_le pseudo
  have hproto : IP_PROTOCOL_TCP.toUInt32.toNat = 6 := rfl
  have hsplit := toNat_fold length
  rw [UInt32.add_comm] at hsplit
  have hlength := length.toNat_lt
  have hhalves : ((length &&& (0xffff : UInt32)) + (length >>> 16)).toNat ≤ 65535 + 65535 := by
    omega
  dsimp only
  rw [UInt32.add_assoc, UInt32.toNat_add, UInt32.toNat_add, hproto]
  omega

theorem verify_filled {front back : Bytes} (pseudo : PseudoHeader)
    (heven : front.length % 2 = 0) (hlen : front.length + 2 + back.length ≤ 65535) :
    verifyChecksum (front ++ (be16 (computeChecksum (front ++ ([0, 0] ++ back)) pseudo
      IP_PROTOCOL_TCP) ++ back)) pseudo = true := by
  have hlength : ∀ field : Bytes, field.length = 2 →
      (front ++ (field ++ back)).length = front.length + 2 + back.length := by
    intro field hfield
    rw [List.length_append, List.length_append, hfield, Nat.add_assoc]
  unfold verifyChecksum computeChecksum
  dsimp only
  rw [hlength _ rfl, hlength _ (length_be16 _)]
  obtain ⟨hpos, hle⟩ := start_bounds pseudo (UInt32.ofNat (front.length + 2 + back.length))
  generalize pseudo.partialChecksum + IP_PROTOCOL_TCP.toUInt32 +
    (UInt32.ofNat (front.length + 2 + back.length) &&& (0xffff : UInt32)) +
    (UInt32.ofNat (front.length + 2 + back.length) >>> 16) = start at hpos hle ⊢
  -- both sums are over an even front, the field and what follows it
  have hfront := wordSum_le front
  have hback := wordSum_le back
  have hzero : wordSum (front ++ ([0, 0] ++ back)) = wordSum front + wordSum back := by
    rw [wordSum_append _ heven, List.cons_append, List.cons_append, wordSum, UInt8.toNat_zero,
      Nat.zero_mul, Nat.zero_add, List.nil_append]
  obtain ⟨hsmall, hmod⟩ := @tcpipChecksum_spec (front ++ ([0, 0] ++ back)) start hpos
    (by rw [hzero]; omega)
  obtain ⟨a, b, hbytes, -, hvalue⟩ := exists_be16 (tcpipChecksum (front ++ ([0, 0] ++ back)) start)
  have hfilled : wordSum (front ++ ([a, b] ++ back)) =
      wordSum front + ((tcpipChecksum (front ++ ([0, 0] ++ back)) start).toNat + wordSum back) := by
    rw [wordSum_append _ heven, List.cons_append, List.cons_append, wordSum, hvalue,
      List.nil_append]
  obtain ⟨hsmall', hmod'⟩ := @tcpipChecksum_spec (front ++ ([a, b] ++ back)) start hpos
    (by rw [hfilled]; omega)
  rw [hzero] at hmod
  rw [hfilled] at hmod'
  rw [hbytes, beq_iff_eq]
  apply UInt16.toNat_inj.mp
  rw [UInt16.toNat_zero]
  omega

end Kcptun.Tcpraw.Checksum
