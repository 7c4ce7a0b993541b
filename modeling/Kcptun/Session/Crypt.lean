/- Kcptun/Session/Crypt
   source: crates/kcp/src/crypt (PacketCrypt, seal_in_place, open_in_place), crates/kcp/src/tx.rs
     (seal), crates/kcp/src/session.rs (decrypt), crates/kcp/src/entropy.rs
   digest: The crypto layer of a datagram: nonce, checksum or tag, and that decrypting what was
     sealed gives back the payload. -/

import Kcptun.Fec.Encoder

set_option autoImplicit false
set_option relaxedAutoImplicit false

namespace Kcptun.Session

open Kcptun.Lib.LittleEndian
open Kcptun.Fec (MTU_LIMIT)

def NONCE_SIZE : ℕ := 16
def CRC_SIZE : ℕ := 4
def CRYPT_HEADER_SIZE : ℕ := NONCE_SIZE + CRC_SIZE
def AEAD_NONCE : ℕ := 12
def AEAD_OVERHEAD : ℕ := 16

/-- One byte of CRC-32/IEEE: eight shifts with the reflected polynomial. -/
def crcByte (crc : UInt32) (byte : UInt8) : UInt32 :=
  (List.range 8).foldl
    (fun crc _ => if crc &&& 1 = 1 then (crc >>> 1) ^^^ 0xedb88320 else crc >>> 1)
    (crc ^^^ byte.toUInt32)

/-- `crc32fast::hash`. -/
def crc32 (data : Bytes) : UInt32 := data.foldl crcByte 0xffffffff ^^^ 0xffffffff

example : crc32 [49, 50, 51, 52, 53, 54, 55, 56, 57] = 0xcbf43926 := by decide +kernel

/-- AES-GCM under a fixed key: the ciphertext with its tag, and the check that undoes it. Both take
the nonce first. -/
structure AeadCrypt where
  encryptTagged : Bytes → Bytes → Bytes
  decryptTagged : Bytes → Bytes → Option Bytes

/-- A whole-packet cipher under a fixed key; it works in place. -/
structure BlockCrypt where
  encrypt : Bytes → Bytes
  decrypt : Bytes → Bytes

inductive PacketCrypt where
  | block (b : BlockCrypt)
  | aead (a : AeadCrypt)

/-- What the cipher implementations promise: lengths, and that decryption undoes encryption. -/
def PacketCrypt.Lawful : PacketCrypt → Prop
  | .block b =>
    ∀ packet, (b.encrypt packet).length = packet.length ∧ b.decrypt (b.encrypt packet) = packet
  | .aead a => ∀ nonce plaintext,
      (a.encryptTagged nonce plaintext).length = plaintext.length + AEAD_OVERHEAD ∧
      a.decryptTagged nonce (a.encryptTagged nonce plaintext) = some plaintext

/-- Bytes before the payload of a datagram: `-crypt null` has none. -/
def cryptHeaderSize : Option PacketCrypt → ℕ
  | none => 0
  | some (.aead _) => AEAD_NONCE
  | some (.block _) => CRYPT_HEADER_SIZE

def cryptOverhead : Option PacketCrypt → ℕ
  | some (.aead _) => AEAD_OVERHEAD
  | _ => 0

def fillNonce (entropy : ℕ → UInt8) (n : ℕ) : Bytes := (List.range n).map entropy

@[simp] theorem length_fillNonce (entropy : ℕ → UInt8) (n : ℕ) : (fillNonce entropy n).length = n := by
  simp [fillNonce]

/-- Encrypts one packet. Nothing when the packet is too short for its crypto header, or when the tag
does not fit into its buffer. -/
def sealPacket (crypt : Option PacketCrypt) (entropy : ℕ → UInt8) (packet : Bytes) : Option Bytes :=
  match crypt with
  | none => some packet
  | some (.aead a) =>
    if packet.length < AEAD_NONCE then none
    else if packet.length + AEAD_OVERHEAD > MTU_LIMIT then none
    else
      let nonce := fillNonce entropy AEAD_NONCE
      some (nonce ++ a.encryptTagged nonce (packet.drop AEAD_NONCE))
  | some (.block b) =>
    if packet.length < CRYPT_HEADER_SIZE then none
    else
      let payload := packet.drop CRYPT_HEADER_SIZE
      some (b.encrypt (fillNonce entropy NONCE_SIZE ++ le32 (crc32 payload) ++ payload))

/-- Decrypts and checks one datagram; nothing when it is dropped. -/
def decrypt (crypt : Option PacketCrypt) (data : Bytes) : Option Bytes :=
  match crypt with
  | none => some data
  | some (.aead a) =>
    if data.length < AEAD_NONCE + AEAD_OVERHEAD then none
    else a.decryptTagged (data.take AEAD_NONCE) (data.drop AEAD_NONCE)
  | some (.block b) =>
    if data.length < CRYPT_HEADER_SIZE then none
    else
      let checked := (b.decrypt data).drop NONCE_SIZE
      let payload := checked.drop CRC_SIZE
      if crc32 payload =
          ofLe32 (checked.getD 0 0) (checked.getD 1 0) (checked.getD 2 0) (checked.getD 3 0) then
        some payload
      else none

variable {crypt : Option PacketCrypt} {entropy : ℕ → UInt8} {packet : Bytes}

theorem sealPacket_isSome (entropy : ℕ → UInt8) (hshort : cryptHeaderSize crypt ≤ packet.length)
    (hlong : packet.length + cryptOverhead crypt ≤ MTU_LIMIT) :
    ∃ data, sealPacket crypt entropy packet = some data := by
  unfold sealPacket
  split
  next => exact ⟨_, rfl⟩
  next a =>
    have hshort : AEAD_NONCE ≤ packet.length := hshort
    have hlong : packet.length + AEAD_OVERHEAD ≤ MTU_LIMIT := hlong
    rw [if_neg (by omega), if_neg (by omega)]
    exact ⟨_, rfl⟩
  next b =>
    have hshort : CRYPT_HEADER_SIZE ≤ packet.length := hshort
    rw [if_neg (by omega)]
    exact ⟨_, rfl⟩

theorem decrypt_sealPacket (hlawful : ∀ c ∈ crypt, c.Lawful) {data : Bytes}
    (hseal : sealPacket crypt entropy packet = some data) :
    decrypt crypt data = some (packet.drop (cryptHeaderSize crypt)) := by
  unfold sealPacket at hseal
  split at hseal
  next =>
    cases hseal
    rfl
  next a =>
    split_ifs at hseal
    cases hseal
    obtain ⟨hlen, hopen⟩ := hlawful _ rfl (fillNonce entropy AEAD_NONCE) (packet.drop AEAD_NONCE)
    have hnonce := length_fillNonce entropy AEAD_NONCE
    unfold decrypt
    dsimp only
    rw [if_neg, List.take_left' hnonce, List.drop_left' hnonce, hopen]
    · rfl
    · rw [List.length_append, hlen, hnonce]
      omega
  next b =>
    split_ifs at hseal with hshort
    cases hseal
    set payload := packet.drop CRYPT_HEADER_SIZE with hpayload
    obtain ⟨hlen, hinv⟩ := hlawful _ rfl
      (fillNonce entropy NONCE_SIZE ++ le32 (crc32 payload) ++ payload)
    have hnonce := length_fillNonce entropy NONCE_SIZE
    unfold decrypt
    dsimp only
    rw [if_neg, hinv, List.append_assoc, List.drop_left' hnonce]
    · have hsum : ofLe32 ((le32 (crc32 payload) ++ payload).getD 0 0)
          ((le32 (crc32 payload) ++ payload).getD 1 0) ((le32 (crc32 payload) ++ payload).getD 2 0)
          ((le32 (crc32 payload) ++ payload).getD 3 0) = crc32 payload := ofLe32_le32 _
      have hrest : (le32 (crc32 payload) ++ payload).drop CRC_SIZE = payload := rfl
      rw [hsum, hrest, if_pos rfl]
      rfl
    · rw [hlen, List.length_append, List.length_append, hnonce, length_le32]
      unfold CRYPT_HEADER_SIZE CRC_SIZE
      omega

end Kcptun.Session
