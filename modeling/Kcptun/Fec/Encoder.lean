/- Kcptun/Fec/Encoder
   source: crates/kcp/src/fec.rs (constants, FecEncoder), crates/kcp/src/crypt (MTU_LIMIT)
   digest: The FEC packet header and the encoder, which seals packets as data shards and emits the
     parity shards of complete groups; where the sequence numbers stand after any calls. -/

import Kcptun.Lib.Run
import Kcptun.Rs.Codec

set_option autoImplicit false
set_option relaxedAutoImplicit false

namespace Kcptun.Fec

open Kcptun.Lib Kcptun.Lib.LittleEndian

def FEC_HEADER_SIZE : ℕ := 6
def TYPE_DATA : UInt16 := 0xf1
def TYPE_PARITY : UInt16 := 0xf2
def TYPE_OOB : UInt16 := 0xf3
def MAX_SHARD_SETS : ℕ := 3
def OOB_SEQID : UInt32 := 0xffffffff
def MTU_LIMIT : ℕ := 1500

/-- `usize::saturating_add`. -/
def saturatingAdd (a b : ℕ) : ℕ := min (a + b) 18446744073709551615

/-- `i64::saturating_sub`. -/
def saturatingSub (a b : Int) : Int :=
  max (-9223372036854775808) (min (a - b) 9223372036854775807)

def overwrite (b : Bytes) (at_ : ℕ) (bytes : Bytes) : Bytes :=
  b.take at_ ++ bytes ++ b.drop (at_ + bytes.length)

def paws (shardSize : ℕ) : UInt32 :=
  0xffffffff / UInt32.ofNat shardSize * UInt32.ofNat shardSize

def fecSeqid (b : Bytes) : UInt32 := ofLe32 (b.getD 0 0) (b.getD 1 0) (b.getD 2 0) (b.getD 3 0)

def fecFlag (b : Bytes) : UInt16 := ofLe16 (b.getD 4 0) (b.getD 5 0)

inductive Error
  | codec (e : Rs.Error)
  | packetTooShort (len min : ℕ)
  | packetTooLarge (len max : ℕ)
  deriving DecidableEq, Repr

structure FecEncoder where
  dataShards : ℕ
  parityShards : ℕ
  shardSize : ℕ
  paws : UInt32
  next : UInt32
  shardCount : ℕ
  maxSize : ℕ
  headerOffset : ℕ
  payloadOffset : ℕ
  shardCache : List Bytes
  shardLen : List ℕ
  tsLatestPacket : Int
  codec : Rs.Codec

/-- What `seal_data`, `seal_parity` and `seal_oob` write at the start of the FEC header. -/
def fecHeader (seqid : UInt32) (flag : UInt16) : Bytes := le32 seqid ++ le16 flag

namespace FecEncoder

/-- An encoder, or `none` when FEC is disabled. -/
def new (dataShards parityShards : Int) (offset : ℕ) : Except Error (Option FecEncoder) :=
  if dataShards ≤ 0 ∨ parityShards ≤ 0 then .ok none else
    match Rs.Codec.new dataShards.toNat parityShards.toNat with
    | .error e => .error (.codec e)
    | .ok codec =>
      let shardSize := dataShards.toNat + parityShards.toNat
      .ok (some {
        dataShards := dataShards.toNat
        parityShards := parityShards.toNat
        shardSize := shardSize
        paws := Fec.paws shardSize
        next := 0
        shardCount := 0
        maxSize := 0
        headerOffset := offset
        payloadOffset := saturatingAdd offset FEC_HEADER_SIZE
        shardCache := List.replicate shardSize (List.replicate MTU_LIMIT 0)
        shardLen := List.replicate shardSize MTU_LIMIT
        tsLatestPacket := -4611686018427387904
        codec := codec })

def advance (e : FecEncoder) : FecEncoder := { e with next := (e.next + 1) % e.paws }

def skipParity (e : FecEncoder) : FecEncoder :=
  { e with next := (e.next + UInt32.ofNat e.parityShards) % e.paws }

def sealData (e : FecEncoder) (b : Bytes) : Bytes :=
  let b := overwrite b e.headerOffset (fecHeader e.next TYPE_DATA)
  overwrite b e.payloadOffset (le16 (UInt16.ofNat (b.length - e.payloadOffset)))

def store (e : FecEncoder) (b : Bytes) : FecEncoder :=
  { e with
    shardLen := e.shardLen.set e.shardCount b.length
    shardCache := e.shardCache.modify e.shardCount
      (overwrite · e.payloadOffset (b.drop e.payloadOffset))
    shardCount := e.shardCount + 1
    maxSize := if b.length > e.maxSize then b.length else e.maxSize }

def padded (e : FecEncoder) : List Bytes :=
  e.shardCache.zipIdx.map fun (shard, i) =>
    if i < e.dataShards ∧ e.shardLen.getD i 0 < e.maxSize then
      overwrite shard (e.shardLen.getD i 0) (List.replicate (e.maxSize - e.shardLen.getD i 0) 0)
    else shard

def sealParity (e : FecEncoder) (k : ℕ) : FecEncoder :=
  { e.advance with
    shardCache := e.shardCache.modify k (overwrite · e.headerOffset (fecHeader e.next TYPE_PARITY))
    shardLen := e.shardLen.set k e.maxSize }

/-- Encodes a complete group: the cache with its parity shards sealed, or, if the codec fails, the
parity skipped. -/
def generate (e : FecEncoder) : FecEncoder × List Bytes :=
  let e := { e with shardCache := e.padded }
  let cache := e.shardCache.map fun shard => (shard.take e.maxSize).drop e.payloadOffset
  match e.codec.encode cache with
  | .error _ => (e.skipParity, [])
  | .ok coded =>
    let write := fun shard view => overwrite shard e.payloadOffset view
    let e := { e with shardCache := List.zipWith write e.shardCache coded }
    let e := (List.range' e.dataShards (e.shardSize - e.dataShards)).foldl sealParity e
    (e, (e.shardCache.drop e.dataShards).map fun shard => shard.take e.maxSize)

/-- What follows a complete group: its parity shards, unless the data is not continuous. -/
def complete (e : FecEncoder) (continuous : Bool) : FecEncoder × List Bytes :=
  let (e, ps) := if continuous then e.generate else (e.skipParity, [])
  ({ e with shardCount := 0, maxSize := 0 }, ps)

/-- Seals `b` as the next data shard; when that completes a group, also the group's parity
shards. -/
def encode (e : FecEncoder) (b : Bytes) (rto : UInt32) (now : Int) :
    Except Error (FecEncoder × Bytes × List Bytes) :=
  if b.length < saturatingAdd e.payloadOffset 2 then
    .error (.packetTooShort b.length (saturatingAdd e.payloadOffset 2))
  else if b.length > MTU_LIMIT then .error (.packetTooLarge b.length MTU_LIMIT)
  else
    let b := e.sealData b
    let e := e.advance.store b
    let (e, ps) := if e.shardCount = e.dataShards then
        e.complete (decide (saturatingSub now e.tsLatestPacket < (rto.toNat : Int)))
      else (e, [])
    .ok ({ e with tsLatestPacket := now }, b, ps)

/-- Seals `b` as an out-of-band packet; consumes no seqid. -/
def encodeOob (e : FecEncoder) (b : Bytes) : Except Error Bytes :=
  if b.length < saturatingAdd e.payloadOffset 2 then
    .error (.packetTooShort b.length (saturatingAdd e.payloadOffset 2))
  else
    let b := overwrite b e.headerOffset (fecHeader OOB_SEQID TYPE_OOB)
    .ok (overwrite b e.payloadOffset (le16 (UInt16.ofNat (b.length - e.payloadOffset))))

end FecEncoder

end Kcptun.Fec
