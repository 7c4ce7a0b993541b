/- Kcptun/Tcpraw/TcpSegment
   source: crates/tcpraw/src/tcp.rs (TcpFlags, TcpHeader, TcpOption, serialize, Segment::decode,
     Segment::timestamps, Segment::next_seq, Options::next)
   digest: The TCP segment codec, with every access checked: reading back what it writes, and
     reading any bytes at all. -/

import Kcptun.Lib.Splice
import Kcptun.Tcpraw.Checksum

set_option autoImplicit false
set_option relaxedAutoImplicit false

namespace Kcptun.Tcpraw.TcpSegment

open Kcptun.Lib
open Kcptun.Lib.LittleEndian (Bytes)
open Kcptun.Lib.BigEndian
open Kcptun.Tcpraw.Checksum

def MIN_HEADER_LEN : ℕ := 20

def OPTION_KIND_END_LIST : UInt8 := 0

def OPTION_KIND_NOP : UInt8 := 1

def OPTION_KIND_TIMESTAMPS : UInt8 := 8

structure TcpFlags where
  bits : UInt16
  defined : bits &&& 0x01ff = bits
deriving DecidableEq

namespace TcpFlags

def FIN : TcpFlags := ⟨0x0001, by decide⟩

def SYN : TcpFlags := ⟨0x0002, by decide⟩

def ACK : TcpFlags := ⟨0x0010, by decide⟩

def fromBits (bits : UInt16) : TcpFlags :=
  ⟨bits &&& 0x01ff, by rw [UInt16.and_assoc, UInt16.and_self]⟩

def contains (flags other : TcpFlags) : Bool := flags.bits &&& other.bits == other.bits

def syn (flags : TcpFlags) : Bool := flags.contains SYN

def fin (flags : TcpFlags) : Bool := flags.contains FIN

def ack (flags : TcpFlags) : Bool := flags.contains ACK

end TcpFlags

structure TcpHeader where
  srcPort : UInt16
  dstPort : UInt16
  seq : UInt32
  ack : UInt32
  dataOffset : UInt8
  flags : TcpFlags
  window : UInt16
  checksum : UInt16
  urgent : UInt16
deriving DecidableEq

def TcpHeader.flagsAndOffset (header : TcpHeader) : UInt16 :=
  (header.dataOffset.toUInt16 <<< 12) ||| header.flags.bits

/-- An option to serialise; its declared length is ignored. -/
structure TcpOption where
  kind : UInt8
  length : UInt8
  data : Bytes
deriving DecidableEq

def IsSingle (kind : UInt8) : Prop := kind = OPTION_KIND_END_LIST ∨ kind = OPTION_KIND_NOP

instance (kind : UInt8) : Decidable (IsSingle kind) := inferInstanceAs (Decidable (_ ∨ _))

def TcpOption.wireLen (o : TcpOption) : ℕ := if IsSingle o.kind then 1 else 2 + o.data.length

def optionLength : List TcpOption → ℕ
  | [] => 0
  | o :: options => o.wireLen + optionLength options

def paddingOf (optionLength : ℕ) : ℕ :=
  if optionLength % 4 = 0 then 0 else 4 - optionLength % 4

def TcpHeader.withDataOffset (header : TcpHeader) (optionLength : ℕ) : TcpHeader :=
  { header with
    dataOffset := UInt8.ofNat ((paddingOf optionLength + optionLength + MIN_HEADER_LEN) / 4) }

/-- The loop that writes the options, from `start` on. -/
def putOptions : List TcpOption → Bytes → ℕ → Option Bytes
  | [], out, _ => some out
  | o :: options, out, start => do
    let out ← splice out start [o.kind]
    if IsSingle o.kind then putOptions options out (start + 1)
    else do
      let out ← splice out (start + 1) [UInt8.ofNat (o.data.length + 2)]
      let out ← splice out (start + 2) o.data
      putOptions options out (start + (o.data.length + 2))

/-- The fixed header without its checksum, written into zeros. -/
def putHeader (header : TcpHeader) (out : Bytes) : Option Bytes := do
  let out ← splice out 0 (be16 header.srcPort)
  let out ← splice out 2 (be16 header.dstPort)
  let out ← splice out 4 (be32 header.seq)
  let out ← splice out 8 (be32 header.ack)
  let out ← splice out 12 (be16 header.flagsAndOffset)
  let out ← splice out 14 (be16 header.window)
  splice out 18 (be16 header.urgent)

/-- The header with its data offset and checksum, and the bytes written. -/
def serialize (header : TcpHeader) (options : List TcpOption) (payload : Bytes)
    (pseudo : PseudoHeader) : Option (TcpHeader × Bytes) := do
  let optionLength := optionLength options
  let header := header.withDataOffset optionLength
  let out := List.replicate (MIN_HEADER_LEN + optionLength + paddingOf optionLength) 0
  let out ← putHeader header out
  let out ← putOptions options out MIN_HEADER_LEN
  let out := out ++ payload
  let csum := computeChecksum out pseudo IP_PROTOCOL_TCP
  let out ← splice out 16 (be16 csum)
  some ({ header with checksum := csum }, out)

inductive ParseError where
  | HeaderTooShort (len : ℕ)
deriving DecidableEq

/-- A parsed segment: the fixed header, the option area and the payload. -/
structure Segment where
  header : TcpHeader
  optionBytes : Bytes
  payload : Bytes
deriving DecidableEq

/-- `u16::from_be_bytes([data[i], data[i + 1]])`. -/
def u16At (data : Bytes) (i : ℕ) : Option UInt16 := do
  let a ← data[i]?
  let b ← data[i + 1]?
  some (ofBe16 a b)

/-- `u32::from_be_bytes([data[i], data[i + 1], data[i + 2], data[i + 3]])`. -/
def u32At (data : Bytes) (i : ℕ) : Option UInt32 := do
  let a ← data[i]?
  let b ← data[i + 1]?
  let c ← data[i + 2]?
  let d ← data[i + 3]?
  some (ofBe32 a b c d)

def decodeHeader (data : Bytes) : Option TcpHeader := do
  let srcPort ← u16At data 0
  let dstPort ← u16At data 2
  let seq ← u32At data 4
  let ack ← u32At data 8
  let offsetByte : UInt8 ← data[12]?
  let flagsByte : UInt8 ← data[13]?
  let window ← u16At data 14
  let checksum ← u16At data 16
  let urgent ← u16At data 18
  some
    { srcPort, dstPort, seq, ack, dataOffset := offsetByte >>> 4,
      flags := TcpFlags.fromBits (flagsByte.toUInt16 ||| ((offsetByte &&& 0x01).toUInt16 <<< 8)),
      window, checksum, urgent }

/-- `Segment::decode`; nothing when an access is out of range. -/
def decode (data : Bytes) : Option (Except ParseError Segment) :=
  if data.length < MIN_HEADER_LEN then some (.error (.HeaderTooShort data.length))
  else do
    let header ← decodeHeader data
    let dataStart := header.dataOffset.toNat * 4
    if header.dataOffset < 5 ∨ data.length < dataStart then
      some (.ok { header, optionBytes := [], payload := [] })
    else do
      let optionBytes ← slice data MIN_HEADER_LEN dataStart
      let payload ← slice data dataStart data.length
      some (.ok { header, optionBytes, payload })

structure OptionRef where
  kind : UInt8
  length : UInt8
  data : Bytes
deriving DecidableEq

/-- `Options::next`: the option it yields, if any, and the bytes it leaves. -/
def next (data : Bytes) : Option (Option OptionRef × Bytes) :=
  match data with
  | [] => some (none, data)
  | kind :: _ =>
    if kind = OPTION_KIND_END_LIST then some (some ⟨kind, 1, []⟩, [])
    else if kind = OPTION_KIND_NOP then do
      let rest ← slice data 1 data.length
      some (some ⟨kind, 1, []⟩, rest)
    else if data.length < 2 then some (some ⟨kind, 0, []⟩, [])
    else do
      let length ← data[1]?
      if length < 2 ∨ data.length < length.toNat then some (some ⟨kind, length, []⟩, [])
      else do
        let rest ← slice data length.toNat data.length
        let optData ← slice data 2 length.toNat
        some (some ⟨kind, length, optData⟩, rest)

private theorem next_shorter {data rest : Bytes} {opt : OptionRef}
    (h : next data = some (some opt, rest)) : rest.length < data.length := by
  cases data with
  | nil => cases h
  | cons kind tail =>
    rw [next] at h
    split_ifs at h with hend hnop hshort
    · cases h
      exact Nat.succ_pos _
    · obtain ⟨r, hr, h⟩ := Option.bind_eq_some_iff.mp h
      cases h
      obtain ⟨_, hr⟩ := Option.ite_none_right_eq_some.mp hr
      cases hr
      rw [List.take_length, List.length_drop, List.length_cons]
      omega
    · cases h
      exact Nat.succ_pos _
    · obtain ⟨length, -, h⟩ := Option.bind_eq_some_iff.mp h
      split_ifs at h with hbad
      · cases h
        exact Nat.succ_pos _
      · obtain ⟨r, hr, h⟩ := Option.bind_eq_some_iff.mp h
        obtain ⟨optData, -, h⟩ := Option.bind_eq_some_iff.mp h
        cases h
        obtain ⟨_, hr⟩ := Option.ite_none_right_eq_some.mp hr
        cases hr
        have htwo : 2 ≤ length.toNat :=
          UInt8.le_iff_toNat_le.mp (UInt8.not_lt.mp fun hlt => hbad (Or.inl hlt))
        rw [List.take_length, List.length_drop, List.length_cons]
        omega

def options (data : Bytes) : Option (List OptionRef) :=
  match _h : next data with
  | none => none
  | some (none, _) => some []
  | some (some opt, rest) => (options rest).map (opt :: ·)
termination_by data.length
decreasing_by exact next_shorter _h

structure Timestamps where
  tsVal : UInt32
  tsEcr : UInt32
deriving DecidableEq

def firstTimestamps : List OptionRef → Option (Option Timestamps)
  | [] => some none
  | opt :: opts =>
    if opt.kind = OPTION_KIND_TIMESTAMPS ∧ (opt.data.length = 8 ∨ opt.data.length = 10) then do
      let tsVal ← u32At opt.data 0
      let tsEcr ← u32At opt.data 4
      some (some { tsVal, tsEcr })
    else firstTimestamps opts

namespace Segment

/-- `Segment::options`, iterated to the end. -/
def options (seg : Segment) : Option (List OptionRef) := TcpSegment.options seg.optionBytes

def timestamps (seg : Segment) : Option (Option Timestamps) := do
  let opts ← seg.options
  firstTimestamps opts

def nextSeq (seg : Segment) : UInt32 :=
  let nextSeq := seg.header.seq + UInt32.ofNat seg.payload.length
  let nextSeq := if seg.header.flags.syn then nextSeq + 1 else nextSeq
  if seg.header.flags.fin then nextSeq + 1 else nextSeq

end Segment

/-! What is written -/

def TcpOption.wire (o : TcpOption) : Bytes :=
  if IsSingle o.kind then [o.kind] else o.kind :: UInt8.ofNat (o.data.length + 2) :: o.data

def wireOptions (opts : List TcpOption) : Bytes := opts.flatMap TcpOption.wire

/-- The fixed header on the wire, up to the checksum. -/
def TcpHeader.front (header : TcpHeader) : Bytes :=
  be16 header.srcPort ++ be16 header.dstPort ++ be32 header.seq ++ be32 header.ack ++
    be16 header.flagsAndOffset ++ be16 header.window

/-- The fixed header on the wire, with a given checksum. -/
def TcpHeader.wire (header : TcpHeader) (csum : UInt16) : Bytes :=
  header.front ++ (be16 csum ++ be16 header.urgent)

private theorem length_front (header : TcpHeader) : header.front.length = 16 := rfl

private theorem wire_append (header : TcpHeader) (csum : UInt16) (rest : Bytes) :
    header.wire csum ++ rest = header.front ++ (be16 csum ++ (be16 header.urgent ++ rest)) := by
  rw [TcpHeader.wire, List.append_assoc, List.append_assoc]

private theorem length_wire (o : TcpOption) : o.wire.length = o.wireLen := by
  unfold TcpOption.wire TcpOption.wireLen
  split_ifs
  · rfl
  · rw [List.length_cons, List.length_cons]
    omega

private theorem length_wireOptions (opts : List TcpOption) :
    (wireOptions opts).length = optionLength opts := by
  induction opts with
  | nil => rfl
  | cons o opts ih =>
    rw [wireOptions, List.flatMap_cons, List.length_append, length_wire, optionLength]
    exact congrArg _ ih

private theorem putOptions_eq (opts : List TcpOption) {front back : Bytes} {start : ℕ}
    (hstart : front.length = start) (hle : optionLength opts ≤ back.length) :
    putOptions opts (front ++ back) start =
      some (front ++ (wireOptions opts ++ back.drop (optionLength opts))) := by
  induction opts generalizing front back start with
  | nil => rfl
  | cons o opts ih =>
    rw [optionLength, TcpOption.wireLen] at hle
    rw [putOptions, splice_append hstart (by rw [List.length_singleton]; split_ifs at hle <;> omega),
      Option.bind_eq_bind, Option.bind_some, ← List.append_assoc]
    rw [wireOptions, List.flatMap_cons, optionLength, TcpOption.wireLen, TcpOption.wire]
    by_cases hsingle : IsSingle o.kind
    · rw [if_pos hsingle] at hle ⊢
      rw [if_pos hsingle, if_pos hsingle, ih (by rw [List.length_append, hstart]; rfl)
        (by rw [List.length_drop, List.length_singleton]; omega), List.drop_drop]
      rw [List.append_assoc, List.append_assoc]
      rfl
    · rw [if_neg hsingle] at hle ⊢
      have hkind : (front ++ [o.kind]).length = start + 1 := by
        rw [List.length_append, hstart]
        rfl
      have hlen : (front ++ [o.kind] ++ [UInt8.ofNat (o.data.length + 2)]).length = start + 2 := by
        rw [List.length_append, hkind]
        rfl
      have hdata : (front ++ [o.kind] ++ [UInt8.ofNat (o.data.length + 2)] ++ o.data).length =
          start + (o.data.length + 2) := by
        rw [List.length_append, hlen]
        omega
      rw [if_neg hsingle, if_neg hsingle,
        splice_append hkind (by rw [List.length_drop, List.length_singleton]; simp; omega),
        Option.bind_some, ← List.append_assoc,
        splice_append hlen (by rw [List.length_drop, List.length_drop]; simp; omega),
        Option.bind_some, ← List.append_assoc,
        ih hdata (by rw [List.length_drop, List.length_drop, List.length_drop]; simp; omega)]
      simp only [List.drop_drop, List.length_singleton, List.append_assoc, List.cons_append,
        List.nil_append, wireOptions]

private theorem splice_zeros {front xs : Bytes} {pos n k : ℕ} (hpos : front.length = pos)
    (hn : xs.length + k = n) :
    splice (front ++ List.replicate n 0) pos xs = some (front ++ xs ++ List.replicate k 0) := by
  subst hn
  rw [splice_append hpos (by rw [List.length_replicate]; exact Nat.le_add_right _ _),
    List.drop_replicate, Nat.add_sub_cancel_left, List.append_assoc]

private theorem putHeader_eq (header : TcpHeader) (m : ℕ) :
    putHeader header (List.replicate (20 + m) 0) =
      some (header.wire 0 ++ List.replicate m 0) := by
  have hsrc := @splice_zeros [] (be16 header.srcPort) 0 (20 + m) (18 + m) rfl
    (by rw [length_be16]; omega)
  have hdst := @splice_zeros (be16 header.srcPort) (be16 header.dstPort) 2 (18 + m) (16 + m) rfl
    (by rw [length_be16]; omega)
  have hseq := @splice_zeros (be16 header.srcPort ++ be16 header.dstPort) (be32 header.seq) 4
    (16 + m) (12 + m) rfl (by rw [length_be32]; omega)
  have hack := @splice_zeros (be16 header.srcPort ++ be16 header.dstPort ++ be32 header.seq)
    (be32 header.ack) 8 (12 + m) (8 + m) rfl (by rw [length_be32]; omega)
  have hflags := @splice_zeros (be16 header.srcPort ++ be16 header.dstPort ++ be32 header.seq ++
    be32 header.ack) (be16 header.flagsAndOffset) 12 (8 + m) (6 + m) rfl
    (by rw [length_be16]; omega)
  have hwindow := @splice_zeros (be16 header.srcPort ++ be16 header.dstPort ++ be32 header.seq ++
    be32 header.ack ++ be16 header.flagsAndOffset) (be16 header.window) 14 (6 + m) (4 + m) rfl
    (by rw [length_be16]; omega)
  -- the two bytes of the checksum stay zero
  have hurgent := @splice_zeros (header.front ++ be16 0) (be16 header.urgent) 18 (2 + m) m rfl
    (by rw [length_be16])
  have hgap : List.replicate (4 + m) (0 : UInt8) = be16 0 ++ List.replicate (2 + m) 0 := by
    rw [show 4 + m = 2 + (2 + m) by omega, List.replicate_add]
    rfl
  rw [List.nil_append, List.nil_append] at hsrc
  rw [putHeader, hsrc, Option.bind_eq_bind, Option.bind_some, hdst, Option.bind_some, hseq,
    Option.bind_some, hack, Option.bind_some, hflags, Option.bind_some, hwindow, Option.bind_some,
    hgap, ← List.append_assoc _ (be16 0), ← TcpHeader.front, hurgent, TcpHeader.wire,
    List.append_assoc header.front]

private theorem length_header_wire (header : TcpHeader) (csum : UInt16) :
    (header.wire csum).length = 20 := rfl

/-- The area between the fixed header and the payload: the options and their padding. -/
def optionArea (opts : List TcpOption) : Bytes :=
  wireOptions opts ++ List.replicate (paddingOf (optionLength opts)) 0

private theorem length_optionArea (opts : List TcpOption) :
    (optionArea opts).length = optionLength opts + paddingOf (optionLength opts) := by
  rw [optionArea, List.length_append, length_wireOptions, List.length_replicate]

/-- `serialize` never writes out of range: it yields the header, the options, their padding and the
payload, with the checksum in place. -/
theorem serialize_eq (header : TcpHeader) (opts : List TcpOption) (payload : Bytes)
    (pseudo : PseudoHeader) :
    ∃ csum, csum = computeChecksum ((header.withDataOffset (optionLength opts)).wire 0 ++
        (optionArea opts ++ payload)) pseudo IP_PROTOCOL_TCP ∧
      serialize header opts payload pseudo =
        some ({ header.withDataOffset (optionLength opts) with checksum := csum },
        (header.withDataOffset (optionLength opts)).wire csum ++ (optionArea opts ++ payload)) := by
  refine ⟨_, rfl, ?_⟩
  have hoptions := @putOptions_eq opts ((header.withDataOffset (optionLength opts)).wire 0)
    (List.replicate (optionArea opts).length 0) MIN_HEADER_LEN rfl
    (by rw [List.length_replicate, length_optionArea]; omega)
  have hfit : optionLength opts + paddingOf (optionLength opts) - optionLength opts =
      paddingOf (optionLength opts) := by omega
  rw [length_optionArea, List.drop_replicate, hfit, ← optionArea] at hoptions
  rw [serialize]
  dsimp only
  generalize header.withDataOffset (optionLength opts) = header at hoptions ⊢
  have hcsum : ∀ csum, splice (header.wire 0 ++ optionArea opts ++ payload) 16 (be16 csum) =
      some (header.wire csum ++ (optionArea opts ++ payload)) := by
    intro csum
    rw [List.append_assoc, wire_append, splice_append (length_front header) (by simp), wire_append]
    rfl
  rw [Nat.add_assoc, show MIN_HEADER_LEN = 20 from rfl, putHeader_eq, Option.bind_eq_bind,
    Option.bind_some]
  rw [show 20 = MIN_HEADER_LEN from rfl, hoptions, Option.bind_some, hcsum, Option.bind_some,
    List.append_assoc]

/-! What is read back -/

private theorem bits_lt (flags : TcpFlags) : flags.bits.toNat < 512 := by
  have h : (flags.bits &&& 0x01ff).toNat = flags.bits.toNat := by rw [flags.defined]
  rw [UInt16.toNat_and] at h
  have hmod : flags.bits.toNat % 512 = flags.bits.toNat :=
    (Nat.and_two_pow_sub_one_eq_mod flags.bits.toNat 9).symm.trans h
  omega

private theorem toNat_flagsAndOffset {header : TcpHeader} (hoffset : header.dataOffset.toNat ≤ 15) :
    header.flagsAndOffset.toNat = header.dataOffset.toNat * 4096 + header.flags.bits.toNat := by
  have hshift : (header.dataOffset.toUInt16 <<< 12).toNat = header.dataOffset.toNat <<< 12 := by
    rw [UInt16.toNat_shiftLeft, UInt8.toNat_toUInt16]
    show header.dataOffset.toNat <<< 12 % 2 ^ 16 = _
    rw [Nat.shiftLeft_eq]
    omega
  have hbits := bits_lt header.flags
  rw [TcpHeader.flagsAndOffset, UInt16.toNat_or, hshift,
    ← Nat.shiftLeft_add_eq_or_of_lt (by omega), Nat.shiftLeft_eq]

private theorem decode_flagsAndOffset {header : TcpHeader} {a b : UInt8}
    (hoffset : header.dataOffset.toNat ≤ 15)
    (hword : a.toNat * 256 + b.toNat = header.flagsAndOffset.toNat) :
    a >>> 4 = header.dataOffset ∧
      TcpFlags.fromBits (b.toUInt16 ||| ((a &&& 0x01).toUInt16 <<< 8)) = header.flags := by
  have hbits := bits_lt header.flags
  have hb := b.toNat_lt
  rw [toNat_flagsAndOffset hoffset] at hword
  have ha : a.toNat = header.dataOffset.toNat * 16 + header.flags.bits.toNat / 256 := by omega
  have hlow' : a.toNat % 2 = header.flags.bits.toNat / 256 := by omega
  have hb' : b.toNat = header.flags.bits.toNat % 256 := by omega
  have hns : a.toNat % 2 * 2 ^ 8 + b.toNat = header.flags.bits.toNat := by
    rw [hlow', hb', Nat.mul_comm]
    exact Nat.div_add_mod _ _
  constructor
  · apply UInt8.toNat_inj.mp
    rw [UInt8.toNat_shiftRight]
    show a.toNat >>> 4 = _
    rw [Nat.shiftRight_eq_div_pow]
    omega
  · have hlow : (a &&& 0x01).toNat = a.toNat % 2 := by
      rw [UInt8.toNat_and]
      exact Nat.and_two_pow_sub_one_eq_mod a.toNat 1
    have hshift : ((a &&& 0x01).toUInt16 <<< 8).toNat = (a.toNat % 2) <<< 8 := by
      rw [UInt16.toNat_shiftLeft, UInt8.toNat_toUInt16, hlow]
      show (a.toNat % 2) <<< 8 % 2 ^ 16 = _
      rw [Nat.shiftLeft_eq]
      omega
    have hvalue : b.toUInt16 ||| ((a &&& 0x01).toUInt16 <<< 8) = header.flags.bits := by
      apply UInt16.toNat_inj.mp
      rw [UInt16.toNat_or, UInt8.toNat_toUInt16, hshift, Nat.or_comm,
        ← Nat.shiftLeft_add_eq_or_of_lt hb, Nat.shiftLeft_eq]
      exact hns
    rw [hvalue, TcpFlags.fromBits, TcpFlags.mk.injEq]
    exact header.flags.defined

private theorem decodeHeader_wire {header : TcpHeader} (csum : UInt16) (rest : Bytes)
    (hoffset : header.dataOffset.toNat ≤ 15) :
    decodeHeader (header.wire csum ++ rest) = some { header with checksum := csum } := by
  obtain ⟨s0, s1, hsrc, hsrc', -⟩ := exists_be16 header.srcPort
  obtain ⟨d0, d1, hdst, hdst', -⟩ := exists_be16 header.dstPort
  obtain ⟨q0, q1, q2, q3, hseq, hseq'⟩ := exists_be32 header.seq
  obtain ⟨a0, a1, a2, a3, hack, hack'⟩ := exists_be32 header.ack
  obtain ⟨f0, f1, hflags, -, hword⟩ := exists_be16 header.flagsAndOffset
  obtain ⟨w0, w1, hwindow, hwindow', -⟩ := exists_be16 header.window
  obtain ⟨c0, c1, hcsum, hcsum', -⟩ := exists_be16 csum
  obtain ⟨u0, u1, hurgent, hurgent', -⟩ := exists_be16 header.urgent
  obtain ⟨hdecoded, hdecoded'⟩ := decode_flagsAndOffset hoffset hword
  have hbytes : header.wire csum ++ rest = s0 :: s1 :: d0 :: d1 :: q0 :: q1 :: q2 :: q3 :: a0 ::
      a1 :: a2 :: a3 :: f0 :: f1 :: w0 :: w1 :: c0 :: c1 :: u0 :: u1 :: rest := by
    rw [TcpHeader.wire, TcpHeader.front, hsrc, hdst, hseq, hack, hflags, hwindow, hcsum, hurgent]
    rfl
  rw [hbytes]
  show some (TcpHeader.mk (ofBe16 s0 s1) (ofBe16 d0 d1) (ofBe32 q0 q1 q2 q3) (ofBe32 a0 a1 a2 a3)
    (f0 >>> 4) (TcpFlags.fromBits (f1.toUInt16 ||| ((f0 &&& 0x01).toUInt16 <<< 8))) (ofBe16 w0 w1)
    (ofBe16 c0 c1) (ofBe16 u0 u1)) = _
  rw [hsrc', hdst', hseq', hack', hdecoded, hdecoded', hwindow', hcsum', hurgent']

private theorem options_of_done {data rest : Bytes} (h : next data = some (none, rest)) :
    options data = some [] := by
  rw [options]
  split <;> rename_i hnext <;> rw [h] at hnext <;> cases hnext

private theorem options_nil : options [] = some [] := @options_of_done [] [] rfl

private theorem options_of_next {data rest : Bytes} {opt : OptionRef}
    (h : next data = some (some opt, rest)) : options data = (options rest).map (opt :: ·) := by
  rw [options]
  split <;> rename_i hnext <;> rw [h] at hnext <;> cases hnext
  rfl

/-- An option as it is read back: with the length it has on the wire. -/
def TcpOption.read (o : TcpOption) : OptionRef :=
  if IsSingle o.kind then ⟨o.kind, 1, []⟩ else ⟨o.kind, UInt8.ofNat (o.data.length + 2), o.data⟩

def endList : OptionRef := ⟨OPTION_KIND_END_LIST, 1, []⟩

private theorem next_endList (rest : Bytes) :
    next (OPTION_KIND_END_LIST :: rest) = some (some endList, []) := rfl

private theorem next_wire {o : TcpOption} (rest : Bytes) (hend : o.kind ≠ OPTION_KIND_END_LIST)
    (hle : o.wireLen ≤ 255) : next (o.wire ++ rest) = some (some o.read, rest) := by
  by_cases hnop : o.kind = OPTION_KIND_NOP
  · have hsingle : IsSingle o.kind := Or.inr hnop
    rw [TcpOption.wire, if_pos hsingle, TcpOption.read, if_pos hsingle, List.cons_append, next,
      if_neg hend, if_pos hnop, slice, if_pos ⟨by simp, le_rfl⟩, List.take_length]
    rfl
  · have hsingle : ¬ IsSingle o.kind := not_or.mpr ⟨hend, hnop⟩
    rw [TcpOption.wireLen, if_neg hsingle] at hle
    generalize hlen : UInt8.ofNat (o.data.length + 2) = length
    have hlength : length.toNat = 2 + o.data.length := by
      rw [← hlen, UInt8.toNat_ofNat']
      omega
    have hsize : (o.kind :: length :: (o.data ++ rest)).length =
        2 + o.data.length + rest.length := by
      rw [List.length_cons, List.length_cons, List.length_append]
      omega
    have hgood : ¬ (length < 2 ∨
        (o.kind :: length :: (o.data ++ rest)).length < length.toNat) := by
      rw [UInt8.lt_iff_toNat_lt, hlength, hsize]
      show ¬ (2 + o.data.length < 2 ∨ _)
      omega
    have hrest : slice (o.kind :: length :: (o.data ++ rest)) length.toNat
        (o.kind :: length :: (o.data ++ rest)).length = some rest := by
      have hmid := @slice_mid UInt8 (o.kind :: length :: o.data) [] rest (2 + o.data.length)
        (2 + o.data.length + rest.length) (by rw [List.length_cons, List.length_cons]; omega) rfl
      rw [List.append_nil] at hmid
      rw [hlength, hsize]
      exact hmid
    have hdata : slice (o.kind :: length :: (o.data ++ rest)) 2 length.toNat = some o.data := by
      rw [hlength]
      exact @slice_mid UInt8 [o.kind, length] rest o.data 2 (2 + o.data.length) rfl rfl
    have htwo : ¬ (o.kind :: length :: (o.data ++ rest)).length < 2 := by
      rw [hsize]
      omega
    rw [TcpOption.wire, if_neg hsingle, TcpOption.read, if_neg hsingle, hlen, List.cons_append,
      List.cons_append, next, if_neg hend, if_neg hnop, if_neg htwo, List.getElem?_cons_succ,
      List.getElem?_cons_zero, Option.bind_eq_bind, Option.bind_some, if_neg hgood, hrest,
      Option.bind_eq_bind, Option.bind_some, hdata, Option.bind_some]

def readOptions (opts : List TcpOption) : List OptionRef :=
  (opts.takeWhile fun o => o.kind ≠ OPTION_KIND_END_LIST).map TcpOption.read ++
    if (∃ o ∈ opts, o.kind = OPTION_KIND_END_LIST) ∨ optionLength opts % 4 ≠ 0 then [endList]
    else []

private theorem options_zeros (n : ℕ) :
    options (List.replicate n 0) = some (if n = 0 then [] else [endList]) := by
  cases n with
  | zero => exact options_nil
  | succ n =>
    have hnext : next (List.replicate (n + 1) 0) = some (some endList, []) := next_endList _
    rw [options_of_next hnext, options_nil, if_neg (Nat.succ_ne_zero n)]
    rfl

private theorem options_wire (opts : List TcpOption) (pad : ℕ) (hle : optionLength opts ≤ 255) :
    options (wireOptions opts ++ List.replicate pad 0) =
      some ((opts.takeWhile fun o => o.kind ≠ OPTION_KIND_END_LIST).map TcpOption.read ++
        if (∃ o ∈ opts, o.kind = OPTION_KIND_END_LIST) ∨ pad ≠ 0 then [endList] else []) := by
  induction opts with
  | nil =>
    rw [wireOptions, List.flatMap_nil, List.nil_append, options_zeros]
    by_cases hpad : pad = 0 <;> simp [hpad]
  | cons o opts ih =>
    rw [optionLength] at hle
    rw [wireOptions, List.flatMap_cons, List.append_assoc]
    by_cases hend : o.kind = OPTION_KIND_END_LIST
    · have hwire : o.wire = [OPTION_KIND_END_LIST] := by
        have hsingle : IsSingle o.kind := Or.inl hend
        rw [TcpOption.wire, if_pos hsingle, hend]
      have hnext : next (o.wire ++ (opts.flatMap TcpOption.wire ++ List.replicate pad 0)) =
          some (some endList, []) := by
        rw [hwire]
        exact next_endList _
      rw [options_of_next hnext, options_nil, List.takeWhile_cons_of_neg (by simpa using hend),
        if_pos (Or.inl ⟨o, List.mem_cons_self, hend⟩)]
      rfl
    · have hnext := next_wire (opts.flatMap TcpOption.wire ++ List.replicate pad 0) hend
        (by omega : o.wireLen ≤ 255)
      have hrest := ih (by omega)
      rw [wireOptions] at hrest
      rw [options_of_next hnext, hrest, List.takeWhile_cons_of_pos (by simpa using hend),
        List.map_cons, Option.map_some, List.cons_append]
      simp only [List.mem_cons, exists_eq_or_imp, hend, false_or]

private theorem paddingOf_ne_zero {n : ℕ} : paddingOf n ≠ 0 ↔ n % 4 ≠ 0 := by
  unfold paddingOf
  split_ifs <;> omega

private theorem toNat_dataOffset (header : TcpHeader) {opts : List TcpOption}
    (hle : optionLength opts ≤ 40) :
    (header.withDataOffset (optionLength opts)).dataOffset.toNat * 4 =
      20 + (optionArea opts).length ∧ (optionArea opts).length ≤ 40 := by
  rw [length_optionArea]
  show (UInt8.ofNat _).toNat * 4 = _ ∧ _
  rw [UInt8.toNat_ofNat', MIN_HEADER_LEN]
  unfold paddingOf
  split_ifs <;> omega

/-- Whatever the payload, the bytes of a header whose data offset ends at `area` are read back as
they were put together. -/
theorem decode_wire {header : TcpHeader} {area : Bytes} (csum : UInt16) (payload : Bytes)
    (hoffset : header.dataOffset.toNat * 4 = 20 + area.length) (harea : area.length ≤ 40) :
    decode (header.wire csum ++ (area ++ payload)) =
      some (.ok ⟨{ header with checksum := csum }, area, payload⟩) := by
  have hsize : (header.wire csum ++ (area ++ payload)).length =
      20 + area.length + payload.length := by
    rw [List.length_append, List.length_append, length_header_wire]
    omega
  have hstart : ¬ ((header.dataOffset < 5) ∨
      (header.wire csum ++ (area ++ payload)).length < header.dataOffset.toNat * 4) := by
    rw [UInt8.lt_iff_toNat_lt, hsize]
    show ¬ (header.dataOffset.toNat < 5 ∨ _)
    omega
  have hoptions : slice (header.wire csum ++ (area ++ payload)) MIN_HEADER_LEN
      (header.dataOffset.toNat * 4) = some area := by
    rw [hoffset, ← List.append_assoc]
    exact slice_mid (length_header_wire header csum) rfl
  have hpayload : slice (header.wire csum ++ (area ++ payload)) (header.dataOffset.toNat * 4)
      (header.wire csum ++ (area ++ payload)).length = some payload := by
    have hmid := @slice_mid UInt8 (header.wire csum ++ area) [] payload (20 + area.length)
      (20 + area.length + payload.length)
      (by rw [List.length_append, length_header_wire]) rfl
    rw [List.append_nil, List.append_assoc] at hmid
    rw [hoffset, hsize]
    exact hmid
  rw [decode, if_neg (by rw [hsize, MIN_HEADER_LEN]; omega),
    decodeHeader_wire csum _ (by omega), Option.bind_eq_bind, Option.bind_some]
  dsimp only
  rw [if_neg hstart, hoptions, Option.bind_eq_bind, Option.bind_some, hpayload, Option.bind_some]

/-! What any bytes are read as -/

section Total

variable {data : Bytes}

private theorem u16At_total {i : ℕ} (h : i + 1 < data.length) : ∃ w, u16At data i = some w := by
  rw [u16At, List.getElem?_eq_getElem (by omega), List.getElem?_eq_getElem h]
  exact ⟨_, rfl⟩

private theorem u32At_total {i : ℕ} (h : i + 3 < data.length) : ∃ w, u32At data i = some w := by
  rw [u32At, List.getElem?_eq_getElem (by omega), List.getElem?_eq_getElem (by omega),
    List.getElem?_eq_getElem (by omega), List.getElem?_eq_getElem h]
  exact ⟨_, rfl⟩

private theorem slice_total {start stop : ℕ} (hle : start ≤ stop) (hstop : stop ≤ data.length) :
    slice data start stop = some ((data.take stop).drop start) :=
  if_pos ⟨hle, hstop⟩

private theorem decodeHeader_total (h : 20 ≤ data.length) :
    ∃ header, decodeHeader data = some header := by
  obtain ⟨srcPort, hsrc⟩ := @u16At_total data 0 (by omega)
  obtain ⟨dstPort, hdst⟩ := @u16At_total data 2 (by omega)
  obtain ⟨seq, hseq⟩ := @u32At_total data 4 (by omega)
  obtain ⟨ack, hack⟩ := @u32At_total data 8 (by omega)
  obtain ⟨window, hwindow⟩ := @u16At_total data 14 (by omega)
  obtain ⟨csum, hcsum⟩ := @u16At_total data 16 (by omega)
  obtain ⟨urgent, hurgent⟩ := @u16At_total data 18 (by omega)
  have hoffset : data[12]? = some data[12] := List.getElem?_eq_getElem (by omega)
  have hflags : data[13]? = some data[13] := List.getElem?_eq_getElem (by omega)
  rw [decodeHeader, hsrc, hdst, hseq, hack, hoffset, hflags, hwindow, hcsum, hurgent]
  exact ⟨_, rfl⟩

/-- Bytes shorter than a header are rejected; all others are read, and the option area and the
payload are disjoint parts of them. -/
theorem decode_total (data : Bytes) :
    (data.length < MIN_HEADER_LEN ∧ decode data = some (.error (.HeaderTooShort data.length))) ∨
      ∃ seg, decode data = some (.ok seg) ∧
        ∃ front back, data = front ++ seg.optionBytes ++ seg.payload ++ back := by
  by_cases hshort : data.length < MIN_HEADER_LEN
  · exact Or.inl ⟨hshort, if_pos hshort⟩
  · have hlong : 20 ≤ data.length := Nat.le_of_not_lt hshort
    obtain ⟨header, hheader⟩ := decodeHeader_total hlong
    right
    rw [decode, if_neg hshort, hheader, Option.bind_eq_bind, Option.bind_some]
    dsimp only
    by_cases hbad : header.dataOffset < 5 ∨ data.length < header.dataOffset.toNat * 4
    · rw [if_pos hbad]
      exact ⟨_, rfl, data, [], by simp⟩
    · obtain ⟨hfive, hend⟩ := not_or.mp hbad
      have hfive' : 5 ≤ header.dataOffset.toNat := UInt8.le_iff_toNat_le.mp (UInt8.not_lt.mp hfive)
      rw [if_neg hbad, slice_total (by rw [MIN_HEADER_LEN]; omega) (Nat.le_of_not_lt hend),
        slice_total (Nat.le_of_not_lt hend) le_rfl]
      refine ⟨_, rfl, data.take 20, [], ?_⟩
      have hfront : data.take 20 ++ (data.take (header.dataOffset.toNat * 4)).drop 20 =
          data.take (header.dataOffset.toNat * 4) := by
        conv_rhs => rw [← List.take_append_drop 20 (data.take (header.dataOffset.toNat * 4)),
          List.take_take, Nat.min_eq_left (by omega)]
      rw [List.append_nil, List.take_length]
      show data = data.take 20 ++ (data.take _).drop 20 ++ data.drop _
      rw [hfront, List.take_append_drop]

private theorem next_total (data : Bytes) : ∃ r, next data = some r := by
  cases data with
  | nil => exact ⟨_, rfl⟩
  | cons kind tail =>
    rw [next]
    split_ifs with hend hnop hshort
    · exact ⟨_, rfl⟩
    · rw [slice_total (by simp) le_rfl]
      exact ⟨_, rfl⟩
    · exact ⟨_, rfl⟩
    · rw [List.getElem?_eq_getElem (by omega), Option.bind_eq_bind, Option.bind_some]
      split_ifs with hbad
      · exact ⟨_, rfl⟩
      · obtain ⟨htwo, hlen⟩ := not_or.mp hbad
        have hstart : 2 ≤ ((kind :: tail)[1]).toNat :=
          UInt8.le_iff_toNat_le.mp (UInt8.not_lt.mp htwo)
        rw [slice_total (Nat.le_of_not_lt hlen) le_rfl,
          slice_total hstart (Nat.le_of_not_lt hlen)]
        exact ⟨_, rfl⟩

private theorem options_total (data : Bytes) : ∃ opts, options data = some opts := by
  induction data using options.induct with
  | case1 data hnone =>
    obtain ⟨r, hr⟩ := next_total data
    rw [hr] at hnone
    cases hnone
  | case2 data rest hdone => exact ⟨[], options_of_done hdone⟩
  | case3 data opt rest hnext ih =>
    obtain ⟨opts, hopts⟩ := ih
    rw [options_of_next hnext, hopts]
    exact ⟨_, rfl⟩

private theorem firstTimestamps_total (opts : List OptionRef) :
    ∃ ts, firstTimestamps opts = some ts := by
  induction opts with
  | nil => exact ⟨_, rfl⟩
  | cons opt opts ih =>
    rw [firstTimestamps]
    split_ifs with hopt
    · obtain ⟨tsVal, hval⟩ := @u32At_total opt.data 0 (by omega)
      obtain ⟨tsEcr, hecr⟩ := @u32At_total opt.data 4 (by omega)
      rw [hval, hecr]
      exact ⟨_, rfl⟩
    · exact ih

theorem timestamps_total (seg : Segment) : ∃ ts, seg.timestamps = some ts := by
  obtain ⟨opts, hopts⟩ := options_total seg.optionBytes
  obtain ⟨ts, hts⟩ := firstTimestamps_total opts
  refine ⟨ts, ?_⟩
  rw [Segment.timestamps, Segment.options, hopts]
  exact hts

end Total

/-! The codec -/

def segmentLength (opts : List TcpOption) (payload : Bytes) : ℕ :=
  MIN_HEADER_LEN + optionLength opts + paddingOf (optionLength opts) + payload.length

private theorem decode_serialize (header : TcpHeader) {opts : List TcpOption} {payload : Bytes}
    (pseudo : PseudoHeader) (hopts : optionLength opts ≤ 40)
    (htotal : segmentLength opts payload ≤ 65535) :
    ∃ sent bytes, serialize header opts payload pseudo = some (sent, bytes) ∧
      decode bytes = some (.ok ⟨sent, optionArea opts, payload⟩) ∧
      sent = { header.withDataOffset (optionLength opts) with checksum := sent.checksum } ∧
      verifyChecksum bytes pseudo = true := by
  obtain ⟨csum, hcsum, hserialize⟩ := serialize_eq header opts payload pseudo
  obtain ⟨hoffset, harea⟩ := toNat_dataOffset header hopts
  refine ⟨_, _, hserialize, decode_wire csum payload hoffset harea, rfl, ?_⟩
  have hlen : 16 + 2 + (be16 header.urgent ++ (optionArea opts ++ payload)).length ≤ 65535 := by
    rw [List.length_append, List.length_append, length_be16, length_optionArea]
    rw [segmentLength, MIN_HEADER_LEN] at htotal
    omega
  rw [wire_append, hcsum, wire_append]
  exact verify_filled pseudo (by rw [length_front]) hlen

private theorem options_optionArea {opts : List TcpOption} (hopts : optionLength opts ≤ 40) :
    TcpSegment.options (optionArea opts) = some (readOptions opts) := by
  rw [optionArea, options_wire opts _ (by omega), readOptions]
  simp only [paddingOf_ne_zero]

/-- Reading back what was serialised gives the fields of the header, the payload, a checksum that
verifies, and the options as they stand on the wire, up to the first `END_LIST`, which is also what
padding reads as. Any bytes at all are read without an access out of range, and the option area and
the payload are disjoint parts of them. -/
theorem codec_exact :
    (∀ (header : TcpHeader) (opts : List TcpOption) (payload : Bytes) (pseudo : PseudoHeader),
      optionLength opts ≤ 40 → segmentLength opts payload ≤ 65535 →
      ∃ sent bytes seg, serialize header opts payload pseudo = some (sent, bytes) ∧
        decode bytes = some (.ok seg) ∧
        seg.header.srcPort = header.srcPort ∧ seg.header.dstPort = header.dstPort ∧
        seg.header.seq = header.seq ∧ seg.header.ack = header.ack ∧
        seg.header.flags = header.flags ∧ seg.header.window = header.window ∧
        seg.header.urgent = header.urgent ∧ seg.payload = payload ∧
        seg.options = some (readOptions opts) ∧ verifyChecksum bytes pseudo = true) ∧
    ∀ data : Bytes,
      (data.length < MIN_HEADER_LEN ∧
        decode data = some (.error (.HeaderTooShort data.length))) ∨
      ∃ seg, decode data = some (.ok seg) ∧
        (∃ front back, data = front ++ seg.optionBytes ++ seg.payload ++ back) ∧
        (∃ opts, seg.options = some opts) ∧ ∃ ts, seg.timestamps = some ts := by
  constructor
  · intro header opts payload pseudo hopts htotal
    obtain ⟨sent, bytes, hserialize, hdecode, hsent, hverify⟩ :=
      decode_serialize header pseudo hopts htotal
    refine ⟨sent, bytes, _, hserialize, hdecode, ?_, ?_, ?_, ?_, ?_, ?_, ?_, rfl,
      options_optionArea hopts, hverify⟩
    all_goals
      rw [hsent]
      rfl
  · intro data
    rcases decode_total data with hshort | ⟨seg, hdecode, hparts⟩
    · exact Or.inl hshort
    · exact Or.inr ⟨seg, hdecode, hparts, options_total seg.optionBytes, timestamps_total seg⟩

def synHeader : TcpHeader :=
  ⟨1, 2, 3, 4, 0, TcpFlags.SYN, 5, 0, 6⟩

/-- A segment with timestamps and one byte of payload. -/
theorem codec_exact_timestamps :
    optionLength [⟨8, 10, [1, 2, 3, 4, 5, 6, 7, 8]⟩] ≤ 40 ∧
    ∃ sent bytes seg, serialize synHeader [⟨8, 10, [1, 2, 3, 4, 5, 6, 7, 8]⟩] [9]
        (.V4 (fun _ => 1) fun _ => 2) = some (sent, bytes) ∧
      decode bytes = some (.ok seg) ∧ seg.header.flags = TcpFlags.SYN ∧ seg.payload = [9] ∧
      seg.options = some [⟨8, 10, [1, 2, 3, 4, 5, 6, 7, 8]⟩, endList] := by
  refine ⟨by decide, ?_⟩
  obtain ⟨sent, bytes, seg, hserialize, hdecode, -, -, -, -, hflags, -, -, hpayload, hoptions, -⟩ :=
    codec_exact.1 synHeader [⟨8, 10, [1, 2, 3, 4, 5, 6, 7, 8]⟩] [9]
      (.V4 (fun _ => 1) fun _ => 2) (by decide) (by decide)
  exact ⟨sent, bytes, seg, hserialize, hdecode, hflags, hpayload, hoptions⟩

/-- The data of an option of a single-byte kind is not written, so such an option is not what is
read back. -/
theorem single_option_data_lost :
    ¬ ∀ (header : TcpHeader) (opts : List TcpOption) (payload : Bytes) (pseudo : PseudoHeader),
      optionLength opts ≤ 40 → segmentLength opts payload ≤ 65535 →
      ∃ sent bytes seg read, serialize header opts payload pseudo = some (sent, bytes) ∧
        decode bytes = some (.ok seg) ∧ seg.options = some read ∧
        read.map (fun o => (o.kind, o.data)) =
          ((opts.takeWhile fun o => o.kind ≠ OPTION_KIND_END_LIST).map fun o => (o.kind, o.data)) ++
            if (∃ o ∈ opts, o.kind = OPTION_KIND_END_LIST) ∨ optionLength opts % 4 ≠ 0 then
              [(OPTION_KIND_END_LIST, [])]
            else [] := by
  intro hall
  have hopts : optionLength [⟨OPTION_KIND_NOP, 0, [5]⟩] ≤ 40 := by decide
  have htotal : segmentLength [⟨OPTION_KIND_NOP, 0, [5]⟩] [] ≤ 65535 := by decide
  obtain ⟨sent, bytes, seg, read, hserialize, hdecode, hread, hgiven⟩ :=
    hall synHeader [⟨OPTION_KIND_NOP, 0, [5]⟩] [] (.V4 (fun _ => 1) fun _ => 2) hopts htotal
  obtain ⟨sent', bytes', hserialize', hdecode', -, -⟩ :=
    decode_serialize synHeader (.V4 (fun _ => 1) fun _ => 2) hopts htotal
  rw [hserialize] at hserialize'
  cases hserialize'
  rw [hdecode] at hdecode'
  cases hdecode'
  obtain rfl := Option.some.inj (hread.symm.trans (options_optionArea hopts))
  exact absurd hgiven (by decide)

end Kcptun.Tcpraw.TcpSegment
