/- Kcptun/Snappy/Reader
   source: crates/std/src/comp.rs (Reader, fill, read_full, read)
   digest: The reader: chunks are read at whatever points the connection splits them, checked, and
     served piece by piece. -/

import Kcptun.Lib.Arrivals
import Kcptun.Snappy.Writer

set_option autoImplicit false
set_option relaxedAutoImplicit false

namespace Kcptun.Snappy

open Kcptun.Lib (splice slice splice_append splice_zero slice_mid)
open Kcptun.Lib.LittleEndian
open Kcptun.Lib.Varint (putUvarint uvarint uvarint_put)

/-- No piece is empty but at the end of the stream. A read takes as much of a piece as its buffer
holds. -/
abbrev Arrival := Kcptun.Lib.Arrival UInt8 IoError

structure Reader where
  decoded : Bytes
  buf : Bytes
  i : ℕ
  j : ℕ
  readHeader : Bool
  err : Option Sticky
  deriving DecidableEq, Repr

def Reader.new : Reader :=
  ⟨List.replicate MAX_BLOCK_SIZE 0, List.replicate RBUF_LEN 0, 0, 0, false, none⟩

/-- `read_full`: the bytes of `got` are in the buffer, `need` are missing. -/
def readFull : List Arrival → ℕ → Bytes → Bool → Except Sticky Unit × Bytes × List Arrival
  | [], need, got, allowEof =>
    if need = 0 then (.ok (), got, [])
    else (.error (if got = [] && allowEof then .eof else .snappy .corrupt), got, [])
  | .fails e :: rest, need, got, _ =>
    if need = 0 then (.ok (), got, .fails e :: rest) else (.error (.io e), got, rest)
  | .data seg :: rest, need, got, allowEof =>
    if need = 0 then (.ok (), got, .data seg :: rest)
    else if seg = [] then
      (.error (if got = [] && allowEof then .eof else .snappy .corrupt), got, rest)
    else if seg.length ≤ need then readFull rest (need - seg.length) (got ++ seg) allowEof
    else (.ok (), got ++ seg.take need, .data (seg.drop need) :: rest)

def readInto (buf : Bytes) (n : ℕ) (conn : List Arrival) (allowEof : Bool) :
    Option (Except Sticky Unit × Bytes × List Arrival) :=
  if n ≤ buf.length then
    let r := readFull conn n [] allowEof
    (splice buf 0 r.2.1).map fun buf => (r.1, buf, r.2.2)
  else none

/-- A result of the reader with the states of reader and connection after it. -/
abbrev Fill := Option (Except Sticky Unit × Reader × List Arrival)

def readChecksum (buf : Bytes) : UInt32 :=
  ofLe32 (buf.getD 0 0) (buf.getD 1 0) (buf.getD 2 0) (buf.getD 3 0)

/-- The length header of a block, rewritten in its shortest form in front of the block body. -/
def canonicalBlock (buf : Bytes) (chunkLen n headerLen : ℕ) : Option (Bytes × Bytes) :=
  let canonical := putUvarint n
  let start := CHECKSUM_SIZE + headerLen - canonical.length
  (splice buf start canonical).bind fun buf =>
    (slice buf start chunkLen).map fun block => (buf, block)

def compressedChunk (snap : Snap) (r : Reader) (conn : List Arrival) (chunkLen : ℕ) : Fill :=
  if chunkLen < CHECKSUM_SIZE then some (.error (.snappy .corrupt), r, conn)
  else (readInto r.buf chunkLen conn false).bind fun s =>
    let r := { r with buf := s.2.1 }
    match s.1 with
    | .error e => some (.error e, r, s.2.2)
    | .ok _ => (slice r.buf CHECKSUM_SIZE chunkLen).bind fun block =>
      match decodedLen block with
      | .error e => some (.error (.snappy e), r, s.2.2)
      | .ok len =>
        if len.1 > r.decoded.length then some (.error (.snappy .corrupt), r, s.2.2)
        else
          let checksum := readChecksum r.buf
          (canonicalBlock r.buf chunkLen len.1 len.2).bind fun c =>
            let r := { r with buf := c.1 }
            match snap.decompress c.2 len.1 with
            | none => some (.error (.snappy .corrupt), r, s.2.2)
            | some out => (splice r.decoded 0 out).bind fun decoded =>
              (slice decoded 0 len.1).bind fun data =>
                if crc data ≠ checksum then
                  some (.error (.snappy .corrupt), { r with decoded }, s.2.2)
                else some (.ok (), { r with decoded, i := 0, j := len.1 }, s.2.2)

/-- Section 4.3: the body goes straight into `decoded`. -/
def uncompressedChunk (r : Reader) (conn : List Arrival) (chunkLen : ℕ) : Fill :=
  if chunkLen < CHECKSUM_SIZE then some (.error (.snappy .corrupt), r, conn)
  else (readInto r.buf CHECKSUM_SIZE conn false).bind fun s =>
    let r := { r with buf := s.2.1 }
    match s.1 with
    | .error e => some (.error e, r, s.2.2)
    | .ok _ =>
      let checksum := readChecksum r.buf
      let n := chunkLen - CHECKSUM_SIZE
      if n > r.decoded.length then some (.error (.snappy .corrupt), r, s.2.2)
      else (readInto r.decoded n s.2.2 false).bind fun t =>
        let r := { r with decoded := t.2.1 }
        match t.1 with
        | .error e => some (.error e, r, t.2.2)
        | .ok _ => (slice r.decoded 0 n).bind fun data =>
          if crc data ≠ checksum then some (.error (.snappy .corrupt), r, t.2.2)
          else some (.ok (), { r with i := 0, j := n }, t.2.2)

def streamIdentifier (r : Reader) (conn : List Arrival) (chunkLen : ℕ) : Fill :=
  if chunkLen ≠ MAGIC_BODY.length then some (.error (.snappy .corrupt), r, conn)
  else (readInto r.buf MAGIC_BODY.length conn false).bind fun s =>
    let r := { r with buf := s.2.1 }
    match s.1 with
    | .error e => some (.error e, r, s.2.2)
    | .ok _ => (slice r.buf 0 MAGIC_BODY.length).map fun body =>
      if body ≠ MAGIC_BODY then (.error (.snappy .corrupt), r, s.2.2) else (.ok (), r, s.2.2)

def skipChunk (r : Reader) (conn : List Arrival) (chunkLen : ℕ) : Fill :=
  (readInto r.buf chunkLen conn false).map fun s => (s.1, { r with buf := s.2.1 }, s.2.2)

def readChunk (snap : Snap) (r : Reader) (conn : List Arrival) : Fill :=
  let chunkType := r.buf.getD 0 0
  if r.readHeader = false ∧ chunkType ≠ CHUNK_TYPE_STREAM_IDENTIFIER then
    some (.error (.snappy .corrupt), r, conn)
  else
    let r := { r with readHeader := true }
    let chunkLen := (r.buf.getD 1 0).toNat + 256 * (r.buf.getD 2 0).toNat +
      65536 * (r.buf.getD 3 0).toNat
    if chunkLen > r.buf.length then some (.error (.snappy .unsupported), r, conn)
    else if chunkType = CHUNK_TYPE_COMPRESSED_DATA then compressedChunk snap r conn chunkLen
    else if chunkType = CHUNK_TYPE_UNCOMPRESSED_DATA then uncompressedChunk r conn chunkLen
    else if chunkType = CHUNK_TYPE_STREAM_IDENTIFIER then streamIdentifier r conn chunkLen
    else if chunkType ≤ CHUNK_TYPE_MAX_UNSKIPPABLE then
      some (.error (.snappy .unsupported), r, conn)
    else skipChunk r conn chunkLen

def fillStep (snap : Snap) (r : Reader) (conn : List Arrival) : Fill :=
  (readInto r.buf CHUNK_HEADER_SIZE conn true).bind fun s =>
    let r := { r with buf := s.2.1 }
    match s.1 with
    | .error e => some (.error e, r, s.2.2)
    | .ok _ => readChunk snap r s.2.2

/-- Decodes chunks until there are bytes to hand out; every turn takes a chunk header. -/
def fill (snap : Snap) : ℕ → Reader → List Arrival → Fill
  | 0, r, conn => if r.i < r.j then some (.ok (), r, conn) else none
  | fuel + 1, r, conn =>
    if r.i < r.j then some (.ok (), r, conn)
    else (fillStep snap r conn).bind fun s =>
      match s.1 with
      | .error e => some (.error e, s.2)
      | .ok _ => fill snap fuel s.2.1 s.2.2

def Arrival.size : Arrival → ℕ
  | .data seg => seg.length
  | .fails _ => 0

def Sticky.result : Sticky → Except IoError Bytes
  | .eof => .ok []
  | e => .error e.toIo

def read (snap : Snap) (r : Reader) (conn : List Arrival) (size : ℕ) :
    Option (Except IoError Bytes × Reader × List Arrival) :=
  match r.err with
  | some err => some (err.result, r, conn)
  | none => (fill snap ((conn.map Arrival.size).sum + 1) r conn).bind fun s =>
    match s.1 with
    | .error e => some (e.result, { s.2.1 with err := some e }, s.2.2)
    | .ok _ =>
      let r := s.2.1
      let n := min size (r.j - r.i)
      (slice r.decoded r.i (r.i + n)).map fun out => (.ok out, { r with i := r.i + n }, s.2.2)

def reads (snap : Snap) : Reader → List Arrival → List ℕ → Option (List (Except IoError Bytes))
  | _, _, [] => some []
  | r, conn, size :: sizes => (read snap r conn size).bind fun s =>
    (reads snap s.2.1 s.2.2 sizes).map fun rest => s.1 :: rest

/-- Reads of the given sizes serve `data` in order and end cleanly: a read into a buffer that is not
empty returns something until all is served, and nothing from then on. -/
def Serves : Bytes → List ℕ → List (Except IoError Bytes) → Prop
  | _, [], results => results = []
  | data, size :: sizes, results => ∃ out rest later, results = .ok out :: later ∧
      data = out ++ rest ∧ out.length ≤ size ∧ (size ≠ 0 → data ≠ [] → out ≠ []) ∧
      Serves rest sizes later

/-- The connection brings the bytes `wire`, in pieces none of which is empty, and then ends. -/
def Pieces (wire : Bytes) (conn : List Arrival) : Prop :=
  ∃ segs : List Bytes, conn = segs.map .data ∧ (∀ seg ∈ segs, seg ≠ []) ∧ segs.flatten = wire

variable {snap : Snap} {wire front back buf p : Bytes} {conn : List Arrival} {r : Reader}

theorem Pieces.nil (h : Pieces [] conn) : conn = [] := by
  obtain ⟨segs, rfl, hne, hflat⟩ := h
  cases segs with
  | nil => rfl
  | cons seg segs =>
    rw [List.flatten_cons] at hflat
    exact absurd (List.append_eq_nil_iff.mp hflat).1 (hne seg List.mem_cons_self)

theorem readFull_end (need : ℕ) (hneed : need ≠ 0) :
    readFull [] need [] true = (.error .eof, [], []) := by
  rw [readFull, if_neg hneed]
  rfl

private theorem readFull_spec {need : ℕ} {got : Bytes} {allowEof : Bool}
    (h : Pieces (front ++ back) conn) (hneed : front.length = need) : ∃ conn', Pieces back conn' ∧
      readFull conn need got allowEof = (.ok (), got ++ front, conn') := by
  obtain ⟨segs, rfl, hne, hflat⟩ := h
  induction segs generalizing front need got with
  | nil =>
    obtain ⟨rfl, rfl⟩ := List.append_eq_nil_iff.mp hflat.symm
    refine ⟨[], ⟨[], rfl, hne, rfl⟩, ?_⟩
    have hzero : need = 0 := hneed.symm
    rw [List.map_nil, readFull, if_pos hzero, List.append_nil]
  | cons seg segs ih =>
    rw [List.forall_mem_cons] at hne
    rw [List.map_cons, readFull]
    by_cases hzero : need = 0
    · have hfront : front = [] := List.eq_nil_of_length_eq_zero (hneed.trans hzero)
      rw [if_pos hzero, hfront, List.append_nil]
      refine ⟨_, ⟨seg :: segs, rfl, List.forall_mem_cons.mpr hne, ?_⟩, rfl⟩
      rw [hflat, hfront, List.nil_append]
    · rw [if_neg hzero, if_neg hne.1]
      rw [List.flatten_cons] at hflat
      split_ifs with hle
      · obtain ⟨later, rfl⟩ : seg <+: front :=
          List.prefix_of_prefix_length_le ⟨_, hflat⟩ ⟨back, rfl⟩ (hneed ▸ hle)
        rw [List.append_assoc, List.append_cancel_left_eq] at hflat
        rw [List.length_append] at hneed
        obtain ⟨conn', hpieces, hread⟩ :=
          @ih later (need - seg.length) (got ++ seg) (by omega) hne.2 hflat
        refine ⟨conn', hpieces, ?_⟩
        rw [hread, List.append_assoc]
      · obtain ⟨later, rfl⟩ : front <+: seg :=
          List.prefix_of_prefix_length_le ⟨back, rfl⟩ ⟨_, hflat⟩ (by omega)
        rw [List.append_assoc, List.append_cancel_left_eq] at hflat
        rw [List.take_left' hneed, List.drop_left' hneed]
        refine ⟨_, ⟨later :: segs, rfl, List.forall_mem_cons.mpr ⟨?_, hne.2⟩, ?_⟩, rfl⟩
        · rintro rfl
          rw [List.append_nil] at hle
          omega
        · rw [List.flatten_cons, hflat]

private theorem readInto_spec {n : ℕ} {allowEof : Bool} (h : Pieces (front ++ back) conn)
    (hn : front.length = n) (hfit : n ≤ buf.length) : ∃ conn', Pieces back conn' ∧
      readInto buf n conn allowEof = some (.ok (), front ++ buf.drop n, conn') := by
  obtain ⟨conn', hpieces, hread⟩ := @readFull_spec _ _ _ n [] allowEof h hn
  refine ⟨conn', hpieces, ?_⟩
  subst hn
  rw [readInto, if_pos hfit, hread, List.nil_append]
  dsimp only
  rw [splice_zero hfit]
  rfl

/-- The reader is alive and has `data` left to hand out. -/
structure Ready (r : Reader) (data : Bytes) : Prop where
  decoded : r.decoded.length = MAX_BLOCK_SIZE
  buf : r.buf.length = RBUF_LEN
  le : r.i ≤ r.j
  fits : r.j ≤ MAX_BLOCK_SIZE
  data : (r.decoded.take r.j).drop r.i = data
  err : r.err = none

private theorem Ready.with_buf {data : Bytes} (h : Ready r data) (hbuf : buf.length = RBUF_LEN) :
    Ready { r with buf } data := ⟨h.decoded, hbuf, h.le, h.fits, h.data, h.err⟩

private theorem Ready.filled {data decoded : Bytes} (h : Ready r data)
    (hp : p.length ≤ MAX_BLOCK_SIZE) (hdecoded : decoded = p ++ r.decoded.drop p.length) :
    Ready { r with decoded, i := 0, j := p.length } p := by
  subst hdecoded
  refine ⟨?_, h.buf, Nat.zero_le _, hp, ?_, h.err⟩
  · rw [List.length_append, List.length_drop, h.decoded]
    omega
  · rw [List.take_left, List.drop_zero]

theorem readChecksum_append (c : UInt32) (rest : Bytes) : readChecksum (le32 c ++ rest) = c :=
  ofLe32_le32 c

theorem decodedLen_put {n : ℕ} (hn : n ≤ 0xffffffff) (body : Bytes) :
    decodedLen (putUvarint n ++ body) = .ok (n, (putUvarint n).length) := by
  have hpos : 0 < (putUvarint n).length :=
    List.length_pos_iff.mpr (Kcptun.Lib.Varint.putUvarint_ne_nil n)
  rw [decodedLen, uvarint_put (by omega)]
  dsimp only
  rw [if_neg (by omega), Int.toNat_natCast]

private theorem canonicalBlock_put {n : ℕ} {head body tail : Bytes}
    (hhead : head.length = CHECKSUM_SIZE) : canonicalBlock (head ++ (putUvarint n ++ body) ++ tail)
      (CHECKSUM_SIZE + (putUvarint n ++ body).length) n (putUvarint n).length =
      some (head ++ (putUvarint n ++ body) ++ tail, putUvarint n ++ body) := by
  have hsame : splice (head ++ (putUvarint n ++ body) ++ tail) CHECKSUM_SIZE (putUvarint n) =
      some (head ++ (putUvarint n ++ body) ++ tail) := by
    rw [List.append_assoc, splice_append hhead (by simp only [List.length_append]; omega),
      List.append_assoc (putUvarint n), List.drop_left]
  have hslice := @slice_mid _ head tail (putUvarint n ++ body) _ _ hhead rfl
  rw [canonicalBlock, Nat.add_sub_cancel, hsame, Option.bind_some, hslice]
  rfl

private theorem compressedChunk_spec {block body data : Bytes} (hr : Ready r data)
    (hblock : block = putUvarint p.length ++ body)
    (hdecompress : snap.decompress block p.length = some p)
    (hp : p.length ≤ MAX_BLOCK_SIZE) (hfit : CHECKSUM_SIZE + block.length ≤ RBUF_LEN)
    (h : Pieces (le32 (crc p) ++ block ++ back) conn) :
    ∃ r' conn', compressedChunk snap r conn (CHECKSUM_SIZE + block.length) =
      some (.ok (), r', conn') ∧ Pieces back conn' ∧ Ready r' p ∧ r'.readHeader = r.readHeader := by
  have hfront : (le32 (crc p) ++ block).length = CHECKSUM_SIZE + block.length := by
    rw [List.length_append, length_le32]
    rfl
  obtain ⟨conn', hpieces, hread⟩ := @readInto_spec _ _ r.buf conn _ false h hfront (hr.buf ▸ hfit)
  have hslice := @slice_mid _ (le32 (crc p)) (r.buf.drop (CHECKSUM_SIZE + block.length)) block
    CHECKSUM_SIZE _ rfl rfl
  have hlen : decodedLen block = .ok (p.length, (putUvarint p.length).length) := by
    rw [hblock]
    exact decodedLen_put (hp.trans (by decide)) body
  have hcanonical := @canonicalBlock_put p.length (le32 (crc p)) body
    (r.buf.drop (CHECKSUM_SIZE + block.length)) rfl
  rw [← hblock] at hcanonical
  have hdecoded : splice r.decoded 0 p = some (p ++ r.decoded.drop p.length) :=
    splice_zero (hr.decoded ▸ hp)
  have hdata := @slice_mid _ [] (r.decoded.drop p.length) p 0 _ rfl (Nat.zero_add _)
  rw [List.nil_append] at hdata
  refine ⟨{ r with
      buf := le32 (crc p) ++ block ++ r.buf.drop (CHECKSUM_SIZE + block.length)
      decoded := p ++ r.decoded.drop p.length
      i := 0
      j := p.length }, conn', ?_, hpieces, ?_, rfl⟩
  · rw [compressedChunk, if_neg (by omega), hread, Option.bind_some]
    dsimp only
    rw [hslice, Option.bind_some, hlen]
    dsimp only
    rw [if_neg (by rw [hr.decoded]; omega), hcanonical, Option.bind_some]
    dsimp only
    rw [hdecompress]
    dsimp only
    rw [hdecoded, Option.bind_some, hdata, Option.bind_some, List.append_assoc,
      readChecksum_append, if_neg (not_not.mpr rfl)]
  · have hbuf : (le32 (crc p) ++ block ++ r.buf.drop (CHECKSUM_SIZE + block.length)).length =
        RBUF_LEN := by
      rw [List.length_append, hfront, List.length_drop, hr.buf]
      omega
    exact (hr.with_buf hbuf).filled hp rfl

private theorem uncompressedChunk_spec {data : Bytes} (hr : Ready r data)
    (hp : p.length ≤ MAX_BLOCK_SIZE) (h : Pieces (le32 (crc p) ++ p ++ back) conn) :
    ∃ r' conn', uncompressedChunk r conn (CHECKSUM_SIZE + p.length) = some (.ok (), r', conn') ∧
      Pieces back conn' ∧ Ready r' p ∧ r'.readHeader = r.readHeader := by
  rw [List.append_assoc] at h
  have hcheck : CHECKSUM_SIZE ≤ r.buf.length := by
    rw [hr.buf]
    decide
  obtain ⟨conn1, hpieces1, hread1⟩ := @readInto_spec _ _ r.buf conn CHECKSUM_SIZE false h rfl hcheck
  obtain ⟨conn2, hpieces2, hread2⟩ := @readInto_spec _ _ r.decoded conn1 p.length false hpieces1 rfl
    (hr.decoded ▸ hp)
  have hdata := @slice_mid _ [] (r.decoded.drop p.length) p 0 _ rfl (Nat.zero_add _)
  rw [List.nil_append] at hdata
  refine ⟨{ r with
      buf := le32 (crc p) ++ r.buf.drop CHECKSUM_SIZE
      decoded := p ++ r.decoded.drop p.length
      i := 0
      j := p.length }, conn2, ?_, hpieces2, ?_, rfl⟩
  · rw [uncompressedChunk, if_neg (by omega), hread1, Option.bind_some]
    dsimp only
    rw [Nat.add_sub_cancel_left, if_neg (by rw [hr.decoded]; omega), hread2, Option.bind_some]
    dsimp only
    rw [hdata, Option.bind_some, readChecksum_append, if_neg (not_not.mpr rfl)]
  · have hbuf : (le32 (crc p) ++ r.buf.drop CHECKSUM_SIZE).length = RBUF_LEN := by
      rw [List.length_append, length_le32, List.length_drop, hr.buf]
      rfl
    exact (hr.with_buf hbuf).filled hp rfl

private theorem streamIdentifier_spec {data : Bytes} (hr : Ready r data)
    (h : Pieces (MAGIC_BODY ++ back) conn) :
    ∃ r' conn', streamIdentifier r conn MAGIC_BODY.length = some (.ok (), r', conn') ∧
      Pieces back conn' ∧ Ready r' data ∧ r'.readHeader = r.readHeader ∧ r'.i = r.i ∧
      r'.j = r.j := by
  have hfit : MAGIC_BODY.length ≤ r.buf.length := by
    rw [hr.buf]
    decide
  obtain ⟨conn', hpieces, hread⟩ := @readInto_spec _ _ r.buf conn _ false h rfl hfit
  have hslice := @slice_mid _ [] (r.buf.drop MAGIC_BODY.length) MAGIC_BODY 0 _ rfl (Nat.zero_add _)
  rw [List.nil_append] at hslice
  refine ⟨{ r with buf := MAGIC_BODY ++ r.buf.drop MAGIC_BODY.length }, conn', ?_, hpieces, ?_, rfl,
    rfl, rfl⟩
  · rw [streamIdentifier, if_neg (not_not.mpr rfl), hread, Option.bind_some]
    dsimp only
    rw [hslice, Option.map_some, if_neg (not_not.mpr rfl)]
  · apply hr.with_buf
    rw [List.length_append, List.length_drop, hr.buf]
    rfl

theorem chunkLen_eq {n : ℕ} (hn : n < 2 ^ 24) : (UInt8.ofNat n).toNat +
    256 * (UInt8.ofNat (n / 256)).toNat + 65536 * (UInt8.ofNat (n / 65536)).toNat = n := by
  rw [UInt8.toNat_ofNat', UInt8.toNat_ofNat', UInt8.toNat_ofNat']
  omega

private theorem fillStep_header {data body : Bytes} {t : UInt8} {n : ℕ} (hr : Ready r data)
    (hn : n ≤ RBUF_LEN) (hfirst : r.readHeader = true ∨ t = CHUNK_TYPE_STREAM_IDENTIFIER)
    (h : Pieces (chunkHeader t n ++ body) conn) : ∃ buf conn', buf.length = RBUF_LEN ∧
      Pieces body conn' ∧ fillStep snap r conn =
        if t = CHUNK_TYPE_COMPRESSED_DATA then
          compressedChunk snap { r with buf, readHeader := true } conn' n
        else if t = CHUNK_TYPE_UNCOMPRESSED_DATA then
          uncompressedChunk { r with buf, readHeader := true } conn' n
        else if t = CHUNK_TYPE_STREAM_IDENTIFIER then
          streamIdentifier { r with buf, readHeader := true } conn' n
        else if t ≤ CHUNK_TYPE_MAX_UNSKIPPABLE then
          some (.error (.snappy .unsupported), { r with buf, readHeader := true }, conn')
        else skipChunk { r with buf, readHeader := true } conn' n := by
  have hfit : CHUNK_HEADER_SIZE ≤ r.buf.length := by
    rw [hr.buf]
    decide
  obtain ⟨conn', hpieces, hread⟩ := @readInto_spec _ _ r.buf conn CHUNK_HEADER_SIZE true h rfl hfit
  have hbuf : (chunkHeader t n ++ r.buf.drop CHUNK_HEADER_SIZE).length = RBUF_LEN := by
    rw [List.length_append, length_chunkHeader, List.length_drop, hr.buf]
    rfl
  refine ⟨chunkHeader t n ++ r.buf.drop CHUNK_HEADER_SIZE, conn', hbuf, hpieces, ?_⟩
  have hlen : (UInt8.ofNat n).toNat + 256 * (UInt8.ofNat (n / 256)).toNat +
      65536 * (UInt8.ofNat (n / 65536)).toNat = n := by
    have hnum : RBUF_LEN = 76494 := rfl
    rw [UInt8.toNat_ofNat', UInt8.toNat_ofNat', UInt8.toNat_ofNat']
    omega
  have hid : ¬(r.readHeader = false ∧ t ≠ CHUNK_TYPE_STREAM_IDENTIFIER) := by
    rintro ⟨hno, hne⟩
    rcases hfirst with hyes | heq
    · rw [hyes] at hno
      cases hno
    · exact hne heq
  have hbig : ¬n > (chunkHeader t n ++ r.buf.drop CHUNK_HEADER_SIZE).length := by omega
  rw [fillStep, hread, Option.bind_some]
  dsimp only
  rw [readChunk]
  simp only [chunkHeader, List.cons_append, List.nil_append, List.getD_cons_zero,
    List.getD_cons_succ, hlen, if_neg hid] at hbig ⊢
  rw [if_neg hbig]

theorem fillStep_magic {data : Bytes} (hr : Ready r data) (h : Pieces (MAGIC_CHUNK ++ back) conn) :
    ∃ r' conn', fillStep snap r conn = some (.ok (), r', conn') ∧ Pieces back conn' ∧
      Ready r' data ∧ r'.readHeader = true ∧ r'.i = r.i ∧ r'.j = r.j := by
  have hmagic : MAGIC_CHUNK ++ back =
      chunkHeader CHUNK_TYPE_STREAM_IDENTIFIER MAGIC_BODY.length ++ (MAGIC_BODY ++ back) := rfl
  rw [hmagic] at h
  obtain ⟨buf, conn1, hbuf, hpieces1, hstep⟩ :=
    @fillStep_header snap _ r _ _ _ _ hr (by decide) (.inr rfl) h
  have hr1 : Ready { r with buf, readHeader := true } data :=
    ⟨hr.decoded, hbuf, hr.le, hr.fits, hr.data, hr.err⟩
  obtain ⟨r', conn', hid, hpieces, hready, hheader, hi, hj⟩ := streamIdentifier_spec hr1 hpieces1
  refine ⟨r', conn', ?_, hpieces, hready, hheader, hi, hj⟩
  rw [hstep, if_neg (by decide), if_neg (by decide), if_pos rfl, hid]

theorem fillStep_chunk {data : Bytes} (hsnap : snap.Lawful) (hr : Ready r data)
    (hheader : r.readHeader = true) (hp : p.length ≤ MAX_BLOCK_SIZE)
    (h : Pieces (chunkOf snap p ++ back) conn) :
    ∃ r' conn', fillStep snap r conn = some (.ok (), r', conn') ∧ Pieces back conn' ∧
      Ready r' p ∧ r'.readHeader = true := by
  have hroom : maxCompressLen p.length ≤ MAX_ENCODED_LEN_OF_MAX_BLOCK_SIZE := by
    unfold maxCompressLen MAX_ENCODED_LEN_OF_MAX_BLOCK_SIZE
    unfold MAX_BLOCK_SIZE at hp
    omega
  obtain ⟨body, hcompress, hlen, hdecompress⟩ := hsnap p _ hp hroom
  have hblock := hlen.trans hroom
  rw [chunkOf, hcompress] at h
  generalize hb : putUvarint p.length ++ body = block at h hblock hdecompress
  unfold chunkFor chunk at h
  dsimp only at h
  have hnum : CHECKSUM_SIZE + MAX_ENCODED_LEN_OF_MAX_BLOCK_SIZE = RBUF_LEN ∧
      MAX_BLOCK_SIZE ≤ MAX_ENCODED_LEN_OF_MAX_BLOCK_SIZE := by decide
  split_ifs at h with hstored
  · simp only [List.append_assoc] at h
    obtain ⟨buf, conn1, hbuf, hpieces1, hstep⟩ :=
      @fillStep_header snap _ r _ _ _ _ hr (by omega) (.inl hheader) h
    have hr1 : Ready { r with buf, readHeader := true } data :=
      ⟨hr.decoded, hbuf, hr.le, hr.fits, hr.data, hr.err⟩
    rw [← List.append_assoc] at hpieces1
    obtain ⟨r', conn', hchunk, hpieces, hready, hkept⟩ := uncompressedChunk_spec hr1 hp hpieces1
    refine ⟨r', conn', ?_, hpieces, hready, hkept⟩
    rw [hstep, if_neg (by decide), if_pos rfl, hchunk]
  · simp only [List.append_assoc] at h
    obtain ⟨buf, conn1, hbuf, hpieces1, hstep⟩ :=
      @fillStep_header snap _ r _ _ _ _ hr (by omega) (.inl hheader) h
    have hr1 : Ready { r with buf, readHeader := true } data :=
      ⟨hr.decoded, hbuf, hr.le, hr.fits, hr.data, hr.err⟩
    rw [← List.append_assoc] at hpieces1
    obtain ⟨r', conn', hchunk, hpieces, hready, hkept⟩ :=
      compressedChunk_spec hr1 hb.symm hdecompress hp (by omega) hpieces1
    refine ⟨r', conn', ?_, hpieces, hready, hkept⟩
    rw [hstep, if_pos rfl, hchunk]

end Kcptun.Snappy
