/- Kcptun/Snappy/CutOff
   source: crates/std/src/comp.rs (fill, read_full, read, write_chunks)
   digest: What a reader makes of a stream that breaks off: the blocks that arrived whole and nothing
     else, and a clean end only where the writer could have stopped. -/

import Kcptun.Snappy.AnyStream
import Kcptun.Snappy.RoundTrip

set_option autoImplicit false
set_option relaxedAutoImplicit false

namespace Kcptun.Snappy

open Kcptun.Lib (Item elems elems_append full full_within full_short StopsAt)
open Kcptun.Lib.LittleEndian
open Kcptun.Lib.Varint (putUvarint)

/-- The connection brings these bytes, and then ends or fails. -/
def Brings (conn : List Arrival) (bytes : Bytes) (why : Option IoError) : Prop :=
  ∃ (segs : List Bytes) (tail : List Arrival), conn = segs.map .data ++ tail ∧
    (∀ seg ∈ segs, seg ≠ []) ∧ segs.flatten = bytes ∧
    match why with
    | none => tail = []
    | some e => tail.head? = some (.fails e)

def broken (why : Option IoError) : Sticky :=
  match why with
  | none => .snappy .corrupt
  | some e => .io e

def ended (why : Option IoError) : Sticky :=
  match why with
  | none => .eof
  | some e => .io e

variable {snap : Snap} {why : Option IoError} {items after : List StreamItem} {p : Bytes}

private theorem streamOf_segments (segs : List Bytes) (hsegs : ∀ seg ∈ segs, seg ≠ [])
    (tail : List Arrival) :
    streamOf (segs.map .data ++ tail) = elems segs.flatten ++ streamOf tail := by
  induction segs with
  | nil => rfl
  | cons seg segs ih =>
    obtain ⟨hseg, hrest⟩ := List.forall_mem_cons.mp hsegs
    rw [List.map_cons, List.cons_append, streamOf_data hseg, ih hrest, List.flatten_cons,
      elems_append, List.append_assoc]

theorem Brings.stream {conn : List Arrival} {bytes : Bytes} (h : Brings conn bytes why) :
    ∃ items after, streamOf conn = elems bytes ++ items ∧ StopsAt items why after := by
  obtain ⟨segs, tail, rfl, hsegs, rfl, htail⟩ := h
  refine ⟨streamOf tail, (streamOf tail).tail, streamOf_segments segs hsegs tail, ?_⟩
  cases why with
  | none =>
    subst htail
    exact .past
  | some e =>
    obtain ⟨rest, rfl⟩ := List.head?_eq_some_iff.mp htail
    exact .here (some e) (streamOf rest)

private theorem takeBytes_within {xs : Bytes} {n : ℕ} (hle : n ≤ xs.length) (allowEof : Bool) :
    takeBytes (elems xs ++ items) n allowEof = .ok (xs.take n, elems (xs.drop n) ++ items) := by
  unfold takeBytes
  rw [full_within hle]

private theorem takeBytes_short {xs : Bytes} {n : ℕ} (hshort : xs.length < n)
    (h : StopsAt items why after) :
    takeBytes (elems xs ++ items) n false = .error (broken why) := by
  unfold takeBytes
  rw [full_short hshort h]
  cases why with
  | none =>
    dsimp only
    rw [Bool.and_false, if_neg Bool.false_ne_true]
    rfl
  | some e => rfl

private theorem length_le_append (xs ys : Bytes) : xs.length ≤ (xs ++ ys).length := by
  rw [List.length_append]
  exact Nat.le_add_right _ _

/-! One piece of the stream: an identifier or a data chunk. -/

/-- Behind the header of a piece, `read` makes `data` of `body`, and fails when the body is cut. -/
structure Body (read : List StreamItem → Except Sticky (Option Bytes × List StreamItem))
    (body : Bytes) (data : Option Bytes) : Prop where
  whole : ∀ (rest : Bytes) (items : List StreamItem),
    read (elems (body ++ rest) ++ items) = .ok (data, elems rest ++ items)
  short : ∀ {part : Bytes} {items after : List StreamItem} {why : Option IoError},
    part.length < body.length → part <+: body → StopsAt items why after →
      read (elems part ++ items) = .error (broken why)

/-- The same of a piece with its header; cut in front of its first byte the stream just ends. -/
structure Piece (snap : Snap) (identified : Bool) (piece : Bytes) (data : Option Bytes) : Prop where
  nonempty : piece ≠ []
  whole : ∀ (rest : Bytes) (items : List StreamItem),
    nextChunk snap identified (elems (piece ++ rest) ++ items) = .ok (data, elems rest ++ items)
  short : ∀ {part : Bytes} {items after : List StreamItem} {why : Option IoError},
    part.length < piece.length → part <+: piece → part ≠ [] → StopsAt items why after →
      nextChunk snap identified (elems part ++ items) = .error (broken why)

private theorem nextChunk_nil {identified : Bool} (h : StopsAt items why after) :
    nextChunk snap identified items = .error (ended why) := by
  have hshort := @full_short _ _ [] items after CHUNK_HEADER_SIZE why (by decide) h
  rw [Kcptun.Lib.elems_nil, List.nil_append] at hshort
  unfold nextChunk takeBytes
  rw [hshort]
  cases why <;> rfl

def bodyItems (snap : Snap) (t : UInt8) (n : ℕ) (items : List StreamItem) :
    Except Sticky (Option Bytes × List StreamItem) :=
  if t = CHUNK_TYPE_COMPRESSED_DATA then compressedItems snap n items
  else if t = CHUNK_TYPE_UNCOMPRESSED_DATA then uncompressedItems n items
  else if t = CHUNK_TYPE_STREAM_IDENTIFIER then identifierItems n items
  else if t ≤ CHUNK_TYPE_MAX_UNSKIPPABLE then .error (.snappy .unsupported)
  else skippedItems n items

private theorem chunkItems_header {identified : Bool} {t : UInt8} {n : ℕ} (hn : n ≤ RBUF_LEN)
    (hfirst : identified = true ∨ t = CHUNK_TYPE_STREAM_IDENTIFIER) :
    chunkItems snap identified (chunkHeader t n) items = bodyItems snap t n items := by
  have hlen : n < 2 ^ 24 := lt_of_le_of_lt hn (by decide)
  have hid : ¬(identified = false ∧ t ≠ CHUNK_TYPE_STREAM_IDENTIFIER) := by
    rintro ⟨hno, hne⟩
    rcases hfirst with rfl | rfl
    · cases hno
    · exact hne rfl
  unfold chunkItems chunkHeader bodyItems
  simp only [List.getD_cons_zero, List.getD_cons_succ, chunkLen_eq hlen]
  rw [if_neg hid, if_neg (Nat.not_lt.mpr hn)]

private theorem Body.piece {identified : Bool} {t : UInt8} {body : Bytes} {data : Option Bytes}
    (h : Body (bodyItems snap t body.length) body data) (hfits : body.length ≤ RBUF_LEN)
    (hfirst : identified = true ∨ t = CHUNK_TYPE_STREAM_IDENTIFIER) :
    Piece snap identified (chunkHeader t body.length ++ body) data := by
  have hheader : ∀ {xs : Bytes} {items : List StreamItem},
      nextChunk snap identified (elems (chunkHeader t body.length ++ xs) ++ items) =
        bodyItems snap t body.length (elems xs ++ items) := by
    intro xs items
    have hlen : (chunkHeader t body.length).length = CHUNK_HEADER_SIZE := length_chunkHeader t _
    have hle : CHUNK_HEADER_SIZE ≤ (chunkHeader t body.length ++ xs).length := by
      rw [List.length_append, hlen]
      exact Nat.le_add_right _ _
    unfold nextChunk
    rw [takeBytes_within hle, List.take_left' hlen, List.drop_left' hlen]
    exact chunkItems_header hfits hfirst
  refine ⟨List.append_ne_nil_of_left_ne_nil (List.cons_ne_nil _ _) _, ?_, ?_⟩
  · intro rest items
    rw [List.append_assoc, hheader]
    exact h.whole rest items
  · intro part items after why hlen hpart hne hstops
    rw [List.length_append, length_chunkHeader] at hlen
    by_cases hcut : part.length < CHUNK_HEADER_SIZE
    · -- the header itself is cut
      unfold nextChunk takeBytes
      rw [full_short hcut hstops]
      cases why with
      | none =>
        show Except.error _ = _
        rw [decide_eq_false hne]
        rfl
      | some e => rfl
    · have hle : (chunkHeader t body.length).length ≤ part.length := Nat.not_lt.mp hcut
      obtain ⟨front, rfl⟩ :=
        List.prefix_of_prefix_length_le (List.prefix_append _ body) hpart hle
      rw [List.length_append, length_chunkHeader] at hlen
      rw [hheader]
      exact h.short (by omega) ((List.prefix_append_right_inj _).mp hpart) hstops

private theorem identifier_body :
    Body (bodyItems snap CHUNK_TYPE_STREAM_IDENTIFIER MAGIC_BODY.length) MAGIC_BODY none := by
  have hread : bodyItems snap CHUNK_TYPE_STREAM_IDENTIFIER MAGIC_BODY.length =
      fun items => (takeBytes items MAGIC_BODY.length false).bind fun s =>
        if s.1 = MAGIC_BODY then .ok (none, s.2) else .error (.snappy .corrupt) := rfl
  rw [hread]
  constructor
  · intro rest items
    rw [takeBytes_within (length_le_append MAGIC_BODY rest), List.take_left, List.drop_left,
      Except.bind, if_pos rfl]
  · intro part items after why hlen _ hstops
    rw [takeBytes_short hlen hstops]
    rfl

private theorem compressed_body {block body : Bytes} (hblock : block = putUvarint p.length ++ body)
    (hdecompress : snap.decompress block p.length = some p) (hp : p.length ≤ MAX_BLOCK_SIZE) :
    Body (bodyItems snap CHUNK_TYPE_COMPRESSED_DATA (le32 (crc p) ++ block).length)
      (le32 (crc p) ++ block) (some p) := by
  have hshort : ¬(le32 (crc p) ++ block).length < CHECKSUM_SIZE := by
    rw [List.length_append, length_le32]
    exact Nat.not_lt.mpr (Nat.le_add_right _ _)
  have hread : bodyItems snap CHUNK_TYPE_COMPRESSED_DATA (le32 (crc p) ++ block).length =
      fun items => (takeBytes items (le32 (crc p) ++ block).length false).bind fun s =>
        (compressedData snap s.1).map fun data => (some data, s.2) := by
    funext items
    unfold bodyItems compressedItems
    rw [if_pos rfl, if_neg hshort]
  have hdata : compressedData snap (le32 (crc p) ++ block) = .ok p := by
    have hfront : (le32 (crc p)).length = CHECKSUM_SIZE := length_le32 _
    have hbody : (le32 (crc p) ++ block).drop (CHECKSUM_SIZE + (putUvarint p.length).length) =
        body := by
      rw [← List.drop_drop, List.drop_left' hfront, hblock, List.drop_left]
    have hlen : decodedLen block = .ok (p.length, (putUvarint p.length).length) := by
      rw [hblock]
      exact decodedLen_put (hp.trans (by decide)) body
    unfold compressedData
    rw [List.drop_left' hfront, hlen]
    dsimp only
    rw [if_neg (Nat.not_lt.mpr hp), hbody, ← hblock, hdecompress]
    dsimp only
    unfold checked
    rw [readChecksum_append, if_pos rfl]
  rw [hread]
  constructor
  · intro rest items
    rw [takeBytes_within (length_le_append (le32 (crc p) ++ block) rest), List.take_left,
      List.drop_left]
    rw [Except.bind, hdata]
    rfl
  · intro part items after why hlen _ hstops
    rw [takeBytes_short hlen hstops]
    rfl

private theorem uncompressed_body (hp : p.length ≤ MAX_BLOCK_SIZE) :
    Body (bodyItems snap CHUNK_TYPE_UNCOMPRESSED_DATA (le32 (crc p) ++ p).length)
      (le32 (crc p) ++ p) (some p) := by
  have hlen : (le32 (crc p) ++ p).length = CHECKSUM_SIZE + p.length := by
    rw [List.length_append, length_le32]
    rfl
  have hfront : (le32 (crc p)).length = CHECKSUM_SIZE := length_le32 _
  have hread : bodyItems snap CHUNK_TYPE_UNCOMPRESSED_DATA (le32 (crc p) ++ p).length =
      fun items => (takeBytes items CHECKSUM_SIZE false).bind fun s =>
        if p.length > MAX_BLOCK_SIZE then .error (.snappy .corrupt)
        else (takeBytes s.2 p.length false).bind fun t =>
          (checked (readChecksum s.1) t.1).map fun data => (some data, t.2) := by
    funext items
    unfold bodyItems uncompressedItems
    rw [if_neg (by decide), if_pos rfl, hlen, if_neg (Nat.not_lt.mpr (Nat.le_add_right _ _)),
      Nat.add_sub_cancel_left]
  rw [hread]
  constructor
  · intro rest items
    have htake : CHECKSUM_SIZE ≤ (le32 (crc p) ++ p ++ rest).length := by
      rw [List.length_append, hlen]
      omega
    rw [takeBytes_within htake, List.append_assoc, List.take_left' hfront, List.drop_left' hfront,
      Except.bind]
    dsimp only
    rw [if_neg (Nat.not_lt.mpr hp), takeBytes_within (length_le_append p rest), List.take_left,
      List.drop_left, Except.bind]
    unfold checked
    have hsum : readChecksum (le32 (crc p)) = crc p := by
      have hsum := readChecksum_append (crc p) []
      rwa [List.append_nil] at hsum
    rw [hsum, if_pos rfl]
    rfl
  · intro part items after why hshort hpart hstops
    rw [hlen] at hshort
    by_cases hcut : part.length < CHECKSUM_SIZE
    · rw [takeBytes_short hcut hstops]
      rfl
    · -- the checksum is there, its data is not
      have hle : CHECKSUM_SIZE ≤ part.length := Nat.not_lt.mp hcut
      have hrest : (part.drop CHECKSUM_SIZE).length < p.length := by
        rw [List.length_drop]
        omega
      rw [takeBytes_within hle, Except.bind]
      dsimp only
      rw [if_neg (Nat.not_lt.mpr hp), takeBytes_short hrest hstops]
      rfl

private theorem identifier_piece (identified : Bool) : Piece snap identified MAGIC_CHUNK none :=
  identifier_body.piece (by decide) (.inr rfl)

private theorem chunk_piece (hsnap : snap.Lawful) (hp : p.length ≤ MAX_BLOCK_SIZE) :
    Piece snap true (chunkOf snap p) (some p) := by
  have hroom : maxCompressLen p.length ≤ MAX_ENCODED_LEN_OF_MAX_BLOCK_SIZE := by
    unfold maxCompressLen MAX_ENCODED_LEN_OF_MAX_BLOCK_SIZE
    unfold MAX_BLOCK_SIZE at hp
    omega
  have hnum : CHECKSUM_SIZE + MAX_ENCODED_LEN_OF_MAX_BLOCK_SIZE = RBUF_LEN ∧
      MAX_BLOCK_SIZE ≤ MAX_ENCODED_LEN_OF_MAX_BLOCK_SIZE := by decide
  have hsum : ∀ body : Bytes, (le32 (crc p) ++ body).length = CHECKSUM_SIZE + body.length := by
    intro body
    rw [List.length_append, length_le32]
    rfl
  obtain ⟨body, hcompress, hlen, hdecompress⟩ := hsnap p _ hp hroom
  unfold chunkOf
  rw [hcompress]
  dsimp only
  unfold chunkFor chunk
  split_ifs with hstored
  · rw [List.append_assoc, ← hsum]
    apply (uncompressed_body hp).piece _ (.inl rfl)
    rw [hsum]
    omega
  · rw [List.append_assoc, ← hsum]
    apply (compressed_body rfl hdecompress hp).piece _ (.inl rfl)
    rw [hsum]
    omega

/-! A stream that breaks off. -/

/-- Where the bytes `front` of the chunks of `blocks` end: behind the chunks of `taken` and `part`,
which is less than the next chunk. -/
structure CutAt (snap : Snap) (blocks : List Bytes) (front : Bytes) (taken : List Bytes)
    (part : Bytes) : Prop where
  split : front = taken.flatMap (chunkOf snap) ++ part
  whole : taken <+: blocks
  next : ∀ p, taken ++ [p] <+: blocks →
    part <+: chunkOf snap p ∧ part.length < (chunkOf snap p).length

private theorem decodes_cut (hsnap : snap.Lawful) {blocks : List Bytes}
    (hsmall : ∀ p ∈ blocks, p.length ≤ MAX_BLOCK_SIZE) {front : Bytes}
    (hfront : front <+: blocks.flatMap (chunkOf snap)) (hstops : StopsAt items why after) :
    ∃ taken part, CutAt snap blocks front taken part ∧
      Decodes snap true (elems front ++ items) taken
        (if part = [] then ended why else broken why) := by
  induction blocks generalizing front with
  | nil =>
    obtain rfl : front = [] := List.prefix_nil.mp hfront
    refine ⟨[], [], ⟨rfl, List.nil_prefix, ?_⟩, .stops (nextChunk_nil hstops)⟩
    intro p hp
    exact absurd (List.prefix_nil.mp hp) (List.cons_ne_nil _ _)
  | cons p ps ih =>
    obtain ⟨hp, hps⟩ := List.forall_mem_cons.mp hsmall
    have hpiece := chunk_piece hsnap hp
    rw [List.flatMap_cons] at hfront
    by_cases hlen : front.length < (chunkOf snap p).length
    · have hpart : front <+: chunkOf snap p :=
        List.prefix_of_prefix_length_le hfront (List.prefix_append _ _) hlen.le
      refine ⟨[], front, ⟨rfl, List.nil_prefix, ?_⟩, ?_⟩
      · intro q hq
        obtain rfl := (List.cons_prefix_cons.mp hq).1
        exact ⟨hpart, hlen⟩
      · by_cases hnil : front = []
        · subst hnil
          exact .stops (nextChunk_nil hstops)
        · rw [if_neg hnil]
          exact .stops (hpiece.short hlen hpart hnil hstops)
    · obtain ⟨later, rfl⟩ := List.prefix_of_prefix_length_le (List.prefix_append _ _) hfront
        (Nat.not_lt.mp hlen)
      obtain ⟨taken, part, hcut, hdecodes⟩ :=
        ih hps ((List.prefix_append_right_inj _).mp hfront)
      refine ⟨p :: taken, part, ⟨?_, ?_, ?_⟩, ?_⟩
      · rw [List.flatMap_cons, List.append_assoc, ← hcut.split]
      · exact List.cons_prefix_cons.mpr ⟨rfl, hcut.whole⟩
      · intro q hq
        exact hcut.next q (List.cons_prefix_cons.mp hq).2
      · exact .chunk (hpiece.whole later items) hdecodes

private theorem encode_of_ne {blocks : List Bytes} (h : blocks ≠ []) :
    encode snap blocks = MAGIC_CHUNK ++ blocks.flatMap (chunkOf snap) := by
  cases blocks with
  | nil => exact absurd rfl h
  | cons p ps => rfl

theorem decodes_cut_wire (hsnap : snap.Lawful) {blocks : List Bytes}
    (hsmall : ∀ p ∈ blocks, p.length ≤ MAX_BLOCK_SIZE) {front : Bytes}
    (hfront : front <+: encode snap blocks) (hstops : StopsAt items why after) :
    ∃ taken, Decodes snap false (elems front ++ items) taken
        (if front = encode snap taken ∨ front = MAGIC_CHUNK then ended why else broken why) ∧
      taken <+: blocks ∧ encode snap taken <+: front ∧
        ∀ p, taken ++ [p] <+: blocks → ¬encode snap (taken ++ [p]) <+: front := by
  have hid := @identifier_piece snap false
  have hadd : ∀ (taken : List Bytes) (p : Bytes), encode snap (taken ++ [p]) =
      MAGIC_CHUNK ++ (taken.flatMap (chunkOf snap) ++ chunkOf snap p) := by
    intro taken p
    rw [encode_of_ne (List.append_ne_nil_of_right_ne_nil _ (List.cons_ne_nil _ _)),
      List.flatMap_append, List.flatMap_singleton]
  by_cases hlen : front.length < MAGIC_CHUNK.length
  · -- the identifier has not arrived
    have hlong : ∀ p, ¬encode snap ([] ++ [p]) <+: front := by
      intro p hp
      rw [hadd] at hp
      have hle := hp.length_le
      rw [List.length_append] at hle
      omega
    have hnot : front ≠ MAGIC_CHUNK := by
      rintro rfl
      exact Nat.lt_irrefl _ hlen
    refine ⟨[], ?_, List.nil_prefix, List.nil_prefix, fun p _ => hlong p⟩
    by_cases hnil : front = []
    · rw [if_pos (.inl hnil), hnil]
      exact .stops (nextChunk_nil hstops)
    · have hinside : ¬(front = encode snap [] ∨ front = MAGIC_CHUNK) := not_or.mpr ⟨hnil, hnot⟩
      rw [if_neg hinside]
      have hne : blocks ≠ [] := by
        rintro rfl
        exact hnil (List.prefix_nil.mp hfront)
      rw [encode_of_ne hne] at hfront
      have hpart := List.prefix_of_prefix_length_le hfront (List.prefix_append _ _) hlen.le
      exact .stops (hid.short hlen hpart hnil hstops)
  · have hne : blocks ≠ [] := by
      rintro rfl
      rw [List.prefix_nil.mp hfront] at hlen
      exact hlen (by decide)
    rw [encode_of_ne hne] at hfront
    obtain ⟨later, rfl⟩ := List.prefix_of_prefix_length_le (List.prefix_append _ _) hfront
      (Nat.not_lt.mp hlen)
    obtain ⟨taken, part, hcut, hdecodes⟩ :=
      decodes_cut hsnap hsmall ((List.prefix_append_right_inj _).mp hfront) hstops
    have hstart : encode snap taken <+: MAGIC_CHUNK ++ later ∧
        (MAGIC_CHUNK ++ later = encode snap taken ∨ MAGIC_CHUNK ++ later = MAGIC_CHUNK ↔
          part = []) := by
      rw [hcut.split]
      cases taken with
      | nil =>
        refine ⟨List.nil_prefix, ?_, ?_⟩
        · rintro (hnil | hsame)
          · cases hnil
          · exact List.append_right_eq_self.mp hsame
        · rintro rfl
          exact .inr (List.append_nil _)
      | cons p ps =>
        have hsome : (p :: ps).flatMap (chunkOf snap) ≠ [] := by
          have hp := hsmall p (hcut.whole.subset List.mem_cons_self)
          rw [List.flatMap_cons]
          exact List.append_ne_nil_of_left_ne_nil (chunk_piece hsnap hp).nonempty _
        rw [encode_of_ne (List.cons_ne_nil p ps), ← List.append_assoc]
        refine ⟨List.prefix_append _ _, ?_, ?_⟩
        · rintro (hsame | hmagic)
          · exact List.append_right_eq_self.mp hsame
          · rw [List.append_assoc] at hmagic
            have hnil := List.append_right_eq_self.mp hmagic
            exact absurd (List.append_eq_nil_iff.mp hnil).1 hsome
        · rintro rfl
          exact .inl (List.append_nil _)
    refine ⟨taken, ?_, hcut.whole, hstart.1, ?_⟩
    · simp only [hstart.2]
      exact .chunk (hid.whole later items) hdecodes
    · intro p hp hwhole
      rw [hadd, hcut.split, List.prefix_append_right_inj, List.prefix_append_right_inj] at hwhole
      exact absurd hwhole.length_le (Nat.not_le.mpr (hcut.next p hp).2)

/-- The stream of a writer breaks off anywhere, the connection ending or failing there. Whatever the
pieces it arrives in and the sizes of the reads, these return the blocks that arrived whole, in order
and no byte of another; then they report a failure of the connection, a clean end if the break is
where a chunk ends, and a malformed stream if it is inside of one. The wire itself ends inside of a
chunk only if a write that failed took a part of it. -/
theorem cut_off_stream (hsnap : snap.Lawful) (hexact : snap.Exact)
    {outcomes : List (Option (ℕ × IoError))} {calls : List WriteCall}
    {results : List (Except IoError Unit)} {w : Writer} {wire : Wire}
    (hwrites : writes snap .new ⟨[], outcomes⟩ calls = some (results, w, wire)) {front : Bytes}
    (hfront : front <+: wire.bytes) {conn : List Arrival} {why : Option IoError}
    (hconn : Brings conn front why) :
    ∃ blocks taken, wire.bytes <+: encode snap blocks ∧
      ((∀ n e, some (n, e) ∈ outcomes → n = 0) → wire.bytes = encode snap blocks) ∧
      (∀ p ∈ blocks, p ≠ [] ∧ p.length ≤ MAX_BLOCK_SIZE) ∧
      blocks.flatten <+: calls.flatMap WriteCall.data ∧ taken <+: blocks ∧
      encode snap taken <+: front ∧
      (∀ p, taken ++ [p] <+: blocks → ¬encode snap (taken ++ [p]) <+: front) ∧
      ∀ sizes, ∃ outs, reads snap .new conn sizes = some outs ∧
        Delivers (if front = encode snap taken ∨ front = MAGIC_CHUNK then ended why
          else broken why).result taken.flatten sizes outs := by
  obtain ⟨r, blocks, cut, hwrites', hsent, hpre, -, -, -, hpartly⟩ :=
    (sent_new snap outcomes).writes hsnap calls
  obtain rfl := Option.some.inj (hwrites.symm.trans hwrites')
  rw [List.nil_append] at hsent
  obtain ⟨items, after, hstream, hstops⟩ := hconn.stream
  have hcut := hfront.trans hsent.bytes
  obtain ⟨taken, hdecodes, htaken, hwhole, hnext⟩ :=
    decodes_cut_wire hsnap (fun p hp => (hsent.small p hp).2) hcut hstops
  rw [← hstream] at hdecodes
  refine ⟨blocks ++ cut, taken, hsent.bytes, ?_, hsent.small, hpre rfl, htaken, hwhole, hnext, ?_⟩
  · intro hnothing
    have hnil : cut = [] := by
      by_contra hne
      obtain ⟨n, e, hn, he⟩ := hpartly hne
      exact absurd (hnothing n e he) (Nat.ne_of_gt hn)
    rw [hsent.bytes_eq hnil, hnil, List.append_nil]
  · intro sizes
    exact reads_delivers hexact sizes (.inl (pending_new hdecodes))

/-- The codec of one literal with a block decoder that fills its buffer or fails. -/
def exactSnap : Snap := { literalSnap with decompress := storedSnap.decompress }

private theorem exactSnap_lawful : exactSnap.Lawful := by
  intro p room hp hroom
  obtain ⟨body, hcompress, hlen, hdecompress⟩ := literalSnap_lawful p room hp hroom
  refine ⟨body, hcompress, hlen, ?_⟩
  have hsame : (putUvarint p.length ++ body).drop ((putUvarint p.length ++ body).length - p.length) =
      p := Option.some.inj hdecompress
  have hlong : ¬(putUvarint p.length ++ body).length < p.length := by
    intro hshort
    have hle := congrArg List.length hsame
    rw [List.length_drop] at hle
    omega
  show (if (putUvarint p.length ++ body).length < p.length then none else some _) = some p
  rw [if_neg hlong, hsame]

private theorem length_encode_exactSnap {ps : List Bytes} (hps : ps ≠ [])
    (hsmall : ∀ p ∈ ps, p.length ≤ MAX_BLOCK_SIZE) :
    (encode exactSnap ps).length = 10 + 8 * ps.length + ps.flatten.length := by
  have hchunk : ∀ p : Bytes, p.length ≤ MAX_BLOCK_SIZE →
      (chunkOf exactSnap p).length = 8 + p.length := by
    intro p hp
    have hroom : maxCompressLen p.length ≤ MAX_ENCODED_LEN_OF_MAX_BLOCK_SIZE := by
      unfold maxCompressLen MAX_ENCODED_LEN_OF_MAX_BLOCK_SIZE
      unfold MAX_BLOCK_SIZE at hp
      omega
    have hcompress : exactSnap.compress p MAX_ENCODED_LEN_OF_MAX_BLOCK_SIZE =
        .ok (putUvarint p.length ++ ((if p = [] then [] else literalTag p) ++ p)) := if_pos hroom
    unfold chunkOf
    rw [hcompress]
    dsimp only
    rw [chunkFor, if_pos ?_, length_chunk]
    · rfl
    · unfold stored
      rw [decide_eq_true_iff, List.length_append, List.length_append]
      omega
  have hflat : ∀ qs : List Bytes, (∀ p ∈ qs, p.length ≤ MAX_BLOCK_SIZE) →
      (qs.flatMap (chunkOf exactSnap)).length = 8 * qs.length + qs.flatten.length := by
    intro qs hqs
    induction qs with
    | nil => rfl
    | cons q qs ih =>
      obtain ⟨hq, hqs⟩ := List.forall_mem_cons.mp hqs
      rw [List.flatMap_cons, List.length_append, hchunk q hq, ih hqs, List.flatten_cons,
        List.length_append, List.length_cons]
      omega
  rw [encode_of_ne hps, List.length_append, hflat ps hsmall]
  have hmagic : MAGIC_CHUNK.length = 10 := rfl
  omega

private theorem eq_singletons {blocks : List Bytes} (hne : ∀ p ∈ blocks, p ≠ []) :
    blocks.length ≤ blocks.flatten.length ∧ (blocks.flatten.length ≤ blocks.length →
      blocks = blocks.flatten.map fun b => [b]) := by
  induction blocks with
  | nil => exact ⟨Nat.le_refl 0, fun _ => rfl⟩
  | cons p ps ih =>
    obtain ⟨hp, hps⟩ := List.forall_mem_cons.mp hne
    obtain ⟨hle, hsingle⟩ := ih hps
    have hpos := List.length_pos_iff.mpr hp
    rw [List.flatten_cons, List.length_append, List.length_cons]
    constructor
    · omega
    · intro hlen
      obtain ⟨b, rfl⟩ := List.length_eq_one_iff.mp (by omega : p.length = 1)
      rw [List.singleton_append, List.map_cons, ← hsingle (by omega)]

private theorem run_writeAll_byte (hsnap : snap.Lawful) {w : Writer} (hw : w.obuf.length = OBUF_LEN)
    (herr : w.err = none) (wire : Wire) (b : UInt8) : ∃ obuf, obuf.length = OBUF_LEN ∧
      (WriteCall.writeAll [b]).run snap w wire =
        some (sendChunk w wire obuf (outgoing snap w [b])) := by
  obtain ⟨obuf, hobuf, hwrite⟩ := @writeChunk_spec _ [b] hsnap w hw wire (Nat.le_of_ble_eq_true rfl)
  refine ⟨obuf, hobuf, ?_⟩
  have hloop : (WriteCall.writeAll [b]).run snap w wire = chunkLoop snap 1 w wire [b] := by
    change writeChunks snap w wire [b] = _
    rw [writeChunks, herr]
    rfl
  rw [hloop, chunkLoop, if_neg (List.cons_ne_nil b []), show [b].take MAX_BLOCK_SIZE = [b] from rfl,
    hwrite, Option.bind_some]
  generalize sendChunk w wire obuf (outgoing snap w [b]) = r
  obtain ⟨res, rest⟩ := r
  cases res <;> rfl

def brokenPipe : IoError := .new .connection "broken pipe"

/-- Two of three blocks are taken, and of the third its first bytes: the reader returns the two and
reports a malformed stream. -/
theorem cut_off_stream_literal : ∃ w wire outs,
    writes exactSnap .new ⟨[], [none, none, some (3, brokenPipe)]⟩
        [.writeAll [104], .writeAll [105], .writeAll [106]] =
      some ([.ok (), .ok (), .error brokenPipe], w, wire) ∧
    wire.bytes = encode exactSnap [[104], [105]] ++ (chunkOf exactSnap [106]).take 3 ∧
    reads exactSnap .new (wire.bytes.map fun b => .data [b]) [4, 1, 4] = some outs ∧
    Delivers (.error (Sticky.snappy .corrupt).toIo) [104, 105] [4, 1, 4] outs := by
  have hnew : Writer.new.obuf.length = OBUF_LEN := List.length_replicate
  obtain ⟨obuf₁, hobuf₁, hrun₁⟩ := run_writeAll_byte exactSnap_lawful hnew rfl
    ⟨[], [none, none, some (3, brokenPipe)]⟩ 104
  obtain ⟨obuf₂, hobuf₂, hrun₂⟩ := @run_writeAll_byte _ exactSnap_lawful ⟨obuf₁, true, none⟩ hobuf₁ rfl
    ⟨encode exactSnap [[104]], [none, some (3, brokenPipe)]⟩ 105
  obtain ⟨obuf₃, -, hrun₃⟩ := @run_writeAll_byte _ exactSnap_lawful ⟨obuf₂, true, none⟩ hobuf₂ rfl
    ⟨encode exactSnap [[104], [105]], [some (3, brokenPipe)]⟩ 106
  have hwrites : writes exactSnap .new ⟨[], [none, none, some (3, brokenPipe)]⟩
      [.writeAll [104], .writeAll [105], .writeAll [106]] =
      some ([.ok (), .ok (), .error brokenPipe], ⟨obuf₃, true, some (.io brokenPipe)⟩,
        ⟨encode exactSnap [[104], [105]] ++ (chunkOf exactSnap [106]).take 3, []⟩) := by
    have hfirst : sendChunk .new ⟨[], [none, none, some (3, brokenPipe)]⟩ obuf₁
        (outgoing exactSnap .new [104]) = (.ok (), ⟨obuf₁, true, none⟩,
          ⟨encode exactSnap [[104]], [none, some (3, brokenPipe)]⟩) := by
      rfl
    have hsecond : sendChunk ⟨obuf₁, true, none⟩ ⟨encode exactSnap [[104]],
        [none, some (3, brokenPipe)]⟩ obuf₂ (outgoing exactSnap ⟨obuf₁, true, none⟩ [105]) =
        (.ok (), ⟨obuf₂, true, none⟩,
          ⟨encode exactSnap [[104], [105]], [some (3, brokenPipe)]⟩) := by
      rfl
    rw [writes, hrun₁, Option.bind_some, hfirst, writes, hrun₂, Option.bind_some, hsecond, writes,
      hrun₃]
    rfl
  have hconn : Brings ((encode exactSnap [[104], [105]] ++ (chunkOf exactSnap [106]).take 3).map
      fun b => .data [b]) (encode exactSnap [[104], [105]] ++ (chunkOf exactSnap [106]).take 3)
      none := by
    refine ⟨_, [], ?_, ?_, List.flatMap_singleton' _, rfl⟩
    · rw [List.map_map, List.append_nil]
      rfl
    · intro seg hseg
      obtain ⟨b, -, rfl⟩ := List.mem_map.mp hseg
      exact List.cons_ne_nil b []
  obtain ⟨blocks, taken, hbytes, -, hsmall, hflat, htaken, hwhole, hnext, hreads⟩ :=
    cut_off_stream exactSnap_lawful storedSnap_exact hwrites List.prefix_rfl hconn
  have hfront : (encode exactSnap [[104], [105]] ++ (chunkOf exactSnap [106]).take 3).length = 31 := rfl
  -- thirty-one bytes of a stream of three: every byte is a block
  have hblocks : blocks = [[104], [105], [106]] := by
    have hne : blocks ≠ [] := by
      rintro rfl
      have hle := hbytes.length_le
      rw [hfront] at hle
      exact absurd hle (by decide)
    have hlen := length_encode_exactSnap hne fun p hp => (hsmall p hp).2
    have hle := hbytes.length_le
    rw [hfront] at hle
    have hshort : blocks.flatten.length ≤ 3 := hflat.length_le
    obtain ⟨hcount, hsingle⟩ := eq_singletons fun p hp => (hsmall p hp).1
    have hall : blocks.flatten = [104, 105, 106] :=
      hflat.eq_of_length (le_antisymm hshort (by change 3 ≤ _; omega))
    rw [hsingle (by omega), hall]
    rfl
  subst hblocks
  have htwo : taken = [[104], [105]] := by
    have heq := List.prefix_iff_eq_take.mp htaken
    have hle := htaken.length_le
    generalize taken.length = n at heq hle
    subst heq
    have hcases : n = 0 ∨ n = 1 ∨ n = 2 ∨ n = 3 := by
      change n ≤ 3 at hle
      omega
    rcases hcases with rfl | rfl | rfl | rfl
    · exact absurd ⟨_, rfl⟩ (hnext [104] ⟨_, rfl⟩)
    · exact absurd ⟨_, rfl⟩ (hnext [105] ⟨_, rfl⟩)
    · rfl
    · have hlong := hwhole.length_le
      rw [hfront] at hlong
      exact absurd hlong (by decide)
  subst htwo
  obtain ⟨outs, hread, hdelivers⟩ := hreads [4, 1, 4]
  refine ⟨_, _, outs, hwrites, rfl, hread, ?_⟩
  rw [if_neg ?_] at hdelivers
  · exact hdelivers
  · rintro (hborder | hmagic)
    · have hlen := congrArg List.length hborder
      rw [hfront] at hlen
      exact absurd hlen (by decide)
    · have hlen := congrArg List.length hmagic
      rw [hfront] at hlen
      exact absurd hlen (by decide)

end Kcptun.Snappy
