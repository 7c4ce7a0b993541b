/- Kcptun/Snappy/Writer
   source: crates/std/src/comp.rs (Writer, write_chunks, write_all, write_all_vectored)
   digest: The writer cuts what it is given into blocks and puts each on the wire as one chunk,
     behind the stream identifier. -/

import Kcptun.Snappy.Framing

set_option autoImplicit false
set_option relaxedAutoImplicit false

namespace Kcptun.Snappy

open Kcptun.Lib (splice slice splice_append splice_zero slice_mid)
open Kcptun.Lib.LittleEndian

/-- The connection below: what it took, and how its next writes end. One that fails says how much
it takes before. -/
structure Wire where
  bytes : Bytes
  outcomes : List (Option (ℕ × IoError))
  deriving DecidableEq, Repr

/-- Takes all of `p`, or a part of it and fails. -/
def Wire.writeAll (wire : Wire) (p : Bytes) : Except IoError Unit × Wire :=
  match wire.outcomes with
  | some (n, e) :: rest => (.error e, { bytes := wire.bytes ++ p.take n, outcomes := rest })
  | none :: rest => (.ok (), { bytes := wire.bytes ++ p, outcomes := rest })
  | [] => (.ok (), { wire with bytes := wire.bytes ++ p })

structure Writer where
  obuf : Bytes
  wroteStreamHeader : Bool
  err : Option Sticky
  deriving DecidableEq, Repr

def Writer.new : Writer := ⟨List.replicate OBUF_LEN 0, false, none⟩

/-- Whether a block is stored as it is: compression saves less than an eighth. -/
def stored (n compressedLen : ℕ) : Bool := compressedLen ≥ n - n / 8

/-- The chunk in the output buffer: the body, then the header in front of it. -/
def sealChunk (obuf uncompressed block : Bytes) : Option Bytes := do
  let n := uncompressed.length
  let obuf ← splice obuf OBUF_HEADER_LEN block
  let obuf ← if stored n block.length then splice obuf OBUF_HEADER_LEN uncompressed else some obuf
  let header := if stored n block.length then
      chunkHeader CHUNK_TYPE_UNCOMPRESSED_DATA (CHECKSUM_SIZE + n)
    else chunkHeader CHUNK_TYPE_COMPRESSED_DATA (CHECKSUM_SIZE + block.length)
  splice obuf MAGIC_CHUNK.length (header ++ le32 (crc uncompressed))

def startChunk (w : Writer) : Option Bytes :=
  if w.wroteStreamHeader then some w.obuf else splice w.obuf 0 MAGIC_CHUNK

/-- Hands the bytes to the connection; a failure is remembered. -/
def sendChunk (w : Writer) (wire : Wire) (obuf out : Bytes) : Except IoError Unit × Writer × Wire :=
  let sent := wire.writeAll out
  match sent.1 with
  | .error e => (.error e, ⟨obuf, true, some (.io e)⟩, sent.2)
  | .ok _ => (.ok (), ⟨obuf, true, w.err⟩, sent.2)

def writeChunk (snap : Snap) (w : Writer) (wire : Wire) (uncompressed : Bytes) :
    Option (Except IoError Unit × Writer × Wire) :=
  let obufStart := if w.wroteStreamHeader then MAGIC_CHUNK.length else 0
  (startChunk w).bind fun obuf =>
    match snap.compress uncompressed (obuf.length - OBUF_HEADER_LEN) with
    | .error e =>
      let err : IoError := .new .other ("snappy: compress: " ++ e)
      some (.error err, ⟨obuf, true, some (.io err)⟩, wire)
    | .ok block =>
      let obufEnd := if stored uncompressed.length block.length then
          OBUF_HEADER_LEN + uncompressed.length
        else OBUF_HEADER_LEN + block.length
      (sealChunk obuf uncompressed block).bind fun obuf =>
        (slice obuf obufStart obufEnd).map fun out => sendChunk w wire obuf out

/-- The loop of `write_chunks`; every turn takes at least a byte. -/
def chunkLoop (snap : Snap) : ℕ → Writer → Wire → Bytes →
    Option (Except IoError Unit × Writer × Wire)
  | 0, w, wire, p => if p = [] then some (.ok (), w, wire) else none
  | fuel + 1, w, wire, p =>
    if p = [] then some (.ok (), w, wire)
    else (writeChunk snap w wire (p.take MAX_BLOCK_SIZE)).bind fun r =>
      match r.1 with
      | .error e => some (.error e, r.2)
      | .ok _ => chunkLoop snap fuel r.2.1 r.2.2 (p.drop MAX_BLOCK_SIZE)

def writeChunks (snap : Snap) (w : Writer) (wire : Wire) (p : Bytes) :
    Option (Except IoError Unit × Writer × Wire) :=
  match w.err with
  | some err => some (.error err.toIo, w, wire)
  | none => chunkLoop snap p.length w wire p

def writeAllVectored (snap : Snap) (w : Writer) (wire : Wire) (bufs : List Bytes) :
    Option (Except IoError ℕ × Writer × Wire) :=
  (writeChunks snap w wire bufs.flatten).map fun r =>
    (r.1.map fun _ => (bufs.map List.length).sum, r.2)

inductive WriteCall where
  | writeAll (p : Bytes)
  | writeAllVectored (bufs : List Bytes)
  deriving DecidableEq, Repr

def WriteCall.data : WriteCall → Bytes
  | .writeAll p => p
  | .writeAllVectored bufs => bufs.flatten

def WriteCall.run (snap : Snap) (w : Writer) (wire : Wire) :
    WriteCall → Option (Except IoError Unit × Writer × Wire)
  | .writeAll p => writeChunks snap w wire p
  | .writeAllVectored bufs =>
    (Snappy.writeAllVectored snap w wire bufs).map fun r => (r.1.map fun _ => (), r.2)

def writes (snap : Snap) : Writer → Wire → List WriteCall →
    Option (List (Except IoError Unit) × Writer × Wire)
  | w, wire, [] => some ([], w, wire)
  | w, wire, call :: calls => (call.run snap w wire).bind fun r =>
    (writes snap r.2.1 r.2.2 calls).map fun rest => (r.1 :: rest.1, rest.2)

def chunkFor (p block : Bytes) : Bytes :=
  if stored p.length block.length then chunk CHUNK_TYPE_UNCOMPRESSED_DATA (crc p) p
  else chunk CHUNK_TYPE_COMPRESSED_DATA (crc p) block

def chunkOf (snap : Snap) (p : Bytes) : Bytes :=
  match snap.compress p MAX_ENCODED_LEN_OF_MAX_BLOCK_SIZE with
  | .error _ => []
  | .ok block => chunkFor p block

/-- The wire form of a list of blocks: the stream identifier goes out with the first. -/
def encode (snap : Snap) : List Bytes → Bytes
  | [] => []
  | p :: ps => MAGIC_CHUNK ++ (p :: ps).flatMap (chunkOf snap)

private theorem encode_concat (snap : Snap) (ps : List Bytes) (p : Bytes) :
    encode snap (ps ++ [p]) =
      encode snap ps ++ ((if ps = [] then MAGIC_CHUNK else []) ++ chunkOf snap p) := by
  cases ps with
  | nil => simp [encode]
  | cons q qs => simp [encode]

variable {snap : Snap} {obuf p block : Bytes}

@[simp] theorem length_chunkHeader (t : UInt8) (n : ℕ) : (chunkHeader t n).length = 4 := rfl

private theorem seal_header {front slot header body tail : Bytes} (checksum : UInt32)
    (hfront : front.length = MAGIC_CHUNK.length)
    (hslot : slot.length = CHECKSUM_SIZE + CHUNK_HEADER_SIZE)
    (hheader : header.length = CHUNK_HEADER_SIZE) :
    splice (front ++ slot ++ (body ++ tail)) MAGIC_CHUNK.length (header ++ le32 checksum) =
      some (front ++ (header ++ le32 checksum ++ body) ++ tail) := by
  have hxs : (header ++ le32 checksum).length = slot.length := by
    rw [List.length_append, length_le32, hheader, hslot]
    rfl
  rw [List.append_assoc, splice_append hfront (by rw [hxs, List.length_append]; omega), hxs,
    List.drop_left]
  simp only [List.append_assoc]

private theorem sealChunk_spec {front slot rest : Bytes}
    (hfront : front.length = MAGIC_CHUNK.length)
    (hslot : slot.length = CHECKSUM_SIZE + CHUNK_HEADER_SIZE) (hblock : block.length ≤ rest.length)
    (hp : p.length ≤ rest.length) : ∃ tail,
    sealChunk (front ++ slot ++ rest) p block = some (front ++ chunkFor p block ++ tail) ∧
    (chunkFor p block ++ tail).length = slot.length + rest.length := by
  have hhead : (front ++ slot).length = OBUF_HEADER_LEN := by
    rw [List.length_append, hfront, hslot]
    rfl
  have hfirst : block.length + (rest.drop block.length).length = rest.length := by
    rw [List.length_drop]
    omega
  have hlen : ∀ (t : UInt8) (body tail : Bytes), body.length + tail.length = rest.length →
      (chunk t (crc p) body ++ tail).length = slot.length + rest.length := by
    intro t body tail hbody
    simp only [chunk, List.length_append, length_chunkHeader, length_le32, hslot,
      CHECKSUM_SIZE, CHUNK_HEADER_SIZE]
    omega
  unfold sealChunk chunkFor
  dsimp only
  rw [splice_append hhead hblock, Option.bind_eq_bind, Option.bind_some]
  split_ifs with hstored
  · have hover : p.length ≤ (block ++ rest.drop block.length).length := by
      rw [List.length_append]
      omega
    refine ⟨(block ++ rest.drop block.length).drop p.length, ?_, hlen _ _ _ ?_⟩
    · rw [splice_append hhead hover, Option.bind_some]
      exact seal_header _ hfront hslot rfl
    · rw [List.length_drop, List.length_append]
      omega
  · refine ⟨rest.drop block.length, ?_, hlen _ _ _ hfirst⟩
    exact seal_header _ hfront hslot rfl

theorem length_chunk (t : UInt8) (checksum : UInt32) (body : Bytes) :
    (chunk t checksum body).length = CHECKSUM_SIZE + CHUNK_HEADER_SIZE + body.length := by
  rw [chunk, List.length_append, List.length_append, length_chunkHeader, length_le32]
  rfl

private theorem length_chunkFor (p block : Bytes) : MAGIC_CHUNK.length + (chunkFor p block).length =
    if stored p.length block.length then OBUF_HEADER_LEN + p.length
    else OBUF_HEADER_LEN + block.length := by
  unfold chunkFor
  split_ifs <;> rw [length_chunk, ← Nat.add_assoc] <;> rfl

private theorem exists_parts (h : obuf.length = OBUF_LEN) : ∃ front slot rest,
    obuf = front ++ slot ++ rest ∧ front.length = MAGIC_CHUNK.length ∧
      slot.length = CHECKSUM_SIZE + CHUNK_HEADER_SIZE ∧
      rest.length = MAX_ENCODED_LEN_OF_MAX_BLOCK_SIZE := by
  have hnum : OBUF_LEN = 76508 := rfl
  refine ⟨obuf.take 10, (obuf.drop 10).take 8, obuf.drop 18, ?_, ?_, ?_, ?_⟩
  · rw [List.append_assoc, ← @List.drop_drop _ 8 10, List.take_append_drop,
      List.take_append_drop]
  · rw [List.length_take_of_le (by omega)]
    rfl
  · rw [List.length_take_of_le (by rw [List.length_drop]; omega)]
    rfl
  · rw [List.length_drop, h]
    rfl

def outgoing (snap : Snap) (w : Writer) (p : Bytes) : Bytes :=
  (if w.wroteStreamHeader then [] else MAGIC_CHUNK) ++ chunkOf snap p

private theorem compressed_parts (hsnap : snap.Lawful) (hp : p.length ≤ MAX_BLOCK_SIZE) :
    ∃ block, snap.compress p MAX_ENCODED_LEN_OF_MAX_BLOCK_SIZE = .ok block ∧
      block.length ≤ MAX_ENCODED_LEN_OF_MAX_BLOCK_SIZE ∧ chunkOf snap p = chunkFor p block := by
  have hroom : maxCompressLen p.length ≤ MAX_ENCODED_LEN_OF_MAX_BLOCK_SIZE := by
    unfold maxCompressLen MAX_ENCODED_LEN_OF_MAX_BLOCK_SIZE
    unfold MAX_BLOCK_SIZE at hp
    omega
  obtain ⟨body, hcompress, hlen, -⟩ := hsnap p _ hp hroom
  refine ⟨_, hcompress, hlen.trans hroom, ?_⟩
  rw [chunkOf, hcompress]

private theorem sealed_behind {front slot rest : Bytes} (hfront : front.length = MAGIC_CHUNK.length)
    (hslot : slot.length = CHECKSUM_SIZE + CHUNK_HEADER_SIZE)
    (hrest : rest.length = MAX_ENCODED_LEN_OF_MAX_BLOCK_SIZE)
    (hblock : block.length ≤ MAX_ENCODED_LEN_OF_MAX_BLOCK_SIZE) (hp : p.length ≤ MAX_BLOCK_SIZE) :
    (front ++ slot ++ rest).length - OBUF_HEADER_LEN = MAX_ENCODED_LEN_OF_MAX_BLOCK_SIZE ∧
    ∃ tail, sealChunk (front ++ slot ++ rest) p block = some (front ++ chunkFor p block ++ tail) ∧
      (front ++ chunkFor p block ++ tail).length = OBUF_LEN := by
  have hpmax : MAX_BLOCK_SIZE ≤ MAX_ENCODED_LEN_OF_MAX_BLOCK_SIZE := by decide
  obtain ⟨tail, hsealed, hlen⟩ := sealChunk_spec hfront hslot (hblock.trans hrest.ge)
    (hp.trans (hpmax.trans hrest.ge))
  refine ⟨?_, tail, hsealed, ?_⟩
  · rw [List.length_append, List.length_append, hfront, hslot, hrest]
    rfl
  · rw [List.append_assoc, List.length_append, hlen, hfront, hslot, hrest]
    rfl

theorem writeChunk_spec (hsnap : snap.Lawful) {w : Writer} (hw : w.obuf.length = OBUF_LEN)
    (wire : Wire) (hp : p.length ≤ MAX_BLOCK_SIZE) : ∃ obuf, obuf.length = OBUF_LEN ∧
    writeChunk snap w wire p = some (sendChunk w wire obuf (outgoing snap w p)) := by
  obtain ⟨front, slot, rest, hobuf, hfront, hslot, hrest⟩ := exists_parts hw
  obtain ⟨block, hcompress, hblock, hchunk⟩ := compressed_parts hsnap hp
  rw [writeChunk, startChunk, outgoing, hchunk]
  cases w.wroteStreamHeader with
  | true =>
    obtain ⟨hroom, tail, hsealed, hlen⟩ := sealed_behind hfront hslot hrest hblock hp
    refine ⟨front ++ chunkFor p block ++ tail, hlen, ?_⟩
    have hslice : slice (front ++ chunkFor p block ++ tail) MAGIC_CHUNK.length
        (MAGIC_CHUNK.length + (chunkFor p block).length) = some (chunkFor p block) :=
      slice_mid hfront rfl
    rw [length_chunkFor] at hslice
    simp only [if_true, Option.bind_some, hobuf, hroom, hcompress, hsealed, hslice, Option.map_some,
      List.nil_append]
  | false =>
    obtain ⟨hroom, tail, hsealed, hlen⟩ :=
      @sealed_behind p block MAGIC_CHUNK slot rest rfl hslot hrest hblock hp
    refine ⟨MAGIC_CHUNK ++ chunkFor p block ++ tail, hlen, ?_⟩
    have hmagic : splice (front ++ slot ++ rest) 0 MAGIC_CHUNK =
        some (MAGIC_CHUNK ++ slot ++ rest) := by
      rw [List.append_assoc, splice_zero (by rw [List.length_append, hfront]; omega), ← hfront,
        List.drop_left, List.append_assoc]
    have hslice : slice ([] ++ (MAGIC_CHUNK ++ chunkFor p block) ++ tail) 0
        (0 + (MAGIC_CHUNK ++ chunkFor p block).length) = some (MAGIC_CHUNK ++ chunkFor p block) :=
      slice_mid rfl rfl
    rw [List.nil_append, Nat.zero_add, List.length_append, length_chunkFor] at hslice
    simp only [Bool.false_eq_true, if_false, Option.bind_some, hobuf, hmagic, hroom, hcompress,
      hsealed, hslice, Option.map_some]

/-- The connection has taken the chunks of `blocks`, and of that of `cut`, if there is one, a part. -/
structure Sent (snap : Snap) (blocks cut : List Bytes) (w : Writer) (wire : Wire) : Prop where
  obuf : w.obuf.length = OBUF_LEN
  chunks : encode snap blocks <+: wire.bytes
  bytes : wire.bytes <+: encode snap (blocks ++ cut)
  header : w.err = none → w.wroteStreamHeader = decide (blocks ≠ [])
  uncut : w.err = none → cut = []
  small : ∀ p ∈ blocks ++ cut, p ≠ [] ∧ p.length ≤ MAX_BLOCK_SIZE

theorem sent_new (snap : Snap) (outcomes : List (Option (ℕ × IoError))) :
    Sent snap [] [] .new ⟨[], outcomes⟩ :=
  ⟨List.length_replicate, List.prefix_rfl, List.prefix_rfl, fun _ => rfl, fun _ => rfl,
    fun _ hp => by cases hp⟩

variable {blocks cut : List Bytes} {w : Writer} {wire : Wire}

theorem Sent.bytes_eq (h : Sent snap blocks cut w wire) (hcut : cut = []) :
    wire.bytes = encode snap blocks := by
  subst hcut
  have hle := h.bytes
  rw [List.append_nil] at hle
  exact hle.eq_of_length_le h.chunks.length_le

/-- A block the connection takes is one more chunk; of one it refuses it may take a part, and then
the writer has failed. -/
theorem Sent.writeChunk (h : Sent snap blocks cut w wire) (hsnap : snap.Lawful) (herr : w.err = none)
    (hne : p ≠ []) (hp : p.length ≤ MAX_BLOCK_SIZE) : ∃ r, writeChunk snap w wire p = some r ∧
    r.2.2.outcomes ⊆ wire.outcomes ∧
    ((r.1 = .ok () ∧ r.2.1.err = none ∧ Sent snap (blocks ++ [p]) [] r.2.1 r.2.2) ∨
      ∃ n e, r.1 = .error e ∧ some (n, e) ∈ wire.outcomes ∧ r.2.1.err ≠ none ∧
        Sent snap blocks (if n = 0 then [] else [p]) r.2.1 r.2.2) := by
  obtain ⟨obuf, hobuf, hwrite⟩ := writeChunk_spec hsnap h.obuf wire hp
  refine ⟨_, hwrite, ?_⟩
  obtain rfl := h.uncut herr
  have hwire := h.bytes_eq rfl
  have hbytes : wire.bytes ++ outgoing snap w p = encode snap (blocks ++ [p]) := by
    rw [encode_concat, hwire, outgoing, h.header herr]
    by_cases hblocks : blocks = [] <;> simp [hblocks]
  have hold : ∀ q ∈ blocks, q ≠ [] ∧ q.length ≤ MAX_BLOCK_SIZE := fun q hq =>
    h.small q (List.mem_append_left _ hq)
  have hsmall : ∀ q ∈ blocks ++ [p], q ≠ [] ∧ q.length ≤ MAX_BLOCK_SIZE :=
    List.forall_mem_append.mpr ⟨hold, List.forall_mem_singleton.mpr ⟨hne, hp⟩⟩
  have hok (rest : List (Option (ℕ × IoError))) : Sent snap (blocks ++ [p]) [] ⟨obuf, true, w.err⟩
      ⟨wire.bytes ++ outgoing snap w p, rest⟩ := by
    constructor
    · exact hobuf
    · rw [← hbytes]
    · rw [List.append_nil, hbytes]
    · intro _
      simp
    · intro _
      rfl
    · rw [List.append_nil]
      exact hsmall
  have hpart (n : ℕ) (e : IoError) (rest : List (Option (ℕ × IoError))) :
      Sent snap blocks (if n = 0 then [] else [p]) ⟨obuf, true, some (.io e)⟩
        ⟨wire.bytes ++ (outgoing snap w p).take n, rest⟩ := by
    constructor
    · exact hobuf
    · rw [← hwire]
      exact List.prefix_append _ _
    · dsimp only
      split_ifs with hn
      · rw [hn, List.take_zero, List.append_nil, List.append_nil, hwire]
      · rw [← hbytes]
        exact (List.prefix_append_right_inj _).mpr (List.take_prefix _ _)
    · intro hnone
      exact absurd hnone.symm (Option.some_ne_none _).symm
    · intro hnone
      exact absurd hnone.symm (Option.some_ne_none _).symm
    · split_ifs
      · rw [List.append_nil]
        exact hold
      · exact hsmall
  rw [sendChunk, Wire.writeAll]
  rcases wire.outcomes with _ | ⟨_ | ⟨n, e⟩, rest⟩
  · exact ⟨List.Subset.refl _, .inl ⟨rfl, herr, hok _⟩⟩
  · exact ⟨List.subset_cons_self _ _, .inl ⟨rfl, herr, hok _⟩⟩
  · exact ⟨List.subset_cons_self _ _, .inr ⟨n, e, rfl, List.mem_cons_self, by simp, hpart n e rest⟩⟩

/-- How a write of `p` ends: all of it is on the wire in blocks, or the writer has failed and a part
of it is; nothing is when it had failed before, and otherwise the connection is what failed. -/
structure Written (snap : Snap) (blocks cut : List Bytes) (w : Writer) (wire : Wire) (p : Bytes)
    (r : Except IoError Unit × Writer × Wire) (more later : List Bytes) : Prop where
  sent : Sent snap (blocks ++ more) later r.2.1 r.2.2
  outcomes : r.2.2.outcomes ⊆ wire.outcomes
  failed : w.err ≠ none → more = [] ∧ later = cut
  front : w.err = none → (more ++ later).flatten <+: p
  partly : later ≠ cut → ∃ n e, 0 < n ∧ some (n, e) ∈ wire.outcomes
  result : r.1 = .ok () ∧ w.err = none ∧ r.2.1.err = none ∧ more.flatten = p ∨
    (∃ e, r.1 = .error e) ∧ r.2.1.err ≠ none ∧ (w.err ≠ none ∨ ∃ n e, some (n, e) ∈ wire.outcomes)

private theorem Written.nothing (h : Sent snap blocks cut w wire) (herr : w.err = none) :
    Written snap blocks cut w wire [] (.ok (), w, wire) [] [] := by
  obtain rfl := h.uncut herr
  constructor
  · rw [List.append_nil]
    exact h
  · exact List.Subset.refl _
  · intro hfailed
    exact absurd herr hfailed
  · intro _
    exact List.prefix_rfl
  · intro hne
    exact absurd rfl hne
  · exact .inl ⟨rfl, herr, herr, rfl⟩

private theorem Sent.chunkLoop (h : Sent snap blocks cut w wire) (hsnap : snap.Lawful)
    (herr : w.err = none) (fuel : ℕ) (p : Bytes) (hfuel : p.length ≤ fuel) : ∃ r more later,
    chunkLoop snap fuel w wire p = some r ∧ Written snap blocks cut w wire p r more later := by
  induction fuel generalizing blocks cut w wire p with
  | zero =>
    obtain rfl : p = [] := List.eq_nil_of_length_eq_zero (Nat.le_zero.mp hfuel)
    exact ⟨_, [], [], if_pos rfl, .nothing h herr⟩
  | succ fuel ih =>
    by_cases hnil : p = []
    · subst hnil
      exact ⟨_, [], [], if_pos rfl, .nothing h herr⟩
    · have hpos : 0 < p.length := List.length_pos_iff.mpr hnil
      have hmax : 0 < MAX_BLOCK_SIZE := by decide
      have hne : p.take MAX_BLOCK_SIZE ≠ [] := by
        rw [Ne, List.take_eq_nil_iff]
        rintro (hzero | hempty)
        · omega
        · exact hnil hempty
      obtain rfl := h.uncut herr
      obtain ⟨r, hwrite, hsub, hend⟩ := h.writeChunk hsnap herr hne (List.length_take_le _ _)
      rw [Snappy.chunkLoop, if_neg hnil, hwrite, Option.bind_some]
      rcases hend with ⟨hok, herr1, hsent⟩ | ⟨n, e, hfail, hwhy, herr1, hsent⟩
      · obtain ⟨r2, more, later, hloop, hmore⟩ :=
          ih hsent herr1 (p.drop MAX_BLOCK_SIZE) (by rw [List.length_drop]; omega)
        have hflat := List.take_append_drop MAX_BLOCK_SIZE p
        rw [hok]
        refine ⟨r2, p.take MAX_BLOCK_SIZE :: more, later, hloop, ?_⟩
        constructor
        · rw [← List.singleton_append, ← List.append_assoc]
          exact hmore.sent
        · exact List.Subset.trans hmore.outcomes hsub
        · intro hbefore
          exact absurd herr hbefore
        · intro _
          have hfront := (List.prefix_append_right_inj (p.take MAX_BLOCK_SIZE)).mpr (hmore.front herr1)
          rwa [hflat] at hfront
        · intro hcut
          obtain ⟨n, e, hn, he⟩ := hmore.partly hcut
          exact ⟨n, e, hn, hsub he⟩
        · rcases hmore.result with ⟨hok2, -, herr2, hall⟩ | ⟨hfail2, herr2, hwhy2⟩
          · exact .inl ⟨hok2, herr, herr2, by rw [List.flatten_cons, hall, hflat]⟩
          · refine .inr ⟨hfail2, herr2, .inr ?_⟩
            rcases hwhy2 with hbefore | ⟨n, e, he⟩
            · exact absurd herr1 hbefore
            · exact ⟨n, e, hsub he⟩
      · rw [hfail]
        refine ⟨_, [], if n = 0 then [] else [p.take MAX_BLOCK_SIZE], rfl, ?_⟩
        constructor
        · rw [List.append_nil]
          exact hsent
        · exact hsub
        · intro hbefore
          exact absurd herr hbefore
        · intro _
          split_ifs
          · exact List.nil_prefix
          · rw [List.nil_append, List.flatten_singleton]
            exact List.take_prefix _ _
        · intro hcut
          by_cases hn : n = 0
          · exact absurd (if_pos hn) hcut
          · exact ⟨n, e, Nat.pos_of_ne_zero hn, hwhy⟩
        · exact .inr ⟨⟨e, rfl⟩, herr1, .inr ⟨n, e, hwhy⟩⟩

private theorem Sent.writeChunks (h : Sent snap blocks cut w wire) (hsnap : snap.Lawful)
    (p : Bytes) : ∃ r more later, writeChunks snap w wire p = some r ∧
      Written snap blocks cut w wire p r more later := by
  rw [Snappy.writeChunks]
  cases herr : w.err with
  | none => exact h.chunkLoop hsnap herr p.length p le_rfl
  | some e =>
    have hbefore : w.err ≠ none := by simp [herr]
    refine ⟨_, [], cut, rfl, ?_⟩
    constructor
    · rw [List.append_nil]
      exact h
    · exact List.Subset.refl _
    · intro _
      exact ⟨rfl, rfl⟩
    · intro hnone
      exact absurd hnone hbefore
    · intro hne
      exact absurd rfl hne
    · exact .inr ⟨⟨e.toIo, rfl⟩, hbefore, .inl hbefore⟩

private theorem Sent.call (h : Sent snap blocks cut w wire) (hsnap : snap.Lawful)
    (call : WriteCall) : ∃ r more later, call.run snap w wire = some r ∧
      Written snap blocks cut w wire call.data r more later := by
  cases call with
  | writeAll p => exact h.writeChunks hsnap p
  | writeAllVectored bufs =>
    obtain ⟨⟨res, rest⟩, more, later, hrun, hwritten⟩ := h.writeChunks hsnap bufs.flatten
    refine ⟨(res, rest), more, later, ?_, hwritten⟩
    rw [WriteCall.run, Snappy.writeAllVectored, hrun]
    cases res <;> rfl

/-- After any sequence of calls the wire holds the chunks of a prefix of what was written, and of
all of it when no call failed; a call fails only after the connection has, and there is no part of a
chunk unless a write that failed took one. -/
theorem Sent.writes (h : Sent snap blocks cut w wire) (hsnap : snap.Lawful) (calls : List WriteCall) :
    ∃ r more later, writes snap w wire calls = some r ∧
      Sent snap (blocks ++ more) later r.2.1 r.2.2 ∧
      (w.err = none → (more ++ later).flatten <+: calls.flatMap WriteCall.data) ∧
      (w.err ≠ none → more = [] ∧ later = cut) ∧
      ((∀ res ∈ r.1, res = .ok ()) → more.flatten = calls.flatMap WriteCall.data ∧ later = cut) ∧
      (∀ res ∈ r.1, res ≠ .ok () → w.err ≠ none ∨ ∃ n e, some (n, e) ∈ wire.outcomes) ∧
      (later ≠ cut → ∃ n e, 0 < n ∧ some (n, e) ∈ wire.outcomes) := by
  induction calls generalizing blocks cut w wire with
  | nil =>
    refine ⟨_, [], cut, rfl, ?_, ?_, fun _ => ⟨rfl, rfl⟩, fun _ => ⟨rfl, rfl⟩,
      fun _ hres => absurd hres List.not_mem_nil, fun hne => absurd rfl hne⟩
    · rw [List.append_nil]
      exact h
    · intro herr
      rw [h.uncut herr]
      exact List.nil_prefix
  | cons call calls ih =>
    obtain ⟨r, more, cut1, hcall, hwritten⟩ := h.call hsnap call
    obtain ⟨rs, more2, later, hrest, hsent2, hfront, hstop, hall, hfails, hpartly⟩ := ih hwritten.sent
    refine ⟨(r.1 :: rs.1, rs.2), more ++ more2, later, ?_, ?_, ?_, ?_, ?_, ?_, ?_⟩
    · rw [Snappy.writes, hcall, Option.bind_some, hrest]
      rfl
    · rw [← List.append_assoc]
      exact hsent2
    · intro herr
      rw [List.append_assoc, List.flatten_append, List.flatMap_cons]
      rcases hwritten.result with ⟨-, -, herr1, hmore⟩ | ⟨-, herr1, -⟩
      · rw [hmore]
        exact (List.prefix_append_right_inj _).mpr (hfront herr1)
      · obtain ⟨rfl, rfl⟩ := hstop herr1
        rw [List.nil_append, ← List.flatten_append]
        exact (hwritten.front herr).trans (List.prefix_append _ _)
    · intro hbefore
      rcases hwritten.result with ⟨-, hnone, -⟩ | ⟨-, herr1, -⟩
      · exact absurd hnone hbefore
      · obtain ⟨rfl, rfl⟩ := hstop herr1
        obtain ⟨rfl, rfl⟩ := hwritten.failed hbefore
        exact ⟨rfl, rfl⟩
    · intro hok
      rw [List.forall_mem_cons] at hok
      rcases hwritten.result with ⟨-, herr, herr1, hmore⟩ | ⟨⟨e, hfail⟩, -⟩
      · obtain ⟨hrest, rfl⟩ := hall hok.2
        rw [List.flatten_append, List.flatMap_cons, hmore, hrest]
        exact ⟨rfl, (hwritten.sent.uncut herr1).trans (h.uncut herr).symm⟩
      · rw [hok.1] at hfail
        cases hfail
    · intro res hres hne
      rcases hwritten.result with ⟨hok, -, herr1, -⟩ | ⟨-, -, hwhy⟩
      · rcases List.mem_cons.mp hres with rfl | hlater
        · exact absurd hok hne
        · rcases hfails res hlater hne with hafter | ⟨n, e, he⟩
          · exact absurd herr1 hafter
          · exact .inr ⟨n, e, hwritten.outcomes he⟩
      · exact hwhy
    · intro hne
      by_cases hsame : later = cut1
      · exact hwritten.partly (hsame ▸ hne)
      · obtain ⟨n, e, hn, he⟩ := hpartly hsame
        exact ⟨n, e, hn, hwritten.outcomes he⟩

end Kcptun.Snappy
