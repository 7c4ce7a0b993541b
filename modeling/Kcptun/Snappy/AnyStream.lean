/- Kcptun/Snappy/AnyStream
   source: crates/std/src/comp.rs (fill, read_full, decoded_len, put_uvarint, uvarint, read)
   digest: The reader on arbitrary bytes: it stays in range, ends every call, hands out the chunks of
     the stream in order, and keeps to its last answer. -/

import Kcptun.Snappy.Chunks

set_option autoImplicit false
set_option relaxedAutoImplicit false

namespace Kcptun.Snappy

open Kcptun.Lib (Item elems full full_elems full_zero elemCount splice slice splice_append
  splice_zero StopsAt)
open Kcptun.Lib.LittleEndian
open Kcptun.Lib.Varint (putUvarint uvarint)

/-! The stream of a connection. -/

/-- What the connection brings, whatever the pieces. -/
def streamOf (conn : List Arrival) : List StreamItem := Kcptun.Lib.stream conn

theorem streamOf_data {seg : Bytes} (hseg : seg ≠ []) (conn : List Arrival) :
    streamOf (.data seg :: conn) = elems seg ++ streamOf conn := by
  unfold streamOf Kcptun.Lib.stream
  rw [List.flatMap_cons, Kcptun.Lib.items_data hseg]

private theorem elemCount_streamOf (conn : List Arrival) :
    elemCount (streamOf conn) = (conn.map Arrival.size).sum := by
  induction conn with
  | nil => rfl
  | cons arrival conn ih =>
    rw [List.map_cons, List.sum_cons, ← ih]
    cases arrival with
    | fails e => exact (Nat.zero_add _).symm
    | data seg =>
      by_cases hseg : seg = []
      · subst hseg
        exact (Nat.zero_add _).symm
      · rw [streamOf_data hseg, Kcptun.Lib.elemCount_append, Kcptun.Lib.elemCount_elems]
        rfl

def answer (got : Bytes) (stopped : Option (Option IoError)) (allowEof : Bool) :
    Except Sticky Unit :=
  match stopped with
  | none => .ok ()
  | some none => .error (if got = [] && allowEof then .eof else .snappy .corrupt)
  | some (some e) => .error (.io e)

private theorem readFull_eq (conn : List Arrival) (need : ℕ) (got : Bytes) (allowEof : Bool) :
    readFull conn need got allowEof = (answer (got ++ (full (streamOf conn) need).1)
      (full (streamOf conn) need).2.1 allowEof, got ++ (full (streamOf conn) need).1,
      (readFull conn need got allowEof).2.2) ∧
    streamOf (readFull conn need got allowEof).2.2 = (full (streamOf conn) need).2.2 := by
  induction conn generalizing need got with
  | nil =>
    rw [readFull]
    by_cases hneed : need = 0
    · subst hneed
      rw [if_pos rfl, full_zero, List.append_nil]
      exact ⟨rfl, rfl⟩
    · rw [if_neg hneed, show streamOf [] = [] from rfl, (StopsAt.past (α := UInt8)).full hneed,
        List.append_nil]
      exact ⟨rfl, rfl⟩
  | cons arrival conn ih =>
    by_cases hneed : need = 0
    · subst hneed
      rw [full_zero, List.append_nil]
      cases arrival <;> (rw [readFull, if_pos rfl]; exact ⟨rfl, rfl⟩)
    cases arrival with
    | fails e =>
      have hstop : StopsAt (streamOf (.fails e :: conn)) (some e) (streamOf conn) := .here _ _
      rw [readFull, if_neg hneed, hstop.full hneed, List.append_nil]
      exact ⟨rfl, rfl⟩
    | data seg =>
      rw [readFull, if_neg hneed]
      by_cases hseg : seg = []
      · subst hseg
        have hstop : StopsAt (streamOf (.data [] :: conn)) none (streamOf conn) := .here _ _
        rw [if_pos rfl, hstop.full hneed, List.append_nil]
        exact ⟨rfl, rfl⟩
      rw [if_neg hseg, streamOf_data hseg]
      split_ifs with hle
      · obtain ⟨hread, hrest⟩ := ih (need - seg.length) (got ++ seg)
        rw [full_elems hle]
        refine ⟨?_, hrest⟩
        rw [hread, List.append_assoc]
      · have hsplit : (elems seg ++ streamOf conn : List StreamItem) =
            elems (seg.take need) ++ (elems (seg.drop need) ++ streamOf conn) := by
          rw [← List.append_assoc, ← Kcptun.Lib.elems_append, List.take_append_drop]
        have htake : (seg.take need).length = need := List.length_take_of_le (by omega)
        have hdrop : seg.drop need ≠ [] := by
          rw [Ne, List.drop_eq_nil_iff]
          exact hle
        rw [hsplit, full_elems (Nat.le_of_eq htake), htake, Nat.sub_self, full_zero,
          List.append_nil]
        exact ⟨rfl, streamOf_data hdrop conn⟩

private theorem readInto_cases (conn : List Arrival) (buf : Bytes) (n : ℕ) (allowEof : Bool)
    (hn : n ≤ buf.length) :
    (∃ got conn', takeBytes (streamOf conn) n allowEof = .ok (got, streamOf conn') ∧
      got.length = n ∧ readInto buf n conn allowEof = some (.ok (), got ++ buf.drop n, conn')) ∨
    ∃ e buf' conn', takeBytes (streamOf conn) n allowEof = .error e ∧
      readInto buf n conn allowEof = some (.error e, buf', conn') := by
  obtain ⟨hread, hrest⟩ := readFull_eq conn n [] allowEof
  have hle := Kcptun.Lib.length_full_le (streamOf conn) n
  have hcomplete := Kcptun.Lib.full_complete (streamOf conn) n
  rw [List.nil_append] at hread
  unfold readInto takeBytes
  rw [if_pos hn, hread]
  generalize (readFull conn n [] allowEof).2.2 = conn' at hrest ⊢
  generalize full (streamOf conn) n = f at hrest hle hcomplete ⊢
  obtain ⟨got, stopped, rest⟩ := f
  dsimp only at hrest hle hcomplete ⊢
  subst hrest
  rw [splice_zero (Nat.le_trans hle hn)]
  cases stopped with
  | none =>
    have hlen : got.length = n := hcomplete.mp rfl
    exact .inl ⟨got, conn', rfl, hlen, by rw [hlen]; rfl⟩
  | some why => cases why <;> exact .inr ⟨_, _, conn', rfl, rfl⟩

/-! One turn of `fill`. -/

/-- The buffers have their sizes, and the window is within what was decoded. -/
structure Fits (r : Reader) : Prop where
  decoded : r.decoded.length = MAX_BLOCK_SIZE
  buf : r.buf.length = RBUF_LEN
  window : r.j ≤ MAX_BLOCK_SIZE

/-- What a turn does to the reader, by what the chunk comes to. -/
inductive Turned (r : Reader) : Except Sticky (Option Bytes × List StreamItem) →
    Except Sticky Unit × Reader × List Arrival → Prop
  | failed {e : Sticky} {r' : Reader} {conn' : List Arrival} :
      Turned r (.error e) (.error e, r', conn')
  | passed {r' : Reader} {conn' : List Arrival} (hfits : Fits r')
      (hwindow : r'.i = r.i ∧ r'.j = r.j ∧ r'.decoded = r.decoded)
      (hheader : r'.readHeader = true) (herr : r'.err = r.err) :
      Turned r (.ok (none, streamOf conn')) (.ok (), r', conn')
  | filled {data : Bytes} {r' : Reader} {conn' : List Arrival} (hfits : Fits r')
      (hi : r'.i = 0) (hj : r'.j = data.length) (hdata : r'.decoded.take data.length = data)
      (hheader : r'.readHeader = true) (herr : r'.err = r.err) :
      Turned r (.ok (some data, streamOf conn')) (.ok (), r', conn')

section Turns

variable {snap : Snap} {r : Reader} {conn : List Arrival} {chunkLen : ℕ}

private theorem Fits.with_buf (h : Fits r) {buf : Bytes} (hbuf : buf.length = r.buf.length) :
    Fits { r with buf } := ⟨h.decoded, hbuf.trans h.buf, h.window⟩

private theorem length_refilled {got buf : Bytes} {n : ℕ} (hgot : got.length = n)
    (hn : n ≤ buf.length) : (got ++ buf.drop n).length = buf.length := by
  rw [List.length_append, List.length_drop, hgot]
  omega

private theorem readChecksum_front {got : Bytes} (rest : Bytes)
    (hgot : CHECKSUM_SIZE ≤ got.length) : readChecksum (got ++ rest) = readChecksum got := by
  have hfront : ∀ {k}, k < CHECKSUM_SIZE → (got ++ rest).getD k 0 = got.getD k 0 := by
    intro k hk
    rw [List.getD_eq_getElem?_getD, List.getD_eq_getElem?_getD,
      List.getElem?_append_left (Nat.lt_of_lt_of_le hk hgot)]
  unfold readChecksum
  rw [hfront (by decide), hfront (by decide), hfront (by decide), hfront (by decide)]

private theorem slice_front {got : Bytes} (rest : Bytes) {start n : ℕ} (hgot : got.length = n)
    (hstart : start ≤ n) : slice (got ++ rest) start n = some (got.drop start) := by
  rw [slice, if_pos ⟨hstart, by rw [List.length_append]; omega⟩, List.take_left' hgot]

private theorem canonicalBlock_front {got rest : Bytes} {n headerLen : ℕ}
    (hgot : got.length = chunkLen) (hcanonical : (putUvarint n).length ≤ headerLen)
    (hheader : CHECKSUM_SIZE + headerLen ≤ chunkLen) :
    ∃ buf, buf.length = (got ++ rest).length ∧ canonicalBlock (got ++ rest) chunkLen n headerLen =
      some (buf, putUvarint n ++ got.drop (CHECKSUM_SIZE + headerLen)) := by
  generalize hk : (putUvarint n).length = k at hcanonical
  generalize hstart : CHECKSUM_SIZE + headerLen - k = start
  have hstop : start + k = CHECKSUM_SIZE + headerLen := by omega
  have hfront : (got.take start).length = start := List.length_take_of_le (by omega)
  have hsplit : got ++ rest = got.take start ++ (got.drop start ++ rest) := by
    rw [← List.append_assoc, List.take_append_drop]
  have hroom : (putUvarint n).length ≤ (got.drop start ++ rest).length := by
    rw [List.length_append, List.length_drop, hk]
    omega
  have hsplice := splice_append hfront hroom
  have hbody : (got.drop start ++ rest).drop k = got.drop (CHECKSUM_SIZE + headerLen) ++ rest := by
    rw [List.drop_append_of_le_length (by rw [List.length_drop]; omega), List.drop_drop, hstop]
  rw [hk, hbody] at hsplice
  unfold canonicalBlock
  dsimp only
  rw [hk, hstart, hsplit, hsplice, Option.bind_some]
  refine ⟨_, Kcptun.Lib.length_splice hsplice, ?_⟩
  have hlen : start + (putUvarint n ++ got.drop (CHECKSUM_SIZE + headerLen)).length = chunkLen := by
    rw [List.length_append, List.length_drop, hk, hgot]
    omega
  have hslice := @Kcptun.Lib.slice_mid _ (got.take start) rest
    (putUvarint n ++ got.drop (CHECKSUM_SIZE + headerLen)) start chunkLen hfront hlen
  rw [← List.append_assoc (putUvarint n), ← List.append_assoc (got.take start), hslice]
  rfl

private theorem decodedLen_used {block : Bytes} {n headerLen : ℕ}
    (h : decodedLen block = .ok (n, headerLen)) :
    (putUvarint n).length ≤ headerLen ∧ headerLen ≤ block.length := by
  unfold decodedLen at h
  dsimp only at h
  split_ifs at h with hbad
  obtain ⟨rfl, rfl⟩ := Prod.mk.inj (Except.ok.inj h)
  exact Kcptun.Lib.Varint.length_putUvarint_of_read rfl (Int.not_le.mp (not_or.mp hbad).1)

private theorem checked_cases (checksum : UInt32) (data : Bytes) :
    crc data = checksum ∧ checked checksum data = .ok data ∨
      crc data ≠ checksum ∧ checked checksum data = .error (.snappy .corrupt) := by
  unfold checked
  split_ifs with hcrc
  · exact .inl ⟨hcrc, rfl⟩
  · exact .inr ⟨hcrc, rfl⟩

private theorem Turned.of_data {data : Bytes} {buf : Bytes} {conn' : List Arrival} (h : Fits r)
    (hheader : r.readHeader = true) (hbuf : buf.length = r.buf.length)
    (hdata : data.length ≤ MAX_BLOCK_SIZE) :
    Turned r (.ok (some data, streamOf conn')) (.ok (), { r with
      buf
      decoded := data ++ r.decoded.drop data.length
      i := 0
      j := data.length }, conn') := by
  refine .filled ⟨?_, hbuf.trans h.buf, hdata⟩ rfl rfl (List.take_left' rfl) hheader rfl
  rw [length_refilled rfl (h.decoded ▸ hdata)]
  exact h.decoded

private theorem compressedChunk_turned (hsnap : snap.Exact) (h : Fits r)
    (hheader : r.readHeader = true) (hfit : chunkLen ≤ RBUF_LEN) (conn : List Arrival) :
    ∃ s, compressedChunk snap r conn chunkLen = some s ∧
      Turned r (compressedItems snap chunkLen (streamOf conn)) s := by
  unfold compressedChunk compressedItems
  by_cases hshort : chunkLen < CHECKSUM_SIZE
  · rw [if_pos hshort, if_pos hshort]
    exact ⟨_, rfl, .failed⟩
  rw [if_neg hshort, if_neg hshort]
  rcases readInto_cases conn r.buf chunkLen false (h.buf ▸ hfit) with
    ⟨got, conn', htake, hgot, hread⟩ | ⟨e, buf', conn', htake, hread⟩
  · have hbuf := length_refilled hgot (h.buf ▸ hfit)
    rw [htake, hread, Option.bind_some]
    dsimp only [Except.bind]
    rw [slice_front _ hgot (Nat.not_lt.mp hshort), Option.bind_some,
      readChecksum_front _ (hgot ▸ Nat.not_lt.mp hshort)]
    unfold compressedData
    cases hdecoded : decodedLen (got.drop CHECKSUM_SIZE) with
    | error e => exact ⟨_, rfl, .failed⟩
    | ok len =>
      obtain ⟨n, headerLen⟩ := len
      obtain ⟨hcanonical, hused⟩ := decodedLen_used hdecoded
      rw [List.length_drop, hgot] at hused
      dsimp only
      rw [h.decoded]
      by_cases hlarge : n > MAX_BLOCK_SIZE
      · rw [if_pos hlarge, if_pos hlarge]
        exact ⟨_, rfl, .failed⟩
      rw [if_neg hlarge, if_neg hlarge]
      obtain ⟨buf, hlen, hblock⟩ := @canonicalBlock_front chunkLen got (r.buf.drop chunkLen) n
        headerLen hgot hcanonical (by omega)
      rw [hblock, Option.bind_some]
      dsimp only
      cases hout : snap.decompress
          (putUvarint n ++ got.drop (CHECKSUM_SIZE + headerLen)) n with
      | none => exact ⟨_, rfl, .failed⟩
      | some data =>
        obtain rfl := hsnap _ _ _ hout
        have hroom : data.length ≤ r.decoded.length := h.decoded ▸ Nat.not_lt.mp hlarge
        dsimp only
        rw [splice_zero hroom, Option.bind_some, slice_front _ rfl (Nat.zero_le _),
          Option.bind_some, List.drop_zero]
        rcases checked_cases (readChecksum got) data with ⟨hcrc, hchecked⟩ | ⟨hcrc, hchecked⟩
        · rw [if_neg (not_not.mpr hcrc), hchecked]
          exact ⟨_, rfl, .of_data h hheader (hlen.trans hbuf) (Nat.not_lt.mp hlarge)⟩
        · rw [if_pos hcrc, hchecked]
          exact ⟨_, rfl, .failed⟩
  · rw [htake, hread]
    exact ⟨_, rfl, .failed⟩

private theorem uncompressedChunk_turned (h : Fits r) (hheader : r.readHeader = true)
    (conn : List Arrival) : ∃ s, uncompressedChunk r conn chunkLen = some s ∧
      Turned r (uncompressedItems chunkLen (streamOf conn)) s := by
  unfold uncompressedChunk uncompressedItems
  by_cases hshort : chunkLen < CHECKSUM_SIZE
  · rw [if_pos hshort, if_pos hshort]
    exact ⟨_, rfl, .failed⟩
  rw [if_neg hshort, if_neg hshort]
  have hsum : CHECKSUM_SIZE ≤ r.buf.length := by
    rw [h.buf]
    decide
  rcases readInto_cases conn r.buf CHECKSUM_SIZE false hsum with
    ⟨sum, conn₁, htake, hgot, hread⟩ | ⟨e, buf', conn₁, htake, hread⟩
  · rw [htake, hread, Option.bind_some]
    dsimp only [Except.bind]
    rw [readChecksum_front _ (Nat.le_of_eq hgot.symm), h.decoded]
    by_cases hlarge : chunkLen - CHECKSUM_SIZE > MAX_BLOCK_SIZE
    · rw [if_pos hlarge, if_pos hlarge]
      exact ⟨_, rfl, .failed⟩
    rw [if_neg hlarge, if_neg hlarge]
    have hroom : chunkLen - CHECKSUM_SIZE ≤ r.decoded.length := h.decoded ▸ Nat.not_lt.mp hlarge
    rcases readInto_cases conn₁ r.decoded (chunkLen - CHECKSUM_SIZE) false hroom with
      ⟨data, conn₂, htake₂, hdata, hread₂⟩ | ⟨e, decoded', conn₂, htake₂, hread₂⟩
    · rw [htake₂, hread₂, Option.bind_some]
      dsimp only
      rw [slice_front _ hdata (Nat.zero_le _), Option.bind_some, List.drop_zero, ← hdata]
      rcases checked_cases (readChecksum sum) data with ⟨hcrc, hchecked⟩ | ⟨hcrc, hchecked⟩
      · rw [if_neg (not_not.mpr hcrc), hchecked]
        exact ⟨_, rfl, .of_data h hheader (length_refilled hgot hsum)
          (hdata ▸ Nat.not_lt.mp hlarge)⟩
      · rw [if_pos hcrc, hchecked]
        exact ⟨_, rfl, .failed⟩
    · rw [htake₂, hread₂]
      exact ⟨_, rfl, .failed⟩
  · rw [htake, hread]
    exact ⟨_, rfl, .failed⟩

private theorem streamIdentifier_turned (h : Fits r) (hheader : r.readHeader = true)
    (conn : List Arrival) : ∃ s, streamIdentifier r conn chunkLen = some s ∧
      Turned r (identifierItems chunkLen (streamOf conn)) s := by
  unfold streamIdentifier identifierItems
  by_cases hlen : chunkLen ≠ MAGIC_BODY.length
  · rw [if_pos hlen, if_pos hlen]
    exact ⟨_, rfl, .failed⟩
  rw [if_neg hlen, if_neg hlen]
  have hroom : MAGIC_BODY.length ≤ r.buf.length := by
    rw [h.buf]
    decide
  rcases readInto_cases conn r.buf MAGIC_BODY.length false hroom with
    ⟨got, conn', htake, hgot, hread⟩ | ⟨e, buf', conn', htake, hread⟩
  · rw [htake, hread, Option.bind_some]
    dsimp only [Except.bind]
    rw [slice_front _ hgot (Nat.zero_le _), Option.map_some, List.drop_zero]
    by_cases hmagic : got = MAGIC_BODY
    · rw [if_pos hmagic, if_neg (not_not.mpr hmagic)]
      exact ⟨_, rfl, .passed (h.with_buf (length_refilled hgot hroom)) ⟨rfl, rfl, rfl⟩ hheader rfl⟩
    · rw [if_neg hmagic, if_pos hmagic]
      exact ⟨_, rfl, .failed⟩
  · rw [htake, hread]
    exact ⟨_, rfl, .failed⟩

private theorem skipChunk_turned (h : Fits r) (hheader : r.readHeader = true)
    (hfit : chunkLen ≤ RBUF_LEN) (conn : List Arrival) : ∃ s, skipChunk r conn chunkLen = some s ∧
      Turned r (skippedItems chunkLen (streamOf conn)) s := by
  unfold skipChunk skippedItems
  rcases readInto_cases conn r.buf chunkLen false (h.buf ▸ hfit) with
    ⟨got, conn', htake, hgot, hread⟩ | ⟨e, buf', conn', htake, hread⟩
  · rw [htake, hread]
    exact ⟨_, rfl, .passed (h.with_buf (length_refilled hgot (h.buf ▸ hfit))) ⟨rfl, rfl, rfl⟩
      hheader rfl⟩
  · rw [htake, hread]
    exact ⟨_, rfl, .failed⟩

private theorem Turned.of_header {r' : Reader}
    {result : Except Sticky (Option Bytes × List StreamItem)}
    {s : Except Sticky Unit × Reader × List Arrival} (h : Turned r' result s)
    (hwindow : r'.i = r.i ∧ r'.j = r.j ∧ r'.decoded = r.decoded) (herr : r'.err = r.err) :
    Turned r result s := by
  cases h with
  | failed => exact .failed
  | passed hfits hwindow' hheader herr' =>
    exact .passed hfits ⟨hwindow'.1.trans hwindow.1, hwindow'.2.1.trans hwindow.2.1,
      hwindow'.2.2.trans hwindow.2.2⟩ hheader (herr'.trans herr)
  | filled hfits hi hj hdata hheader herr' =>
    exact .filled hfits hi hj hdata hheader (herr'.trans herr)

private theorem readChunk_turned (hsnap : snap.Exact) {header rest : Bytes} (h : Fits r)
    (hbuf : r.buf = header ++ rest) (hheader : header.length = CHUNK_HEADER_SIZE)
    (conn : List Arrival) : ∃ s, readChunk snap r conn = some s ∧
      Turned r (chunkItems snap r.readHeader header (streamOf conn)) s := by
  have hget : ∀ {k}, k < CHUNK_HEADER_SIZE → r.buf.getD k 0 = header.getD k 0 := by
    intro k hk
    rw [hbuf, List.getD_eq_getElem?_getD, List.getD_eq_getElem?_getD,
      List.getElem?_append_left (hheader ▸ hk)]
  unfold readChunk chunkItems
  dsimp only
  rw [hget (by decide : 0 < _), hget (by decide : 1 < _), hget (by decide : 2 < _),
    hget (by decide : 3 < _), h.buf]
  generalize header.getD 0 0 = chunkType
  generalize (header.getD 1 0).toNat + 256 * (header.getD 2 0).toNat +
    65536 * (header.getD 3 0).toNat = chunkLen
  by_cases hid : r.readHeader = false ∧ chunkType ≠ CHUNK_TYPE_STREAM_IDENTIFIER
  · rw [if_pos hid, if_pos hid]
    exact ⟨_, rfl, .failed⟩
  rw [if_neg hid, if_neg hid]
  by_cases hlarge : chunkLen > RBUF_LEN
  · rw [if_pos hlarge, if_pos hlarge]
    exact ⟨_, rfl, .failed⟩
  rw [if_neg hlarge, if_neg hlarge]
  have hseen : Fits { r with readHeader := true } := ⟨h.decoded, h.buf, h.window⟩
  have hkept : ∀ {result s}, Turned { r with readHeader := true } result s → Turned r result s :=
    fun hturned => hturned.of_header ⟨rfl, rfl, rfl⟩ rfl
  split_ifs
  · obtain ⟨s, hs, hturned⟩ :=
      compressedChunk_turned hsnap hseen rfl (Nat.not_lt.mp hlarge) conn
    exact ⟨s, hs, hkept hturned⟩
  · obtain ⟨s, hs, hturned⟩ := @uncompressedChunk_turned _ chunkLen hseen rfl conn
    exact ⟨s, hs, hkept hturned⟩
  · obtain ⟨s, hs, hturned⟩ := @streamIdentifier_turned _ chunkLen hseen rfl conn
    exact ⟨s, hs, hkept hturned⟩
  · exact ⟨_, rfl, .failed⟩
  · obtain ⟨s, hs, hturned⟩ := skipChunk_turned hseen rfl (Nat.not_lt.mp hlarge) conn
    exact ⟨s, hs, hkept hturned⟩

private theorem fillStep_turned (hsnap : snap.Exact) (h : Fits r) (conn : List Arrival) :
    ∃ s, fillStep snap r conn = some s ∧
      Turned r (nextChunk snap r.readHeader (streamOf conn)) s := by
  have hroom : CHUNK_HEADER_SIZE ≤ r.buf.length := by
    rw [h.buf]
    decide
  unfold fillStep nextChunk
  rcases readInto_cases conn r.buf CHUNK_HEADER_SIZE true hroom with
    ⟨header, conn', htake, hheader, hread⟩ | ⟨e, buf', conn', htake, hread⟩
  · rw [htake, hread, Option.bind_some]
    obtain ⟨s, hs, hturned⟩ := @readChunk_turned snap
      { r with buf := header ++ r.buf.drop CHUNK_HEADER_SIZE } hsnap header _
      (h.with_buf (length_refilled hheader hroom)) rfl hheader conn'
    exact ⟨s, hs, hturned.of_header ⟨rfl, rfl, rfl⟩ rfl⟩
  · rw [htake, hread]
    exact ⟨_, rfl, .failed⟩

end Turns

/-! Whole calls. -/

def Reader.left (r : Reader) : Bytes := (r.decoded.take r.j).drop r.i

/-- Reads of the given sizes return the data in order, something to each that has room for it, and
the last answer from then on. -/
inductive Delivers (stop : Except IoError Bytes) : Bytes → List ℕ → List (Except IoError Bytes) →
    Prop
  | done (data : Bytes) : Delivers stop data [] []
  | serves {out rest : Bytes} {size : ℕ} {sizes : List ℕ} {results : List (Except IoError Bytes)}
      (hne : out ++ rest ≠ []) (hle : out.length ≤ size) (hsome : size ≠ 0 → out ≠ [])
      (later : Delivers stop rest sizes results) :
      Delivers stop (out ++ rest) (size :: sizes) (.ok out :: results)
  | stopped {size : ℕ} {sizes : List ℕ} {results : List (Except IoError Bytes)}
      (later : Delivers stop [] sizes results) : Delivers stop [] (size :: sizes) (stop :: results)

/-- The reader is alive and has `data` to hand out before the stream ends with `verdict`. -/
def Pending (snap : Snap) (r : Reader) (conn : List Arrival) (data : Bytes) (verdict : Sticky) :
    Prop :=
  Fits r ∧ r.err = none ∧ ∃ chunks, Decodes snap r.readHeader (streamOf conn) chunks verdict ∧
    data = r.left ++ chunks.flatten

inductive Reached (snap : Snap) (conn : List Arrival) : Reader → List Arrival → Prop
  | new : Reached snap conn .new conn
  | read {r r' : Reader} {conn₁ conn₂ : List Arrival} {size : ℕ} {result : Except IoError Bytes}
      (h : Reached snap conn r conn₁)
      (hread : read snap r conn₁ size = some (result, r', conn₂)) : Reached snap conn r' conn₂

section Calls

variable {snap : Snap} {r : Reader} {conn : List Arrival} {data : Bytes} {verdict : Sticky}

private theorem Reader.left_nil (h : ¬r.i < r.j) : r.left = [] := by
  unfold Reader.left
  rw [List.drop_eq_nil_iff, List.length_take]
  exact Nat.le_trans (Nat.min_le_left _ _) (Nat.not_lt.mp h)

private theorem fill_spec (hsnap : snap.Exact) {fuel : ℕ} {chunks : List Bytes} (h : Fits r)
    (hdecodes : Decodes snap r.readHeader (streamOf conn) chunks verdict)
    (hfuel : elemCount (streamOf conn) < fuel) :
    (∃ r' conn' later, fill snap fuel r conn = some (.ok (), r', conn') ∧ Fits r' ∧
      r'.err = r.err ∧ r'.i < r'.j ∧ Decodes snap r'.readHeader (streamOf conn') later verdict ∧
      r.left ++ chunks.flatten = r'.left ++ later.flatten) ∨
    ∃ r' conn', fill snap fuel r conn = some (.error verdict, r', conn') ∧ r.left = [] ∧
      chunks.flatten = [] := by
  induction fuel generalizing r conn chunks with
  | zero => exact absurd hfuel (Nat.not_lt_zero _)
  | succ fuel ih =>
    rw [fill]
    by_cases hwindow : r.i < r.j
    · rw [if_pos hwindow]
      exact .inl ⟨r, conn, chunks, rfl, h, rfl, hwindow, hdecodes, rfl⟩
    rw [if_neg hwindow]
    have hleft := Reader.left_nil hwindow
    obtain ⟨s, hs, hturned⟩ := fillStep_turned hsnap h conn
    rw [hs, Option.bind_some]
    cases hdecodes with
    | stops hnext =>
      rw [hnext] at hturned
      cases hturned
      exact .inr ⟨_, _, rfl, hleft, rfl⟩
    | chunk hnext later =>
      rename_i rest data' chunks'
      have hless := (nextChunk_ok hsnap hnext).1
      rw [hnext] at hturned
      cases hturned with
      | passed hfits hsame hheader herr =>
        rename_i r' conn'
        have hleft' : r'.left = r.left := by
          unfold Reader.left
          rw [hsame.1, hsame.2.1, hsame.2.2]
        have hrest := ih hfits (hheader ▸ later) (by omega)
        rw [hleft', herr] at hrest
        exact hrest
      | filled hfits hi hj hdata hheader herr =>
        rename_i data r' conn'
        have hleft' : r'.left = data := by
          unfold Reader.left
          rw [hi, hj, hdata, List.drop_zero]
        have hrest := ih hfits (hheader ▸ later) (by omega)
        have hflat : r.left ++ ((some data).toList ++ chunks').flatten =
            r'.left ++ chunks'.flatten := by
          rw [hleft, hleft', List.nil_append, List.flatten_append]
          exact congrArg (· ++ chunks'.flatten) (List.append_nil data)
        rw [herr] at hrest
        rw [hflat]
        apply hrest.imp_right
        rintro ⟨r'', conn'', hfill, hnone, hnil⟩
        refine ⟨r'', conn'', hfill, hleft, ?_⟩
        have hnil' := hflat
        rw [hleft, hnone, hnil] at hnil'
        exact hnil'

private theorem read_pending (hsnap : snap.Exact) (h : Pending snap r conn data verdict)
    (size : ℕ) : (∃ out rest r' conn', read snap r conn size = some (.ok out, r', conn') ∧
      Pending snap r' conn' rest verdict ∧ data = out ++ rest ∧ data ≠ [] ∧ out.length ≤ size ∧
      (size ≠ 0 → out ≠ [])) ∨
    ∃ r' conn', read snap r conn size = some (verdict.result, r', conn') ∧ r'.err = some verdict ∧
      data = [] := by
  obtain ⟨hfits, herr, chunks, hdecodes, rfl⟩ := h
  unfold read
  rw [herr]
  dsimp only
  have hfuel : elemCount (streamOf conn) < (conn.map Arrival.size).sum + 1 := by
    rw [elemCount_streamOf]
    exact Nat.lt_succ_self _
  rcases fill_spec hsnap hfits hdecodes hfuel with
    ⟨r', conn', later, hfill, hfits', herr', hwindow, hdecodes', hsame⟩ |
      ⟨r', conn', hfill, hleft, hflat⟩
  · rw [hfill, Option.bind_some]
    dsimp only
    generalize hn : min size (r'.j - r'.i) = n
    have hj := hfits'.window
    have hlen := hfits'.decoded
    have hslice : slice r'.decoded r'.i (r'.i + n) =
        some ((r'.decoded.take (r'.i + n)).drop r'.i) := by
      rw [slice, if_pos ⟨Nat.le_add_right _ _, by omega⟩]
    rw [hslice]
    have hout : ((r'.decoded.take (r'.i + n)).drop r'.i).length = n := by
      rw [List.length_drop, List.length_take]
      omega
    have hsplit : r'.left = (r'.decoded.take (r'.i + n)).drop r'.i ++
        (r'.decoded.take r'.j).drop (r'.i + n) := Kcptun.Lib.take_drop_split (by omega)
    refine .inl ⟨_, (r'.decoded.take r'.j).drop (r'.i + n) ++ later.flatten, _, _, rfl,
      ⟨⟨hfits'.decoded, hfits'.buf, hfits'.window⟩, herr'.trans herr, later, hdecodes', rfl⟩, ?_, ?_,
      by omega, ?_⟩
    · rw [hsame, hsplit, List.append_assoc]
    · rw [hsame]
      intro hnil
      have hlength := congrArg List.length (List.append_eq_nil_iff.mp hnil).1
      unfold Reader.left at hlength
      rw [List.length_drop, List.length_take, List.length_nil] at hlength
      omega
    · intro hsize hnil
      rw [hnil, List.length_nil] at hout
      omega
  · rw [hfill, Option.bind_some]
    refine .inr ⟨_, _, rfl, rfl, ?_⟩
    rw [hleft, hflat]
    rfl

private theorem read_stopped (h : r.err = some verdict) (conn : List Arrival) (size : ℕ) :
    read snap r conn size = some (verdict.result, r, conn) := by
  unfold read
  rw [h]

theorem reads_delivers (hsnap : snap.Exact) (sizes : List ℕ)
    (h : Pending snap r conn data verdict ∨ r.err = some verdict ∧ data = []) :
    ∃ results, reads snap r conn sizes = some results ∧
      Delivers verdict.result data sizes results := by
  induction sizes generalizing r conn data with
  | nil => exact ⟨[], rfl, .done data⟩
  | cons size sizes ih =>
    rw [reads]
    rcases h with h | ⟨herr, rfl⟩
    · rcases read_pending hsnap h size with
        ⟨out, rest, r', conn', hread, hpending, rfl, hne, hle, hsome⟩ |
          ⟨r', conn', hread, herr, rfl⟩
      · obtain ⟨results, hreads, hdelivers⟩ := ih (.inl hpending)
        rw [hread, Option.bind_some, hreads]
        exact ⟨_, rfl, .serves hne hle hsome hdelivers⟩
      · obtain ⟨results, hreads, hdelivers⟩ := @ih r' conn' [] (.inr ⟨herr, rfl⟩)
        rw [hread, Option.bind_some, hreads]
        exact ⟨_, rfl, .stopped hdelivers⟩
    · obtain ⟨results, hreads, hdelivers⟩ := @ih r conn [] (.inr ⟨herr, rfl⟩)
      rw [read_stopped herr, Option.bind_some, hreads]
      exact ⟨_, rfl, .stopped hdelivers⟩

theorem pending_new {chunks : List Bytes}
    (h : Decodes snap false (streamOf conn) chunks verdict) :
    Pending snap .new conn chunks.flatten verdict := by
  refine ⟨⟨List.length_replicate, List.length_replicate, Nat.zero_le _⟩, rfl, chunks, h, ?_⟩
  rw [Reader.left_nil (Nat.lt_irrefl 0)]
  rfl

private theorem Reached.pending (hsnap : snap.Exact) {chunks : List Bytes}
    (hdecodes : Decodes snap false (streamOf conn) chunks verdict) {r : Reader}
    {conn' : List Arrival} (h : Reached snap conn r conn') :
    ∃ data, Pending snap r conn' data verdict ∨ r.err = some verdict ∧ data = [] := by
  induction h with
  | new => exact ⟨_, .inl (pending_new hdecodes)⟩
  | read h hread ih =>
    obtain ⟨data, hpending | ⟨herr, -⟩⟩ := ih
    · rcases read_pending hsnap hpending _ with
        ⟨out, rest, r', conn', hread', hpending', -⟩ | ⟨r', conn', hread', herr, -⟩
      · obtain ⟨-, hstate⟩ := Prod.mk.inj (Option.some.inj (hread.symm.trans hread'))
        obtain ⟨rfl, rfl⟩ := Prod.mk.inj hstate
        exact ⟨rest, .inl hpending'⟩
      · obtain ⟨-, hstate⟩ := Prod.mk.inj (Option.some.inj (hread.symm.trans hread'))
        obtain ⟨rfl, rfl⟩ := Prod.mk.inj hstate
        exact ⟨[], .inr ⟨herr, rfl⟩⟩
    · rw [read_stopped herr] at hread
      obtain ⟨-, hstate⟩ := Prod.mk.inj (Option.some.inj hread)
      obtain ⟨rfl, rfl⟩ := Prod.mk.inj hstate
      exact ⟨[], .inr ⟨herr, rfl⟩⟩

/-- On any stream, in any pieces, reads of any sizes give the data of its chunks in order, up to the
first that is malformed. Every call of a reader returns, and one that reports an error or the end is
repeated by all later ones, whatever the connection has. The length header of a block never gets
longer when it is written again. -/
theorem any_stream_exact (hsnap : snap.Exact) (conn : List Arrival) :
    (∃ chunks verdict, Decodes snap false (streamOf conn) chunks verdict ∧
      (∀ c ∈ chunks, c.length ≤ 65536) ∧ ∀ sizes, ∃ results,
        reads snap .new conn sizes = some results ∧
          Delivers verdict.result chunks.flatten sizes results) ∧
    (∀ r conn', Reached snap conn r conn' → ∀ size, ∃ result r' conn'',
      read snap r conn' size = some (result, r', conn'') ∧
        ((∃ e, result = .error e) ∨ size ≠ 0 ∧ result = .ok [] →
          ∀ later size', read snap r' later size' = some (result, r', later))) ∧
    ∀ block n headerLen, decodedLen block = .ok (n, headerLen) →
      (putUvarint n).length ≤ headerLen ∧ headerLen ≤ block.length := by
  obtain ⟨chunks, verdict, hdecodes⟩ := decodes_total hsnap false (streamOf conn)
  refine ⟨⟨chunks, verdict, hdecodes, hdecodes.bounded hsnap, fun sizes =>
    reads_delivers hsnap sizes (.inl (pending_new hdecodes))⟩, ?_,
    fun block n headerLen => decodedLen_used⟩
  intro r conn' h size
  obtain ⟨data, hpending | ⟨herr, -⟩⟩ := h.pending hsnap hdecodes
  · rcases read_pending hsnap hpending size with
      ⟨out, rest, r', conn'', hread, -, -, -, -, hsome⟩ | ⟨r', conn'', hread, herr, -⟩
    · refine ⟨_, r', conn'', hread, ?_⟩
      rintro (⟨e, he⟩ | ⟨hsize, hnil⟩)
      · cases he
      · exact absurd (Except.ok.inj hnil) (hsome hsize)
    · exact ⟨_, r', conn'', hread, fun _ later size' => read_stopped herr later size'⟩
  · exact ⟨_, r, conn', read_stopped herr conn' size, fun _ later size' =>
      read_stopped herr later size'⟩

end Calls

def storedSnap : Snap where
  compress _ _ := .error "snappy: output buffer is too small"
  decompress block n := if block.length < n then none else some (block.drop (block.length - n))

theorem storedSnap_exact : storedSnap.Exact := by
  intro block n data h
  obtain ⟨hlen, hdata⟩ := Option.ite_none_left_eq_some.mp h
  obtain rfl := Option.some.inj hdata
  rw [List.length_drop]
  omega

/-- The identifier and a block of one byte, whose body arrives alone. -/
def oneByte : List Arrival :=
  [.data (MAGIC_CHUNK ++ [0, 7, 0, 0, 157, 93, 124, 212, 1, 0]), .data [104]]

private theorem decodes_oneByte : Decodes storedSnap false (streamOf oneByte) [[104]] .eof := by
  have hidentifier : nextChunk storedSnap false (streamOf oneByte) = .ok (none,
      elems [0, 7, 0, 0, 157, 93, 124, 212, 1, 0, 104]) := by rfl
  have hblock : nextChunk storedSnap true (elems [0, 7, 0, 0, 157, 93, 124, 212, 1, 0, 104]) =
      .ok (some [104], []) := by decide +kernel
  exact .chunk hidentifier (.chunk hblock (.stops rfl))

theorem any_stream_exact_oneByte : ∃ results,
    reads storedSnap .new oneByte [0, 5, 3] = some results ∧
      Delivers (.ok []) [104] [0, 5, 3] results := by
  obtain ⟨⟨chunks, verdict, hdecodes, -, hreads⟩, -⟩ := any_stream_exact storedSnap_exact oneByte
  obtain ⟨rfl, rfl⟩ := hdecodes.unique decodes_oneByte
  exact hreads [0, 5, 3]

end Kcptun.Snappy
