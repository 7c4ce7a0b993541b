/- Kcptun/Snappy/RoundTrip
   source: crates/std/src/comp.rs (CompStream)
   digest: What one stream writes the other reads back, wherever the connection splits it and
     whatever the sizes of the reads. -/

import Kcptun.Snappy.Reader

set_option autoImplicit false
set_option relaxedAutoImplicit false

namespace Kcptun.Snappy

open Kcptun.Lib (slice slice_mid)
open Kcptun.Lib.LittleEndian
open Kcptun.Lib.Varint (putUvarint)

variable {snap : Snap} {conn : List Arrival} {r : Reader}

/-- What is on the wire for a reader that has or has not seen the stream identifier. -/
def wireOf (snap : Snap) (readHeader : Bool) (blocks : List Bytes) : Bytes :=
  if readHeader then blocks.flatMap (chunkOf snap) else encode snap blocks

/-- The reader is alive with `data` in hand and the chunks of `blocks` to come. -/
structure Live (snap : Snap) (r : Reader) (conn : List Arrival) (data : Bytes)
    (blocks : List Bytes) : Prop where
  ready : Ready r data
  pieces : Pieces (wireOf snap r.readHeader blocks) conn
  small : ∀ p ∈ blocks, p ≠ [] ∧ p.length ≤ MAX_BLOCK_SIZE

/-- The reader has `rest` to serve before its clean end, or has ended with nothing to serve. -/
def Serving (snap : Snap) (r : Reader) (conn : List Arrival) (rest : Bytes) : Prop :=
  (∃ data blocks, Live snap r conn data blocks ∧ rest = data ++ blocks.flatten) ∨
    r.err = some .eof ∧ rest = []

private theorem Ready.length {data : Bytes} (h : Ready r data) : data.length = r.j - r.i := by
  have hfits := h.fits
  rw [← h.data, List.length_drop, List.length_take, h.decoded]
  omega

private theorem Pieces.size {wire : Bytes} (h : Pieces wire conn) :
    (conn.map Arrival.size).sum = wire.length := by
  obtain ⟨segs, rfl, -, rfl⟩ := h
  rw [List.map_map, List.length_flatten]
  rfl

private theorem fill_ready {data : Bytes} (h : Ready r data) (hne : data ≠ []) (fuel : ℕ) :
    fill snap fuel r conn = some (.ok (), r, conn) := by
  have hpos := List.length_pos_iff.mpr hne
  rw [h.length] at hpos
  cases fuel <;> exact if_pos (by omega)

private theorem fill_step {data : Bytes} (h : Ready r data) (hnil : data = []) (fuel : ℕ)
    {r' : Reader} {conn' : List Arrival} (hstep : fillStep snap r conn = some (.ok (), r', conn')) :
    fill snap (fuel + 1) r conn = fill snap fuel r' conn' := by
  have hlen := h.length
  rw [hnil, List.length_nil] at hlen
  rw [fill, if_neg (by omega), hstep]
  rfl

private theorem fill_end {data : Bytes} (h : Ready r data) (hnil : data = []) (fuel : ℕ) :
    ∃ r', fill snap (fuel + 1) r [] = some (.error .eof, r', []) := by
  have hlen := h.length
  rw [hnil, List.length_nil] at hlen
  have hfit : CHUNK_HEADER_SIZE ≤ r.buf.length := by
    rw [h.buf]
    decide
  have hread : readInto r.buf CHUNK_HEADER_SIZE [] true = some (.error .eof, r.buf, []) := by
    rw [readInto, if_pos hfit, readFull_end _ (by decide)]
    dsimp only
    rw [Kcptun.Lib.splice_zero (Nat.zero_le _)]
    rfl
  refine ⟨{ r with buf := r.buf }, ?_⟩
  rw [fill, if_neg (by omega), fillStep, hread]
  rfl

private theorem fill_chunk (hsnap : snap.Lawful) {data p : Bytes} {ps : List Bytes}
    (hr : Ready r data) (hnil : data = []) (hheader : r.readHeader = true)
    (hsmall : ∀ q ∈ p :: ps, q ≠ [] ∧ q.length ≤ MAX_BLOCK_SIZE)
    (hpieces : Pieces ((p :: ps).flatMap (chunkOf snap)) conn) (fuel : ℕ) :
    ∃ r' conn', fill snap (fuel + 1) r conn = some (.ok (), r', conn') ∧
      Live snap r' conn' p ps := by
  obtain ⟨⟨hne, hp⟩, hps⟩ := List.forall_mem_cons.mp hsmall
  rw [List.flatMap_cons] at hpieces
  obtain ⟨r', conn', hstep, hrest, hready, hkept⟩ := fillStep_chunk hsnap hr hheader hp hpieces
  refine ⟨r', conn', ?_, hready, ?_, hps⟩
  · rw [fill_step hr hnil fuel hstep, fill_ready hready hne]
  · rw [wireOf, hkept]
    exact hrest

private theorem Live.fill (hsnap : snap.Lawful) {data : Bytes} {blocks : List Bytes}
    (h : Live snap r conn data blocks) :
    (∃ r' conn' data' blocks', fill snap ((conn.map Arrival.size).sum + 1) r conn =
        some (.ok (), r', conn') ∧ Live snap r' conn' data' blocks' ∧ data' ≠ [] ∧
        data ++ blocks.flatten = data' ++ blocks'.flatten) ∨
      (∃ r' conn', fill snap ((conn.map Arrival.size).sum + 1) r conn =
        some (.error .eof, r', conn')) ∧ data ++ blocks.flatten = [] := by
  by_cases hdata : data = []
  · cases blocks with
    | nil =>
      have hwire : wireOf snap r.readHeader [] = [] := by
        rw [wireOf]
        split_ifs <;> rfl
      have hpieces := h.pieces
      rw [hwire] at hpieces
      rw [hpieces.nil]
      obtain ⟨r', hend⟩ := @fill_end snap r data h.ready hdata 0
      exact .inr ⟨⟨r', [], hend⟩, by rw [hdata]; rfl⟩
    | cons p ps =>
      have hne := (h.small p List.mem_cons_self).1
      have hsum := h.pieces.size
      rw [hdata, List.nil_append]
      cases hheader : r.readHeader with
      | true =>
        have hpieces := h.pieces
        rw [wireOf, hheader, if_pos rfl] at hpieces
        obtain ⟨r', conn', hfill, hlive⟩ :=
          fill_chunk hsnap h.ready hdata hheader h.small hpieces (conn.map Arrival.size).sum
        exact .inl ⟨r', conn', p, ps, hfill, hlive, hne, List.flatten_cons⟩
      | false =>
        have hpieces := h.pieces
        rw [wireOf, hheader, if_neg (by decide), encode] at hpieces
        obtain ⟨r1, conn1, hstep, hpieces1, hready1, hheader1, -, -⟩ :=
          @fillStep_magic snap _ _ _ _ h.ready hpieces
        obtain ⟨fuel, hfuel⟩ : ∃ fuel, (conn.map Arrival.size).sum = fuel + 1 := by
          refine ⟨(conn.map Arrival.size).sum - 1, ?_⟩
          have hpos : 0 < MAGIC_CHUNK.length := by decide
          rw [hpieces.size, List.length_append]
          omega
        obtain ⟨r', conn', hfill, hlive⟩ :=
          fill_chunk hsnap hready1 hdata hheader1 h.small hpieces1 fuel
        refine .inl ⟨r', conn', p, ps, ?_, hlive, hne, List.flatten_cons⟩
        rw [hfuel, fill_step h.ready hdata _ hstep, hfill]
  · exact .inl ⟨r, conn, data, blocks, fill_ready h.ready hdata _, h, hdata, rfl⟩

private theorem Ready.serve {data : Bytes} (h : Ready r data) (n : ℕ) (hn : n ≤ r.j - r.i) :
    slice r.decoded r.i (r.i + n) = some (data.take n) ∧
      Ready { r with i := r.i + n } (data.drop n) := by
  have hle := h.le
  have hfits := h.fits
  constructor
  · rw [slice, if_pos ⟨Nat.le_add_right _ _, by rw [h.decoded]; omega⟩, ← h.data, List.drop_take,
      List.drop_take, List.take_take]
    congr 2
    omega
  · refine ⟨h.decoded, h.buf, ?_, hfits, ?_, h.err⟩
    · show r.i + n ≤ r.j
      omega
    · rw [← h.data, List.drop_drop]

private theorem Serving.read (hsnap : snap.Lawful) {rest : Bytes} (h : Serving snap r conn rest)
    (size : ℕ) : ∃ out later r' conn', read snap r conn size = some (.ok out, r', conn') ∧
      rest = out ++ later ∧ out.length ≤ size ∧ (size ≠ 0 → rest ≠ [] → out ≠ []) ∧
      Serving snap r' conn' later := by
  rcases h with ⟨data, blocks, hlive, rfl⟩ | ⟨herr, rfl⟩
  · rcases hlive.fill hsnap with
      ⟨r', conn', data', blocks', hfill, hlive', hne, hrest⟩ | ⟨⟨r', conn', hfill⟩, hrest⟩
    · obtain ⟨hslice, hready⟩ := hlive'.ready.serve (min size (r'.j - r'.i)) (min_le_right _ _)
      have hlen := hlive'.ready.length
      have hpos := List.length_pos_iff.mpr hne
      refine ⟨data'.take (min size (r'.j - r'.i)),
        data'.drop (min size (r'.j - r'.i)) ++ blocks'.flatten,
        { r' with i := r'.i + min size (r'.j - r'.i) }, conn', ?_, ?_, ?_, ?_, ?_⟩
      · rw [Snappy.read, hlive.ready.err]
        dsimp only
        rw [hfill, Option.bind_some]
        dsimp only
        rw [hslice]
        rfl
      · rw [hrest, ← List.append_assoc, List.take_append_drop]
      · rw [List.length_take]
        omega
      · intro hsize _ hnil
        have hzero := congrArg List.length hnil
        rw [List.length_take, List.length_nil] at hzero
        omega
      · exact .inl ⟨_, blocks', ⟨hready, hlive'.pieces, hlive'.small⟩, rfl⟩
    · refine ⟨[], [], { r' with err := some .eof }, conn', ?_, hrest, Nat.zero_le _,
        fun _ hne => absurd hrest hne, .inr ⟨rfl, rfl⟩⟩
      rw [Snappy.read, hlive.ready.err]
      dsimp only
      rw [hfill]
      rfl
  · refine ⟨[], [], r, conn, ?_, rfl, Nat.zero_le _, fun _ hne => absurd rfl hne, .inr ⟨herr, rfl⟩⟩
    rw [Snappy.read, herr]
    rfl

private theorem Serving.reads (hsnap : snap.Lawful) {rest : Bytes} (h : Serving snap r conn rest)
    (sizes : List ℕ) : ∃ results, reads snap r conn sizes = some results ∧
      Serves rest sizes results := by
  induction sizes generalizing r conn rest with
  | nil => exact ⟨[], rfl, rfl⟩
  | cons size sizes ih =>
    obtain ⟨out, later, r', conn', hread, hrest, hle, hne, hserving⟩ := h.read hsnap size
    obtain ⟨results, hreads, hserves⟩ := ih hserving
    refine ⟨.ok out :: results, ?_, out, later, results, rfl, hrest, hle, hne, hserves⟩
    rw [Snappy.reads, hread, Option.bind_some, hreads]
    rfl

private theorem serving_new {blocks : List Bytes}
    (hsmall : ∀ p ∈ blocks, p ≠ [] ∧ p.length ≤ MAX_BLOCK_SIZE)
    (hpieces : Pieces (encode snap blocks) conn) : Serving snap .new conn blocks.flatten := by
  have hready : Ready .new [] :=
    ⟨List.length_replicate, List.length_replicate, le_rfl, Nat.zero_le _, rfl, rfl⟩
  exact .inl ⟨[], blocks, ⟨hready, hpieces, hsmall⟩, rfl⟩

/-- Whatever calls a stream's writer is given: no call fails unless the connection does, and the
wire carries a prefix of what was written, all of it when no call failed. It ends at the border of a
chunk unless a write that failed took a part of one. Up to that border a peer's reads of any sizes
serve exactly what the wire carries and then the clean end, wherever the connection splits the
bytes. -/
theorem stream_exact (hsnap : snap.Lawful) (outcomes : List (Option (ℕ × IoError)))
    (calls : List WriteCall) : ∃ results w wire plain whole part,
      writes snap .new ⟨[], outcomes⟩ calls = some (results, w, wire) ∧
      ((∀ o ∈ outcomes, o = none) → ∀ res ∈ results, res = .ok ()) ∧
      plain <+: calls.flatMap WriteCall.data ∧
      ((∀ res ∈ results, res = .ok ()) → plain = calls.flatMap WriteCall.data ∧ part = []) ∧
      wire.bytes = whole ++ part ∧
      ((∀ n e, some (n, e) ∈ outcomes → n = 0) → part = []) ∧
      ∀ segs : List Bytes, (∀ seg ∈ segs, seg ≠ []) → segs.flatten = whole →
        ∀ sizes, ∃ outs, reads snap .new (segs.map .data) sizes = some outs ∧
          Serves plain sizes outs := by
  obtain ⟨r, blocks, cut, hwrites, hsent, hfront, -, hall, hfails, hpartly⟩ :=
    (sent_new snap outcomes).writes hsnap calls
  rw [List.nil_append] at hsent
  obtain ⟨part, hpart⟩ := hsent.chunks
  have hborder : cut = [] → part = [] := by
    intro hcut
    rw [hsent.bytes_eq hcut] at hpart
    exact List.append_right_eq_self.mp hpart
  have hpre := hfront rfl
  rw [List.flatten_append] at hpre
  refine ⟨r.1, r.2.1, r.2.2, blocks.flatten, encode snap blocks, part, hwrites, ?_,
    (List.prefix_append _ _).trans hpre, ?_, hpart.symm, ?_, ?_⟩
  · intro htaken res hres
    by_contra hno
    rcases hfails res hres hno with hbefore | ⟨n, e, he⟩
    · exact hbefore rfl
    · cases htaken _ he
  · intro hok
    exact ⟨(hall hok).1, hborder (hall hok).2⟩
  · intro hnothing
    apply hborder
    by_contra hcut
    obtain ⟨n, e, hn, he⟩ := hpartly hcut
    exact absurd (hnothing n e he) (Nat.ne_of_gt hn)
  · intro segs hne hflat sizes
    have hpieces : Pieces (encode snap blocks) (segs.map .data) := ⟨segs, rfl, hne, hflat⟩
    exact (serving_new (fun p hp => hsent.small p (List.mem_append_left _ hp)) hpieces).reads hsnap
      sizes

def literalTag (p : Bytes) : Bytes :=
  if p.length ≤ 60 then [UInt8.ofNat ((p.length - 1) * 4)]
  else if p.length ≤ 256 then [60 * 4, UInt8.ofNat (p.length - 1)]
  else [61 * 4, UInt8.ofNat (p.length - 1), UInt8.ofNat ((p.length - 1) / 256)]

/-- The codec on contents it finds nothing to save in: a block is one literal. -/
def literalSnap : Snap where
  compress p room :=
    if maxCompressLen p.length ≤ room then
      .ok (putUvarint p.length ++ ((if p = [] then [] else literalTag p) ++ p))
    else .error "snappy: output buffer is too small"
  decompress block n := some (block.drop (block.length - n))

theorem literalSnap_lawful : literalSnap.Lawful := by
  intro p room hp hroom
  have htag : (if p = [] then [] else literalTag p).length ≤ 3 := by
    unfold literalTag
    split_ifs <;> simp
  refine ⟨_, if_pos hroom, ?_, ?_⟩
  · have hvarint := Kcptun.Lib.Varint.length_putUvarint_le p.length
    unfold Kcptun.Lib.Varint.MAX_VARINT_LEN64 at hvarint
    rw [List.length_append, List.length_append, maxCompressLen]
    omega
  · show some (List.drop _ _) = _
    rw [← List.append_assoc, List.length_append, Nat.add_sub_cancel, List.drop_left]

/-- Two bytes written come back from a connection that brings one byte at a time. -/
theorem stream_exact_literal : ∃ results w wire outs,
    writes literalSnap .new ⟨[], []⟩ [.writeAll [104], .writeAllVectored [[], [105]]] =
      some (results, w, wire) ∧
    reads literalSnap .new (wire.bytes.map fun b => .data [b]) [1, 5, 3] = some outs ∧
      Serves [104, 105] [1, 5, 3] outs := by
  obtain ⟨results, w, wire, plain, whole, part, hwrites, hok, -, hall, hwire, -, hreads⟩ :=
    stream_exact literalSnap_lawful [] [.writeAll [104], .writeAllVectored [[], [105]]]
  obtain ⟨hplain, rfl⟩ := hall (hok fun o ho => by cases ho)
  rw [List.append_nil] at hwire
  subst hwire
  obtain ⟨outs, hread, hserves⟩ := hreads (wire.bytes.map fun b => [b]) (by simp)
    (List.flatMap_singleton' wire.bytes) [1, 5, 3]
  rw [List.map_map] at hread
  rw [hplain] at hserves
  exact ⟨results, w, wire, outs, hwrites, hread, hserves⟩

end Kcptun.Snappy
