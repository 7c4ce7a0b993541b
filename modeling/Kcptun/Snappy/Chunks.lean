/- Kcptun/Snappy/Chunks
   source: crates/std/src/comp.rs
   digest: What a framed stream means, whatever pieces it arrives in: its chunks decoded in order up
     to the first that is malformed. -/

import Kcptun.Lib.Arrivals
import Kcptun.Snappy.Reader

set_option autoImplicit false
set_option relaxedAutoImplicit false

namespace Kcptun.Snappy

open Kcptun.Lib (Item elems full full_elems full_zero elemCount)
open Kcptun.Lib.LittleEndian
open Kcptun.Lib.Varint (putUvarint)

/-- A byte of the connection's stream, or a point at which the stream ends or fails. -/
abbrev StreamItem := Item UInt8 IoError

/-- The next `n` bytes, and the stream behind them. -/
def takeBytes (items : List StreamItem) (n : ℕ) (allowEof : Bool) :
    Except Sticky (Bytes × List StreamItem) :=
  match full items n with
  | (got, none, rest) => .ok (got, rest)
  | (got, some none, _) => .error (if got = [] && allowEof then .eof else .snappy .corrupt)
  | (_, some (some e), _) => .error (.io e)

def checked (checksum : UInt32) (data : Bytes) : Except Sticky Bytes :=
  if crc data = checksum then .ok data else .error (.snappy .corrupt)

/-- The data of a compressed chunk: a checksum, the length, and what the block decoder makes of the
rest under the shortest form of that length. -/
def compressedData (snap : Snap) (body : Bytes) : Except Sticky Bytes :=
  match decodedLen (body.drop CHECKSUM_SIZE) with
  | .error e => .error (.snappy e)
  | .ok (n, headerLen) =>
    if n > MAX_BLOCK_SIZE then .error (.snappy .corrupt)
    else
      match snap.decompress (putUvarint n ++ body.drop (CHECKSUM_SIZE + headerLen)) n with
      | none => .error (.snappy .corrupt)
      | some data => checked (readChecksum body) data

def compressedItems (snap : Snap) (chunkLen : ℕ) (items : List StreamItem) :
    Except Sticky (Option Bytes × List StreamItem) :=
  if chunkLen < CHECKSUM_SIZE then .error (.snappy .corrupt)
  else (takeBytes items chunkLen false).bind fun s =>
    (compressedData snap s.1).map fun data => (some data, s.2)

def uncompressedItems (chunkLen : ℕ) (items : List StreamItem) :
    Except Sticky (Option Bytes × List StreamItem) :=
  if chunkLen < CHECKSUM_SIZE then .error (.snappy .corrupt)
  else (takeBytes items CHECKSUM_SIZE false).bind fun s =>
    if chunkLen - CHECKSUM_SIZE > MAX_BLOCK_SIZE then .error (.snappy .corrupt)
    else (takeBytes s.2 (chunkLen - CHECKSUM_SIZE) false).bind fun t =>
      (checked (readChecksum s.1) t.1).map fun data => (some data, t.2)

def identifierItems (chunkLen : ℕ) (items : List StreamItem) :
    Except Sticky (Option Bytes × List StreamItem) :=
  if chunkLen ≠ MAGIC_BODY.length then .error (.snappy .corrupt)
  else (takeBytes items MAGIC_BODY.length false).bind fun s =>
    if s.1 = MAGIC_BODY then .ok (none, s.2) else .error (.snappy .corrupt)

def skippedItems (chunkLen : ℕ) (items : List StreamItem) :
    Except Sticky (Option Bytes × List StreamItem) :=
  (takeBytes items chunkLen false).map fun s => (none, s.2)

/-- A chunk with the given header: its data, if it has any, and the stream behind it. -/
def chunkItems (snap : Snap) (identified : Bool) (header : Bytes) (items : List StreamItem) :
    Except Sticky (Option Bytes × List StreamItem) :=
  let chunkType := header.getD 0 0
  let chunkLen := (header.getD 1 0).toNat + 256 * (header.getD 2 0).toNat +
    65536 * (header.getD 3 0).toNat
  if identified = false ∧ chunkType ≠ CHUNK_TYPE_STREAM_IDENTIFIER then .error (.snappy .corrupt)
  else if chunkLen > RBUF_LEN then .error (.snappy .unsupported)
  else if chunkType = CHUNK_TYPE_COMPRESSED_DATA then compressedItems snap chunkLen items
  else if chunkType = CHUNK_TYPE_UNCOMPRESSED_DATA then uncompressedItems chunkLen items
  else if chunkType = CHUNK_TYPE_STREAM_IDENTIFIER then identifierItems chunkLen items
  else if chunkType ≤ CHUNK_TYPE_MAX_UNSKIPPABLE then .error (.snappy .unsupported)
  else skippedItems chunkLen items

/-- The next chunk of a stream; `identified` says whether an identifier has been seen. -/
def nextChunk (snap : Snap) (identified : Bool) (items : List StreamItem) :
    Except Sticky (Option Bytes × List StreamItem) :=
  (takeBytes items CHUNK_HEADER_SIZE true).bind fun s => chunkItems snap identified s.1 s.2

/-- The data chunks of a stream in order, and how it ends: cleanly, or at a malformed chunk. -/
inductive Decodes (snap : Snap) : Bool → List StreamItem → List Bytes → Sticky → Prop
  | stops {identified : Bool} {items : List StreamItem} {verdict : Sticky}
      (h : nextChunk snap identified items = .error verdict) :
      Decodes snap identified items [] verdict
  | chunk {identified : Bool} {items rest : List StreamItem} {data : Option Bytes}
      {chunks : List Bytes} {verdict : Sticky}
      (h : nextChunk snap identified items = .ok (data, rest))
      (later : Decodes snap true rest chunks verdict) :
      Decodes snap identified items (data.toList ++ chunks) verdict

/-! A chunk uses bytes of the stream, and its data is of bounded length. -/

/-- The block decoder fills its output exactly, or fails. -/
def Snap.Exact (snap : Snap) : Prop :=
  ∀ block n data, snap.decompress block n = some data → data.length = n

section Chunks

variable {snap : Snap} {items rest : List StreamItem} {chunkLen : ℕ} {data : Option Bytes}

private theorem bind_ok {α β ε : Type} {x : Except ε α} {f : α → Except ε β} {b : β}
    (h : x.bind f = .ok b) : ∃ a, x = .ok a ∧ f a = .ok b := by
  cases x with
  | error e => cases h
  | ok a => exact ⟨a, rfl, h⟩

private theorem map_ok {α β ε : Type} {x : Except ε α} {f : α → β} {b : β} (h : x.map f = .ok b) :
    ∃ a, x = .ok a ∧ f a = b := by
  cases x with
  | error e => cases h
  | ok a => exact ⟨a, rfl, Except.ok.inj h⟩

private theorem takeBytes_ok {n : ℕ} {allowEof : Bool} {got : Bytes}
    (h : takeBytes items n allowEof = .ok (got, rest)) :
    got.length = n ∧ elemCount items = n + elemCount rest := by
  have hcomplete := Kcptun.Lib.full_complete items n
  have hcount := @Kcptun.Lib.elemCount_full _ _ items n
  unfold takeBytes at h
  generalize full items n = f at h hcomplete hcount
  obtain ⟨got', stopped, rest'⟩ := f
  cases stopped with
  | none =>
    obtain ⟨rfl, rfl⟩ := Prod.mk.inj (Except.ok.inj h)
    exact ⟨hcomplete.mp rfl, hcount rfl⟩
  | some why => cases why <;> cases h

private theorem checked_ok {checksum : UInt32} {d d' : Bytes} (h : checked checksum d = .ok d') :
    d = d' := by
  unfold checked at h
  split_ifs at h
  exact Except.ok.inj h

private theorem compressedData_ok (hsnap : snap.Exact) {body d : Bytes}
    (h : compressedData snap body = .ok d) : d.length ≤ MAX_BLOCK_SIZE := by
  unfold compressedData at h
  split at h
  · cases h
  · split_ifs at h with hlarge
    split at h
    · cases h
    · next hout =>
      rw [← checked_ok h, hsnap _ _ _ hout]
      exact Nat.not_lt.mp hlarge

private theorem chunkItems_ok (hsnap : snap.Exact) {identified : Bool} {header : Bytes}
    (h : chunkItems snap identified header items = .ok (data, rest)) :
    elemCount rest ≤ elemCount items ∧ ∀ d ∈ data, d.length ≤ MAX_BLOCK_SIZE := by
  have hno : ∀ d ∈ (none : Option Bytes), d.length ≤ MAX_BLOCK_SIZE := fun d hd => by cases hd
  unfold chunkItems at h
  dsimp only at h
  split_ifs at h
  · unfold compressedItems at h
    split_ifs at h
    obtain ⟨s, htake, hs⟩ := bind_ok h
    obtain ⟨d, hd, hdata⟩ := map_ok hs
    obtain ⟨rfl, rfl⟩ := Prod.mk.inj hdata
    refine ⟨by have := (takeBytes_ok htake).2; omega, ?_⟩
    intro d' hd'
    obtain rfl := Option.mem_some_iff.mp hd'
    exact compressedData_ok hsnap hd
  · unfold uncompressedItems at h
    split_ifs at h with hshort hlarge
    · obtain ⟨s, -, hs⟩ := bind_ok h
      cases hs
    obtain ⟨s, htake, hs⟩ := bind_ok h
    obtain ⟨t, htake', ht⟩ := bind_ok hs
    obtain ⟨d, hd, hdata⟩ := map_ok ht
    obtain ⟨rfl, rfl⟩ := Prod.mk.inj hdata
    obtain ⟨hlen, hcount⟩ := takeBytes_ok htake'
    refine ⟨by have := (takeBytes_ok htake).2; omega, ?_⟩
    intro d' hd'
    obtain rfl := Option.mem_some_iff.mp hd'
    rw [← checked_ok hd, hlen]
    exact Nat.not_lt.mp hlarge
  · unfold identifierItems at h
    split_ifs at h
    obtain ⟨s, htake, hs⟩ := bind_ok h
    split_ifs at hs
    obtain ⟨rfl, rfl⟩ := Prod.mk.inj (Except.ok.inj hs)
    exact ⟨by have := (takeBytes_ok htake).2; omega, hno⟩
  · unfold skippedItems at h
    obtain ⟨s, htake, hs⟩ := map_ok h
    obtain ⟨rfl, rfl⟩ := Prod.mk.inj hs
    exact ⟨by have := (takeBytes_ok htake).2; omega, hno⟩

theorem nextChunk_ok (hsnap : snap.Exact) {identified : Bool}
    (h : nextChunk snap identified items = .ok (data, rest)) :
    elemCount rest < elemCount items ∧ ∀ d ∈ data, d.length ≤ MAX_BLOCK_SIZE := by
  obtain ⟨s, htake, hs⟩ := bind_ok h
  obtain ⟨hle, hdata⟩ := chunkItems_ok hsnap hs
  have hcount := (takeBytes_ok htake).2
  unfold CHUNK_HEADER_SIZE at hcount
  exact ⟨by omega, hdata⟩

theorem decodes_total (hsnap : snap.Exact) (identified : Bool) (items : List StreamItem) :
    ∃ chunks verdict, Decodes snap identified items chunks verdict := by
  induction hn : elemCount items using Nat.strongRecOn generalizing identified items with
  | ind n ih =>
    cases hnext : nextChunk snap identified items with
    | error verdict => exact ⟨[], verdict, .stops hnext⟩
    | ok next =>
      obtain ⟨chunks, verdict, hlater⟩ :=
        ih (elemCount next.2) (hn ▸ (nextChunk_ok hsnap hnext).1) true next.2 rfl
      exact ⟨_, verdict, .chunk hnext hlater⟩

theorem Decodes.unique {identified : Bool} {chunks chunks' : List Bytes} {verdict verdict' : Sticky}
    (h : Decodes snap identified items chunks verdict)
    (h' : Decodes snap identified items chunks' verdict') :
    chunks = chunks' ∧ verdict = verdict' := by
  induction h generalizing chunks' with
  | stops hnext =>
    cases h' with
    | stops hnext' => exact ⟨rfl, Except.error.inj (hnext.symm.trans hnext')⟩
    | chunk hnext' later => cases hnext.symm.trans hnext'
  | chunk hnext later ih =>
    cases h' with
    | stops hnext' => cases hnext.symm.trans hnext'
    | chunk hnext' later' =>
      obtain ⟨rfl, rfl⟩ := Prod.mk.inj (Except.ok.inj (hnext.symm.trans hnext'))
      obtain ⟨rfl, rfl⟩ := ih later'
      exact ⟨rfl, rfl⟩

theorem Decodes.bounded (hsnap : snap.Exact) {identified : Bool} {chunks : List Bytes}
    {verdict : Sticky} (h : Decodes snap identified items chunks verdict) :
    ∀ c ∈ chunks, c.length ≤ MAX_BLOCK_SIZE := by
  induction h with
  | stops hnext => exact fun c hc => by cases hc
  | chunk hnext later ih =>
    intro c hc
    rcases List.mem_append.mp hc with hc | hc
    · exact (nextChunk_ok hsnap hnext).2 c (Option.mem_toList.mp hc)
    · exact ih c hc

end Chunks

end Kcptun.Snappy
