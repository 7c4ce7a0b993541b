/- Kcptun/Smux/StreamBuf
   source: crates/smux/src/stream.rs (StreamBuf, push_bytes, recycle_tokens)
   digest: The received-data buffer of one stream and its read accounting. -/

import Kcptun.Lib.LittleEndian
import Kcptun.Smux.Config

set_option autoImplicit false
set_option relaxedAutoImplicit false

namespace Kcptun.Smux

open Kcptun.Lib.LittleEndian

/-- Frame payloads oldest first, the sum of their lengths and the version-2 read counters. -/
structure StreamBuf where
  chunks : List Bytes := []
  len : ℕ := 0
  numRead : UInt32 := 0
  incr : UInt32 := 0
deriving DecidableEq, Repr

namespace StreamBuf

/-- Copies the front payload into a buffer of `size` bytes; the bytes copied come second. -/
def consumeFront (buf : StreamBuf) (size : ℕ) : StreamBuf × Bytes :=
  match buf.chunks with
  | [] => (buf, [])
  | front :: rest =>
    let n := min front.length size
    let left := front.drop n
    ({ buf with
        chunks := if left.isEmpty then rest else left :: rest
        len := buf.len - n }, front.take n)

def pop (buf : StreamBuf) : StreamBuf × Option Bytes :=
  match buf.chunks with
  | [] => (buf, none)
  | chunk :: rest => ({ buf with chunks := rest, len := buf.len - chunk.length }, some chunk)

/-- Version-2 read accounting; returns the `consumed` value a `cmdUPD` should carry, 0 for none.
The counters wrap, and the buffer size is cast to `u32` after halving. -/
def accountRead (buf : StreamBuf) (n : ℕ) (maxStreamBuffer : Int) : StreamBuf × UInt32 :=
  let n := UInt32.ofNat n
  let numRead := buf.numRead + n
  let incr := buf.incr + n
  if incr ≥ UInt32.ofInt (maxStreamBuffer.tdiv 2) ∨ numRead = n then
    ({ buf with numRead, incr := 0 }, numRead)
  else ({ buf with numRead, incr }, 0)

/-- The critical section of `try_read` for a buffer of `size` bytes: the bytes copied, and the
`consumed` value of the update that is due. -/
def takeFront (buf : StreamBuf) (config : Config) (size : ℕ) : StreamBuf × Bytes × UInt32 :=
  let (buf, bytes) := buf.consumeFront size
  if config.version = 2 then
    let (buf, notify) := buf.accountRead bytes.length config.maxStreamBuffer
    (buf, bytes, notify)
  else (buf, bytes, 0)

/-- The critical section `read_chunk` and `write_to` share; no bytes for an empty buffer. -/
def popChunk (buf : StreamBuf) (config : Config) : StreamBuf × Bytes × UInt32 :=
  let (buf, chunk) := buf.pop
  let bytes := chunk.getD []
  if config.version = 2 then
    let (buf, notify) := buf.accountRead bytes.length config.maxStreamBuffer
    (buf, bytes, notify)
  else (buf, bytes, 0)

def pushBytes (buf : StreamBuf) (data : Bytes) : StreamBuf :=
  { buf with len := buf.len + data.length, chunks := buf.chunks ++ [data] }

def recycleTokens (buf : StreamBuf) : StreamBuf × ℕ := ({ buf with chunks := [], len := 0 }, buf.len)

def unread (buf : StreamBuf) : Bytes := buf.chunks.flatten

/-- No payload is empty, and `len` is the sum of the payload lengths. -/
structure Ok (buf : StreamBuf) : Prop where
  full : ∀ chunk ∈ buf.chunks, chunk ≠ []
  len_eq : buf.len = buf.unread.length

variable {buf : StreamBuf}

theorem ok_empty : ({} : StreamBuf).Ok := ⟨by simp, rfl⟩

theorem Ok.chunks_eq_nil_iff (h : buf.Ok) : buf.chunks = [] ↔ buf.unread = [] := by
  constructor
  · intro hnil
    rw [unread, hnil, List.flatten_nil]
  · intro hnil
    rw [unread, List.flatten_eq_nil_iff] at hnil
    cases hchunks : buf.chunks with
    | nil => rfl
    | cons chunk rest =>
      have hmem : chunk ∈ buf.chunks := hchunks ▸ List.mem_cons_self
      exact absurd (hnil chunk hmem) (h.full chunk hmem)

theorem unread_pushBytes (data : Bytes) : (buf.pushBytes data).unread = buf.unread ++ data := by
  simp [unread, pushBytes]

theorem Ok.pushBytes (h : buf.Ok) {data : Bytes} (hdata : data ≠ []) : (buf.pushBytes data).Ok := by
  constructor
  · intro chunk hmem
    rcases List.mem_append.mp hmem with hold | hnew
    · exact h.full chunk hold
    · rwa [List.mem_singleton.mp hnew]
  · rw [unread_pushBytes, List.length_append, ← h.len_eq]
    rfl

private theorem unread_consumeFront (size : ℕ) :
    (buf.consumeFront size).2 ++ (buf.consumeFront size).1.unread = buf.unread := by
  unfold consumeFront unread
  split
  next hchunks => rw [hchunks]; rfl
  next front rest hchunks =>
    rw [hchunks]
    dsimp only
    split_ifs with hleft
    · have hnil := List.isEmpty_iff.mp hleft
      rw [List.flatten_cons, ← List.take_append_drop (min front.length size) front, hnil]
      simp
    · rw [List.flatten_cons, List.flatten_cons, ← List.append_assoc, List.take_append_drop]

private theorem Ok.consumeFront (h : buf.Ok) (size : ℕ) : (buf.consumeFront size).1.Ok := by
  have hunread := congrArg List.length (@unread_consumeFront buf size)
  rw [List.length_append] at hunread
  have hlen := h.len_eq
  constructor
  · intro chunk hmem
    unfold StreamBuf.consumeFront at hmem
    split at hmem
    next hchunks =>
      rw [hchunks] at hmem
      cases hmem
    next front rest hchunks =>
      dsimp only at hmem
      have hrest : ∀ c ∈ rest, c ≠ [] := fun c hc =>
        h.full c (hchunks ▸ List.mem_cons_of_mem front hc)
      split_ifs at hmem with hleft
      · exact hrest chunk hmem
      · rcases List.mem_cons.mp hmem with rfl | hc
        · intro hnil
          exact hleft (List.isEmpty_iff.mpr hnil)
        · exact hrest chunk hc
  · have hpart : (buf.consumeFront size).1.len + (buf.consumeFront size).2.length = buf.len := by
      unfold StreamBuf.consumeFront
      split
      next => simp
      next front rest hchunks =>
        have hfront : front.length ≤ buf.len := by
          rw [hlen, unread, hchunks, List.flatten_cons, List.length_append]
          omega
        dsimp only
        rw [List.length_take]
        omega
    omega

private theorem Ok.consumeFront_eq_nil (h : buf.Ok) {size : ℕ} (hsize : 0 < size)
    (hnone : (buf.consumeFront size).2 = []) : buf.chunks = [] := by
  unfold StreamBuf.consumeFront at hnone
  split at hnone
  next hchunks => exact hchunks
  next front rest hchunks =>
    have hfront := h.full front (hchunks ▸ List.mem_cons_self)
    have hpos := List.length_pos_iff.mpr hfront
    have hzero := congrArg List.length hnone
    dsimp only at hzero
    rw [List.length_take, List.length_nil] at hzero
    omega

private theorem unread_pop : (buf.pop.2.getD []) ++ buf.pop.1.unread = buf.unread := by
  unfold pop unread
  split
  next hchunks => rw [hchunks]; rfl
  next chunk rest hchunks => rw [hchunks]; rfl

private theorem Ok.pop (h : buf.Ok) : buf.pop.1.Ok := by
  unfold StreamBuf.pop
  split
  next => exact h
  next chunk rest hchunks =>
    refine ⟨fun c hc => h.full c (hchunks ▸ List.mem_cons_of_mem chunk hc), ?_⟩
    have hlen := h.len_eq
    rw [unread, hchunks, List.flatten_cons, List.length_append] at hlen
    change buf.len - chunk.length = rest.flatten.length
    omega

@[simp] theorem chunks_accountRead (n : ℕ) (m : Int) : (buf.accountRead n m).1.chunks = buf.chunks := by
  unfold accountRead
  dsimp only
  split_ifs <;> rfl

@[simp] theorem len_accountRead (n : ℕ) (m : Int) : (buf.accountRead n m).1.len = buf.len := by
  unfold accountRead
  dsimp only
  split_ifs <;> rfl

@[simp] theorem unread_accountRead (n : ℕ) (m : Int) : (buf.accountRead n m).1.unread = buf.unread := by
  rw [unread, chunks_accountRead, unread]

private theorem Ok.accountRead (h : buf.Ok) (n : ℕ) (m : Int) : (buf.accountRead n m).1.Ok :=
  ⟨by rw [chunks_accountRead]; exact h.full, by rw [len_accountRead, unread_accountRead, h.len_eq]⟩

theorem unread_takeFront (config : Config) (size : ℕ) :
    (buf.takeFront config size).2.1 ++ (buf.takeFront config size).1.unread = buf.unread := by
  unfold takeFront
  dsimp only
  split_ifs <;> simp [unread_consumeFront]

theorem Ok.takeFront (h : buf.Ok) (config : Config) (size : ℕ) : (buf.takeFront config size).1.Ok := by
  unfold StreamBuf.takeFront
  dsimp only
  split_ifs
  · exact (h.consumeFront size).accountRead _ _
  · exact h.consumeFront size

theorem Ok.takeFront_eq_nil (h : buf.Ok) {config : Config} {size : ℕ} (hsize : 0 < size)
    (hnone : (buf.takeFront config size).2.1 = []) : buf.unread = [] := by
  apply h.chunks_eq_nil_iff.mp
  apply h.consumeFront_eq_nil hsize
  unfold StreamBuf.takeFront at hnone
  dsimp only at hnone
  split_ifs at hnone <;> exact hnone

theorem unread_popChunk (config : Config) :
    (buf.popChunk config).2.1 ++ (buf.popChunk config).1.unread = buf.unread := by
  unfold popChunk
  dsimp only
  split_ifs <;> simp [unread_pop]

theorem Ok.popChunk (h : buf.Ok) (config : Config) : (buf.popChunk config).1.Ok := by
  unfold StreamBuf.popChunk
  dsimp only
  split_ifs
  · exact h.pop.accountRead _ _
  · exact h.pop

theorem Ok.popChunk_eq_nil (h : buf.Ok) {config : Config} (hnone : (buf.popChunk config).2.1 = []) :
    buf.unread = [] := by
  have hpop : buf.pop.2.getD [] = [] := by
    unfold StreamBuf.popChunk at hnone
    dsimp only at hnone
    split_ifs at hnone <;> exact hnone
  apply h.chunks_eq_nil_iff.mp
  cases hchunks : buf.chunks with
  | nil => rfl
  | cons chunk rest =>
    unfold StreamBuf.pop at hpop
    rw [hchunks] at hpop
    exact absurd hpop (h.full chunk (hchunks ▸ List.mem_cons_self))

theorem Ok.recycleTokens : buf.recycleTokens.1.Ok := ⟨by simp [StreamBuf.recycleTokens], rfl⟩

end StreamBuf

end Kcptun.Smux
