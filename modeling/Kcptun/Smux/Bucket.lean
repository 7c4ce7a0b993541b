/- Kcptun/Smux/Bucket
   source: crates/smux/src/session.rs (return_tokens, stream_closed, recv_loop, close_shared),
     crates/smux/src/stream.rs (recycle_tokens, try_read, pop_chunk, close, Drop for StreamInner)
   digest: The session's receive tokens: charged when a payload is buffered, returned when it is
     read or thrown away. -/

import Kcptun.Lib.Interleaving
import Kcptun.Smux.StreamBuf
import Mathlib.Tactic.Linarith

set_option autoImplicit false
set_option relaxedAutoImplicit false

namespace Kcptun.Smux.Bucket

open Kcptun.Lib Kcptun.Lib.LittleEndian

/-- A `StreamInner`; `dropped` once its last reference is gone. -/
structure Inner where
  sid : UInt32
  buf : StreamBuf := {}
  finEvent : Bool := false
  writeClosed : Bool := false
  die : Bool := false
  dropped : Bool := false
deriving DecidableEq, Repr

/-- Where `recv_loop` is: waiting for tokens, reading a header, holding a payload, or between
`push_bytes` and `fetch_sub` with the stream lock held. -/
inductive RecvPc where
  | tokens
  | header
  | payload (sid : UInt32) (data : Bytes)
  | charge (n : ℕ)
  | stopped
deriving DecidableEq, Repr

/-- A session. `closing` are the streams that `close` or the drop of a handle has marked dead and not
emptied yet, `leaving` those it has emptied and not taken out of the map; `owed` are the tokens some
task has taken out of a buffer and not returned yet. -/
structure State where
  bucket : Int
  closed : Bool := false
  die : Bool := false
  inners : List Inner := []
  map : List (UInt32 × ℕ) := []
  recv : RecvPc := .tokens
  closing : List ℕ := []
  leaving : List ℕ := []
  owed : List ℕ := []
deriving DecidableEq, Repr

/-- The choices of the scheduler. `readChunk` is also one pass of `write_to`; `close` is also the
drop of a handle; `cleanup` is `try_half_close_cleanup`, whoever calls it. -/
inductive Action where
  | testTokens
  | recvStops
  | nop
  | syn (sid : UInt32)
  | fin (sid : UInt32)
  | psh (sid : UInt32) (data : Bytes)
  | push
  | charge
  | create (sid : UInt32)
  | register (inner : ℕ)
  | read (inner size : ℕ)
  | readChunk (inner : ℕ)
  | returnTokens (n : ℕ)
  | close (inner : ℕ)
  | recycle (inner : ℕ)
  | leave (inner : ℕ)
  | closeWrite (inner : ℕ)
  | cleanup (inner : ℕ)
  | dropInner (inner : ℕ)
  | closeSession
  | cancelDie
  | takeMap
  | sessionClose (inner : ℕ)
deriving DecidableEq, Repr

namespace State

/-- The `StreamInner` of an index, if somebody still holds it. -/
def live (s : State) (i : ℕ) : Option Inner := s.inners[i]?.filter fun inner => !inner.dropped

def setInner (s : State) (i : ℕ) (inner : Inner) : State := { s with inners := s.inners.set i inner }

def locked (s : State) : Bool :=
  match s.recv with
  | .charge _ => true
  | _ => false

/-- `SessionShared::stream_closed`. -/
def streamClosed (s : State) (sid : UInt32) : State := { s with map := s.map.filter (·.1 ≠ sid) }

/-- The buffer after a read, and the tokens the reader now has to return. -/
def took (s : State) (i : ℕ) (inner : Inner) (taken : StreamBuf × Bytes × UInt32) : State :=
  let s := s.setInner i { inner with buf := taken.1 }
  if taken.2.1.isEmpty then s else { s with owed := s.owed ++ [taken.2.1.length] }

def addInner (s : State) (sid : UInt32) : State := { s with inners := s.inners ++ [{ sid }] }

def next (config : Config) (s : State) : Action → Option State
  | .testTokens =>
    if s.recv = .tokens ∧ (s.bucket > 0 ∨ s.closed) then some { s with recv := .header } else none
  | .recvStops => if s.locked then none else some { s with recv := .stopped }
  | .nop => if s.recv = .header then some { s with recv := .tokens } else none
  | .syn sid =>
    if s.recv = .header then
      match s.map.lookup sid with
      | some _ => some { s with recv := .tokens }
      | none => some { s.addInner sid with
          map := (sid, s.inners.length) :: s.map
          recv := .tokens }
    else none
  | .fin sid =>
    if s.recv = .header then
      let s := { s with recv := .tokens }
      match (s.map.lookup sid).bind fun i => (s.live i).map fun inner => (i, inner) with
      | some (i, inner) => some (s.setInner i { inner with finEvent := true })
      | none => some s
    else none
  | .psh sid data =>
    if s.recv = .header ∧ data.length ≤ 65535 then
      some { s with recv := if data.isEmpty then .tokens else .payload sid data }
    else none
  | .push =>
    match s.recv with
    | .payload sid data =>
      match (s.map.lookup sid).bind fun i => (s.live i).map fun inner => (i, inner) with
      | some (i, inner) => some { s.setInner i { inner with buf := inner.buf.pushBytes data } with
          recv := .charge data.length }
      | none => some { s with recv := .tokens }
    | _ => none
  | .charge =>
    match s.recv with
    | .charge n => some { s with bucket := i32 (s.bucket - n), recv := .tokens }
    | _ => none
  | .create sid => some (s.addInner sid)
  | .register i =>
    if s.locked then none
    else (s.live i).map fun inner =>
      { s with map := (inner.sid, i) :: s.map.filter (·.1 ≠ inner.sid) }
  | .read i size => (s.live i).map fun inner => s.took i inner (inner.buf.takeFront config size)
  | .readChunk i => (s.live i).map fun inner => s.took i inner (inner.buf.popChunk config)
  | .returnTokens n =>
    if n ∈ s.owed then some { s with bucket := i32 (s.bucket + i32 n), owed := s.owed.erase n }
    else none
  | .close i => (s.live i).map fun inner =>
      if inner.die then s
      else
        { s.setInner i { inner with die := true, writeClosed := true } with
          closing := i :: s.closing }
  | .recycle i =>
    if i ∈ s.closing then
      (s.live i).map fun inner =>
        { s.setInner i { inner with buf := inner.buf.recycleTokens.1 } with
          owed :=
            if inner.buf.recycleTokens.2 > 0 then s.owed ++ [inner.buf.recycleTokens.2] else s.owed
          closing := s.closing.erase i
          leaving := i :: s.leaving }
    else none
  | .leave i =>
    if i ∈ s.leaving ∧ s.locked = false then
      s.inners[i]?.map fun inner =>
        { s.streamClosed inner.sid with leaving := s.leaving.erase i }
    else none
  | .closeWrite i => (s.live i).map fun inner => s.setInner i { inner with writeClosed := true }
  | .cleanup i =>
    if s.locked then none
    else (s.live i).map fun inner =>
      if inner.finEvent ∧ inner.writeClosed then
        (s.setInner i { inner with die := true }).streamClosed inner.sid
      else s
  | .dropInner i =>
    if i ∈ s.map.map Prod.snd ∨ i ∈ s.closing ∨ i ∈ s.leaving then none
    else (s.live i).map fun inner =>
      { s.setInner i { inner with dropped := true } with
        owed := if inner.buf.len > 0 then s.owed ++ [inner.buf.len] else s.owed }
  | .closeSession => some { s with closed := true }
  | .cancelDie => if s.closed then some { s with die := true } else none
  | .takeMap => if s.die ∧ s.locked = false then some { s with map := [] } else none
  | .sessionClose i => if s.die then (s.live i).map fun inner => s.setInner i { inner with die := true }
      else none

def new (config : Config) : State := { bucket := i32 config.maxReceiveBuffer }

/-- Bytes buffered and not read, over all streams that still exist. -/
def unread (s : State) : ℕ :=
  (s.inners.map fun inner => if inner.dropped then 0 else inner.buf.unread.length).sum

def inTransit (s : State) : ℕ := s.owed.sum

def uncharged (s : State) : ℕ :=
  match s.recv with
  | .charge n => n
  | _ => 0

/-- No task is between taking tokens out of one place and putting them into the other. -/
def Quiet (s : State) : Prop := s.owed = [] ∧ s.locked = false

instance (s : State) : Decidable s.Quiet := inferInstanceAs (Decidable (_ ∧ _))

/-- Where every token is, and how much `recv_loop` may have let in while the session is open. -/
structure Accounted (config : Config) (s : State) : Prop where
  verified : config.Verified
  bufs : ∀ inner ∈ s.inners, inner.buf.Ok
  bucket_eq : s.bucket =
    i32 (config.maxReceiveBuffer - (s.unread + s.inTransit : ℕ) + (s.uncharged : ℕ))
  charge_le : ∀ n, s.recv = .charge n → n ≤ 65535
  payload_le : ∀ sid data, s.recv = .payload sid data → data ≠ [] ∧ data.length ≤ 65535
  bound : s.closed = false →
    (s.unread + s.inTransit : ℕ) ≤ config.maxReceiveBuffer + 65534
  admitted : s.closed = false → s.recv = .header ∨ (∃ sid data, s.recv = .payload sid data) →
    ((s.unread + s.inTransit : ℕ) : Int) < config.maxReceiveBuffer
  pushed : s.closed = false → ∀ n, s.recv = .charge n →
    ((s.unread + s.inTransit : ℕ) : Int) < config.maxReceiveBuffer + n

variable {config : Config} {s s' : State} {a : Action}

theorem uncharged_of_not_locked (h : s.locked = false) : s.uncharged = 0 := by
  unfold locked at h
  unfold uncharged
  cases hrecv : s.recv <;> rw [hrecv] at h
  all_goals first | rfl | cases h

/-- Steps that move no token into or out of the bucket: bytes may only go from buffers to the tasks
that took them. -/
theorem Accounted.of_eq (h : s.Accounted config) (hbufs : ∀ inner ∈ s'.inners, inner.buf.Ok)
    (hbucket : s'.bucket = s.bucket)
    (htotal : s'.unread + s'.inTransit = s.unread + s.inTransit)
    (hclosed : s'.closed = false → s.closed = false)
    (hrecv : s'.recv = s.recv ∨ (s'.recv = .tokens ∨ s'.recv = .stopped) ∧ s.locked = false) :
    s'.Accounted config := by
  rcases hrecv with hrecv | ⟨hrecv, hlocked⟩
  · have huncharged : s'.uncharged = s.uncharged := by simp only [uncharged, hrecv]
    refine ⟨h.verified, hbufs, ?_, ?_, ?_, ?_, ?_, ?_⟩
    · rw [hbucket, htotal, huncharged]
      exact h.bucket_eq
    · rw [hrecv]
      exact h.charge_le
    · rw [hrecv]
      exact h.payload_le
    · intro hc
      rw [htotal]
      exact h.bound (hclosed hc)
    · intro hc
      rw [hrecv, htotal]
      exact h.admitted (hclosed hc)
    · intro hc
      rw [hrecv, htotal]
      exact h.pushed (hclosed hc)
  · have hold := uncharged_of_not_locked hlocked
    have hnew : s'.uncharged = 0 := by
      unfold uncharged
      rcases hrecv with hr | hr <;> rw [hr]
    refine ⟨h.verified, hbufs, ?_, ?_, ?_, ?_, ?_, ?_⟩
    · rw [hbucket, htotal, hnew, ← hold]
      exact h.bucket_eq
    · intro n hn
      rcases hrecv with hr | hr <;> rw [hr] at hn <;> cases hn
    · intro sid data hp
      rcases hrecv with hr | hr <;> rw [hr] at hp <;> cases hp
    · intro hc
      rw [htotal]
      exact h.bound (hclosed hc)
    · intro hc hp
      rcases hp with hp | ⟨sid, data, hp⟩ <;> rcases hrecv with hr | hr <;> rw [hr] at hp <;> cases hp
    · intro hc n hn
      rcases hrecv with hr | hr <;> rw [hr] at hn <;> cases hn

def weight (inner : Inner) : ℕ := if inner.dropped then 0 else inner.buf.unread.length

private theorem sum_map_set (inners : List Inner) {i : ℕ} {old : Inner}
    (hold : inners[i]? = some old) (new : Inner) :
    ((inners.set i new).map weight).sum + weight old = (inners.map weight).sum + weight new := by
  induction inners generalizing i with
  | nil => cases hold
  | cons x rest ih =>
    cases i with
    | zero =>
      cases hold
      simp only [List.set_cons_zero, List.map_cons, List.sum_cons]
      omega
    | succ i =>
      have := ih hold
      simp only [List.set_cons_succ, List.map_cons, List.sum_cons]
      omega

theorem live_eq_some_iff {i : ℕ} {inner : Inner} :
    s.live i = some inner ↔ s.inners[i]? = some inner ∧ inner.dropped = false := by
  simp [live, Option.filter_eq_some_iff]

private theorem unread_setInner {i : ℕ} {old : Inner} (hlive : s.live i = some old) (new : Inner) :
    (s.setInner i new).unread + old.buf.unread.length = s.unread + weight new := by
  obtain ⟨hget, hdropped⟩ := live_eq_some_iff.mp hlive
  have hsum := sum_map_set s.inners hget new
  have hweight : weight old = old.buf.unread.length := by simp [weight, hdropped]
  rw [hweight] at hsum
  exact hsum

private theorem Accounted.buf_ok (h : s.Accounted config) {i : ℕ} {inner : Inner}
    (hlive : s.live i = some inner) :
    inner.buf.Ok :=
  h.bufs inner (List.mem_of_getElem? (live_eq_some_iff.mp hlive).1)

private theorem Accounted.bufs_set (h : s.Accounted config) {i : ℕ} {new : Inner}
    (hnew : new.buf.Ok) : ∀ inner ∈ (s.setInner i new).inners, inner.buf.Ok := by
  intro inner hmem
  rcases List.mem_or_eq_of_mem_set hmem with hold | rfl
  · exact h.bufs inner hold
  · exact hnew

theorem Accounted.setFlags (h : s.Accounted config) {i : ℕ} {old : Inner} (hlive : s.live i = some old)
    (new : Inner) (hbuf : new.buf = old.buf) (hdropped : new.dropped = false) :
    (s.setInner i new).Accounted config := by
  have hsum := unread_setInner hlive new
  have hweight : weight new = old.buf.unread.length := by simp [weight, hdropped, hbuf]
  have htransit : (s.setInner i new).inTransit = s.inTransit := rfl
  exact h.of_eq (h.bufs_set (hbuf ▸ h.buf_ok hlive)) rfl (by omega) id (.inl rfl)

private theorem Accounted.took (h : s.Accounted config) {i : ℕ} {inner : Inner}
    (hlive : s.live i = some inner) {taken : StreamBuf × Bytes × UInt32} (hok : taken.1.Ok)
    (hunread : taken.2.1 ++ taken.1.unread = inner.buf.unread) :
    (s.took i inner taken).Accounted config := by
  have hsum := unread_setInner hlive { inner with buf := taken.1 }
  have hdropped := (live_eq_some_iff.mp hlive).2
  have hweight : weight { inner with buf := taken.1 } = taken.1.unread.length := by
    simp [weight, hdropped]
  have hlength := congrArg List.length hunread
  rw [List.length_append] at hlength
  unfold State.took
  split_ifs with hempty
  · have hzero : taken.2.1.length = 0 := by rw [List.isEmpty_iff.mp hempty]; rfl
    refine h.of_eq (h.bufs_set hok) rfl ?_ id (.inl rfl)
    change (s.setInner i { inner with buf := taken.1 }).unread + s.inTransit = _
    omega
  · refine h.of_eq (h.bufs_set hok) rfl ?_ id (.inl rfl)
    change (s.setInner i { inner with buf := taken.1 }).unread + (s.owed ++ [taken.2.1.length]).sum =
      s.unread + s.owed.sum
    rw [List.sum_append, List.sum_singleton]
    omega

private theorem unread_addInner (sid : UInt32) : (s.addInner sid).unread = s.unread := by
  simp [unread, addInner, StreamBuf.unread]

private theorem Accounted.bufs_add (h : s.Accounted config) (sid : UInt32) :
    ∀ inner ∈ (s.addInner sid).inners, inner.buf.Ok := by
  intro inner hmem
  rcases List.mem_append.mp hmem with hold | hnew
  · exact h.bufs inner hold
  · cases List.mem_singleton.mp hnew
    exact StreamBuf.ok_empty

private theorem Accounted.bucket_of_open (h : s.Accounted config) (hopen : s.closed = false)
    (hlocked : s.locked = false) :
    s.bucket = config.maxReceiveBuffer - (s.unread + s.inTransit : ℕ) := by
  have hbound := h.bound hopen
  have hmax := h.verified.receive_le
  have hpos := h.verified.receive_pos
  simp only [MAX_BUFFER_LIMIT] at hmax
  rw [h.bucket_eq, uncharged_of_not_locked hlocked]
  exact (i32_of_range (by omega) (by omega)).trans (by omega)

private theorem Accounted.testTokens (h : s.Accounted config) (htokens : s.recv = .tokens)
    (hpass : s.bucket > 0 ∨ s.closed = true) :
    ({ s with recv := .header } : State).Accounted config := by
  have hlocked : s.locked = false := by rw [locked, htokens]
  have huncharged := uncharged_of_not_locked hlocked
  refine ⟨h.verified, h.bufs, ?_, by simp, by simp, h.bound, ?_, by simp⟩
  · have hbucket := h.bucket_eq
    rw [huncharged] at hbucket
    exact hbucket
  · intro hopen _
    have hexact := h.bucket_of_open hopen hlocked
    have hpositive := hpass.resolve_right (by rw [hopen]; simp)
    change ((s.unread + s.inTransit : ℕ) : Int) < config.maxReceiveBuffer
    omega

private theorem Accounted.payload (h : s.Accounted config) (hheader : s.recv = .header)
    (sid : UInt32) {data : Bytes}
    (hdata : data ≠ []) (hle : data.length ≤ 65535) :
    ({ s with recv := .payload sid data } : State).Accounted config := by
  have huncharged : s.uncharged = 0 := by rw [uncharged, hheader]
  refine ⟨h.verified, h.bufs, ?_, by simp, ?_, h.bound, ?_, by simp⟩
  · have hbucket := h.bucket_eq
    rw [huncharged] at hbucket
    exact hbucket
  · intro sid' data' hp
    cases hp
    exact ⟨hdata, hle⟩
  · intro hopen _
    exact h.admitted hopen (.inl hheader)

private theorem Accounted.push (h : s.Accounted config) {sid : UInt32} {data : Bytes}
    (hpayload : s.recv = .payload sid data) (hbufs : ∀ inner ∈ s'.inners, inner.buf.Ok)
    (hbucket : s'.bucket = s.bucket)
    (hclosed : s'.closed = s.closed) (hrecv : s'.recv = .charge data.length)
    (htotal : s'.unread + s'.inTransit = s.unread + s.inTransit + data.length) :
    s'.Accounted config := by
  obtain ⟨-, hle⟩ := h.payload_le sid data hpayload
  have hold : s.uncharged = 0 := by rw [uncharged, hpayload]
  have hnew : s'.uncharged = data.length := by rw [uncharged, hrecv]
  have hadmitted := fun hopen => h.admitted hopen (.inr ⟨sid, data, hpayload⟩)
  refine ⟨h.verified, hbufs, ?_, ?_, ?_, ?_, ?_, ?_⟩
  · rw [hbucket, h.bucket_eq, hold, hnew, htotal]
    congr 1
    push_cast
    ring
  · intro n hn
    rw [hrecv] at hn
    cases hn
    exact hle
  · intro sid' data' hp
    rw [hrecv] at hp
    cases hp
  · intro hopen
    have := hadmitted (hclosed ▸ hopen)
    rw [htotal]
    omega
  · intro _ hp
    rw [hrecv] at hp
    rcases hp with hp | ⟨sid', data', hp⟩ <;> cases hp
  · intro hopen n hn
    have := hadmitted (hclosed ▸ hopen)
    rw [hrecv] at hn
    cases hn
    rw [htotal]
    omega

private theorem unread_push {data : Bytes} {i : ℕ} {inner : Inner} (hlive : s.live i = some inner) :
    (s.setInner i { inner with buf := inner.buf.pushBytes data }).unread = s.unread + data.length := by
  have hsum := unread_setInner hlive { inner with buf := inner.buf.pushBytes data }
  have hdropped := (live_eq_some_iff.mp hlive).2
  have hweight : weight { inner with buf := inner.buf.pushBytes data } =
      inner.buf.unread.length + data.length := by
    simp [weight, hdropped, StreamBuf.unread_pushBytes]
  omega

private theorem Accounted.charge (h : s.Accounted config) {n : ℕ} (hcharge : s.recv = .charge n) :
    ({ s with bucket := i32 (s.bucket - n), recv := .tokens } : State).Accounted config := by
  have huncharged : s.uncharged = n := by rw [uncharged, hcharge]
  refine ⟨h.verified, h.bufs, ?_, by simp, by simp, h.bound, by simp, by simp⟩
  change i32 (s.bucket - n) =
    i32 (config.maxReceiveBuffer - ((s.unread + s.inTransit : ℕ) : Int) + ((0 : ℕ) : Int))
  rw [h.bucket_eq, huncharged, Int.sub_eq_add_neg, i32_i32_add]
  congr 1
  push_cast
  ring

private theorem Accounted.returnTokens (h : s.Accounted config) {n : ℕ} (hmem : n ∈ s.owed) :
    ({ s with bucket := i32 (s.bucket + i32 n), owed := s.owed.erase n } : State).Accounted config := by
  set s' : State := { s with bucket := i32 (s.bucket + i32 n), owed := s.owed.erase n } with hs'
  have hsum := (List.perm_cons_erase hmem).sum_nat
  rw [List.sum_cons] at hsum
  have htotal : s'.unread + s'.inTransit + n = s.unread + s.inTransit := by
    change s.unread + (s.owed.erase n).sum + n = s.unread + s.owed.sum
    omega
  refine ⟨h.verified, h.bufs, ?_, h.charge_le, h.payload_le, ?_, ?_, ?_⟩
  · change i32 (s.bucket + i32 n) =
      i32 (config.maxReceiveBuffer - ((s'.unread + s'.inTransit : ℕ) : Int)
      + ((s.uncharged : ℕ) : Int))
    rw [i32_add_i32, h.bucket_eq, i32_i32_add, ← htotal]
    congr 1
    push_cast
    ring
  · intro hopen
    have := h.bound hopen
    change _ ≤ config.maxReceiveBuffer + 65534
    omega
  · intro hopen hp
    have := h.admitted hopen hp
    change _ < config.maxReceiveBuffer
    omega
  · intro hopen m hm
    have := h.pushed hopen m hm
    change _ < config.maxReceiveBuffer + (m : Int)
    omega

private theorem Accounted.discard (h : s.Accounted config) {i : ℕ} {old : Inner} {n : ℕ}
    (hlive : s.live i = some old) (new : Inner) (hok : new.buf.Ok) (hweight : weight new = 0)
    (hn : n = old.buf.len) (hinners : s'.inners = (s.setInner i new).inners)
    (hbucket : s'.bucket = s.bucket)
    (hclosed : s'.closed = s.closed) (hrecv : s'.recv = s.recv)
    (howed : s'.owed = if n > 0 then s.owed ++ [n] else s.owed) : s'.Accounted config := by
  have hsum := unread_setInner hlive new
  have hlen := (h.buf_ok hlive).len_eq
  have hunread : s'.unread = (s.setInner i new).unread := by rw [unread, hinners, unread]
  have htransit : s'.inTransit = s.inTransit + n := by
    rw [inTransit, howed, inTransit]
    split_ifs with hpos
    · rw [List.sum_append, List.sum_singleton]
    · omega
  refine h.of_eq ?_ hbucket (by omega) (fun hc => hclosed ▸ hc) (.inl hrecv)
  rw [hinners]
  exact h.bufs_set hok

theorem Accounted.neutral (h : s.Accounted config) (hinners : s'.inners = s.inners)
    (hbucket : s'.bucket = s.bucket) (howed : s'.owed = s.owed)
    (hclosed : s'.closed = false → s.closed = false)
    (hrecv : s'.recv = s.recv ∨ (s'.recv = .tokens ∨ s'.recv = .stopped) ∧ s.locked = false) :
    s'.Accounted config := by
  refine h.of_eq (hinners ▸ h.bufs) hbucket ?_ hclosed hrecv
  rw [unread, hinners, inTransit, howed, ← unread, ← inTransit]

theorem find_eq_some {sid : UInt32} {i : ℕ} {inner : Inner}
    (h : ((s.map.lookup sid).bind fun i => (s.live i).map fun inner => (i, inner)) = some (i, inner)) :
    s.live i = some inner := by
  obtain ⟨j, -, hj⟩ := Option.bind_eq_some_iff.mp h
  obtain ⟨inner', hlive, heq⟩ := Option.map_eq_some_iff.mp hj
  cases heq
  exact hlive

private theorem recvFrame_accounted (h : s.Accounted config) (hnext : s.next config a = some s')
    (ha : a = .nop ∨ (∃ sid, a = .syn sid) ∨ (∃ sid, a = .fin sid) ∨ ∃ sid data, a = .psh sid data) :
    s'.Accounted config := by
  rcases ha with rfl | ⟨sid, rfl⟩ | ⟨sid, rfl⟩ | ⟨sid, data, rfl⟩
  · simp only [next] at hnext
    split_ifs at hnext with hheader
    cases hnext
    exact h.neutral rfl rfl rfl id (.inr ⟨.inl rfl, by rw [locked, hheader]⟩)
  · simp only [next] at hnext
    split_ifs at hnext with hheader
    have hlocked : s.locked = false := by rw [locked, hheader]
    split at hnext <;> cases hnext
    · exact h.neutral rfl rfl rfl id (.inr ⟨.inl rfl, hlocked⟩)
    · refine h.of_eq (h.bufs_add sid) rfl ?_ id (.inr ⟨.inl rfl, hlocked⟩)
      change (s.addInner sid).unread + s.inTransit = _
      rw [unread_addInner]
  · simp only [next] at hnext
    split_ifs at hnext with hheader
    have hlocked : s.locked = false := by rw [locked, hheader]
    have htokens : ({ s with recv := .tokens } : State).Accounted config :=
      h.neutral rfl rfl rfl id (.inr ⟨.inl rfl, hlocked⟩)
    split at hnext
    next i inner hfind =>
      cases hnext
      have hlive := find_eq_some (s := { s with recv := .tokens }) hfind
      exact htokens.setFlags hlive _ rfl (live_eq_some_iff.mp hlive).2
    next =>
      cases hnext
      exact htokens
  · simp only [next] at hnext
    split_ifs at hnext with hheader hempty
    · cases hnext
      exact h.neutral rfl rfl rfl id (.inr ⟨.inl rfl, by rw [locked, hheader.1]⟩)
    · cases hnext
      exact h.payload hheader.1 sid (fun hnil => hempty (List.isEmpty_iff.mpr hnil)) hheader.2

theorem Accounted.next (h : s.Accounted config) (hnext : s.next config a = some s') :
    s'.Accounted config := by
  cases a with
  | nop => exact recvFrame_accounted h hnext (.inl rfl)
  | syn sid => exact recvFrame_accounted h hnext (.inr (.inl ⟨sid, rfl⟩))
  | fin sid => exact recvFrame_accounted h hnext (.inr (.inr (.inl ⟨sid, rfl⟩)))
  | psh sid data => exact recvFrame_accounted h hnext (.inr (.inr (.inr ⟨sid, data, rfl⟩)))
  | testTokens =>
    simp only [State.next] at hnext
    split_ifs at hnext with hpass
    cases hnext
    exact h.testTokens hpass.1 hpass.2
  | recvStops =>
    simp only [State.next] at hnext
    split_ifs at hnext with hlocked
    cases hnext
    exact h.neutral rfl rfl rfl id (.inr ⟨.inr rfl, by simpa using hlocked⟩)
  | push =>
    simp only [State.next] at hnext
    split at hnext
    next sid data hpayload =>
      split at hnext
      next i inner hfind =>
        cases hnext
        have hlive := find_eq_some hfind
        have hdata := (h.payload_le sid data hpayload).1
        refine h.push hpayload (h.bufs_set ((h.buf_ok hlive).pushBytes hdata)) rfl rfl rfl ?_
        change (s.setInner i _).unread + s.inTransit = _
        rw [unread_push hlive]
        omega
      next =>
        cases hnext
        exact h.neutral rfl rfl rfl id (.inr ⟨.inl rfl, by rw [locked, hpayload]⟩)
    next => cases hnext
  | charge =>
    simp only [State.next] at hnext
    split at hnext
    next n hcharge =>
      cases hnext
      exact h.charge hcharge
    next => cases hnext
  | create sid =>
    cases hnext
    refine h.of_eq (h.bufs_add sid) rfl ?_ id (.inl rfl)
    rw [unread_addInner]
    rfl
  | register i =>
    simp only [State.next] at hnext
    split_ifs at hnext
    obtain ⟨inner, -, rfl⟩ := Option.map_eq_some_iff.mp hnext
    exact h.neutral rfl rfl rfl id (.inl rfl)
  | read i size =>
    obtain ⟨inner, hlive, rfl⟩ := Option.map_eq_some_iff.mp hnext
    exact h.took hlive ((h.buf_ok hlive).takeFront _ _) (StreamBuf.unread_takeFront _ _)
  | readChunk i =>
    obtain ⟨inner, hlive, rfl⟩ := Option.map_eq_some_iff.mp hnext
    exact h.took hlive ((h.buf_ok hlive).popChunk _) (StreamBuf.unread_popChunk _)
  | returnTokens n =>
    simp only [State.next] at hnext
    split_ifs at hnext with hmem
    cases hnext
    exact h.returnTokens hmem
  | close i =>
    obtain ⟨inner, hlive, rfl⟩ := Option.map_eq_some_iff.mp hnext
    split_ifs
    · exact h
    · exact (h.setFlags hlive { inner with die := true, writeClosed := true } rfl
        (live_eq_some_iff.mp hlive).2).neutral rfl rfl rfl id (.inl rfl)
  | recycle i =>
    simp only [State.next] at hnext
    split_ifs at hnext
    obtain ⟨inner, hlive, rfl⟩ := Option.map_eq_some_iff.mp hnext
    exact h.discard hlive { inner with buf := inner.buf.recycleTokens.1 }
      StreamBuf.Ok.recycleTokens (by simp [weight, StreamBuf.recycleTokens, StreamBuf.unread]) rfl rfl
      rfl rfl rfl rfl
  | leave i =>
    simp only [State.next] at hnext
    split_ifs at hnext
    obtain ⟨inner, -, rfl⟩ := Option.map_eq_some_iff.mp hnext
    exact h.neutral rfl rfl rfl id (.inl rfl)
  | closeWrite i =>
    obtain ⟨inner, hlive, rfl⟩ := Option.map_eq_some_iff.mp hnext
    exact h.setFlags hlive _ rfl (live_eq_some_iff.mp hlive).2
  | cleanup i =>
    simp only [State.next] at hnext
    split_ifs at hnext
    obtain ⟨inner, hlive, rfl⟩ := Option.map_eq_some_iff.mp hnext
    split_ifs
    · exact (h.setFlags hlive { inner with die := true } rfl
        (live_eq_some_iff.mp hlive).2).neutral rfl rfl rfl id (.inl rfl)
    · exact h
  | dropInner i =>
    simp only [State.next] at hnext
    split_ifs at hnext
    obtain ⟨inner, hlive, rfl⟩ := Option.map_eq_some_iff.mp hnext
    have hok := h.buf_ok hlive
    exact h.discard hlive { inner with dropped := true } hok (by simp [weight]) rfl rfl rfl rfl rfl rfl
  | closeSession =>
    cases hnext
    exact h.neutral rfl rfl rfl (by simp) (.inl rfl)
  | cancelDie =>
    simp only [State.next] at hnext
    split_ifs at hnext
    cases hnext
    exact h.neutral rfl rfl rfl id (.inl rfl)
  | takeMap =>
    simp only [State.next] at hnext
    split_ifs at hnext
    cases hnext
    exact h.neutral rfl rfl rfl id (.inl rfl)
  | sessionClose i =>
    simp only [State.next] at hnext
    split_ifs at hnext
    obtain ⟨inner, hlive, rfl⟩ := Option.map_eq_some_iff.mp hnext
    exact h.setFlags hlive _ rfl (live_eq_some_iff.mp hlive).2

theorem accounted_new {config : Config} (h : verifyConfig config = .ok ()) :
    (new config).Accounted config := by
  have hv := verified_of_verifyConfig h
  have hpos := hv.receive_pos
  refine ⟨hv, by simp [new], ?_, by simp [new], by simp [new], ?_, by simp [new], by simp [new]⟩
  · simp [new, unread, inTransit, uncharged]
  · intro _
    simp only [new, unread, inTransit, List.map_nil, List.sum_nil, Nat.add_zero, Nat.cast_zero]
    omega

end State

/-- After every schedule every buffer's `len` is the sum of its payload lengths and none of these is
empty, and while the session is not closed the unread bytes and the tokens on their way back stay
within the receive buffer and one payload. Whenever no task is half-way through moving tokens, the
bucket is the receive buffer less the unread bytes, in wrapping `i32` arithmetic and exactly as long
as it does not wrap. -/
theorem tokens_conserved {config : Config} (hconfig : verifyConfig config = .ok ()) (as : List Action)
    {s : State} (hrun : exec (State.next config) (State.new config) as = some s) :
    (∀ inner ∈ s.inners, inner.buf.Ok) ∧
      (s.closed = false →
        ((s.unread + s.inTransit : ℕ) : Int) ≤ config.maxReceiveBuffer + 65534) ∧
      (s.Quiet → s.bucket = i32 (config.maxReceiveBuffer - s.unread) ∧
        ((s.unread : Int) ≤ config.maxReceiveBuffer + 2147483648 →
          s.bucket + s.unread = config.maxReceiveBuffer)) := by
  have hacc : s.Accounted config := exec_invariant_all (State.Accounted config)
    (fun _ _ _ hi hn => hi.next hn) (State.accounted_new hconfig) hrun
  refine ⟨hacc.bufs, hacc.bound, ?_⟩
  intro hquiet
  obtain ⟨howed, hlocked⟩ := hquiet
  have htransit : s.inTransit = 0 := by rw [State.inTransit, howed]; rfl
  have hbucket := hacc.bucket_eq
  rw [State.uncharged_of_not_locked hlocked, htransit, Nat.add_zero, Nat.cast_zero,
    Int.add_zero] at hbucket
  refine ⟨hbucket, ?_⟩
  intro hle
  have hmax := hacc.verified.receive_le
  rw [MAX_BUFFER_LIMIT] at hmax
  rw [hbucket, i32_of_range (by omega) (by omega)]
  omega

/-- A payload of three bytes arrives and two of them are read. -/
theorem tokens_conserved_three :
    ∃ s, exec (State.next defaultConfig) (State.new defaultConfig)
        [.testTokens, .syn 2, .testTokens, .psh 2 [1, 2, 3], .push, .charge, .read 0 2,
          .returnTokens 2] = some s ∧
      s.unread = 1 ∧ s.bucket + s.unread = defaultConfig.maxReceiveBuffer := by
  have hrun : ∃ s, exec (State.next defaultConfig) (State.new defaultConfig)
      [.testTokens, .syn 2, .testTokens, .psh 2 [1, 2, 3], .push, .charge, .read 0 2,
        .returnTokens 2] = some s ∧ s.Quiet ∧ s.unread = 1 := by decide +kernel
  obtain ⟨s, hs, hquiet, hunread⟩ := hrun
  obtain ⟨-, -, hexact⟩ := tokens_conserved (by decide) _ hs
  exact ⟨s, hs, hunread, (hexact hquiet).2 (by rw [hunread]; decide)⟩

def tinyConfig : Config := { defaultConfig with maxReceiveBuffer := 1, maxStreamBuffer := 1 }

/-- One payload takes the bucket below zero; the session is marked closed, so that `recv_loop` no
longer waits for tokens and lets a second one in before the map is taken. -/
def overdrawn (first second : Bytes) : List Action :=
  [.testTokens, .syn 2, .testTokens, .psh 2 first, .push, .charge, .closeSession, .testTokens,
    .psh 2 second, .push, .charge]

private theorem overdrawn_unread {first second : Bytes} (hfirst : first ≠ [])
    (hle : first.length ≤ 65535) (hsecond : second ≠ []) (hle' : second.length ≤ 65535) :
    ∃ s, exec (State.next tinyConfig) (State.new tinyConfig) (overdrawn first second) = some s ∧
      s.Quiet ∧ s.unread = first.length + second.length := by
  have hone : i32 1 = 1 := by decide
  simp [exec, overdrawn, State.next, State.new, tinyConfig, State.addInner, State.setInner,
    State.live, State.Quiet, State.locked, State.unread, StreamBuf.pushBytes, StreamBuf.unread,
    Option.filter, hfirst, hle, hsecond, hle', hone]

/-- The unread bytes exceed the receive buffer by more than one payload. -/
theorem unread_over_bound : verifyConfig tinyConfig = .ok () ∧
    ∃ s, exec (State.next tinyConfig) (State.new tinyConfig)
        (overdrawn (List.replicate 65535 0) [0]) = some s ∧
      s.Quiet ∧ tinyConfig.maxReceiveBuffer + 65534 < s.unread := by
  refine ⟨by decide, ?_⟩
  have hne : List.replicate 65535 (0 : UInt8) ≠ [] := by
    intro hnil
    have hzero := congrArg List.length hnil
    rw [List.length_replicate] at hzero
    cases hzero
  obtain ⟨s, hrun, hquiet, hunread⟩ := overdrawn_unread hne
    (Nat.le_of_eq List.length_replicate) (List.cons_ne_nil 0 []) (by decide)
  refine ⟨s, hrun, hquiet, ?_⟩
  rw [hunread, List.length_replicate]
  decide

end Kcptun.Smux.Bucket
