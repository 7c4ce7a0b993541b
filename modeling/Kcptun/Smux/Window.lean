/- Kcptun/Smux/Window
   source: crates/smux/src/stream.rs (account_read, try_read, read_chunk, send_window_update,
     write_v2, write_frame, update, queue_window_update)
   digest: Version-2 flow control between one writer and one reader: window updates, the two tasks
     that send them, and when a blocked writer is owed one. -/

import Kcptun.Lib.Interleaving
import Kcptun.Smux.StreamBuf
import Mathlib.Tactic.Linarith

set_option autoImplicit false
set_option relaxedAutoImplicit false

namespace Kcptun.Smux.Window

open Kcptun.Lib Kcptun.Lib.LittleEndian

/-- A window update: the `consumed` field of the frame, and as history the number of bytes read when
it became due. -/
structure Upd where
  consumed : UInt32
  count : ℕ
deriving DecidableEq, Repr

/-- Where `write_v2` is. `sending` may still send `quota` bytes of `rest` without looking at the
window again; `counting` has handed over a frame and waits for its answer, the frame not yet added to
`num_written`. -/
inductive WriterPc where
  | idle
  | check (rest : Bytes)
  | sending (rest : Bytes) (quota : ℕ)
  | counting (rest : Bytes) (quota size : ℕ)
  | waiting (rest : Bytes)
deriving DecidableEq, Repr

def WriterPc.waits : WriterPc → Bool
  | .waiting _ => true
  | _ => false

def WriterPc.sends : WriterPc → Bool
  | .sending _ _ => true
  | _ => false

/-- Where the reader is: `updating` is `read` before its update is admitted to the shaper. -/
inductive ReaderPc where
  | idle
  | updating (u : Upd)
deriving DecidableEq, Repr

/-- Where the sender task of `queue_window_update` is. -/
inductive TaskPc where
  | absent
  | take
  | sending (u : Upd)
deriving DecidableEq, Repr

/-- One direction of a stream. `dataWire` are the payloads on their way to the reader, `queued` the
updates in the shaper, `updWire` those on their way to the writer. The last four fields are history:
bytes sent and read, the count of the newest update that became due, and of the last one applied. -/
structure State where
  numWritten : UInt32 := 0
  peerConsumed : UInt32 := 0
  peerWindow : UInt32 := INITIAL_PEER_WINDOW
  updateEvent : Bool := false
  writer : WriterPc := .idle
  dataWire : List Bytes := []
  buf : StreamBuf := {}
  reader : ReaderPc := .idle
  pending : Upd := ⟨0, 0⟩
  taskRunning : Bool := false
  task : TaskPc := .absent
  queued : List Upd := []
  updWire : List Upd := []
  sent : ℕ := 0
  read : ℕ := 0
  due : ℕ := 0
  applied : ℕ := 0
deriving DecidableEq, Repr

/-- The choices of the scheduler. The order in which requests leave the shaper is one of them; a
time-out of the reader or the task is a read deadline that has passed when the update asks for
admission, `writerWakeup` a change of the write deadline while the writer waits, and
`writerTimesOut` a write deadline that passes. -/
inductive Action where
  | write (data : Bytes)
  | writer
  | wakeWriter
  | writerWakeup
  | writerTimesOut
  | deliverData
  | read (size : ℕ)
  | readChunk
  | readerQueues
  | readerTimesOut
  | task
  | taskQueues
  | taskTimesOut
  | writeUpd (u : Upd)
  | deliverUpd
deriving DecidableEq, Repr

namespace State

def inflight (s : State) : Int := i32 (s.numWritten - s.peerConsumed).toNat

def win (s : State) : Int := i32 (i32 s.peerWindow.toNat - s.inflight)

def writerStep (frameSize : ℕ) (s : State) : Option State :=
  match s.writer with
  | .idle | .waiting _ => none
  | .check rest =>
    if s.inflight < 0 then some { s with writer := .idle }
    else if s.win > 0 then
      some { s with writer := .sending rest (min rest.length s.win.toNat) }
    else some { s with writer := if rest.isEmpty then .idle else .waiting rest }
  | .sending rest quota =>
    if quota = 0 then some { s with writer := if rest.isEmpty then .idle else .waiting rest }
    else
      let size := min quota frameSize
      some { s with
        dataWire := s.dataWire ++ [rest.take size]
        sent := s.sent + (rest.take size).length
        writer := .counting rest quota (rest.take size).length }
  | .counting rest quota size =>
    some { s with
      numWritten := s.numWritten + UInt32.ofNat size
      writer := .sending (rest.drop size) (quota - size) }

/-- A write ends at its deadline: a frame that waits for admission is refused, one that was admitted
still goes out, and both are added to `num_written`. -/
def writerTimeOut (frameSize : ℕ) (s : State) : Option State :=
  match s.writer with
  | .idle | .check _ => none
  | .sending rest quota =>
    if quota = 0 then none
    else some { s with
      numWritten := s.numWritten + UInt32.ofNat (rest.take (min quota frameSize)).length
      writer := .idle }
  | .counting _ _ size => some { s with
      numWritten := s.numWritten + UInt32.ofNat size
      writer := .idle }
  | .waiting _ => some { s with writer := .idle }

/-- `read`: the critical section of `try_read`, then the update goes out through the reader itself. -/
def afterRead (s : State) (taken : StreamBuf × Bytes × UInt32) : State :=
  let count := s.read + taken.2.1.length
  let s := { s with buf := taken.1, read := count }
  if taken.2.1.isEmpty ∨ taken.2.2 = 0 then s
  else { s with due := count, reader := .updating ⟨taken.2.2, count⟩ }

/-- `read_chunk`: the payload is returned at once and the update left to the sender task. -/
def afterChunk (s : State) (taken : StreamBuf × Bytes × UInt32) : State :=
  let count := s.read + taken.2.1.length
  let s := { s with buf := taken.1, read := count }
  if taken.2.1.isEmpty ∨ taken.2.2 = 0 then s
  else { s with
    due := count
    pending := ⟨taken.2.2, count⟩
    taskRunning := true
    task := if s.taskRunning then s.task else .take }

/-- `writerConfig` is the writer's configuration, `config` the reader's. -/
def next (writerConfig config : Config) (s : State) : Action → Option State
  | .write data =>
    if s.writer = .idle ∧ data ≠ [] then some { s with writer := .check data } else none
  | .writer => s.writerStep writerConfig.maxFrameSize.toNat
  | .wakeWriter =>
    match s.writer with
    | .waiting rest =>
      if s.updateEvent then some { s with updateEvent := false, writer := .check rest } else none
    | _ => none
  | .writerWakeup =>
    match s.writer with
    | .waiting rest => some { s with writer := .check rest }
    | _ => none
  | .writerTimesOut => s.writerTimeOut writerConfig.maxFrameSize.toNat
  | .deliverData =>
    match s.dataWire with
    | [] => none
    | data :: rest => some { s with dataWire := rest, buf := s.buf.pushBytes data }
  | .read size =>
    if s.reader = .idle ∧ 0 < size then some (s.afterRead (s.buf.takeFront config size)) else none
  | .readChunk =>
    if s.reader = .idle then some (s.afterChunk (s.buf.popChunk config)) else none
  | .readerQueues =>
    match s.reader with
    | .updating u => some { s with queued := s.queued ++ [u], reader := .idle }
    | .idle => none
  | .readerTimesOut =>
    match s.reader with
    | .updating _ => some { s with reader := .idle }
    | .idle => none
  | .task =>
    match s.task with
    | .take =>
      if s.pending.consumed = 0 then
        some { s with taskRunning := false, task := .absent }
      else some { s with pending := ⟨0, 0⟩, task := .sending s.pending }
    | _ => none
  | .taskQueues =>
    match s.task with
    | .sending u => some { s with queued := s.queued ++ [u], task := .take }
    | _ => none
  | .taskTimesOut =>
    match s.task with
    | .sending _ => some { s with pending := ⟨0, 0⟩, taskRunning := false, task := .absent }
    | _ => none
  | .writeUpd u =>
    if u ∈ s.queued then some { s with queued := s.queued.erase u, updWire := s.updWire ++ [u] }
    else none
  | .deliverUpd =>
    match s.updWire with
    | [] => none
    | u :: rest => some { s with
        updWire := rest
        peerConsumed := u.consumed
        peerWindow := UInt32.ofInt config.maxStreamBuffer
        updateEvent := true
        applied := u.count }

def pool (s : State) : List Upd :=
  (match s.reader with | .updating u => [u] | .idle => []) ++
    (if s.pending.consumed = 0 then [] else [s.pending]) ++
    (match s.task with | .sending u => [u] | _ => []) ++ s.queued

/-- The writer waits without window, everything it sent has been read, and no update is on its way. -/
def Stuck (s : State) : Prop :=
  s.writer.waits = true ∧ s.win ≤ 0 ∧ s.read = s.sent ∧ s.pool = [] ∧ s.updWire = []

/-- The read of `bytes` brings the 32-bit count to 0 with an update due: `consumed` is then the value
that means no update. -/
def LosesCount (config : Config) (s : State) (bytes : Bytes) : Prop :=
  s.buf.numRead + UInt32.ofNat bytes.length = 0 ∧
    s.buf.incr + UInt32.ofNat bytes.length ≥ UInt32.ofInt (config.maxStreamBuffer.tdiv 2)

/-- No update is given up at a deadline and no frame refused at one, no update is due at a count of
0, and updates reach the wire in the order in which they became due. -/
def Reported (config : Config) (s : State) : Action → Prop
  | .readerTimesOut | .taskTimesOut => False
  | .writerTimesOut => s.writer.sends = false
  | .read size => (s.buf.takeFront config size).2.1 ≠ [] →
      ¬s.LosesCount config (s.buf.takeFront config size).2.1
  | .readChunk => (s.buf.popChunk config).2.1 ≠ [] → ¬s.LosesCount config (s.buf.popChunk config).2.1
  | .writeUpd u => ∀ v ∈ s.pool, u.count ≤ v.count
  | _ => True

instance (config : Config) (s : State) (a : Action) : Decidable (s.Reported config a) := by
  cases a <;> unfold Reported <;> unfold LosesCount <;> infer_instance

instance (s : State) : Decidable s.Stuck := by
  unfold Stuck
  infer_instance

end State

/-- The read counters against the history: fewer bytes than an update is due for have been read since
the last one. An empty read attempt at a count of 0 restarts `incr` without an update, so there
`incr` may be behind. -/
structure Counted (half : UInt32) (read due : ℕ) (numRead incr : UInt32) : Prop where
  numRead_eq : numRead = UInt32.ofNat read
  first : due = 0 → read = 0
  behind : ∃ d, read = due + d ∧ d < max half.toNat 1 ∧ (incr.toNat = d ∨ incr = 0 ∧ numRead = 0)

section Counters

variable {half numRead incr : UInt32} {read due n : ℕ}

private theorem Counted.restart (h : Counted half read due numRead incr)
    (hdue : incr ≥ half ∨ numRead = 0) : Counted half read due numRead 0 := by
  refine ⟨h.numRead_eq, h.first, ?_⟩
  obtain ⟨d, hread, hd, hincr⟩ := h.behind
  refine ⟨d, hread, hd, ?_⟩
  by_cases hzero : numRead = 0
  · exact Or.inr ⟨rfl, hzero⟩
  · have hle : half.toNat ≤ incr.toNat := UInt32.le_iff_toNat_le.mp (hdue.resolve_right hzero)
    have heq := hincr.resolve_right (fun hc => hzero hc.2)
    exact Or.inl (by rw [UInt32.toNat_zero]; omega)

private theorem Counted.report (h : Counted half read due numRead incr) (hn : 0 < n) :
    Counted half (read + n) (read + n) (numRead + UInt32.ofNat n) 0 := by
  refine ⟨by rw [h.numRead_eq, UInt32.ofNat_add], by omega, 0, by omega, by omega, Or.inl rfl⟩

private theorem Counted.carry (h : Counted half read due numRead incr)
    (hhalf : half.toNat ≤ 2147483648)
    (hn : n ≤ 65535) (hlow : incr + UInt32.ofNat n < half) (hold : numRead ≠ 0) :
    Counted half (read + n) due (numRead + UInt32.ofNat n) (incr + UInt32.ofNat n) := by
  obtain ⟨d, hread, hd, hincr⟩ := h.behind
  have heq := hincr.resolve_right (fun hc => hold hc.2)
  have hsum : (incr + UInt32.ofNat n).toNat = d + n := by
    rw [UInt32.toNat_add, UInt32.toNat_ofNat', heq]
    omega
  have hlow' : d + n < half.toNat := by
    rw [← hsum]
    exact UInt32.lt_iff_toNat_lt.mp hlow
  refine ⟨by rw [h.numRead_eq, UInt32.ofNat_add], ?_, d + n, by omega, by omega, Or.inl hsum⟩
  intro hzero
  have hread := h.first hzero
  rw [h.numRead_eq, hread] at hold
  exact absurd rfl hold

end Counters

/-- What a critical section of the reader does to the buffer. -/
structure Taken (config : Config) (buf : StreamBuf) (taken : StreamBuf × Bytes × UInt32) : Prop where
  counters :
    taken.1.numRead = (buf.accountRead taken.2.1.length config.maxStreamBuffer).1.numRead ∧
      taken.1.incr = (buf.accountRead taken.2.1.length config.maxStreamBuffer).1.incr ∧
      taken.2.2 = (buf.accountRead taken.2.1.length config.maxStreamBuffer).2
  small : (∀ c ∈ buf.chunks, c.length ≤ 65535) →
    taken.2.1.length ≤ 65535 ∧ ∀ c ∈ taken.1.chunks, c.length ≤ 65535

private theorem accountRead_counters {a b : StreamBuf} (hnumRead : a.numRead = b.numRead)
    (hincr : a.incr = b.incr) (n : ℕ) (m : Int) :
    (a.accountRead n m).1.numRead = (b.accountRead n m).1.numRead ∧
      (a.accountRead n m).1.incr = (b.accountRead n m).1.incr ∧
      (a.accountRead n m).2 = (b.accountRead n m).2 := by
  unfold StreamBuf.accountRead
  dsimp only
  rw [hnumRead, hincr]
  split_ifs <;> exact ⟨rfl, rfl, rfl⟩

theorem takeFront_taken {config : Config} (hversion : config.version = 2) (buf : StreamBuf)
    (size : ℕ) : Taken config buf (buf.takeFront config size) := by
  unfold StreamBuf.takeFront StreamBuf.consumeFront
  cases hchunks : buf.chunks with
  | nil =>
    simp only [hversion, if_true]
    exact ⟨⟨rfl, rfl, rfl⟩, fun _ => ⟨by simp, by simp [hchunks]⟩⟩
  | cons front rest =>
    simp only [hversion, if_true]
    refine ⟨accountRead_counters (by rfl) (by rfl) _ _, ?_⟩
    intro hall
    rw [hchunks] at hall
    have hfront := hall front List.mem_cons_self
    refine ⟨by rw [List.length_take]; omega, ?_⟩
    intro c hc
    rw [StreamBuf.chunks_accountRead] at hc
    dsimp only at hc
    split_ifs at hc with hleft
    · exact hall c (List.mem_cons_of_mem front hc)
    · rcases List.mem_cons.mp hc with rfl | hc
      · rw [List.length_drop]
        omega
      · exact hall c (List.mem_cons_of_mem front hc)

theorem popChunk_taken {config : Config} (hversion : config.version = 2) (buf : StreamBuf) :
    Taken config buf (buf.popChunk config) := by
  unfold StreamBuf.popChunk StreamBuf.pop
  cases hchunks : buf.chunks with
  | nil =>
    simp only [hversion, if_true]
    exact ⟨⟨rfl, rfl, rfl⟩, fun _ => ⟨by simp, by simp [hchunks]⟩⟩
  | cons front rest =>
    simp only [hversion, if_true]
    refine ⟨accountRead_counters (by rfl) (by rfl) _ _, ?_⟩
    intro hall
    rw [hchunks] at hall
    refine ⟨hall front List.mem_cons_self, ?_⟩
    intro c hc
    rw [StreamBuf.chunks_accountRead] at hc
    exact hall c (List.mem_cons_of_mem front hc)

/-- The updates on their way: the newest count reported is in the pool, or else is the last one that
the writer will apply. -/
structure Updates (pool wire : List Upd) (applied due : ℕ) : Prop where
  consumed : ∀ u ∈ pool ++ wire, u.consumed = UInt32.ofNat u.count
  within : ∀ u ∈ pool, u.count ≤ due
  in_pool : pool ≠ [] → ∃ u ∈ pool, u.count = due
  on_wire : pool = [] → (wire.map Upd.count).getLastD applied = due

namespace Updates

variable {pool pool' wire : List Upd} {applied due : ℕ} {u : Upd}

private theorem perm (h : Updates pool wire applied due) (hperm : pool.Perm pool') :
    Updates pool' wire applied due := by
  refine ⟨?_, fun v hv => h.within v (hperm.mem_iff.mpr hv), ?_, ?_⟩
  · intro v hv
    apply h.consumed v
    rw [List.mem_append] at hv ⊢
    exact hv.imp_left hperm.mem_iff.mpr
  · intro hne
    obtain ⟨v, hv, hcount⟩ := h.in_pool (fun hnil => hne (by rwa [hnil, List.nil_perm] at hperm))
    exact ⟨v, hperm.mem_iff.mp hv, hcount⟩
  · intro hnil
    rw [hnil, List.perm_nil] at hperm
    exact h.on_wire hperm

private theorem join (h : Updates pool wire applied due) (hdue : due ≤ u.count)
    (hconsumed : u.consumed = UInt32.ofNat u.count) (hmem : u ∈ pool')
    (hsub : ∀ v ∈ pool', v = u ∨ v ∈ pool) : Updates pool' wire applied u.count := by
  refine ⟨?_, ?_, fun _ => ⟨u, hmem, rfl⟩, ?_⟩
  · intro v hv
    rcases List.mem_append.mp hv with hv | hv
    · rcases hsub v hv with rfl | hold
      · exact hconsumed
      · exact h.consumed v (List.mem_append_left wire hold)
    · exact h.consumed v (List.mem_append_right pool hv)
  · intro v hv
    rcases hsub v hv with rfl | hold
    · exact le_rfl
    · exact (h.within v hold).trans hdue
  · intro hnil
    rw [hnil] at hmem
    cases hmem

private theorem send (h : Updates pool wire applied due) (hperm : pool.Perm (u :: pool'))
    (holdest : ∀ v ∈ pool, u.count ≤ v.count) : Updates pool' (wire ++ [u]) applied due := by
  have hu : u ∈ pool := hperm.mem_iff.mpr List.mem_cons_self
  have hsub : ∀ v ∈ pool', v ∈ pool := fun v hv => hperm.mem_iff.mpr (List.mem_cons_of_mem u hv)
  obtain ⟨newest, hnewest, hcount⟩ := h.in_pool (List.ne_nil_of_mem hu)
  refine ⟨?_, fun v hv => h.within v (hsub v hv), ?_, ?_⟩
  · intro v hv
    apply h.consumed v
    rw [← List.append_assoc, List.mem_append, List.mem_append, List.mem_singleton] at hv
    rcases hv with (hv | hv) | rfl
    · exact List.mem_append_left wire (hsub v hv)
    · exact List.mem_append_right pool hv
    · exact List.mem_append_left wire hu
  · intro hne
    rcases List.mem_cons.mp (hperm.mem_iff.mp hnewest) with rfl | hmem
    · -- nothing left in the pool is older or newer
      obtain ⟨v, hv⟩ := List.exists_mem_of_ne_nil pool' hne
      have hlow := holdest v (hsub v hv)
      have hhigh := h.within v (hsub v hv)
      exact ⟨v, hv, by omega⟩
    · exact ⟨newest, hmem, hcount⟩
  · intro hnil
    rw [hnil] at hperm
    have hsame := List.mem_singleton.mp (hperm.mem_iff.mp hnewest)
    rw [List.map_append, List.map_singleton, List.getLastD_concat, ← hsame, hcount]

private theorem apply (h : Updates pool (u :: wire) applied due) :
    Updates pool wire u.count due := by
  refine ⟨?_, h.within, h.in_pool, ?_⟩
  · intro v hv
    apply h.consumed v
    rw [List.mem_append] at hv ⊢
    exact hv.imp_right (List.mem_cons_of_mem u)
  · intro hnil
    have hlast := h.on_wire hnil
    rwa [List.map_cons, List.getLastD_cons] at hlast

end Updates

def WriterPc.uncounted : WriterPc → ℕ
  | .counting _ _ size => size
  | _ => 0

private theorem WriterPc.uncounted_of_waits {pc : WriterPc} (h : pc.waits = true) :
    pc.uncounted = 0 := by
  cases pc with
  | counting rest quota size => cases h
  | _ => rfl

/-- What every reachable state satisfies as long as no update is lost or overtaken and no frame
refused. -/
structure Inv (config : Config) (s : State) : Prop where
  small : ∀ c ∈ s.buf.chunks ++ s.dataWire, c.length ≤ 65535
  counted : Counted (UInt32.ofInt (config.maxStreamBuffer.tdiv 2)) s.read s.due s.buf.numRead
    s.buf.incr
  written : s.numWritten + UInt32.ofNat s.writer.uncounted = UInt32.ofNat s.sent
  updates : Updates s.pool s.updWire s.applied s.due
  task : s.taskRunning = false → s.task = .absent
  peer : s.peerConsumed = UInt32.ofNat s.applied
  window : s.peerWindow = INITIAL_PEER_WINDOW ∧ s.applied = 0 ∨
    s.peerWindow = UInt32.ofInt config.maxStreamBuffer

private theorem inv_initial (config : Config) : Inv config {} := by
  refine ⟨by simp, ⟨rfl, fun _ => rfl, 0, rfl, by omega, Or.inl rfl⟩, rfl, ?_, fun _ => rfl, rfl,
    Or.inl ⟨rfl, rfl⟩⟩
  exact ⟨by simp [State.pool], by simp [State.pool], by simp [State.pool], fun _ => rfl⟩

section Steps

variable {writerConfig config : Config} {s s' : State} {a : Action}

private theorem Inv.writerStep {frameSize : ℕ} (h : Inv config s) (hframe : frameSize ≤ 65535)
    (hstep : s.writerStep frameSize = some s') : Inv config s' := by
  have hwritten := h.written
  unfold State.writerStep at hstep
  split at hstep
  next => cases hstep
  next => cases hstep
  next rest hpc =>
    rw [hpc] at hwritten
    split_ifs at hstep <;> cases hstep <;>
      exact ⟨h.small, h.counted, hwritten, h.updates, h.task, h.peer, h.window⟩
  next rest quota hpc =>
    rw [hpc] at hwritten
    have hwritten : s.numWritten + 0 = UInt32.ofNat s.sent := hwritten
    rw [UInt32.add_zero] at hwritten
    split_ifs at hstep <;> cases hstep
    · exact ⟨h.small, h.counted, by rw [← hwritten]; exact UInt32.add_zero _, h.updates, h.task,
        h.peer, h.window⟩
    · exact ⟨h.small, h.counted, by rw [← hwritten]; exact UInt32.add_zero _, h.updates, h.task,
        h.peer, h.window⟩
    · refine ⟨?_, h.counted, ?_, h.updates, h.task, h.peer, h.window⟩
      · intro c hc
        rw [← List.append_assoc, List.mem_append, List.mem_singleton] at hc
        rcases hc with hc | rfl
        · exact h.small c hc
        · rw [List.length_take]
          omega
      · rw [hwritten, UInt32.ofNat_add]
        rfl
  next rest quota size hpc =>
    rw [hpc] at hwritten
    cases hstep
    exact ⟨h.small, h.counted, by rw [← hwritten]; exact UInt32.add_zero _, h.updates, h.task,
      h.peer, h.window⟩

private theorem Inv.writerTimeOut {frameSize : ℕ} (h : Inv config s)
    (hadmitted : s.writer.sends = false)
    (hstep : s.writerTimeOut frameSize = some s') : Inv config s' := by
  have hwritten := h.written
  unfold State.writerTimeOut at hstep
  split at hstep
  next => cases hstep
  next => cases hstep
  next rest quota hpc =>
    rw [hpc] at hadmitted
    cases hadmitted
  next rest quota size hpc =>
    rw [hpc] at hwritten
    cases hstep
    exact ⟨h.small, h.counted, by rw [← hwritten]; exact UInt32.add_zero _, h.updates, h.task,
      h.peer, h.window⟩
  next rest hpc =>
    rw [hpc] at hwritten
    cases hstep
    exact ⟨h.small, h.counted, hwritten, h.updates, h.task, h.peer, h.window⟩

private theorem half_toNat (hconfig : config.Verified) :
    (UInt32.ofInt (config.maxStreamBuffer.tdiv 2)).toNat = config.maxStreamBuffer.toNat / 2 := by
  have hpos := hconfig.stream_pos
  have hle := hconfig.stream_le.trans hconfig.receive_le
  unfold MAX_BUFFER_LIMIT at hle
  rw [UInt32.ofInt, UInt32.toNat_ofNat', Int.tdiv_eq_ediv_of_nonneg (by omega)]
  omega

private theorem Inv.counted_carry {taken : StreamBuf × Bytes × UInt32} (h : Inv config s)
    (hconfig : config.Verified) (htaken : Taken config s.buf taken)
    (hkeeps : taken.2.1 ≠ [] → ¬s.LosesCount config taken.2.1)
    (hnone : taken.2.1.isEmpty ∨ taken.2.2 = 0) :
    Counted (UInt32.ofInt (config.maxStreamBuffer.tdiv 2)) (s.read + taken.2.1.length) s.due
      taken.1.numRead taken.1.incr := by
  obtain ⟨⟨hnumRead, hincr, hnotify⟩, hsmall⟩ := htaken
  have hlen := (hsmall fun c hc => h.small c (List.mem_append_left _ hc)).1
  have hhalf : (UInt32.ofInt (config.maxStreamBuffer.tdiv 2)).toNat ≤ 2147483648 := by
    have hle := hconfig.stream_le.trans hconfig.receive_le
    rw [half_toNat hconfig]
    unfold MAX_BUFFER_LIMIT at hle
    omega
  rw [hnumRead, hincr]
  rw [hnotify] at hnone
  unfold StreamBuf.accountRead at hnone ⊢
  dsimp only at hnone ⊢
  have hbefore := h.counted
  by_cases hempty : taken.2.1 = []
  · rw [hempty, List.length_nil, Nat.add_zero, show UInt32.ofNat 0 = 0 from rfl, UInt32.add_zero,
      UInt32.add_zero]
    split_ifs with hdue
    · exact hbefore.restart hdue
    · exact hbefore
  · have hpos := List.length_pos_iff.mpr hempty
    have hne : UInt32.ofNat taken.2.1.length ≠ 0 := by
      intro hzero
      have := congrArg UInt32.toNat hzero
      rw [UInt32.toNat_ofNat', UInt32.toNat_zero] at this
      omega
    have hkeeps := hkeeps hempty
    rw [State.LosesCount, not_and] at hkeeps
    split_ifs with hdue
    · rw [if_pos hdue] at hnone
      have hzero := hnone.resolve_left (fun hc => hempty (List.isEmpty_iff.mp hc))
      rcases hdue with hhigh | hinitial
      · exact absurd hhigh (hkeeps hzero)
      · exact absurd (hinitial.symm.trans hzero) hne
    · rw [not_or] at hdue
      refine hbefore.carry hhalf hlen (UInt32.not_le.mp hdue.1) (fun hzero => hdue.2 ?_)
      rw [hzero, UInt32.zero_add]

private theorem Inv.counted_report {taken : StreamBuf × Bytes × UInt32} (h : Inv config s)
    (htaken : Taken config s.buf taken) (hsome : ¬(taken.2.1.isEmpty ∨ taken.2.2 = 0)) :
    Counted (UInt32.ofInt (config.maxStreamBuffer.tdiv 2)) (s.read + taken.2.1.length)
        (s.read + taken.2.1.length) taken.1.numRead taken.1.incr ∧
      taken.2.2 = UInt32.ofNat (s.read + taken.2.1.length) := by
  obtain ⟨⟨hnumRead, hincr, hnotify⟩, -⟩ := htaken
  rw [not_or] at hsome
  have hpos : 0 < taken.2.1.length :=
    List.length_pos_iff.mpr (fun hnil => hsome.1 (List.isEmpty_iff.mpr hnil))
  have hnotify' := hsome.2
  rw [hnotify] at hnotify'
  rw [hnumRead, hincr, hnotify]
  unfold StreamBuf.accountRead at hnotify' ⊢
  dsimp only at hnotify' ⊢
  split_ifs with hdue
  · exact ⟨h.counted.report hpos, by rw [h.counted.numRead_eq, UInt32.ofNat_add]⟩
  · rw [if_neg hdue] at hnotify'
    exact absurd rfl hnotify'

private theorem Inv.small_of_taken {taken : StreamBuf × Bytes × UInt32} (h : Inv config s)
    (htaken : Taken config s.buf taken) :
    ∀ c ∈ taken.1.chunks ++ s.dataWire, c.length ≤ 65535 := by
  intro c hc
  rcases List.mem_append.mp hc with hc | hc
  · exact (htaken.small fun c hc => h.small c (List.mem_append_left _ hc)).2 c hc
  · exact h.small c (List.mem_append_right _ hc)

private theorem Inv.due_le (h : Inv config s) : s.due ≤ s.read := by
  obtain ⟨d, hread, -⟩ := h.counted.behind
  omega

private theorem Inv.afterRead {taken : StreamBuf × Bytes × UInt32} (h : Inv config s)
    (hconfig : config.Verified) (htaken : Taken config s.buf taken) (hidle : s.reader = .idle)
    (hkeeps : taken.2.1 ≠ [] → ¬s.LosesCount config taken.2.1) :
    Inv config (s.afterRead taken) := by
  have hsmall := h.small_of_taken htaken
  unfold State.afterRead
  dsimp only
  split_ifs with hnone
  · exact ⟨hsmall, h.counted_carry hconfig htaken hkeeps hnone, h.written, h.updates, h.task, h.peer,
      h.window⟩
  · obtain ⟨hcounted, hconsumed⟩ := h.counted_report htaken hnone
    refine ⟨hsmall, hcounted, h.written, ?_, h.task, h.peer, h.window⟩
    refine h.updates.join (u := ⟨_, _⟩) (h.due_le.trans (Nat.le_add_right _ _)) hconsumed ?_ ?_
    · exact List.mem_append_left _ (List.mem_append_left _ (List.mem_append_left _
        (List.mem_singleton_self _)))
    · intro v hv
      simp only [State.pool, hidle, List.mem_append, List.mem_singleton, List.not_mem_nil] at hv ⊢
      tauto

private theorem Inv.afterChunk {taken : StreamBuf × Bytes × UInt32} (h : Inv config s)
    (hconfig : config.Verified) (htaken : Taken config s.buf taken)
    (hkeeps : taken.2.1 ≠ [] → ¬s.LosesCount config taken.2.1) :
    Inv config (s.afterChunk taken) := by
  have hsmall := h.small_of_taken htaken
  unfold State.afterChunk
  dsimp only
  split_ifs with hnone hrunning
  · exact ⟨hsmall, h.counted_carry hconfig htaken hkeeps hnone, h.written, h.updates, h.task, h.peer,
      h.window⟩
  all_goals
    obtain ⟨hcounted, hconsumed⟩ := h.counted_report htaken hnone
    have hnotify : taken.2.2 ≠ 0 := fun hzero => hnone (Or.inr hzero)
    refine ⟨hsmall, hcounted, h.written, ?_, fun hc => (by cases hc), h.peer, h.window⟩
    refine h.updates.join (u := ⟨_, _⟩) (h.due_le.trans (Nat.le_add_right _ _)) hconsumed ?_ ?_
  · simp [State.pool, hnotify]
  · intro v hv
    simp only [State.pool, hnotify, if_false, List.mem_append, List.mem_singleton] at hv ⊢
    tauto
  · simp [State.pool, hnotify]
  · intro v hv
    simp only [State.pool, hnotify, if_false, List.mem_append, List.mem_singleton,
      List.not_mem_nil] at hv ⊢
    tauto

def State.owed (s : State) : List Upd :=
  (match s.reader with | .updating u => [u] | .idle => []) ++
    (if s.pending.consumed = 0 then [] else [s.pending]) ++
    (match s.task with | .sending u => [u] | _ => [])

private theorem State.pool_eq : s.pool = s.owed ++ s.queued := rfl

private theorem Inv.next (hwriter : writerConfig.Verified) (hconfig : config.Verified)
    (hversion : config.version = 2) (h : Inv config s) (hok : s.Reported config a)
    (hstep : s.next writerConfig config a = some s') : Inv config s' := by
  cases a with
  | write data =>
    simp only [State.next] at hstep
    split_ifs at hstep with hidle
    cases hstep
    have hwritten := h.written
    rw [hidle.1] at hwritten
    exact ⟨h.small, h.counted, hwritten, h.updates, h.task, h.peer, h.window⟩
  | writer =>
    have hle := hwriter.frame_le
    unfold MAX_FRAME_SIZE_LIMIT at hle
    exact h.writerStep (by omega) hstep
  | wakeWriter =>
    simp only [State.next] at hstep
    split at hstep
    next rest hpc =>
      split_ifs at hstep
      cases hstep
      have hwritten := h.written
      rw [hpc] at hwritten
      exact ⟨h.small, h.counted, hwritten, h.updates, h.task, h.peer, h.window⟩
    next => cases hstep
  | writerWakeup =>
    simp only [State.next] at hstep
    split at hstep
    next rest hpc =>
      cases hstep
      have hwritten := h.written
      rw [hpc] at hwritten
      exact ⟨h.small, h.counted, hwritten, h.updates, h.task, h.peer, h.window⟩
    next => cases hstep
  | writerTimesOut => exact h.writerTimeOut hok hstep
  | deliverData =>
    simp only [State.next] at hstep
    split at hstep
    next => cases hstep
    next data rest hwire =>
      cases hstep
      refine ⟨?_, h.counted, h.written, h.updates, h.task, h.peer, h.window⟩
      intro c hc
      apply h.small c
      rw [hwire]
      simpa [StreamBuf.pushBytes] using hc
  | read size =>
    simp only [State.next] at hstep
    split_ifs at hstep with hidle
    cases hstep
    exact h.afterRead hconfig (takeFront_taken hversion s.buf size) hidle.1 hok
  | readChunk =>
    simp only [State.next] at hstep
    split_ifs at hstep
    cases hstep
    exact h.afterChunk hconfig (popChunk_taken hversion s.buf) hok
  | readerQueues =>
    simp only [State.next] at hstep
    split at hstep
    next u hreader =>
      cases hstep
      refine ⟨h.small, h.counted, h.written, h.updates.perm ?_, h.task, h.peer, h.window⟩
      simp only [State.pool, hreader, List.nil_append]
      grind
    next => cases hstep
  | readerTimesOut => exact absurd hok id
  | task =>
    simp only [State.next] at hstep
    split at hstep
    next htask =>
      split_ifs at hstep with hpending <;> cases hstep
      · refine ⟨h.small, h.counted, h.written, ?_, fun _ => rfl, h.peer, h.window⟩
        have hupdates := h.updates
        simp only [State.pool, htask] at hupdates ⊢
        exact hupdates
      · refine ⟨h.small, h.counted, h.written, ?_, ?_, h.peer, h.window⟩
        · have hupdates := h.updates
          simp only [State.pool, htask, hpending, if_false, if_true, List.append_nil] at hupdates ⊢
          exact hupdates
        · intro hrun
          have habsent := h.task hrun
          rw [htask] at habsent
          cases habsent
    next => cases hstep
  | taskQueues =>
    simp only [State.next] at hstep
    split at hstep
    next u htask =>
      cases hstep
      refine ⟨h.small, h.counted, h.written, h.updates.perm ?_, ?_, h.peer, h.window⟩
      · simp only [State.pool, htask, List.append_nil]
        grind
      · intro hrun
        have habsent := h.task hrun
        rw [htask] at habsent
        cases habsent
    next => cases hstep
  | taskTimesOut => exact absurd hok id
  | writeUpd u =>
    simp only [State.next] at hstep
    split_ifs at hstep with hqueued
    cases hstep
    refine ⟨h.small, h.counted, h.written, h.updates.send ?_ hok, h.task, h.peer, h.window⟩
    rw [State.pool_eq, State.pool_eq]
    exact ((List.perm_cons_erase hqueued).append_left s.owed).trans List.perm_middle
  | deliverUpd =>
    simp only [State.next] at hstep
    split at hstep
    next => cases hstep
    next u rest hwire =>
      cases hstep
      have hupdates := h.updates
      rw [hwire] at hupdates
      have hconsumed := hupdates.consumed u (List.mem_append_right _ List.mem_cons_self)
      exact ⟨h.small, h.counted, h.written, hupdates.apply, h.task, hconsumed, Or.inr rfl⟩

private theorem Inv.not_stuck (hconfig : config.Verified) (h : Inv config s) : ¬s.Stuck := by
  rintro ⟨hwaits, hwin, hread, hpool, hwire⟩
  have hpos := hconfig.stream_pos
  have hle := hconfig.stream_le.trans hconfig.receive_le
  unfold MAX_BUFFER_LIMIT at hle
  obtain ⟨d, hbehind, hd, -⟩ := h.counted.behind
  rw [half_toNat hconfig] at hd
  have happlied : s.applied = s.due := by
    have hlast := h.updates.on_wire hpool
    rwa [hwire] at hlast
  have hwritten := h.written
  rw [WriterPc.uncounted_of_waits hwaits, show UInt32.ofNat 0 = 0 from rfl, UInt32.add_zero]
    at hwritten
  have hinflight : s.inflight = d := by
    rw [State.inflight, hwritten, h.peer, happlied, ← hread, hbehind, UInt32.ofNat_add,
      UInt32.add_comm, UInt32.add_sub_cancel, UInt32.toNat_ofNat', Nat.mod_eq_of_lt (by omega),
      i32_of_range (by omega) (by omega)]
  rw [State.win, hinflight] at hwin
  rcases h.window with ⟨hinitial, hzero⟩ | hwindow
  · have hnone := h.counted.first (happlied ▸ hzero)
    have hd0 : d = 0 := by omega
    rw [hinitial, hd0] at hwin
    exact absurd hwin (by decide)
  · have hvalue : (UInt32.ofInt config.maxStreamBuffer).toNat = config.maxStreamBuffer.toNat := by
      rw [UInt32.ofInt, UInt32.toNat_ofNat']
      omega
    have hleft : i32 (config.maxStreamBuffer - d) = config.maxStreamBuffer - d :=
      i32_of_range (by omega) (by omega)
    have hroom : 0 < config.maxStreamBuffer - d := by omega
    have hcast : i32 config.maxStreamBuffer.toNat = config.maxStreamBuffer := by
      rw [Int.toNat_of_nonneg hpos.le]
      exact i32_of_range (by omega) (by omega)
    rw [hwindow, hvalue, hcast, hleft] at hwin
    exact absurd hroom (not_lt.mpr hwin)

end Steps

/-- Flow control never leaves the writer waiting without window after everything it sent has been
read, as long as no update is lost or overtaken and no frame refused. -/
theorem writer_never_stuck {writerConfig config : Config}
    (hwriter : verifyConfig writerConfig = .ok ()) (hconfig : verifyConfig config = .ok ())
    (hversion : config.version = 2) {actions : List Action} {s : State}
    (hok : Along (State.next writerConfig config) (State.Reported config) {} actions)
    (hrun : exec (State.next writerConfig config) {} actions = some s) : ¬s.Stuck := by
  have hverified := verified_of_verifyConfig hconfig
  refine Inv.not_stuck hverified (exec_invariant (Inv config) ?_ (inv_initial config) hok hrun)
  intro s a s' hinv hstep hreported
  exact hinv.next (verified_of_verifyConfig hwriter) hverified hversion hstep hreported

def smallConfig : Config := { defaultConfig with version := 2, maxStreamBuffer := 2 }

/-- One byte is written, read and acknowledged; three more are written under a window of two. -/
def fillWindow : List Action :=
  [.write [0], .writer, .writer, .writer, .writer, .deliverData, .read 8, .readerQueues,
    .writeUpd ⟨1, 1⟩, .deliverUpd, .write [1, 2, 3], .writer, .writer, .writer, .writer, .deliverData,
    .read 8]

/-- The update of the second read is admitted and applied, and the writer sends its last byte. -/
def freedWindow : List Action :=
  fillWindow ++ [.readerQueues, .writeUpd ⟨3, 3⟩, .deliverUpd, .wakeWriter, .writer, .writer,
    .writer, .writer, .deliverData, .readChunk, .task, .taskQueues]

theorem writer_never_stuck_small :
    ∃ s, exec (State.next smallConfig smallConfig) {} freedWindow = some s ∧
      s.read = 4 ∧ s.sent = 4 ∧ ¬s.Stuck := by
  obtain ⟨s, hrun, hread, hsent⟩ : ∃ s,
      exec (State.next smallConfig smallConfig) {} freedWindow = some s ∧
        s.read = 4 ∧ s.sent = 4 := by decide +kernel
  exact ⟨s, hrun, hread, hsent,
    writer_never_stuck (by decide) (by decide) (by decide) (by decide +kernel) hrun⟩

/-- One byte is written, read and acknowledged, which leaves a window of two. A frame of two bytes is
refused at the write deadline, and one more byte is written. -/
def refusedFrame : List Action :=
  fillWindow.take 10 ++ [.write [1, 2], .writer, .writerTimesOut, .write [3], .writer]

/-- The read deadline passes before the second update is admitted, or the write deadline before a
frame is: either way everything sent is read, nothing is on its way, and the writer waits without
window. -/
theorem writer_stuck_after_time_out :
    verifyConfig smallConfig = .ok () ∧ smallConfig.version = 2 ∧
      (∃ s, exec (State.next smallConfig smallConfig) {} (fillWindow ++ [.readerTimesOut]) = some s ∧
        s.Stuck) ∧
      ∃ s, exec (State.next smallConfig smallConfig) {} refusedFrame = some s ∧ s.Stuck := by
  refine ⟨by decide, by decide, ?_, ?_⟩ <;> decide +kernel

end Kcptun.Smux.Window
