/- Kcptun/Smux/EndOfStream
   source: crates/smux/src/stream.rs (read, try_read, wait_read, read_chunk, write_to, fin,
     try_half_close_cleanup, close_write), crates/smux/src/session.rs (recv_loop: FIN and PSH)
   digest: One stream shared by the receive loop, one reader and a local half-close, and when the
     reader may report the end of the stream. -/

import Kcptun.Lib.Interleaving
import Kcptun.Smux.StreamBuf

set_option autoImplicit false
set_option relaxedAutoImplicit false

namespace Kcptun.Smux.EndOfStream

open Kcptun.Lib Kcptun.Lib.LittleEndian

/-- The calls a reader task makes: `read` with a buffer of `size` bytes, `read_chunk`, `write_to`. -/
inductive ReadOp where
  | read (size : ℕ)
  | readChunk
  | writeTo
deriving DecidableEq, Repr

def ReadOp.take (op : ReadOp) (config : Config) (buf : StreamBuf) : StreamBuf × Bytes × UInt32 :=
  match op with
  | .read size => buf.takeFront config size
  | .readChunk | .writeTo => buf.popChunk config

/-- Where a task is in `try_half_close_cleanup`; `close_die` is two steps. -/
inductive Cleanup where
  | testFin | testWriteClosed | takeDieOnce | cancelDie | remove
deriving DecidableEq, Repr

/-- Where `recv_loop` is: `fin` holds the stream it found, before `fin_event.cancel`. -/
inductive RecvPc where
  | frame | wakeup | fin
  | cleanup (point : Cleanup)
deriving DecidableEq, Repr

inductive CloserPc where
  | idle | cancelWriteClosed | writeFin
  | cleanup (point : Cleanup)
  | done
deriving DecidableEq, Repr

/-- Where the reader is. `deliver` has taken bytes out of the buffer and still has to return tokens
and send the window update; `sink` has handed a chunk to `w`; the rest are the tests of `try_read`
and `wait_read` in their order. -/
inductive ReaderPc where
  | idle
  | take (op : ReadOp)
  | deliver (op : ReadOp) (bytes : Bytes)
  | sink
  | testDie (op : ReadOp)
  | waitBuffer (op : ReadOp)
  | waitFin (op : ReadOp)
  | waitDie (op : ReadOp)
  | select (op : ReadOp)
  | finBuffer (op : ReadOp)
  | dieBuffer (op : ReadOp)
  | dieFin (op : ReadOp)
deriving DecidableEq, Repr

inductive Report where
  | data | endOfStream | failed
deriving DecidableEq, Repr

/-- A stream and the tasks on it. The last three fields are history: everything ever pushed, what
had been pushed when the peer's FIN was processed, and what the reader was given. -/
structure State where
  config : Config
  buf : StreamBuf := {}
  inMap : Bool := true
  readerWakeup : Bool := false
  die : Bool := false
  dieOnce : Bool := false
  finEvent : Bool := false
  writeClosed : Bool := false
  writeClosedOnce : Bool := false
  recv : RecvPc := .frame
  closer : CloserPc := .idle
  reader : ReaderPc := .idle
  report : Option Report := none
  pushed : Bytes := []
  beforeFin : Option Bytes := none
  returned : Bytes := []
deriving DecidableEq, Repr

/-- The choices of the scheduler. A frame is the next one `recv_loop` reads; `other` stands for
every command that does not touch this stream. `unregister` is another holder of the id leaving
the session map. -/
inductive Action where
  | psh (data : Bytes)
  | finFrame
  | otherFrame
  | recv
  | unregister
  | closeWrite
  | closer
  | call (op : ReadOp)
  | reader
  | wakeupBranch
  | finBranch
  | dieBranch
  | sinkFails
deriving DecidableEq, Repr

/-- One step of `try_half_close_cleanup`; `none` when it has returned. -/
def State.cleanup (s : State) : Cleanup → State × Option Cleanup
  | .testFin => (s, if s.finEvent then some .testWriteClosed else none)
  | .testWriteClosed => (s, if s.writeClosed then some .takeDieOnce else none)
  | .takeDieOnce =>
    if s.dieOnce then (s, some .remove) else ({ s with dieOnce := true }, some .cancelDie)
  | .cancelDie => ({ s with die := true }, some .remove)
  | .remove => ({ s with inMap := false }, none)

/-- `push_bytes` under the session's stream lock; empty payloads never get that far. -/
def State.psh (s : State) (data : Bytes) : State :=
  if data.isEmpty ∨ s.inMap = false then s
  else { s with buf := s.buf.pushBytes data, pushed := s.pushed ++ data, recv := .wakeup }

def State.recvStep (s : State) : Option State :=
  match s.recv with
  | .frame => none
  | .wakeup => some { s with readerWakeup := true, recv := .frame }
  | .fin => some { s with
      beforeFin := if s.finEvent then s.beforeFin else some s.pushed
      finEvent := true
      recv := .cleanup .testFin }
  | .cleanup point =>
    let step := s.cleanup point
    some { step.1 with recv := step.2.elim .frame .cleanup }

def State.closerStep (s : State) : Option State :=
  match s.closer with
  | .idle | .done => none
  | .cancelWriteClosed => some { s with writeClosed := true, closer := .writeFin }
  | .writeFin => some { s with closer := .cleanup .testFin }
  | .cleanup point =>
    let step := s.cleanup point
    some { step.1 with closer := step.2.elim .done .cleanup }

def State.finish (s : State) (report : Report) : State :=
  { s with reader := .idle, report := some report }

/-- The critical section of a read; with nothing to take, `write_to` waits at once and the other two
calls test `die` first. -/
def State.taken (s : State) (op : ReadOp) : State :=
  let taken := op.take s.config s.buf
  { s with
    buf := taken.1
    reader :=
      if taken.2.1.isEmpty then if op = .writeTo then .waitBuffer op else .testDie op
      else .deliver op taken.2.1 }

def State.readerStep (s : State) : Option State :=
  match s.reader with
  | .idle | .select _ => none
  | .take op => some (s.taken op)
  | .deliver op bytes =>
    let s := { s with returned := s.returned ++ bytes }
    some (if op = .writeTo then { s with reader := .sink } else s.finish .data)
  | .sink => some { s with reader := .take .writeTo }
  | .testDie op => some (if s.die then s.finish .endOfStream else { s with reader := .waitBuffer op })
  | .waitBuffer op =>
    some { s with reader := if s.buf.chunks.isEmpty then .waitFin op else .take op }
  | .waitFin op => some (if s.finEvent then s.finish .endOfStream else { s with reader := .waitDie op })
  | .waitDie op => some (if s.die then s.finish .failed else { s with reader := .select op })
  | .finBuffer op =>
    some (if s.buf.chunks.isEmpty then s.finish .endOfStream else { s with reader := .take op })
  | .dieBuffer op =>
    some { s with reader := if s.buf.chunks.isEmpty then .dieFin op else .take op }
  | .dieFin _ => some (s.finish (if s.finEvent then .endOfStream else .failed))

def State.parked (s : State) : Option ReadOp :=
  match s.reader with
  | .select op => some op
  | _ => none

/-- The step relation: `none` when the action is not enabled. -/
def State.next (s : State) : Action → Option State
  | .psh data => if s.recv = .frame then some (s.psh data) else none
  | .finFrame =>
    if s.recv = .frame then some (if s.inMap then { s with recv := .fin } else s) else none
  | .otherFrame => if s.recv = .frame then some s else none
  | .recv => s.recvStep
  | .unregister => some { s with inMap := false }
  | .closeWrite =>
    if s.closer = .idle ∨ s.closer = .done then
      some (if s.writeClosedOnce then s
        else { s with writeClosedOnce := true, closer := .cancelWriteClosed })
    else none
  | .closer => s.closerStep
  | .call op =>
    if s.reader = .idle ∧ op ≠ .read 0 then some { s with reader := .take op, report := none } else none
  | .reader => s.readerStep
  | .wakeupBranch =>
    if s.readerWakeup then
      s.parked.map fun op => { s with readerWakeup := false, reader := .take op }
    else none
  | .finBranch => if s.finEvent then s.parked.map fun op => { s with reader := .finBuffer op } else none
  | .dieBranch => if s.die then s.parked.map fun op => { s with reader := .dieBuffer op } else none
  | .sinkFails => if s.reader = .sink then some (s.finish .failed) else none

def ReaderPc.held : ReaderPc → Bytes
  | .deliver _ bytes => bytes
  | _ => []

def ReaderPc.op : ReaderPc → Option ReadOp
  | .idle => none
  | .sink => some .writeTo
  | .take op | .deliver op _ | .testDie op | .waitBuffer op | .waitFin op | .waitDie op
  | .select op | .finBuffer op | .dieBuffer op | .dieFin op => some op

def State.Owed (s : State) : Prop := s.returned.length < (s.beforeFin.getD []).length

instance (s : State) : Decidable s.Owed := inferInstanceAs (Decidable (_ < _))

def State.CancelsFin (s : State) (a : Action) : Prop :=
  a = .recv ∧ s.recv = .fin ∧ s.finEvent = false

instance (s : State) (a : Action) : Decidable (s.CancelsFin a) :=
  inferInstanceAs (Decidable (_ ∧ _))

def State.CancelsDie (s : State) (a : Action) : Prop :=
  (a = .recv ∧ s.recv = .cleanup .cancelDie) ∨ (a = .closer ∧ s.closer = .cleanup .cancelDie)

instance (s : State) (a : Action) : Decidable (s.CancelsDie a) :=
  inferInstanceAs (Decidable (_ ∨ _))

def ReaderPc.testsFin : ReaderPc → Bool
  | .waitFin _ => true
  | _ => false

def ReaderPc.testsDie : ReaderPc → Bool
  | .testDie _ => true
  | _ => false

/-- No flag is set over unread bytes while the reader, having found the buffer empty, is about to
test that flag. -/
def State.Timely (s : State) (a : Action) : Prop :=
  (s.CancelsFin a → s.reader.testsFin = true → s.buf.chunks = []) ∧
    (s.CancelsDie a → s.reader.testsDie = true → ¬s.Owed)

instance (s : State) (a : Action) : Decidable (s.Timely a) := inferInstanceAs (Decidable (_ ∧ _))

/-- Every byte pushed is with the reader, on its way to it, or in the buffer, in this order. -/
structure State.Data (s : State) : Prop where
  buf_ok : s.buf.Ok
  stream : s.pushed = s.returned ++ s.reader.held ++ s.buf.unread
  op_pos : s.reader.op ≠ some (.read 0)

structure State.Flags (s : State) : Prop where
  fin_iff : s.finEvent = true ↔ s.beforeFin.isSome
  fin_prefix : ∀ p, s.beforeFin = some p → p <+: s.pushed
  die_fin : s.die = true → s.finEvent = true
  recv_fin : ∀ point, s.recv = .cleanup point → point ≠ .testFin → s.finEvent = true
  closer_fin : ∀ point, s.closer = .cleanup point → point ≠ .testFin → s.finEvent = true

/-- What the reader knows from the tests it has made. -/
structure State.Seen (s : State) : Prop where
  waitFin : ∀ op, s.reader = .waitFin op → ¬s.Owed
  testDie : ∀ op, s.reader = .testDie op → s.die = true → ¬s.Owed
  finBuffer : ∀ op, s.reader = .finBuffer op → s.finEvent = true
  dieBuffer : ∀ op, s.reader = .dieBuffer op → s.die = true
  dieFin : ∀ op, s.reader = .dieFin op → s.finEvent = true ∧ ¬s.Owed
  report : s.report = some .endOfStream → s.finEvent = true ∧ ¬s.Owed

variable {s s' : State} {a : Action}

private theorem State.cleanup_frame (point : Cleanup) :
    ((s.cleanup point).1.buf, (s.cleanup point).1.pushed, (s.cleanup point).1.returned,
      (s.cleanup point).1.reader, (s.cleanup point).1.report, (s.cleanup point).1.finEvent,
      (s.cleanup point).1.beforeFin, (s.cleanup point).1.recv, (s.cleanup point).1.closer) =
    (s.buf, s.pushed, s.returned, s.reader, s.report, s.finEvent, s.beforeFin, s.recv, s.closer) := by
  cases point <;> simp only [State.cleanup]
  split_ifs <;> rfl

private theorem State.cleanup_finEvent (point : Cleanup) :
    (s.cleanup point).1.finEvent = s.finEvent := by
  have hframe := State.cleanup_frame (s := s) point
  simp only [Prod.mk.injEq] at hframe
  exact hframe.2.2.2.2.2.1

private theorem State.cleanup_die {point : Cleanup} (hpoint : point ≠ .cancelDie) :
    (s.cleanup point).1.die = s.die := by
  cases point <;> simp only [State.cleanup]
  · split_ifs <;> rfl
  · exact absurd rfl hpoint

private theorem State.cleanup_fin {point rest : Cleanup}
    (hpoint : point ≠ .testFin → s.finEvent = true)
    (hrest : (s.cleanup point).2 = some rest) : s.finEvent = true := by
  cases point with
  | testFin =>
    simp only [State.cleanup] at hrest
    by_contra hfin
    rw [if_neg hfin] at hrest
    cases hrest
  | _ => exact hpoint (by simp)

private theorem State.not_owed_of_eq (hflags : s.Flags) (heq : s.pushed = s.returned) :
    ¬s.Owed := by
  unfold State.Owed
  cases hp : s.beforeFin with
  | none => simp
  | some p =>
    have hle := (hflags.fin_prefix p hp).length_le
    rw [heq] at hle
    simpa using hle

private theorem State.Data.eq_of_unread (h : s.Data) (hheld : s.reader.held = [])
    (hunread : s.buf.unread = []) : s.pushed = s.returned := by
  rw [h.stream, hheld, hunread, List.append_nil, List.append_nil]

private theorem State.Data.of_eq (h : s.Data) (hbuf : s'.buf = s.buf)
    (hpushed : s'.pushed = s.pushed)
    (hreturned : s'.returned = s.returned) (hheld : s'.reader.held = s.reader.held)
    (hop : s'.reader.op ≠ some (.read 0)) : s'.Data :=
  ⟨hbuf ▸ h.buf_ok, by rw [hpushed, hreturned, hheld, hbuf, h.stream], hop⟩

private theorem ReadOp.take_spec (op : ReadOp) (hop : op ≠ .read 0) (config : Config)
    {buf : StreamBuf} (h : buf.Ok) : (op.take config buf).1.Ok ∧
      (op.take config buf).2.1 ++ (op.take config buf).1.unread = buf.unread ∧
      ((op.take config buf).2.1 = [] → buf.unread = []) := by
  cases op with
  | read size =>
    have hsize : 0 < size := Nat.pos_of_ne_zero fun h0 => hop (h0 ▸ rfl)
    exact ⟨h.takeFront config size, StreamBuf.unread_takeFront config size, h.takeFront_eq_nil hsize⟩
  | readChunk => exact ⟨h.popChunk config, StreamBuf.unread_popChunk config, h.popChunk_eq_nil⟩
  | writeTo => exact ⟨h.popChunk config, StreamBuf.unread_popChunk config, h.popChunk_eq_nil⟩

/-- A step of another task: it leaves the buffer, the history of the bytes and the reader alone. -/
structure State.Inert (s s' : State) : Prop where
  buf : s'.buf = s.buf
  pushed : s'.pushed = s.pushed
  returned : s'.returned = s.returned
  reader : s'.reader = s.reader
  report : s'.report = s.report

private theorem State.cleanup_inert (point : Cleanup) : s.Inert (s.cleanup point).1 := by
  have hframe := State.cleanup_frame (s := s) point
  simp only [Prod.mk.injEq] at hframe
  obtain ⟨h1, h2, h3, h4, h5, -⟩ := hframe
  exact ⟨h1, h2, h3, h4, h5⟩

private theorem State.recvStep_inert (hstep : s.recvStep = some s') : s.Inert s' := by
  unfold State.recvStep at hstep
  split at hstep
  next => cases hstep
  next =>
    cases hstep
    exact ⟨rfl, rfl, rfl, rfl, rfl⟩
  next =>
    cases hstep
    exact ⟨rfl, rfl, rfl, rfl, rfl⟩
  next point _ =>
    have h := State.cleanup_inert (s := s) point
    cases hstep
    exact ⟨h.buf, h.pushed, h.returned, h.reader, h.report⟩

private theorem State.closerStep_inert (hstep : s.closerStep = some s') : s.Inert s' := by
  unfold State.closerStep at hstep
  split at hstep
  next => cases hstep
  next => cases hstep
  next =>
    cases hstep
    exact ⟨rfl, rfl, rfl, rfl, rfl⟩
  next =>
    cases hstep
    exact ⟨rfl, rfl, rfl, rfl, rfl⟩
  next point _ =>
    have h := State.cleanup_inert (s := s) point
    cases hstep
    exact ⟨h.buf, h.pushed, h.returned, h.reader, h.report⟩

private theorem State.Data.inert (h : s.Data) (hinert : s.Inert s') : s'.Data := by
  apply h.of_eq hinert.buf hinert.pushed hinert.returned (congrArg ReaderPc.held hinert.reader)
  rw [hinert.reader]
  exact h.op_pos

private theorem State.parked_eq_some {op : ReadOp} (h : s.parked = some op) :
    s.reader = .select op := by
  unfold State.parked at h
  split at h
  next op' hreader =>
    cases h
    exact hreader
  next => cases h

private theorem State.taken_cases (s : State) (op : ReadOp) :
    ((op.take s.config s.buf).2.1 = [] ∧
        ((s.taken op).reader = .waitBuffer op ∨ (s.taken op).reader = .testDie op)) ∨
      (s.taken op).reader = .deliver op (op.take s.config s.buf).2.1 := by
  by_cases hnone : (op.take s.config s.buf).2.1 = []
  · refine .inl ⟨hnone, ?_⟩
    simp only [State.taken, hnone, List.isEmpty_nil, if_true]
    by_cases hto : op = .writeTo
    · exact .inl (if_pos hto)
    · exact .inr (if_neg hto)
  · refine .inr (if_neg ?_)
    rwa [List.isEmpty_iff]

private theorem State.taken_data {op : ReadOp} (h : s.Data) (hreader : s.reader = .take op) :
    (s.taken op).Data := by
  have hop := h.op_pos
  have hstream := h.stream
  rw [hreader] at hop hstream
  obtain ⟨hok, happ, -⟩ := op.take_spec (fun hc => hop (congrArg some hc)) s.config h.buf_ok
  have hheld : (s.taken op).reader.held = (op.take s.config s.buf).2.1 ∧
      (s.taken op).reader.op = some op := by
    rcases s.taken_cases op with ⟨hnone, hpc | hpc⟩ | hpc <;> rw [hpc]
    · exact ⟨hnone.symm, rfl⟩
    · exact ⟨hnone.symm, rfl⟩
    · exact ⟨rfl, rfl⟩
  refine ⟨hok, ?_, hheld.2 ▸ hop⟩
  rw [hheld.1]
  change s.pushed = s.returned ++ _ ++ (op.take s.config s.buf).1.unread
  rw [hstream, ← happ]
  simp [ReaderPc.held]

private theorem State.readerStep_data (h : s.Data) (hstep : s.readerStep = some s') : s'.Data := by
  have hop := h.op_pos
  unfold State.readerStep at hstep
  split at hstep
  next => cases hstep
  next => cases hstep
  next op hreader =>
    cases hstep
    exact State.taken_data h hreader
  next op bytes hreader =>
    rw [hreader] at hop
    have hstream := h.stream
    rw [hreader] at hstream
    cases hstep
    split_ifs with hto
    · exact ⟨h.buf_ok, by simpa [ReaderPc.held] using hstream, by simp [ReaderPc.op]⟩
    · exact ⟨h.buf_ok, by simpa [ReaderPc.held, State.finish] using hstream,
        by simp [ReaderPc.op, State.finish]⟩
  next hreader =>
    cases hstep
    exact h.of_eq rfl rfl rfl (by rw [hreader]; rfl) (by simp [ReaderPc.op])
  -- the remaining steps only test a flag or the buffer
  all_goals
    next hreader =>
      rw [hreader] at hop
      cases hstep
      split_ifs <;>
        exact h.of_eq rfl rfl rfl (by rw [hreader]; rfl)
          (by first | exact hop | simp [State.finish, ReaderPc.op])

private theorem State.Data.next (h : s.Data) (hnext : s.next a = some s') : s'.Data := by
  cases a with
  | psh data =>
    simp only [State.next] at hnext
    split_ifs at hnext
    cases hnext
    unfold State.psh
    split_ifs with hskip
    · exact h
    · have hdata : data ≠ [] := fun hnil => hskip (.inl (List.isEmpty_iff.mpr hnil))
      refine ⟨h.buf_ok.pushBytes hdata, ?_, h.op_pos⟩
      change s.pushed ++ data = s.returned ++ s.reader.held ++ (s.buf.pushBytes data).unread
      rw [StreamBuf.unread_pushBytes, h.stream, List.append_assoc]
  | recv => exact h.inert (State.recvStep_inert hnext)
  | closer => exact h.inert (State.closerStep_inert hnext)
  | reader => exact State.readerStep_data h hnext
  | call op =>
    simp only [State.next] at hnext
    split_ifs at hnext with hidle
    cases hnext
    refine h.of_eq rfl rfl rfl (by rw [hidle.1]; rfl) ?_
    intro hc
    exact hidle.2 (Option.some.inj hc)
  | finFrame =>
    simp only [State.next] at hnext
    split_ifs at hnext <;> cases hnext <;> exact h.of_eq rfl rfl rfl rfl h.op_pos
  | otherFrame =>
    simp only [State.next] at hnext
    split_ifs at hnext
    cases hnext
    exact h
  | unregister =>
    cases hnext
    exact h.of_eq rfl rfl rfl rfl h.op_pos
  | closeWrite =>
    simp only [State.next] at hnext
    split_ifs at hnext <;> cases hnext <;> exact h.of_eq rfl rfl rfl rfl h.op_pos
  | sinkFails =>
    simp only [State.next] at hnext
    split_ifs at hnext with hsink
    cases hnext
    exact h.of_eq rfl rfl rfl (by rw [hsink]; rfl) (by simp [State.finish, ReaderPc.op])
  | wakeupBranch | finBranch | dieBranch =>
    all_goals
      simp only [State.next] at hnext
      split_ifs at hnext
      obtain ⟨op, hop, rfl⟩ := Option.map_eq_some_iff.mp hnext
      have hreader := State.parked_eq_some hop
      have hpos := h.op_pos
      rw [hreader] at hpos
      exact h.of_eq rfl rfl rfl (by rw [hreader]; rfl) hpos

private theorem State.Flags.of_eq (h : s.Flags) (hfin : s'.finEvent = s.finEvent)
    (hbefore : s'.beforeFin = s.beforeFin) (hpushed : s.pushed <+: s'.pushed) (hdie : s'.die = s.die)
    (hrecv : s'.recv = s.recv) (hcloser : s'.closer = s.closer) : s'.Flags where
  fin_iff := by rw [hfin, hbefore]; exact h.fin_iff
  fin_prefix p hp := (h.fin_prefix p (hbefore ▸ hp)).trans hpushed
  die_fin hd := hfin ▸ h.die_fin (hdie ▸ hd)
  recv_fin point hp hne := hfin ▸ h.recv_fin point (hrecv ▸ hp) hne
  closer_fin point hp hne := hfin ▸ h.closer_fin point (hcloser ▸ hp) hne

private theorem State.Flags.setRecv (h : s.Flags) (pc : RecvPc)
    (hpc : ∀ point, pc = .cleanup point → point ≠ .testFin → s.finEvent = true) :
    ({ s with recv := pc } : State).Flags :=
  ⟨h.fin_iff, h.fin_prefix, h.die_fin, hpc, h.closer_fin⟩

private theorem State.Flags.setCloser (h : s.Flags) (pc : CloserPc)
    (hpc : ∀ point, pc = .cleanup point → point ≠ .testFin → s.finEvent = true) :
    ({ s with closer := pc } : State).Flags :=
  ⟨h.fin_iff, h.fin_prefix, h.die_fin, h.recv_fin, hpc⟩

private theorem State.Flags.cleanup (h : s.Flags) {point : Cleanup}
    (hpoint : point ≠ .testFin → s.finEvent = true) : (s.cleanup point).1.Flags := by
  cases point with
  | testFin => exact h
  | testWriteClosed => exact h
  | takeDieOnce =>
    simp only [State.cleanup]
    split_ifs
    · exact h
    · exact h.of_eq rfl rfl (List.prefix_refl _) rfl rfl rfl
  | cancelDie =>
    exact ⟨h.fin_iff, h.fin_prefix, fun _ => hpoint (by simp), h.recv_fin, h.closer_fin⟩
  | remove => exact h.of_eq rfl rfl (List.prefix_refl _) rfl rfl rfl

private theorem State.recvStep_flags (h : s.Flags) (hstep : s.recvStep = some s') : s'.Flags := by
  unfold State.recvStep at hstep
  split at hstep
  next => cases hstep
  next =>
    cases hstep
    exact (h.of_eq rfl rfl (List.prefix_refl _) rfl rfl rfl :
      ({ s with readerWakeup := true } : State).Flags).setRecv .frame (by simp)
  next =>
    -- the first FIN fixes what was pushed before it
    cases hstep
    refine ⟨?_, ?_, fun _ => rfl, fun _ _ _ => rfl, fun _ _ _ => rfl⟩
    · dsimp only
      split_ifs with hfin
      · simpa using h.fin_iff.mp hfin
      · simp
    · intro p hp
      dsimp only at hp ⊢
      split_ifs at hp with hfin
      · exact h.fin_prefix p hp
      · cases hp
        exact List.prefix_refl _
  next point hrecv =>
    have hpoint := h.recv_fin point hrecv
    have hflags := h.cleanup hpoint
    have hfin := State.cleanup_finEvent (s := s) point
    have hrest := fun rest => @State.cleanup_fin _ _ rest hpoint
    generalize s.cleanup point = step at hstep hflags hfin hrest
    cases hstep
    refine hflags.setRecv _ fun rest hp _ => hfin.trans (hrest rest ?_)
    cases hs : step.2 with
    | none => rw [hs] at hp; cases hp
    | some rest' => rw [hs] at hp; cases hp; rfl

private theorem State.closerStep_flags (h : s.Flags) (hstep : s.closerStep = some s') :
    s'.Flags := by
  unfold State.closerStep at hstep
  split at hstep
  next => cases hstep
  next => cases hstep
  next =>
    cases hstep
    exact (h.of_eq rfl rfl (List.prefix_refl _) rfl rfl rfl :
      ({ s with writeClosed := true } : State).Flags).setCloser .writeFin (by simp)
  next =>
    cases hstep
    exact h.setCloser _ fun point hp hne => by cases hp; exact absurd rfl hne
  next point hcloser =>
    have hpoint := h.closer_fin point hcloser
    have hflags := h.cleanup hpoint
    have hfin := State.cleanup_finEvent (s := s) point
    have hrest := fun rest => @State.cleanup_fin _ _ rest hpoint
    generalize s.cleanup point = step at hstep hflags hfin hrest
    cases hstep
    refine hflags.setCloser _ fun rest hp _ => hfin.trans (hrest rest ?_)
    cases hs : step.2 with
    | none => rw [hs] at hp; cases hp
    | some rest' => rw [hs] at hp; cases hp; rfl

private theorem State.readerStep_frame (hstep : s.readerStep = some s') :
    (s'.finEvent, s'.beforeFin, s'.pushed, s'.die, s'.recv, s'.closer) =
      (s.finEvent, s.beforeFin, s.pushed, s.die, s.recv, s.closer) := by
  unfold State.readerStep at hstep
  split at hstep <;> cases hstep <;> first | rfl | split_ifs <;> rfl

private theorem State.Flags.next (h : s.Flags) (hnext : s.next a = some s') : s'.Flags := by
  cases a with
  | psh data =>
    simp only [State.next] at hnext
    split_ifs at hnext with hrecv
    cases hnext
    unfold State.psh
    split_ifs
    · exact h
    · exact (h.of_eq rfl rfl (List.prefix_append _ _) rfl rfl rfl :
        ({ s with buf := s.buf.pushBytes data, pushed := s.pushed ++ data } : State).Flags).setRecv
          .wakeup (by simp)
  | recv => exact State.recvStep_flags h hnext
  | closer => exact State.closerStep_flags h hnext
  | reader =>
    have hframe := State.readerStep_frame hnext
    simp only [Prod.mk.injEq] at hframe
    obtain ⟨h1, h2, h3, h4, h5, h6⟩ := hframe
    exact h.of_eq h1 h2 (h3 ▸ List.prefix_refl _) h4 h5 h6
  | finFrame =>
    simp only [State.next] at hnext
    split_ifs at hnext with hrecv hmap
    · cases hnext
      exact h.setRecv .fin (by simp)
    · cases hnext
      exact h
  | closeWrite =>
    simp only [State.next] at hnext
    split_ifs at hnext with hidle honce
    · cases hnext
      exact h
    · cases hnext
      exact (h.of_eq rfl rfl (List.prefix_refl _) rfl rfl rfl :
        ({ s with writeClosedOnce := true } : State).Flags).setCloser .cancelWriteClosed (by simp)
  | otherFrame | call op | sinkFails =>
    all_goals
      simp only [State.next] at hnext
      split_ifs at hnext
      cases hnext
      exact h.of_eq rfl rfl (List.prefix_refl _) rfl rfl rfl
  | unregister =>
    cases hnext
    exact h.of_eq rfl rfl (List.prefix_refl _) rfl rfl rfl
  | wakeupBranch | finBranch | dieBranch =>
    all_goals
      simp only [State.next] at hnext
      split_ifs at hnext
      obtain ⟨op, -, rfl⟩ := Option.map_eq_some_iff.mp hnext
      exact h.of_eq rfl rfl (List.prefix_refl _) rfl rfl rfl

private theorem State.owed_congr (hbefore : s'.beforeFin = s.beforeFin)
    (hreturned : s'.returned = s.returned) : s'.Owed ↔ s.Owed := by
  simp only [State.Owed, hbefore, hreturned]

/-- A step of another task keeps what the reader knows, provided the reader is not caught between
its two tests. -/
theorem State.Seen.inert (h : s.Seen) (hinert : s.Inert s')
    (hfin : s.finEvent = true → s'.finEvent = true ∧ s'.beforeFin = s.beforeFin)
    (hdie : s.die = true → s'.die = true)
    (hwait : ∀ op, s.reader = .waitFin op → ¬s'.Owed)
    (htest : ∀ op, s.reader = .testDie op → s'.die = true → ¬s'.Owed) : s'.Seen := by
  have hkeep : s.finEvent = true ∧ ¬s.Owed → s'.finEvent = true ∧ ¬s'.Owed := fun ⟨hf, howed⟩ =>
    ⟨(hfin hf).1, fun hc => howed ((State.owed_congr (hfin hf).2 hinert.returned).mp hc)⟩
  refine ⟨?_, ?_, ?_, ?_, ?_, ?_⟩
  · intro op hop
    exact hwait op (hinert.reader ▸ hop)
  · intro op hop
    exact htest op (hinert.reader ▸ hop)
  · intro op hop
    exact (hfin (h.finBuffer op (hinert.reader ▸ hop))).1
  · intro op hop
    exact hdie (h.dieBuffer op (hinert.reader ▸ hop))
  · intro op hop
    exact hkeep (h.dieFin op (hinert.reader ▸ hop))
  · intro hreport
    exact hkeep (h.report (hinert.report ▸ hreport))

private theorem State.Seen.inert_of_eq (h : s.Seen) (hinert : s.Inert s')
    (hfin : s'.finEvent = s.finEvent) (hbefore : s'.beforeFin = s.beforeFin) (hdie : s'.die = s.die) :
    s'.Seen := by
  have howed := State.owed_congr hbefore hinert.returned
  refine h.inert hinert (fun hf => ⟨hfin ▸ hf, hbefore⟩) (fun hd => hdie ▸ hd) ?_ ?_
  · intro op hop
    rw [howed]
    exact h.waitFin op hop
  · intro op hop hd
    rw [howed]
    exact h.testDie op hop (hdie ▸ hd)

private theorem State.Seen.cleanup (h : s.Seen) {point : Cleanup} (hinert : s.Inert s')
    (hs' : s'.finEvent = (s.cleanup point).1.finEvent ∧
      s'.beforeFin = (s.cleanup point).1.beforeFin ∧ s'.die = (s.cleanup point).1.die)
    (htimely : point = .cancelDie → s.reader.testsDie = true → ¬s.Owed) : s'.Seen := by
  have hframe := State.cleanup_frame (s := s) point
  simp only [Prod.mk.injEq] at hframe
  obtain ⟨-, -, -, -, -, hfin, hbefore, -⟩ := hframe
  obtain ⟨hfin', hbefore', hdie'⟩ := hs'
  by_cases hcancel : point = .cancelDie
  · have howed := State.owed_congr (hbefore'.trans hbefore) hinert.returned
    refine h.inert hinert (fun hf => ⟨(hfin'.trans hfin).trans hf, hbefore'.trans hbefore⟩)
      (fun _ => hdie'.trans (by rw [hcancel]; rfl)) ?_ ?_
    · intro op hop
      rw [howed]
      exact h.waitFin op hop
    · intro op hop _
      rw [howed]
      exact htimely hcancel (by rw [hop]; rfl)
  · exact h.inert_of_eq hinert (hfin'.trans hfin) (hbefore'.trans hbefore)
      (hdie'.trans (State.cleanup_die hcancel))

private theorem State.recvStep_seen (h : s.Seen) (hdata : s.Data) (hflags : s.Flags)
    (htimely : s.Timely .recv) (hstep : s.recvStep = some s') : s'.Seen := by
  have hinert := State.recvStep_inert hstep
  unfold State.recvStep at hstep
  split at hstep
  next => cases hstep
  next =>
    cases hstep
    exact h.inert_of_eq hinert rfl rfl rfl
  next hrecv =>
    cases hstep
    by_cases hfin : s.finEvent = true
    · exact h.inert_of_eq hinert hfin.symm (if_pos hfin) rfl
    · refine h.inert hinert (fun hf => absurd hf hfin) id ?_ ?_
      · intro op hop
        -- the reader is about to test the flag, so the buffer is empty
        have hempty := htimely.1 ⟨rfl, hrecv, Bool.eq_false_iff.mpr hfin⟩ (by rw [hop]; rfl)
        have hall := hdata.eq_of_unread (by rw [hop]; rfl)
          (hdata.buf_ok.chunks_eq_nil_iff.mp hempty)
        simp [State.Owed, hfin, hall]
      · intro op hop hd
        exact absurd (hflags.die_fin hd) hfin
  next point hrecv =>
    have hcleanup := @State.Seen.cleanup s s' h point hinert
    generalize hclean : s.cleanup point = step at hstep hcleanup
    cases hstep
    exact hcleanup ⟨rfl, rfl, rfl⟩ fun hc => htimely.2 (.inl ⟨rfl, hc ▸ hrecv⟩)

private theorem State.closerStep_seen (h : s.Seen) (htimely : s.Timely .closer)
    (hstep : s.closerStep = some s') : s'.Seen := by
  have hinert := State.closerStep_inert hstep
  unfold State.closerStep at hstep
  split at hstep
  next => cases hstep
  next => cases hstep
  next =>
    cases hstep
    exact h.inert_of_eq hinert rfl rfl rfl
  next =>
    cases hstep
    exact h.inert_of_eq hinert rfl rfl rfl
  next point hcloser =>
    have hcleanup := @State.Seen.cleanup s s' h point hinert
    generalize hclean : s.cleanup point = step at hstep hcleanup
    cases hstep
    exact hcleanup ⟨rfl, rfl, rfl⟩ fun hc => htimely.2 (.inr ⟨rfl, hc ▸ hcloser⟩)

private theorem State.Seen.move (h : s.Seen) {pc : ReaderPc} {wakeup : Bool}
    (hwait : ∀ op, pc = .waitFin op → ¬s.Owed)
    (htest : ∀ op, pc = .testDie op → s.die = true → ¬s.Owed)
    (hfin : ∀ op, pc = .finBuffer op → s.finEvent = true)
    (hdie : ∀ op, pc = .dieBuffer op → s.die = true)
    (hdieFin : ∀ op, pc = .dieFin op → s.finEvent = true ∧ ¬s.Owed) :
    ({ s with reader := pc, readerWakeup := wakeup } : State).Seen :=
  ⟨hwait, htest, hfin, hdie, hdieFin, h.report⟩

private theorem State.seen_finish {report : Report}
    (hreport : report = .endOfStream → s.finEvent = true ∧ ¬s.Owed) : (s.finish report).Seen :=
  ⟨by simp [State.finish], by simp [State.finish], by simp [State.finish], by simp [State.finish],
    by simp [State.finish], fun hr => hreport (Option.some.inj hr)⟩

private theorem State.Data.not_owed (h : s.Data) (hflags : s.Flags) (hheld : s.reader.held = [])
    (hempty : s.buf.chunks = []) : ¬s.Owed :=
  State.not_owed_of_eq hflags (h.eq_of_unread hheld (h.buf_ok.chunks_eq_nil_iff.mp hempty))

private theorem State.taken_seen {op : ReadOp} (h : s.Seen) (hdata : s.Data) (hflags : s.Flags)
    (hreader : s.reader = .take op) : (s.taken op).Seen := by
  have hop := hdata.op_pos
  rw [hreader] at hop
  obtain ⟨-, -, hnone⟩ := op.take_spec (fun hc => hop (congrArg some hc)) s.config hdata.buf_ok
  have howed : (op.take s.config s.buf).2.1 = [] → ¬(s.taken op).Owed := fun hnil =>
    State.not_owed_of_eq (s := s) hflags (hdata.eq_of_unread (by rw [hreader]; rfl) (hnone hnil))
  rcases s.taken_cases op with ⟨hnil, hpc | hpc⟩ | hpc
  · refine ⟨?_, ?_, ?_, ?_, ?_, h.report⟩ <;> rw [hpc] <;> simp
  · refine ⟨?_, fun _ _ _ => howed hnil, ?_, ?_, ?_, h.report⟩ <;> rw [hpc] <;> simp
  · refine ⟨?_, ?_, ?_, ?_, ?_, h.report⟩ <;> rw [hpc] <;> simp

private theorem State.delivered_seen {bytes : Bytes} (h : s.Seen) :
    ({ s with returned := s.returned ++ bytes, reader := .sink } : State).Seen := by
  refine ⟨by simp, by simp, by simp, by simp, by simp, ?_⟩
  intro hr
  obtain ⟨hfin, howed⟩ := h.report hr
  refine ⟨hfin, fun hlt => howed ?_⟩
  simp only [State.Owed, List.length_append] at hlt ⊢
  omega

private theorem State.readerStep_seen (h : s.Seen) (hdata : s.Data) (hflags : s.Flags)
    (hstep : s.readerStep = some s') : s'.Seen := by
  unfold State.readerStep at hstep
  split at hstep
  next => cases hstep
  next => cases hstep
  next op hreader =>
    cases hstep
    exact State.taken_seen h hdata hflags hreader
  next op bytes hreader =>
    cases hstep
    split_ifs
    · exact State.delivered_seen h
    · exact State.seen_finish (by simp)
  next =>
    cases hstep
    exact h.move (by simp) (by simp) (by simp) (by simp) (by simp)
  next op hreader =>
    cases hstep
    split_ifs with hd
    · exact State.seen_finish fun _ => ⟨hflags.die_fin hd, h.testDie op hreader hd⟩
    · exact h.move (by simp) (by simp) (by simp) (by simp) (by simp)
  next op hreader =>
    cases hstep
    refine h.move (fun op' hop => ?_) ?_ ?_ ?_ ?_
    · split_ifs at hop with hempty
      exact hdata.not_owed hflags (by rw [hreader]; rfl) (List.isEmpty_iff.mp hempty)
    all_goals
      intro op' hop
      split_ifs at hop
  next op hreader =>
    cases hstep
    split_ifs with hf
    · exact State.seen_finish fun _ => ⟨hf, h.waitFin op hreader⟩
    · exact h.move (by simp) (by simp) (by simp) (by simp) (by simp)
  next op hreader =>
    cases hstep
    split_ifs
    · exact State.seen_finish (by simp)
    · exact h.move (by simp) (by simp) (by simp) (by simp) (by simp)
  next op hreader =>
    cases hstep
    split_ifs with hempty
    · exact State.seen_finish fun _ => ⟨h.finBuffer op hreader,
        hdata.not_owed hflags (by rw [hreader]; rfl) (List.isEmpty_iff.mp hempty)⟩
    · exact h.move (by simp) (by simp) (by simp) (by simp) (by simp)
  next op hreader =>
    cases hstep
    refine h.move ?_ ?_ ?_ ?_ ?_
    · intro op' hop
      split_ifs at hop
    · intro op' hop
      split_ifs at hop
    · intro op' hop
      split_ifs at hop
    · intro op' hop
      split_ifs at hop
    · intro op' hop
      split_ifs at hop with hempty
      exact ⟨hflags.die_fin (h.dieBuffer op hreader),
        hdata.not_owed hflags (by rw [hreader]; rfl) (List.isEmpty_iff.mp hempty)⟩
  next op hreader =>
    cases hstep
    refine State.seen_finish fun _ => h.dieFin op hreader

private theorem State.Seen.next (h : s.Seen) (hdata : s.Data) (hflags : s.Flags)
    (htimely : s.Timely a) (hnext : s.next a = some s') : s'.Seen := by
  cases a with
  | psh data =>
    simp only [State.next] at hnext
    split_ifs at hnext
    cases hnext
    unfold State.psh
    split_ifs
    · exact h
    · exact ⟨h.waitFin, h.testDie, h.finBuffer, h.dieBuffer, h.dieFin, h.report⟩
  | recv => exact State.recvStep_seen h hdata hflags htimely hnext
  | closer => exact State.closerStep_seen h htimely hnext
  | reader => exact State.readerStep_seen h hdata hflags hnext
  | finFrame =>
    simp only [State.next] at hnext
    split_ifs at hnext <;> cases hnext <;>
      exact ⟨h.waitFin, h.testDie, h.finBuffer, h.dieBuffer, h.dieFin, h.report⟩
  | closeWrite =>
    simp only [State.next] at hnext
    split_ifs at hnext <;> cases hnext <;>
      exact ⟨h.waitFin, h.testDie, h.finBuffer, h.dieBuffer, h.dieFin, h.report⟩
  | otherFrame =>
    simp only [State.next] at hnext
    split_ifs at hnext
    cases hnext
    exact h
  | unregister =>
    cases hnext
    exact ⟨h.waitFin, h.testDie, h.finBuffer, h.dieBuffer, h.dieFin, h.report⟩
  | call op =>
    simp only [State.next] at hnext
    split_ifs at hnext
    cases hnext
    exact ⟨by simp, by simp, by simp, by simp, by simp, by simp⟩
  | sinkFails =>
    simp only [State.next] at hnext
    split_ifs at hnext
    cases hnext
    exact State.seen_finish (by simp)
  | wakeupBranch =>
    simp only [State.next] at hnext
    split_ifs at hnext
    obtain ⟨op, -, rfl⟩ := Option.map_eq_some_iff.mp hnext
    exact h.move (by simp) (by simp) (by simp) (by simp) (by simp)
  | finBranch =>
    simp only [State.next] at hnext
    split_ifs at hnext with hf
    obtain ⟨op, -, rfl⟩ := Option.map_eq_some_iff.mp hnext
    exact h.move (by simp) (by simp) (fun _ _ => hf) (by simp) (by simp)
  | dieBranch =>
    simp only [State.next] at hnext
    split_ifs at hnext with hd
    obtain ⟨op, -, rfl⟩ := Option.map_eq_some_iff.mp hnext
    exact h.move (by simp) (by simp) (by simp) (fun _ _ => hd) (by simp)

def State.new (config : Config) : State := { config }

private theorem State.invariant_new (config : Config) :
    (State.new config).Data ∧ (State.new config).Flags ∧ (State.new config).Seen :=
  ⟨⟨StreamBuf.ok_empty, rfl, by simp [State.new, ReaderPc.op]⟩,
    ⟨by simp [State.new], by simp [State.new], by simp [State.new], by simp [State.new],
      by simp [State.new]⟩,
    ⟨by simp [State.new], by simp [State.new], by simp [State.new], by simp [State.new],
      by simp [State.new], by simp [State.new]⟩⟩

/-- In every schedule in which no flag is set over unread bytes between the reader's test of the
buffer and its test of that flag, what the reader was given is what was pushed, in order and once;
and whenever it reports the end of the stream, the peer's FIN has been processed and the reader has
every byte pushed before it. -/
theorem end_of_stream_exact (config : Config) (as : List Action)
    (hrun : exec State.next (State.new config) as = some s)
    (htimely : Along State.next State.Timely (State.new config) as) :
    s.returned <+: s.pushed ∧
      (s.report = some .endOfStream → ∃ p, s.beforeFin = some p ∧ s.finEvent = true ∧
        p <+: s.returned) := by
  obtain ⟨hdata, hflags, hseen⟩ := exec_invariant
    (fun s : State => s.Data ∧ s.Flags ∧ s.Seen)
    (fun _ _ _ ⟨hd, hf, hs⟩ ht hn => ⟨hd.next hn, hf.next hn, hs.next hd hf ht hn⟩)
    (State.invariant_new config) htimely hrun
  have hpre : s.returned <+: s.pushed := by
    rw [hdata.stream, List.append_assoc]
    exact List.prefix_append _ _
  refine ⟨hpre, ?_⟩
  intro hreport
  obtain ⟨hfin, howed⟩ := hseen.report hreport
  obtain ⟨p, hp⟩ := Option.isSome_iff_exists.mp (hflags.fin_iff.mp hfin)
  refine ⟨p, hp, hfin, List.prefix_of_prefix_length_le (hflags.fin_prefix p hp) hpre ?_⟩
  rw [State.Owed, hp, Option.getD_some] at howed
  omega

/-- The reader finds nothing and parks; a payload and the FIN arrive; it wakes up, reads the payload
and reports the end of the stream. -/
def parkedSchedule : List Action :=
  [.call (.read 8), .reader, .reader, .reader, .reader, .reader, .psh [1, 2], .recv, .finFrame, .recv,
    .wakeupBranch, .recv, .recv, .reader, .reader, .call .readChunk, .reader, .reader, .reader, .reader]

theorem end_of_stream_exact_parked :
    ∃ s, exec State.next (State.new defaultConfig) parkedSchedule = some s ∧
      s.report = some .endOfStream ∧ s.returned <+: s.pushed ∧
      ∃ p, s.beforeFin = some p ∧ p = [1, 2] ∧ p <+: s.returned := by
  have hrun : ∃ s, exec State.next (State.new defaultConfig) parkedSchedule = some s ∧
      s.report = some .endOfStream ∧ s.beforeFin = some [1, 2] := by decide +kernel
  obtain ⟨s, hs, hreport, hbefore⟩ := hrun
  obtain ⟨hpre, hend⟩ := end_of_stream_exact defaultConfig parkedSchedule hs (by decide +kernel)
  obtain ⟨p, hp, -, hle⟩ := hend hreport
  exact ⟨s, hs, hreport, hpre, p, hp, Option.some.inj (hp.symm.trans hbefore), hle⟩

/-- The reader finds the buffer empty; a payload and the FIN arrive; it tests `fin_event`. -/
def cutOffSchedule : List Action :=
  [.call (.read 8), .reader, .reader, .reader, .psh [1, 2], .recv, .finFrame, .recv, .reader]

/-- The end of the stream is reported with both bytes unread. -/
theorem end_of_stream_cut_off :
    ∃ s, exec State.next (State.new defaultConfig) cutOffSchedule = some s ∧
      s.report = some .endOfStream ∧ s.beforeFin = some [1, 2] ∧ s.returned = [] := by
  decide +kernel

end Kcptun.Smux.EndOfStream
