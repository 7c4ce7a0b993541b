/- Kcptun/Smux/UpdateTask
   source: crates/smux/src/stream.rs (try_read, read_chunk, write_to, send_window_update,
     queue_window_update), crates/smux/src/session.rs (write_frame_internal, send_loop)
   digest: The two senders of a stream's window updates, one inline in the reader and one a task,
     each with its number drawn before it waits for admission to the write queue. -/

import Kcptun.Smux.ShaperOrder
import Kcptun.Smux.Window

set_option autoImplicit false
set_option relaxedAutoImplicit false

namespace Kcptun.Smux.UpdateTask

open Kcptun.Lib Kcptun.Lib.LittleEndian
open Kcptun.Smux.Window (Upd)

/-- The frame of a request: a window update of the stream, or any other frame of the session. -/
inductive Body where
  | update (u : Upd)
  | other
deriving DecidableEq, Repr

def Body.update? : Body → Option Upd
  | .update u => some u
  | .other => none

/-- Where the reader is: `write_to` writes a chunk out before its update is due, and both senders
stand at the two waits of `write_frame_internal` with the number drawn. -/
inductive ReaderPc where
  | idle
  | writing (due : Option Upd)
  | due (u : Upd)
  | admission (u : Upd) (seq : UInt32)
  | result
deriving DecidableEq, Repr

/-- Where a task of `queue_window_update` is; `failed` has not cleared the pending update yet. -/
inductive TaskPc where
  | take
  | due (u : Upd)
  | admission (u : Upd) (seq : UInt32)
  | result
  | failed
deriving DecidableEq, Repr

/-- One stream of a session. `pending` and `sending` are its `PendingUpdate`, `others` the numbers
that other requests have drawn and not queued yet, and `read` is history: the bytes read. -/
structure State where
  buf : StreamBuf := {}
  reader : ReaderPc := .idle
  pending : Upd := ⟨0, 0⟩
  sending : Bool := false
  tasks : List TaskPc := []
  requestId : UInt32 := 0
  others : List UInt32 := []
  shaper : ShaperRun Body := {}
  read : ℕ := 0

/-- The steps of a task; `closed` is what `is_closed` answers. -/
inductive TaskStep where
  | take (closed : Bool)
  | number
  | queue
  | finish
  | fail
  | clear
deriving DecidableEq, Repr

/-- The choices of the scheduler. `stop` ends a wait of the reader, by an error or otherwise. -/
inductive Action where
  | receive (data : Bytes)
  | read (size : ℕ)
  | readChunk
  | writeTo
  | written (ok : Bool)
  | number
  | queue
  | stop
  | task (i : ℕ) (step : TaskStep)
  | otherNumbers
  | otherQueues (seq : UInt32) (class_ : ClassId) (sid : UInt32)
  | otherGivesUp (seq : UInt32)
  | sendLoop
deriving DecidableEq, Repr

namespace State

/-- The update a critical section made due, if any. -/
def dueUpdate (s : State) (taken : StreamBuf × Bytes × UInt32) : Option Upd :=
  if taken.2.1.isEmpty ∨ taken.2.2 = 0 then none
  else some ⟨taken.2.2, s.read + taken.2.1.length⟩

def take (s : State) (taken : StreamBuf × Bytes × UInt32) : State :=
  { s with buf := taken.1, read := s.read + taken.2.1.length }

/-- `read`, up to the request of its window update. -/
def afterRead (s : State) (taken : StreamBuf × Bytes × UInt32) : State :=
  match s.dueUpdate taken with
  | none => s.take taken
  | some u => { s.take taken with reader := .due u }

def queueWindowUpdate (s : State) (u : Upd) : State :=
  if s.sending then { s with pending := u }
  else { s with pending := u, sending := true, tasks := s.tasks ++ [.take] }

def afterChunk (s : State) (taken : StreamBuf × Bytes × UInt32) : State :=
  match s.dueUpdate taken with
  | none => s.take taken
  | some u => (s.take taken).queueWindowUpdate u

/-- One turn of `write_to`, up to the write of the chunk. -/
def beginWrite (s : State) (taken : StreamBuf × Bytes × UInt32) : State :=
  if taken.2.1.isEmpty then s.take taken
  else { s.take taken with reader := .writing (s.dueUpdate taken) }

def push (s : State) (req : WriteRequest Body) : Option State :=
  (s.shaper.next (.push req)).map fun shaper => { s with shaper := shaper }

def endTask (s : State) (i : ℕ) : State :=
  { s with pending := ⟨0, 0⟩, sending := false, tasks := s.tasks.eraseIdx i }

def taskStep (sid : UInt32) (s : State) (i : ℕ) : TaskPc → TaskStep → Option State
  | .take, .take closed =>
    if s.pending.consumed = 0 ∨ closed then some (s.endTask i)
    else some { s with pending := ⟨0, 0⟩, tasks := s.tasks.set i (.due s.pending) }
  | .due u, .number => some { s with
      requestId := s.requestId + 1, tasks := s.tasks.set i (.admission u (s.requestId + 1)) }
  | .admission u seq, .queue =>
    { s with tasks := s.tasks.set i .result }.push ⟨.ctrl, sid, seq, .update u⟩
  | .result, .finish => some { s with tasks := s.tasks.set i .take }
  | .admission _ _, .fail => some { s with tasks := s.tasks.set i .failed }
  | .result, .fail => some { s with tasks := s.tasks.set i .failed }
  | .failed, .clear => some (s.endTask i)
  | _, _ => none

def next (config : Config) (sid : UInt32) (s : State) : Action → Option State
  | .receive data => some { s with buf := s.buf.pushBytes data }
  | .read size =>
    if s.reader = .idle ∧ 0 < size then some (s.afterRead (s.buf.takeFront config size)) else none
  | .readChunk =>
    if s.reader = .idle then some (s.afterChunk (s.buf.popChunk config)) else none
  | .writeTo =>
    if s.reader = .idle then some (s.beginWrite (s.buf.popChunk config)) else none
  | .written ok =>
    match s.reader with
    | .writing (some u) => some { s with reader := if ok then .due u else .idle }
    | .writing none => some { s with reader := .idle }
    | _ => none
  | .number =>
    match s.reader with
    | .due u => some { s with
        requestId := s.requestId + 1, reader := .admission u (s.requestId + 1) }
    | _ => none
  | .queue =>
    match s.reader with
    | .admission u seq => { s with reader := .result }.push ⟨.ctrl, sid, seq, .update u⟩
    | _ => none
  | .stop =>
    match s.reader with
    | .admission _ _ | .result => some { s with reader := .idle }
    | _ => none
  | .task i step => s.tasks[i]?.bind fun pc => s.taskStep sid i pc step
  | .otherNumbers => some { s with
      requestId := s.requestId + 1, others := (s.requestId + 1) :: s.others }
  | .otherQueues seq class_ sid' =>
    if seq ∈ s.others then
      { s with others := s.others.erase seq }.push ⟨class_, sid', seq, .other⟩
    else none
  | .otherGivesUp seq =>
    if seq ∈ s.others then some { s with others := s.others.erase seq } else none
  | .sendLoop => (s.shaper.next .pop).map fun shaper => { s with shaper := shaper }

end State

def updatesOf (reqs : List (WriteRequest Body)) : List Upd :=
  reqs.filterMap fun req => req.body.update?

/-- The updates of the stream, in the order in which they left the queue. -/
def State.sent (s : State) : List Upd := updatesOf s.shaper.popped

/-! Updates on their way, and the numbers drawn for them. -/

def TaskPc.unqueued : TaskPc → List Upd
  | .due u | .admission u _ => [u]
  | _ => []

def TaskPc.seqs : TaskPc → List UInt32
  | .admission _ seq => [seq]
  | _ => []

def ReaderPc.unqueued : ReaderPc → List Upd
  | .writing (some u) | .due u | .admission u _ => [u]
  | _ => []

def ReaderPc.seqs : ReaderPc → List UInt32
  | .admission _ seq => [seq]
  | _ => []

namespace State

/-- What the task has not put into the queue yet: the update it holds, and the pending one. -/
def owed (s : State) : List Upd :=
  s.tasks.flatMap TaskPc.unqueued ++ if s.pending.consumed = 0 then [] else [s.pending]

def heldSeqs (s : State) : List UInt32 := s.tasks.flatMap TaskPc.seqs ++ s.reader.seqs

def numbers (s : State) : List UInt32 :=
  s.others ++ s.heldSeqs ++ s.shaper.queue.queued.map WriteRequest.seq

/-- Every request that has not left the queue drew its number fewer than `2 ^ 31` requests ago. -/
def Recent (s : State) : Prop := ∀ seq ∈ s.numbers, (s.requestId - seq).toNat < 2147483648

instance (s : State) : Decidable s.Recent := List.decidableBAll _ s.numbers

/-- The reader does not ask for an update of its own while the task owes an older one, and no
request waits while `2 ^ 31` others draw their numbers. -/
def InTurn (config : Config) (sid : UInt32) (s : State) (a : Action) : Prop :=
  (a = .number → s.owed = []) ∧ ∀ s' ∈ s.next config sid a, s'.Recent

instance (config : Config) (sid : UInt32) (s : State) (a : Action) :
    Decidable (s.InTurn config sid a) := inferInstanceAs (Decidable (_ ∧ _))

/-- The task of `queue_window_update`: none runs and nothing is pending, or one runs. -/
def OneTask (s : State) : Prop :=
  (s.sending = false ∧ s.tasks = [] ∧ s.pending.consumed = 0) ∨
    (s.sending = true ∧ ∃ pc, s.tasks = [pc])

inductive TaskMoved (sid : UInt32) (s : State) : State → Prop
  | ended : TaskMoved sid s { s with pending := ⟨0, 0⟩, sending := false, tasks := [] }
  | takes (htasks : s.tasks = [.take]) (hpending : s.pending.consumed ≠ 0) :
      TaskMoved sid s { s with pending := ⟨0, 0⟩, tasks := [.due s.pending] }
  | numbers (u : Upd) (htasks : s.tasks = [.due u]) : TaskMoved sid s { s with
      requestId := s.requestId + 1, tasks := [.admission u (s.requestId + 1)] }
  | queues (u : Upd) (seq : UInt32) (shaper : ShaperRun Body)
      (htasks : s.tasks = [.admission u seq])
      (hpush : s.shaper.next (.push ⟨.ctrl, sid, seq, .update u⟩) = some shaper) :
      TaskMoved sid s { s with tasks := [.result], shaper := shaper }
  | finishes (htasks : s.tasks = [.result]) : TaskMoved sid s { s with tasks := [.take] }
  | fails : TaskMoved sid s { s with tasks := [.failed] }

variable {config : Config} {sid : UInt32} {s s' : State}

theorem OneTask.step (h : s.OneTask) {i : ℕ} {step : TaskStep}
    (hnext : s.next config sid (.task i step) = some s') :
    s.sending = true ∧ s.TaskMoved sid s' := by
  obtain ⟨pc, hpc, hstep⟩ := Option.bind_eq_some_iff.mp hnext
  rcases h with ⟨-, htasks, -⟩ | ⟨hsending, pc', htasks⟩
  · rw [htasks] at hpc
    cases hpc
  refine ⟨hsending, ?_⟩
  obtain ⟨rfl, rfl⟩ : i = 0 ∧ pc = pc' := by
    rw [htasks] at hpc
    cases i with
    | zero => exact ⟨rfl, (Option.some.inj hpc).symm⟩
    | succ i => cases hpc
  have hset : ∀ pc'', s.tasks.set 0 pc'' = [pc''] := fun pc'' => by rw [htasks]; rfl
  have herase : s.tasks.eraseIdx 0 = [] := by rw [htasks]; rfl
  cases pc with
  | take =>
    cases step with
    | take closed =>
      simp only [taskStep, hset] at hstep
      split_ifs at hstep with hnone
      · cases hstep
        rw [endTask, herase]
        exact .ended
      · cases hstep
        exact .takes htasks fun hzero => hnone (.inl hzero)
    | _ => cases hstep
  | due u =>
    cases step with
    | number =>
      simp only [taskStep, hset] at hstep
      cases hstep
      exact .numbers u htasks
    | _ => cases hstep
  | admission u seq =>
    cases step with
    | queue =>
      simp only [taskStep, hset, push] at hstep
      obtain ⟨shaper, hpush, rfl⟩ := Option.map_eq_some_iff.mp hstep
      exact .queues u seq shaper htasks hpush
    | fail =>
      simp only [taskStep, hset] at hstep
      cases hstep
      exact .fails
    | _ => cases hstep
  | result =>
    cases step with
    | finish =>
      simp only [taskStep, hset] at hstep
      cases hstep
      exact .finishes htasks
    | fail =>
      simp only [taskStep, hset] at hstep
      cases hstep
      exact .fails
    | _ => cases hstep
  | failed =>
    cases step with
    | clear =>
      simp only [taskStep] at hstep
      cases hstep
      rw [endTask, herase]
      exact .ended
    | _ => cases hstep

theorem OneTask.queueWindowUpdate (h : s.OneTask) (u : Upd) : (s.queueWindowUpdate u).OneTask := by
  unfold State.queueWindowUpdate
  rcases h with ⟨hsending, htasks, -⟩ | ⟨hsending, pc, htasks⟩
  · rw [if_neg (by rw [hsending]; exact Bool.false_ne_true), htasks]
    exact .inr ⟨rfl, .take, rfl⟩
  · rw [if_pos hsending]
    exact .inr ⟨hsending, pc, htasks⟩

theorem OneTask.next {a : Action} (h : s.OneTask) (hnext : s.next config sid a = some s') :
    s'.OneTask := by
  have hpush : ∀ (t : State) {req}, t.OneTask → t.push req = some s' → s'.OneTask := by
    intro t req hone hpush
    obtain ⟨shaper, -, rfl⟩ := Option.map_eq_some_iff.mp hpush
    exact hone
  cases a with
  | receive data =>
    cases hnext
    exact h
  | read size =>
    obtain ⟨-, hs'⟩ := Option.ite_none_right_eq_some.mp hnext
    obtain rfl := Option.some.inj hs'
    unfold State.afterRead
    split <;> exact h
  | readChunk =>
    obtain ⟨-, hs'⟩ := Option.ite_none_right_eq_some.mp hnext
    obtain rfl := Option.some.inj hs'
    unfold State.afterChunk
    split
    · exact h
    · exact OneTask.queueWindowUpdate (s := s.take _) h _
  | writeTo =>
    obtain ⟨-, hs'⟩ := Option.ite_none_right_eq_some.mp hnext
    obtain rfl := Option.some.inj hs'
    unfold State.beginWrite
    split_ifs <;> exact h
  | task i step =>
    obtain ⟨hsending, hmoved⟩ := h.step hnext
    cases hmoved with
    | ended => exact .inl ⟨rfl, rfl, rfl⟩
    | takes htasks hpending => exact .inr ⟨hsending, _, rfl⟩
    | numbers u htasks => exact .inr ⟨hsending, _, rfl⟩
    | queues u seq shaper htasks hpush => exact .inr ⟨hsending, _, rfl⟩
    | finishes htasks => exact .inr ⟨hsending, _, rfl⟩
    | fails => exact .inr ⟨hsending, _, rfl⟩
  | otherNumbers =>
    cases hnext
    exact h
  | otherQueues seq class_ sid' =>
    obtain ⟨-, hs'⟩ := Option.ite_none_right_eq_some.mp hnext
    exact hpush { s with others := s.others.erase seq } h hs'
  | otherGivesUp seq =>
    obtain ⟨-, hs'⟩ := Option.ite_none_right_eq_some.mp hnext
    obtain rfl := Option.some.inj hs'
    exact h
  | sendLoop =>
    obtain ⟨shaper, -, rfl⟩ := Option.map_eq_some_iff.mp hnext
    exact h
  | written ok =>
    simp only [State.next] at hnext
    split at hnext
    next => cases hnext; exact h
    next => cases hnext; exact h
    next => cases hnext
  | number =>
    simp only [State.next] at hnext
    split at hnext
    next => cases hnext; exact h
    next => cases hnext
  | queue =>
    simp only [State.next] at hnext
    split at hnext
    next => exact hpush { s with reader := .result } h hnext
    next => cases hnext
  | stop =>
    simp only [State.next] at hnext
    split at hnext
    next => cases hnext; exact h
    next => cases hnext; exact h
    next => cases hnext

end State

end Kcptun.Smux.UpdateTask
