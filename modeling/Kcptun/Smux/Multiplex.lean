/- Kcptun/Smux/Multiplex
   source: crates/smux/src/session.rs (open_stream, recv_loop, send_loop, close_shared),
     crates/smux/src/stream.rs (write_frame, read, read_chunk, fin, close, close_write)
   digest: A session as its tasks see it: streams are opened and accepted, written, read and closed
     in any order while the two loops run, and what each step does to the streams. -/

import Kcptun.Smux.RecvLoop
import Kcptun.Smux.Sending
import Kcptun.Smux.StreamBuf

set_option autoImplicit false
set_option relaxedAutoImplicit false

namespace Kcptun.Smux.Multiplex

open Kcptun.Lib Kcptun.Lib.LittleEndian Kcptun.Smux.Frames Kcptun.Smux.RecvLoop Kcptun.Smux.Sending

/-- How far a stream has come: the first four are of `open_stream`. -/
inductive Phase where
  | allocated | requested | failed | opened | accepted
deriving DecidableEq, Repr

def Phase.own : Phase → Bool
  | .accepted => false
  | _ => true

def Phase.usable : Phase → Bool
  | .opened | .accepted => true
  | _ => false

/-- One stream. The last three fields are history: the data that arrived for its id before it was in
the session map, what arrived after, and what was read. -/
structure StreamInner where
  id : UInt32
  phase : Phase
  buf : StreamBuf := {}
  writing : Bool := false
  update : UInt32 := 0
  finEvent : Bool := false
  writeClosed : Bool := false
  die : Bool := false
  recycled : Bool := false
  early : Bytes := []
  received : Bytes := []
  returned : Bytes := []

/-- The receive loop between two frames. The last two fields are history. -/
structure Incoming where
  rx : Receiver Unit
  recvDone : Bool := false
  arrived : Bytes := []
  dispatched : List Frame := []

structure Session where
  nextStreamId : UInt32
  goAway : Bool := false
  closed : Bool := false
  readError : Bool := false
  writeError : Bool := false
  out : Outgoing := {}
  inc : Incoming
  streams : List (UInt32 × ℕ) := []
  inners : List StreamInner := []

inductive Event where
  | openStream
  | syn (i : ℕ)
  | register (i : ℕ)
  | failOpen (i : ℕ)
  | write (i : ℕ)
  | psh (i : ℕ) (data : Bytes)
  | writeReturns (i : ℕ)
  | fin (i : ℕ)
  | upd (i : ℕ)
  | nop
  | enqueue (k : ℕ)
  | abandon (k : ℕ)
  | send
  | cut (n : ℕ)
  | arrive (xs : Bytes)
  | recv
  | recvFails
  | read (i size : ℕ)
  | readChunk (i : ℕ)
  | halfClose (i : ℕ)
  | closeDie (i : ℕ)
  | streamClosed (i : ℕ)
  | close
deriving DecidableEq, Repr

def pushedTo (sid : UInt32) (fs : List Frame) : Bytes :=
  (fs.filter fun f => f.sid = sid ∧ f.cmd = CMD_PSH).flatMap Frame.data

namespace Session

def new (client : Bool) (size : ℕ) : Session :=
  { nextStreamId := if client then 1 else 0, inc := { rx := .new size [] } }

def version (config : Config) : UInt8 := UInt8.ofInt config.version

def modify (s : Session) (i : ℕ) (f : StreamInner → StreamInner) : Session :=
  { s with inners := s.inners.modify i f }

def onStream (s : Session) (i : ℕ) (ready : StreamInner → Bool) (next : StreamInner → Session) :
    Option Session :=
  (s.inners[i]?.filter ready).map next

def number (s : Session) (frame : Frame) (class_ : ClassId) : Session :=
  { s with out := s.out.number frame class_ }

/-- What a reader takes from the buffer, and the window update that is then due. -/
def took (s : Session) (i : ℕ) (taken : StreamBuf × Bytes × UInt32) : Session :=
  s.modify i fun inner => { inner with
    buf := taken.1
    returned := inner.returned ++ taken.2.1
    update := if taken.2.2 = 0 then inner.update else taken.2.2 }

def removeStream (s : Session) (sid : UInt32) : Session :=
  { s with streams := s.streams.filter fun e => e.1 ≠ sid }

/-- `StreamInner::try_half_close_cleanup`. -/
def tryHalfCloseCleanup (s : Session) (i : ℕ) (inner : StreamInner) : Session :=
  if inner.finEvent ∧ inner.writeClosed then
    (s.modify i fun inner => { inner with die := true }).removeStream inner.id
  else s

def dispatch (s : Session) (f : Frame) : Session :=
  if f.cmd = CMD_SYN then
    match s.streams.lookup f.sid with
    | some _ => s
    | none => { s with
      inners := s.inners ++
        [{ id := f.sid, phase := .accepted, early := pushedTo f.sid s.inc.dispatched }]
      streams := (f.sid, s.inners.length) :: s.streams }
  else if f.cmd = CMD_FIN then
    match s.streams.lookup f.sid with
    | some i => match s.inners[i]? with
      | some inner => (s.modify i fun inner => { inner with finEvent := true }).tryHalfCloseCleanup i
        { inner with finEvent := true }
      | none => s
    | none => s
  else if f.cmd = CMD_PSH then
    if f.data = [] then s
    else match s.streams.lookup f.sid with
      | some i => s.modify i fun inner => { inner with
          buf := inner.buf.pushBytes f.data
          received := inner.received ++ f.data }
      | none => s
  else s

/-- The receive loop takes the next frame; a frame that has not come whole is waited for. -/
def recv (s : Session) (version : UInt8) : Option Session :=
  if s.inc.recvDone then none
  else (s.inc.rx.turn version).bind fun r => match r.1 with
    | .ok f =>
      let s' := s.dispatch f
      some { s' with inc := { s.inc with rx := r.2, dispatched := s.inc.dispatched ++ [f] } }
    | .error (.protoError _) => some { s with inc := { s.inc with rx := r.2, recvDone := true } }
    | .error (.readError _) => none

def closeShared (s : Session) : Session := { s with
  closed := true
  streams := []
  inners := s.inners.mapIdx fun i inner =>
    if s.streams.any (·.2 = i) then { inner with die := true } else inner }

/-- The frames of a write go out one by one, and one task writes to a stream at a time. -/
def step (config : Config) (s : Session) : Event → Option Session
  | .openStream =>
    if s.closed ∨ s.goAway then none
    else if s.nextStreamId + 2 < s.nextStreamId then some { s with goAway := true }
    else some { s with
      nextStreamId := s.nextStreamId + 2
      inners := s.inners ++ [{ id := s.nextStreamId + 2, phase := .allocated }] }
  | .syn i => s.onStream i (fun inner => inner.phase = .allocated) fun inner =>
    (s.modify i fun inner => { inner with phase := .requested }).number
      (.new (version config) CMD_SYN inner.id) .ctrl
  | .register i => s.onStream i
    (fun inner => inner.phase = .requested ∧
      Frame.new (version config) CMD_SYN inner.id ∈ framesOf s.out.shaper.popped ∧
      ¬s.readError ∧ ¬s.writeError ∧ ¬s.closed)
    fun inner => { s.modify i fun inner => { inner with
        phase := .opened, early := pushedTo inner.id s.inc.dispatched } with
      streams := (inner.id, i) :: s.streams }
  | .failOpen i => s.onStream i (fun inner => inner.phase = .requested) fun _ =>
    s.modify i fun inner => { inner with phase := .failed }
  | .write i => s.onStream i
    (fun inner => inner.phase.usable ∧ ¬inner.writing ∧ ¬inner.writeClosed ∧ ¬inner.die) fun _ =>
    s.modify i fun inner => { inner with writing := true }
  | .psh i data => s.onStream i
    (fun inner => inner.phase.usable ∧ inner.writing ∧ pshOf inner.id s.out.waiting = [] ∧ data ≠ [] ∧
      data.length ≤ config.maxFrameSize.toNat) fun inner =>
    s.number (.withData (version config) CMD_PSH inner.id data) .data
  | .writeReturns i => s.onStream i
    (fun inner => inner.writing ∧ pshOf inner.id s.out.waiting = []) fun _ =>
    s.modify i fun inner => { inner with writing := false }
  | .fin i => s.onStream i (fun inner => inner.phase.usable) fun inner =>
    (s.modify i fun inner => { inner with writeClosed := true }).number
      (.new (version config) CMD_FIN inner.id) .data
  | .upd i => s.onStream i (fun inner => inner.update ≠ 0) fun inner =>
    (s.modify i fun inner => { inner with update := 0 }).number
      (.withData (version config) CMD_UPD inner.id
        (UpdHeader.new inner.update (UInt32.ofInt config.maxStreamBuffer)).bytes) .ctrl
  | .nop => some (s.number (.new (version config) CMD_NOP 0) .ctrl)
  | .enqueue k => (s.out.next (.enqueue k)).map fun out => { s with out }
  | .abandon k => (s.out.next (.abandon k)).map fun out => { s with out }
  | .send => (s.out.next .send).map fun out => { s with out }
  | .cut n => (s.out.next (.cut n)).map fun out => { s with out, writeError := true }
  | .arrive xs =>
    if xs = [] then none
    else some { s with inc := { s.inc with
      rx := { s.inc.rx with conn := s.inc.rx.conn ++ [.data xs] }
      arrived := s.inc.arrived ++ xs } }
  | .recv => s.recv (version config)
  | .recvFails => some { s with readError := true, inc := { s.inc with recvDone := true } }
  | .read i size => s.onStream i
    (fun inner => inner.phase.usable ∧ (inner.buf.takeFront config size).2.1 ≠ []) fun inner =>
    s.took i (inner.buf.takeFront config size)
  | .readChunk i => s.onStream i
    (fun inner => inner.phase.usable ∧ (inner.buf.popChunk config).2.1 ≠ []) fun inner =>
    s.took i (inner.buf.popChunk config)
  | .halfClose i => s.onStream i (fun inner => inner.phase.usable) fun inner =>
    s.tryHalfCloseCleanup i inner
  | .closeDie i => s.onStream i (fun inner => inner.phase.usable) fun _ =>
    s.modify i fun inner => { inner with die := true, writeClosed := true }
  | .streamClosed i => s.onStream i (fun inner => inner.die) fun inner =>
    (s.modify i fun inner => { inner with
      buf := inner.buf.recycleTokens.1, recycled := true }).removeStream inner.id
  | .close => if s.closed then none else some s.closeShared

def queued (s : Session) (sid : UInt32) : Bytes := pushedTo sid (framesOf s.out.shaper.pushed)

end Session

/-! What a step does. -/

structure Key where
  id : UInt32
  phase : Phase
  early : Bytes
  received : Bytes

def StreamInner.key (inner : StreamInner) : Key :=
  ⟨inner.id, inner.phase, inner.early, inner.received⟩

/-- What was read is what was received, as far as it has not been thrown away. -/
structure StreamInner.Reads (config : Config) (inner : StreamInner) : Prop where
  read : inner.recycled = false → inner.received = inner.returned ++ inner.buf.unread
  update : inner.update ≠ 0 → config.version = 2

/-- The streams keep their history, and none is added to the session map. -/
structure Session.Same (s s' : Session) : Prop where
  inc : s'.inc = s.inc
  next : s'.nextStreamId = s.nextStreamId
  keys : ∀ j : ℕ, s'.inners[j]?.map StreamInner.key = s.inners[j]?.map StreamInner.key
  streams : ∀ sid i, s'.streams.lookup sid = some i → s.streams.lookup sid = some i

/-- A request other than for a new stream, and the stream that it is for. -/
structure Session.Requests (s : Session) (version : UInt8) (frame : Frame) (class_ : ClassId) :
    Prop where
  fits : Op.Fits version s.out frame class_
  plain : frame.cmd ≠ CMD_SYN
  known : frame.cmd = CMD_PSH → ∃ inner ∈ s.inners, inner.phase.usable = true ∧ inner.id = frame.sid

/-- What a step does to the streams, to the requests and to what has arrived. -/
inductive Session.Effect (config : Config) (s s' : Session) : Prop
  | quiet (hsame : s.Same s') (hout : s'.out = s.out)
  | request {frame : Frame} {class_ : ClassId} (hsame : s.Same s')
      (hreq : s.Requests (Session.version config) frame class_)
      (hout : s'.out = s.out.number frame class_)
  | queue {op : Op} (hop : ∀ frame class_, op ≠ .number frame class_) (hsame : s.Same s')
      (hout : s.out.next op = some s'.out)
  | allocated (hwrap : ¬s.nextStreamId + 2 < s.nextStreamId)
      (h : s' = { s with
        nextStreamId := s.nextStreamId + 2
        inners := s.inners ++ [{ id := s.nextStreamId + 2, phase := .allocated }] })
  | requested {i : ℕ} {inner : StreamInner} (hinner : s.inners[i]? = some inner)
      (hphase : inner.phase = .allocated)
      (h : s' = (s.modify i fun inner => { inner with phase := .requested }).number
        (.new (Session.version config) CMD_SYN inner.id) .ctrl)
  | failed {i : ℕ} {inner : StreamInner} (hinner : s.inners[i]? = some inner)
      (hphase : inner.phase = .requested)
      (h : s' = s.modify i fun inner => { inner with phase := .failed })
  | opened {i : ℕ} {inner : StreamInner} (hinner : s.inners[i]? = some inner)
      (hphase : inner.phase = .requested)
      (hsent : Frame.new (Session.version config) CMD_SYN inner.id ∈ framesOf s.out.shaper.popped)
      (h : s' = { s.modify i fun inner => { inner with
          phase := .opened, early := pushedTo inner.id s.inc.dispatched } with
        streams := (inner.id, i) :: s.streams })
  | arrived {xs : Bytes} (hxs : xs ≠ []) (h : s' = { s with inc := { s.inc with
      rx := { s.inc.rx with conn := s.inc.rx.conn ++ [.data xs] }
      arrived := s.inc.arrived ++ xs } })
  | received {f : Frame} {rx : Receiver Unit} (hdone : s.inc.recvDone = false)
      (hturn : s.inc.rx.turn (Session.version config) = some (.ok f, rx))
      (h : s' = { s.dispatch f with
        inc := { s.inc with rx, dispatched := s.inc.dispatched ++ [f] } })
  | rejected {rx : Receiver Unit} {e : Frames.Error}
      (hturn : s.inc.rx.turn (Session.version config) = some (.error (.protoError e), rx))
      (h : s' = { s with inc := { s.inc with rx, recvDone := true } })
  | stopped (h : s' = { s with readError := true, inc := { s.inc with recvDone := true } })

def Session.Reads (config : Config) (s : Session) : Prop :=
  ∀ (j : ℕ) (inner : StreamInner), s.inners[j]? = some inner → inner.Reads config

section Steps

variable {config : Config} {s s' s'' : Session} {i : ℕ} {inner : StreamInner}
  {f : StreamInner → StreamInner} {ready : StreamInner → Bool} {next : StreamInner → Session}

private theorem lookup_filter (streams : List (UInt32 × ℕ)) (sid sid' : UInt32) :
    (streams.filter fun e => e.1 ≠ sid).lookup sid' =
      if sid' = sid then none else streams.lookup sid' := by
  induction streams with
  | nil => exact (ite_self none).symm
  | cons e streams ih =>
    obtain ⟨k, i⟩ := e
    rw [List.filter_cons, List.lookup_cons]
    by_cases hk : k = sid
    · rw [if_neg (by simpa using hk), ih]
      split_ifs with hsid
      · rfl
      · rw [beq_eq_false_iff_ne.mpr (fun h => hsid (h.trans hk))]
    · rw [if_pos (by simpa using hk), List.lookup_cons, ih]
      cases hkey : sid' == k with
      | false => rfl
      | true =>
        have hne : sid' ≠ sid := fun h => hk ((beq_iff_eq.mp hkey).symm.trans h)
        exact (if_neg hne).symm

namespace Session

private theorem onStream_cases (h : s.onStream i ready next = some s') :
    ∃ inner, s.inners[i]? = some inner ∧ ready inner = true ∧ s' = next inner := by
  obtain ⟨inner, hfilter, rfl⟩ := Option.map_eq_some_iff.mp h
  obtain ⟨hinner, hready⟩ := Option.filter_eq_some_iff.mp hfilter
  exact ⟨inner, hinner, hready, rfl⟩

theorem getElem?_modify (j : ℕ) : (s.modify i f).inners[j]? =
    s.inners[j]?.map fun inner => if i = j then f inner else inner := List.getElem?_modify f i _ j

theorem Same.refl (s : Session) : s.Same s := ⟨rfl, rfl, fun _ => rfl, fun _ _ h => h⟩

theorem Same.trans (h : s.Same s') (h' : s'.Same s'') : s.Same s'' :=
  ⟨h'.inc.trans h.inc, h'.next.trans h.next, fun j => (h'.keys j).trans (h.keys j),
    fun sid i hl => h.streams sid i (h'.streams sid i hl)⟩

theorem same_modify (hkey : ∀ inner, (f inner).key = inner.key) : s.Same (s.modify i f) := by
  refine ⟨rfl, rfl, ?_, fun _ _ h => h⟩
  intro j
  rw [getElem?_modify, Option.map_map]
  congr 1
  funext inner
  rw [Function.comp_apply]
  split_ifs
  · exact hkey inner
  · rfl

private theorem same_remove (sid : UInt32) : s.Same (s.removeStream sid) := by
  refine ⟨rfl, rfl, fun _ => rfl, ?_⟩
  intro sid' i h
  have h : (s.streams.filter fun e => e.1 ≠ sid).lookup sid' = some i := h
  rw [lookup_filter] at h
  split_ifs at h with hsid
  exact h

theorem same_cleanup (i : ℕ) (inner : StreamInner) : s.Same (s.tryHalfCloseCleanup i inner) := by
  unfold tryHalfCloseCleanup
  split_ifs
  · refine Same.trans ?_ (same_remove _)
    exact same_modify fun _ => rfl
  · exact .refl s

private theorem same_close : s.Same s.closeShared := by
  refine ⟨rfl, rfl, ?_, fun sid i h => by cases h⟩
  intro j
  unfold closeShared
  dsimp only
  rw [List.getElem?_mapIdx, Option.map_map]
  congr 1
  funext inner
  rw [Function.comp_apply]
  split_ifs <;> rfl

private theorem Reads.modify (h : s.Reads config)
    (hnew : ∀ inner, s.inners[i]? = some inner → inner.Reads config → (f inner).Reads config) :
    (s.modify i f).Reads config := by
  intro j inner hinner
  rw [getElem?_modify] at hinner
  obtain ⟨old, hold, rfl⟩ := Option.map_eq_some_iff.mp hinner
  split_ifs with hij
  · subst hij
    exact hnew old hold (h i old hold)
  · exact h j old hold

private theorem Reads.keep (h : s.Reads config)
    (hread : ∀ inner, (f inner).received = inner.received ∧
      (f inner).returned = inner.returned ∧ (f inner).buf = inner.buf ∧
      (f inner).recycled = inner.recycled)
    (hupdate : ∀ inner, (f inner).update ≠ 0 → inner.update ≠ 0) : (s.modify i f).Reads config := by
  refine h.modify fun inner _ hinner => ⟨?_, fun hdue => hinner.update (hupdate inner hdue)⟩
  intro hkept
  obtain ⟨hreceived, hreturned, hbuf, hrecycled⟩ := hread inner
  rw [hreceived, hreturned, hbuf]
  exact hinner.read (hrecycled ▸ hkept)

private theorem Reads.cleanup (h : s.Reads config) (i : ℕ) (inner : StreamInner) :
    (s.tryHalfCloseCleanup i inner).Reads config := by
  unfold tryHalfCloseCleanup
  split_ifs
  · exact h.keep (fun _ => ⟨rfl, rfl, rfl, rfl⟩) fun _ hdue => hdue
  · exact h

private theorem Reads.took (h : s.Reads config) {taken : StreamBuf × Bytes × UInt32}
    (htaken : ∀ inner, s.inners[i]? = some inner → taken.2.1 ++ taken.1.unread = inner.buf.unread)
    (hdue : taken.2.2 ≠ 0 → config.version = 2) : (s.took i taken).Reads config := by
  refine h.modify fun inner hinner hreads => ⟨?_, ?_⟩
  · intro hkept
    dsimp only
    rw [List.append_assoc, htaken inner hinner]
    exact hreads.read hkept
  · intro hne
    dsimp only at hne
    split_ifs at hne with hzero
    · exact hreads.update hne
    · exact hdue hzero

private theorem Reads.dispatch (h : s.Reads config) (frame : Frame) :
    (s.dispatch frame).Reads config := by
  unfold Session.dispatch
  split_ifs with hsyn hfin hpsh hempty
  · split
    · exact h
    · intro j inner hinner
      dsimp only at hinner
      rw [List.getElem?_append] at hinner
      split_ifs at hinner with hj
      · exact h j inner hinner
      · rw [List.getElem?_singleton] at hinner
        split_ifs at hinner
        cases hinner
        exact ⟨fun _ => rfl, fun hne => (hne rfl).elim⟩
  · split
    · split
      · refine Reads.cleanup ?_ _ _
        exact h.keep (fun _ => ⟨rfl, rfl, rfl, rfl⟩) fun _ hdue => hdue
      · exact h
    · exact h
  · exact h
  · split
    · refine h.modify fun inner _ hinner => ⟨?_, hinner.update⟩
      intro hkept
      dsimp only
      rw [StreamBuf.unread_pushBytes, ← List.append_assoc, ← hinner.read hkept]
    · exact h
  · exact h

private theorem version_two (h : config.version = 2) : version config = 2 := by
  unfold version
  rw [h]
  rfl

theorem valid_plain {cmd : UInt8} (sid : UInt32)
    (hcmd : cmd = CMD_NOP ∨ cmd = CMD_SYN ∨ cmd = CMD_FIN) :
    (Frame.new (version config) cmd sid).Valid (version config) :=
  Frame.valid_iff.mpr ⟨rfl, .inl ⟨hcmd, rfl⟩⟩

private theorem requests_plain {cmd : UInt8} (sid : UInt32) (class_ : ClassId)
    (hcmd : cmd = CMD_NOP ∨ cmd = CMD_FIN) :
    s.Requests (version config) (.new (version config) cmd sid) class_ := by
  have hother : cmd ≠ CMD_SYN ∧ cmd ≠ CMD_PSH := by
    rcases hcmd with rfl | rfl <;> decide
  refine ⟨⟨valid_plain sid (hcmd.imp_right .inr), ?_⟩, hother.1, ?_⟩
  · intro h
    exact absurd h hother.2
  · intro h
    exact absurd h hother.2

private theorem requests_upd (sid : UInt32) (u : UpdHeader) (htwo : config.version = 2) :
    s.Requests (version config) (.withData (version config) CMD_UPD sid u.bytes) .ctrl := by
  have hvalid : (Frame.withData (version config) CMD_UPD sid u.bytes).Valid (version config) :=
    Frame.valid_iff.mpr ⟨rfl, .inr (.inr ⟨rfl, version_two htwo, u.size⟩)⟩
  have hother : CMD_UPD ≠ CMD_PSH ∧ CMD_UPD ≠ CMD_SYN := by decide
  exact ⟨⟨hvalid, fun h => absurd h hother.1⟩, hother.2, fun h => absurd h hother.1⟩

private theorem requests_psh {data : Bytes} (hconfig : config.Verified)
    (hinner : s.inners[i]? = some inner)
    (husable : inner.phase.usable = true) (hwaiting : pshOf inner.id s.out.waiting = [])
    (hlen : data.length ≤ config.maxFrameSize.toNat) :
    s.Requests (version config) (.withData (version config) CMD_PSH inner.id data) .data := by
  have hfits : data.length ≤ 65535 := by
    have hle := hconfig.frame_le
    unfold MAX_FRAME_SIZE_LIMIT at hle
    omega
  have hplain : CMD_PSH ≠ CMD_SYN := by decide
  refine ⟨⟨Frame.valid_iff.mpr ⟨rfl, .inr (.inl ⟨rfl, hfits⟩)⟩, fun _ => ⟨rfl, hwaiting⟩⟩, hplain, ?_⟩
  intro _
  exact ⟨inner, List.mem_of_getElem? hinner, husable, rfl⟩

private theorem takeFront_due {buf : StreamBuf} {size : ℕ}
    (h : (buf.takeFront config size).2.2 ≠ 0) : config.version = 2 := by
  unfold StreamBuf.takeFront at h
  dsimp only at h
  by_contra hversion
  rw [if_neg hversion] at h
  exact h rfl

private theorem popChunk_due {buf : StreamBuf} (h : (buf.popChunk config).2.2 ≠ 0) :
    config.version = 2 := by
  unfold StreamBuf.popChunk at h
  dsimp only at h
  by_contra hversion
  rw [if_neg hversion] at h
  exact h rfl

theorem step_effect (hconfig : config.Verified) (hreads : s.Reads config) {e : Event}
    (hstep : s.step config e = some s') : s.Effect config s' ∧ s'.Reads config := by
  have hflags : ∀ {f : StreamInner → StreamInner} (i : ℕ), (∀ inner, (f inner).key = inner.key) →
      (∀ inner, (f inner).received = inner.received ∧ (f inner).returned = inner.returned ∧
        (f inner).buf = inner.buf ∧ (f inner).recycled = inner.recycled) →
      (∀ inner, (f inner).update ≠ 0 → inner.update ≠ 0) →
      s.Same (s.modify i f) ∧ (s.modify i f).Reads config :=
    fun i hkey hread hupdate => ⟨same_modify hkey, hreads.keep hread hupdate⟩
  cases e with
  | openStream =>
    unfold step at hstep
    dsimp only at hstep
    split_ifs at hstep with hclosed hwrap
    · cases hstep
      exact ⟨.quiet ⟨rfl, rfl, fun _ => rfl, fun _ _ h => h⟩ rfl, hreads⟩
    · cases hstep
      refine ⟨.allocated hwrap rfl, ?_⟩
      intro j inner hinner
      dsimp only at hinner
      rw [List.getElem?_append] at hinner
      split_ifs at hinner with hj
      · exact hreads j inner hinner
      · rw [List.getElem?_singleton] at hinner
        split_ifs at hinner
        cases hinner
        exact ⟨fun _ => rfl, fun hne => (hne rfl).elim⟩
  | syn i =>
    obtain ⟨inner, hinner, hready, rfl⟩ := onStream_cases hstep
    refine ⟨.requested hinner (of_decide_eq_true hready) rfl, ?_⟩
    exact hreads.keep (fun _ => ⟨rfl, rfl, rfl, rfl⟩) fun _ h => h
  | register i =>
    obtain ⟨inner, hinner, hready, rfl⟩ := onStream_cases hstep
    obtain ⟨hphase, hsent, -⟩ := of_decide_eq_true hready
    refine ⟨.opened hinner hphase hsent rfl, ?_⟩
    exact Reads.keep (s := s) hreads (fun _ => ⟨rfl, rfl, rfl, rfl⟩) fun _ h => h
  | failOpen i =>
    obtain ⟨inner, hinner, hready, rfl⟩ := onStream_cases hstep
    refine ⟨.failed hinner (of_decide_eq_true hready) rfl, ?_⟩
    exact hreads.keep (fun _ => ⟨rfl, rfl, rfl, rfl⟩) fun _ h => h
  | write i =>
    obtain ⟨inner, hinner, hready, rfl⟩ := onStream_cases hstep
    obtain ⟨hsame, hreads'⟩ := hflags (f := fun inner => { inner with writing := true }) i
      (fun _ => rfl) (fun _ => ⟨rfl, rfl, rfl, rfl⟩) fun _ h => h
    exact ⟨.quiet hsame rfl, hreads'⟩
  | psh i data =>
    obtain ⟨inner, hinner, hready, rfl⟩ := onStream_cases hstep
    obtain ⟨husable, -, hwaiting, -, hlen⟩ := of_decide_eq_true hready
    exact ⟨.request ⟨rfl, rfl, fun _ => rfl, fun _ _ h => h⟩
      (requests_psh hconfig hinner husable hwaiting hlen) rfl, hreads⟩
  | writeReturns i =>
    obtain ⟨inner, hinner, hready, rfl⟩ := onStream_cases hstep
    obtain ⟨hsame, hreads'⟩ := hflags (f := fun inner => { inner with writing := false }) i
      (fun _ => rfl) (fun _ => ⟨rfl, rfl, rfl, rfl⟩) fun _ h => h
    exact ⟨.quiet hsame rfl, hreads'⟩
  | fin i =>
    obtain ⟨inner, hinner, hready, rfl⟩ := onStream_cases hstep
    obtain ⟨hsame, hreads'⟩ := hflags (f := fun inner => { inner with writeClosed := true }) i
      (fun _ => rfl) (fun _ => ⟨rfl, rfl, rfl, rfl⟩) fun _ h => h
    exact ⟨.request ⟨rfl, rfl, hsame.keys, hsame.streams⟩ (requests_plain _ _ (.inr rfl)) rfl,
      hreads'⟩
  | upd i =>
    obtain ⟨inner, hinner, hready, rfl⟩ := onStream_cases hstep
    have htwo := (hreads i inner hinner).update (of_decide_eq_true hready)
    obtain ⟨hsame, hreads'⟩ := hflags (f := fun inner => { inner with update := 0 }) i
      (fun _ => rfl) (fun _ => ⟨rfl, rfl, rfl, rfl⟩) fun _ h => (h rfl).elim
    exact ⟨.request ⟨rfl, rfl, hsame.keys, hsame.streams⟩ (requests_upd _ _ htwo) rfl, hreads'⟩
  | nop =>
    cases hstep
    exact ⟨.request ⟨rfl, rfl, fun _ => rfl, fun _ _ h => h⟩ (requests_plain _ _ (.inl rfl)) rfl,
      hreads⟩
  | enqueue k =>
    obtain ⟨out, hout, rfl⟩ := Option.map_eq_some_iff.mp hstep
    have hout : s.out.next (.enqueue k) = some out := hout
    exact ⟨.queue (fun _ _ h => by cases h) ⟨rfl, rfl, fun _ => rfl, fun _ _ h => h⟩ hout, hreads⟩
  | abandon k =>
    obtain ⟨out, hout, rfl⟩ := Option.map_eq_some_iff.mp hstep
    have hout : s.out.next (.abandon k) = some out := hout
    exact ⟨.queue (fun _ _ h => by cases h) ⟨rfl, rfl, fun _ => rfl, fun _ _ h => h⟩ hout, hreads⟩
  | send =>
    obtain ⟨out, hout, rfl⟩ := Option.map_eq_some_iff.mp hstep
    have hout : s.out.next (.send) = some out := hout
    exact ⟨.queue (fun _ _ h => by cases h) ⟨rfl, rfl, fun _ => rfl, fun _ _ h => h⟩ hout, hreads⟩
  | cut n =>
    obtain ⟨out, hout, rfl⟩ := Option.map_eq_some_iff.mp hstep
    have hout : s.out.next (.cut n) = some out := hout
    exact ⟨.queue (fun _ _ h => by cases h) ⟨rfl, rfl, fun _ => rfl, fun _ _ h => h⟩ hout, hreads⟩
  | arrive xs =>
    unfold step at hstep
    dsimp only at hstep
    split_ifs at hstep with hxs
    cases hstep
    exact ⟨.arrived hxs rfl, hreads⟩
  | recv =>
    unfold step recv at hstep
    dsimp only at hstep
    split_ifs at hstep with hdone
    obtain ⟨⟨result, rx⟩, hturn, hresult⟩ := Option.bind_eq_some_iff.mp hstep
    cases result with
    | ok f =>
      cases hresult
      exact ⟨.received (Bool.eq_false_iff.mpr hdone) hturn rfl, hreads.dispatch f⟩
    | error e =>
      cases e with
      | readError e => cases hresult
      | protoError e =>
        cases hresult
        exact ⟨.rejected hturn rfl, hreads⟩
  | recvFails =>
    cases hstep
    exact ⟨.stopped rfl, hreads⟩
  | read i size =>
    obtain ⟨inner, hinner, hready, rfl⟩ := onStream_cases hstep
    refine ⟨.quiet (same_modify fun _ => rfl) rfl, hreads.took ?_ takeFront_due⟩
    intro inner' hinner'
    obtain rfl := Option.some.inj (hinner.symm.trans hinner')
    exact StreamBuf.unread_takeFront config size
  | readChunk i =>
    obtain ⟨inner, hinner, hready, rfl⟩ := onStream_cases hstep
    refine ⟨.quiet (same_modify fun _ => rfl) rfl, hreads.took ?_ popChunk_due⟩
    intro inner' hinner'
    obtain rfl := Option.some.inj (hinner.symm.trans hinner')
    exact StreamBuf.unread_popChunk config
  | halfClose i =>
    obtain ⟨inner, hinner, hready, rfl⟩ := onStream_cases hstep
    refine ⟨.quiet (same_cleanup i inner) ?_, hreads.cleanup i inner⟩
    unfold tryHalfCloseCleanup
    split_ifs <;> rfl
  | closeDie i =>
    obtain ⟨inner, hinner, hready, rfl⟩ := onStream_cases hstep
    obtain ⟨hsame, hreads'⟩ :=
      hflags (f := fun inner => { inner with die := true, writeClosed := true }) i (fun _ => rfl) (fun _ => ⟨rfl, rfl, rfl, rfl⟩) fun _ h => h
    exact ⟨.quiet hsame rfl, hreads'⟩
  | streamClosed i =>
    obtain ⟨inner, hinner, hready, rfl⟩ := onStream_cases hstep
    refine ⟨.quiet (Same.trans ?_ (same_remove _)) rfl, ?_⟩
    · exact same_modify fun _ => rfl
    exact hreads.modify fun inner _ hinner => ⟨fun hkept => (nomatch hkept), hinner.update⟩
  | close =>
    unfold step at hstep
    dsimp only at hstep
    split_ifs at hstep with hclosed
    cases hstep
    refine ⟨.quiet same_close rfl, ?_⟩
    intro j inner hinner
    unfold closeShared at hinner
    dsimp only at hinner
    rw [List.getElem?_mapIdx] at hinner
    obtain ⟨old, hold, rfl⟩ := Option.map_eq_some_iff.mp hinner
    have hread := hreads j old hold
    split_ifs
    · exact ⟨hread.read, hread.update⟩
    · exact hread

end Session

end Steps

end Kcptun.Smux.Multiplex
