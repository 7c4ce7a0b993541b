/- Kcptun/Smux/Opening
   source: crates/smux/src/session.rs (open_stream, write_frame_internal, close_shared, send_loop,
     recv_loop)
   digest: Opening a stream while the peer may already answer on it, and which of the peer's frames
     reach the stream that is returned. -/

import Kcptun.Lib.Interleaving
import Kcptun.Lib.LittleEndian

set_option autoImplicit false
set_option relaxedAutoImplicit false

namespace Kcptun.Smux.Opening

open Kcptun.Lib Kcptun.Lib.LittleEndian

inductive Cmd where
  | syn | fin | nop
  | psh (data : Bytes)
  | upd (consumed window : UInt32)
deriving DecidableEq, Repr

/-- A frame from the peer. `answer` is history: it was sent on the new stream after the `cmdSYN` of
`open_stream` had been written, and there is something to apply. -/
structure Frame where
  cmd : Cmd
  sid : UInt32
  answer : Bool
deriving DecidableEq, Repr

inductive Error where
  | closedPipe | goAway | timeout | socket
deriving DecidableEq, Repr

/-- Where `open_stream` is; `inner` is the index of its `StreamInner`. -/
inductive OpenerPc where
  | start
  | allocate
  | queueSyn (sid : UInt32) (inner : ℕ)
  | waiting (sid : UInt32) (inner : ℕ)
  | register (sid : UInt32) (inner : ℕ)
  | opened (sid : UInt32) (inner : ℕ)
  | failed (error : Error)
deriving DecidableEq, Repr

/-- Where `send_loop` is with the `cmdSYN`: queued in the shaper, taken out, on the wire, or answered
through the oneshot channel. -/
inductive SynPc where
  | absent | queued | popped | written
  | answered (result : Except Error Unit)
deriving Repr

inductive RecvPc where
  | frame
  | got (f : Frame)
deriving DecidableEq, Repr

/-- The frames applied to each `StreamInner`, and the session map with the newest entry of an id
first. -/
structure Streams where
  inners : List (List Frame) := []
  map : List (UInt32 × ℕ) := []
deriving DecidableEq, Repr

/-- `StreamInner::new`. -/
def Streams.create (t : Streams) : Streams := { t with inners := t.inners ++ [[]] }

def Streams.insert (t : Streams) (sid : UInt32) (inner : ℕ) : Streams :=
  { t with map := (sid, inner) :: t.map }

/-- `recv_loop` with a frame in hand: the lookup under the stream lock decides which `StreamInner` it
is applied to; a frame for a missing stream is dropped, and one without a payload is skipped. -/
def Streams.handle (t : Streams) (f : Frame) : Streams :=
  match f.cmd, t.map.lookup f.sid with
  | .nop, _ | .psh [], _ => t
  | .syn, some _ => t
  | .syn, none => t.create.insert f.sid t.inners.length
  | .fin, some inner | .psh _, some inner | .upd _ _, some inner =>
    { t with inners := t.inners.modify inner (· ++ [f]) }
  | .fin, none | .psh _, none | .upd _ _, none => t

/-- A session in which one task opens a stream and one may close it; `taken` once the latter has
emptied the map. The last two fields are history: the answers the peer sent, and those `recv_loop`
handled while the map did not hold the new stream. -/
structure State where
  nextStreamId : UInt32
  goAway : Bool := false
  closed : Bool := false
  die : Bool := false
  taken : Bool := false
  readError : Bool := false
  writeError : Bool := false
  opener : OpenerPc := .start
  syn : SynPc := .absent
  recv : RecvPc := .frame
  wire : List Frame := []
  streams : Streams := {}
  sent : List Frame := []
  missed : List Frame := []

inductive Action where
  | opener
  | openerGivesUp (error : Error)
  | send
  | sendFails
  | peerSends (cmd : Cmd) (sid : UInt32)
  | recv
  | closeSession
  | cancelDie
  | takeMap
  | readFails
deriving DecidableEq, Repr

/-- The id of the stream being opened, once it has been allocated. -/
def OpenerPc.sid : OpenerPc → Option UInt32
  | .queueSyn sid _ | .waiting sid _ | .register sid _ | .opened sid _ => some sid
  | .start | .allocate | .failed _ => none

def OpenerPc.inner : OpenerPc → Option ℕ
  | .queueSyn _ inner | .waiting _ inner | .register _ inner | .opened _ inner => some inner
  | .start | .allocate | .failed _ => none

def OpenerPc.isOpened : OpenerPc → Bool
  | .opened _ _ => true
  | _ => false

def SynPc.onWire : SynPc → Bool
  | .written | .answered _ => true
  | _ => false

/-- The next step of `open_stream`; a wait for the answer ends when there is one. -/
def State.openerStep (s : State) : Option State :=
  match s.opener with
  | .start => some { s with opener := if s.closed then .failed .closedPipe else .allocate }
  | .allocate =>
    if s.goAway then some { s with opener := .failed .goAway }
    else if s.nextStreamId + 2 < s.nextStreamId then
      some { s with goAway := true, opener := .failed .goAway }
    else some { s with
      nextStreamId := s.nextStreamId + 2
      streams := s.streams.create
      opener := .queueSyn (s.nextStreamId + 2) s.streams.inners.length }
  | .queueSyn sid inner => some { s with syn := .queued, opener := .waiting sid inner }
  | .waiting sid inner =>
    match s.syn with
    | .answered (.ok _) => some { s with opener := .register sid inner }
    | .answered (.error e) => some { s with opener := .failed e }
    | _ => none
  | .register sid inner =>
    some (if s.readError || s.writeError then { s with opener := .failed .socket }
      else if s.die then { s with opener := .failed .closedPipe }
      else { s with streams := s.streams.insert sid inner, opener := .opened sid inner })
  | .opened _ _ | .failed _ => none

def State.sendStep (s : State) : Option State :=
  match s.syn with
  | .queued => some { s with syn := .popped }
  | .popped => some { s with syn := .written }
  | .written => some { s with syn := .answered (.ok ()) }
  | .absent | .answered _ => none

def State.answers (s : State) (cmd : Cmd) (sid : UInt32) : Bool :=
  s.syn.onWire && s.opener.sid == some sid && cmd != .syn && cmd != .nop && cmd != .psh []

def State.holds (s : State) : Bool := s.opener.isOpened && !s.taken

def State.dispatch (s : State) (f : Frame) : State :=
  { s with
    recv := .frame
    streams := s.streams.handle f
    missed := if f.answer && !s.holds then s.missed ++ [f] else s.missed }

def State.recvStep (s : State) : Option State :=
  match s.recv, s.wire with
  | .frame, [] => none
  | .frame, f :: wire => some { s with recv := .got f, wire }
  | .got f, _ => some (s.dispatch f)

def State.next (s : State) : Action → Option State
  | .opener => s.openerStep
  | .openerGivesUp e =>
    match s.opener with
    | .waiting _ _ => some { s with opener := .failed e }
    | _ => none
  | .send => s.sendStep
  | .sendFails =>
    match s.syn with
    | .popped => some { s with syn := .answered (.error .socket), writeError := true }
    | _ => none
  | .peerSends cmd sid =>
    let f : Frame := ⟨cmd, sid, s.answers cmd sid⟩
    some { s with wire := s.wire ++ [f], sent := if f.answer then s.sent ++ [f] else s.sent }
  | .recv => s.recvStep
  | .closeSession => some { s with closed := true }
  | .cancelDie => if s.closed then some { s with die := true } else none
  | .takeMap =>
    if s.die ∧ s.taken = false then
      some { s with streams := { s.streams with map := [] }, taken := true }
    else none
  | .readFails => some { s with readError := true }

/-- A session that has opened nothing yet; clients use odd ids, servers even ones. -/
def State.new (client : Bool) : State := { nextStreamId := if client then 1 else 0 }

def State.pending (s : State) : List Frame :=
  match s.recv with
  | .frame => s.wire
  | .got f => f :: s.wire

def State.applied (s : State) (inner : ℕ) : List Frame :=
  (s.streams.inners[inner]?.getD []).filter (·.answer)

def State.inFlight (s : State) : List Frame := s.pending.filter (·.answer)

def State.Registered (s : State) (a : Action) : Prop :=
  match s.recv with
  | .frame => True
  | .got f => a = .recv → f.answer = true → s.holds = true

instance (s : State) (a : Action) : Decidable (s.Registered a) := by
  unfold State.Registered
  cases s.recv <;> infer_instance

variable {s s' : State} {a : Action}

private theorem State.openerStep_frame (hstep : s.openerStep = some s') :
    (s'.missed, s'.sent, s'.recv, s'.wire) = (s.missed, s.sent, s.recv, s.wire) := by
  unfold State.openerStep at hstep
  split at hstep
  next => cases hstep; rfl
  next => split_ifs at hstep <;> cases hstep <;> rfl
  next => cases hstep; rfl
  next =>
    split at hstep
    · cases hstep; rfl
    · cases hstep; rfl
    · cases hstep
  next =>
    cases hstep
    split_ifs <;> rfl
  next => cases hstep
  next => cases hstep

private theorem State.next_frame (hnext : s.next a = some s') (hrecv : a ≠ .recv)
    (hpeer : ∀ cmd sid, a ≠ .peerSends cmd sid) :
    (s'.missed, s'.sent, s'.recv, s'.wire) = (s.missed, s.sent, s.recv, s.wire) := by
  cases a with
  | opener => exact State.openerStep_frame hnext
  | openerGivesUp e =>
    simp only [State.next] at hnext
    split at hnext <;> cases hnext
    rfl
  | send =>
    simp only [State.next, State.sendStep] at hnext
    split at hnext <;> cases hnext <;> rfl
  | sendFails =>
    simp only [State.next] at hnext
    split at hnext <;> cases hnext
    rfl
  | peerSends cmd sid => exact absurd rfl (hpeer cmd sid)
  | recv => exact absurd rfl hrecv
  | closeSession => cases hnext; rfl
  | cancelDie | takeMap =>
    simp only [State.next] at hnext
    split_ifs at hnext
    cases hnext
    rfl
  | readFails => cases hnext; rfl

private theorem State.registered_of_ne (ha : a ≠ .recv) : s.Registered a := by
  unfold State.Registered
  split
  · trivial
  · intro hc
    exact absurd hc ha

private theorem State.recvStep_missed (hstep : s.recvStep = some s') :
    s'.missed = s.missed ∧ s.Registered .recv ∨
      (∃ f, s'.missed = s.missed ++ [f]) ∧ ¬s.Registered .recv := by
  unfold State.recvStep at hstep
  unfold State.Registered
  cases hrecv : s.recv with
  | frame =>
    rw [hrecv] at hstep
    cases hwire : s.wire with
    | nil => rw [hwire] at hstep; cases hstep
    | cons f wire =>
      rw [hwire] at hstep
      cases hstep
      exact .inl ⟨rfl, trivial⟩
  | got f =>
    rw [hrecv] at hstep
    cases hstep
    cases hanswer : f.answer with
    | false => exact .inl ⟨by simp [State.dispatch, hanswer], by simp [hanswer]⟩
    | true =>
      cases hholds : s.holds with
      | true => exact .inl ⟨by simp [State.dispatch, hanswer, hholds], by simp⟩
      | false => exact .inr ⟨⟨f, by simp [State.dispatch, hanswer, hholds]⟩, by simp [hanswer]⟩

private theorem State.missed_next (hnext : s.next a = some s') :
    s'.missed = s.missed ∧ s.Registered a ∨ (∃ f, s'.missed = s.missed ++ [f]) ∧ ¬s.Registered a := by
  by_cases ha : a = .recv
  · subst ha
    exact State.recvStep_missed hnext
  · refine .inl ⟨?_, State.registered_of_ne ha⟩
    by_cases hpeer : ∃ cmd sid, a = .peerSends cmd sid
    · obtain ⟨cmd, sid, rfl⟩ := hpeer
      cases hnext
      rfl
    · have hframe := State.next_frame hnext ha fun cmd sid hc => hpeer ⟨cmd, sid, hc⟩
      exact congrArg Prod.fst hframe

/-- Over a whole schedule: no answer is missed exactly if every step finds the stream
registered where it matters. -/
theorem State.missed_exec {as : List Action} (hrun : exec State.next s as = some s') :
    s'.missed = [] ↔ s.missed = [] ∧ Along State.next State.Registered s as := by
  induction as generalizing s with
  | nil =>
    cases hrun
    simp [Along]
  | cons a as ih =>
    obtain ⟨s1, hnext, hrest⟩ := exec_cons_iff.mp hrun
    rw [ih hrest, along_cons_iff, hnext, Option.elim_some]
    rcases State.missed_next hnext with ⟨heq, hreg⟩ | ⟨⟨f, heq⟩, hreg⟩
    · rw [heq]
      constructor
      · intro h
        exact ⟨h.1, hreg, h.2⟩
      · intro h
        exact ⟨h.1, h.2.2⟩
    · rw [heq]
      constructor
      · intro h
        exact absurd h.1 (by simp)
      · intro h
        exact absurd h.2.1 hreg

/-- The opener and the peer's answers while the call has not failed. -/
structure State.Balanced (s : State) : Prop where
  answers : ∀ f ∈ s.pending, f.answer = true →
    s.opener.sid = some f.sid ∧ f.cmd ≠ .syn ∧ f.cmd ≠ .nop ∧ f.cmd ≠ .psh []
  count : s.sent.length =
    s.missed.length + (s.opener.inner.elim [] s.applied).length + s.inFlight.length
  balance : s.missed = [] → s.sent = s.opener.inner.elim [] s.applied ++ s.inFlight
  entries : ∀ e ∈ s.streams.map, e.2 < s.streams.inners.length
  inner_lt : ∀ i, s.opener.inner = some i → i < s.streams.inners.length
  absent : s.holds = false → ∀ i, s.opener.inner = some i → ∀ e ∈ s.streams.map, e.2 ≠ i
  held : s.taken = false → ∀ sid i, s.opener = .opened sid i → s.streams.map.lookup sid = some i
  dead : s.taken = true → s.die = true

private theorem Streams.mem_of_lookup {t : Streams} {sid : UInt32} {i : ℕ}
    (h : t.map.lookup sid = some i) : (sid, i) ∈ t.map := by
  obtain ⟨before, after, heq, -⟩ := List.lookup_eq_some_iff.mp h
  rw [heq]
  exact List.mem_append_right _ List.mem_cons_self

private theorem Streams.handle_cases (t : Streams) (f : Frame) :
    (t.handle f = t ∧ ((f.cmd = .syn ∨ f.cmd = .nop ∨ f.cmd = .psh []) ∨
        t.map.lookup f.sid = none)) ∨
      (f.cmd = .syn ∧ t.map.lookup f.sid = none ∧
        t.handle f = t.create.insert f.sid t.inners.length) ∨
      ∃ i, t.map.lookup f.sid = some i ∧
        t.handle f = { t with inners := t.inners.modify i (· ++ [f]) } := by
  unfold Streams.handle
  cases hlookup : t.map.lookup f.sid with
  | none =>
    cases hcmd : f.cmd with
    | syn => exact .inr (.inl ⟨rfl, rfl, rfl⟩)
    | nop => exact .inl ⟨rfl, .inl (.inr (.inl rfl))⟩
    | fin => exact .inl ⟨rfl, .inr rfl⟩
    | psh data => cases data <;> exact .inl ⟨rfl, .inr rfl⟩
    | upd => exact .inl ⟨rfl, .inr rfl⟩
  | some i =>
    cases hcmd : f.cmd with
    | syn => exact .inl ⟨rfl, .inl (.inl rfl)⟩
    | nop => exact .inl ⟨rfl, .inl (.inr (.inl rfl))⟩
    | fin => exact .inr (.inr ⟨i, rfl, rfl⟩)
    | psh data =>
      cases data with
      | nil => exact .inl ⟨rfl, .inl (.inr (.inr rfl))⟩
      | cons b data => exact .inr (.inr ⟨i, rfl, rfl⟩)
    | upd => exact .inr (.inr ⟨i, rfl, rfl⟩)

private theorem Streams.filter_modify (t : Streams) {f : Frame} {i j : ℕ}
    (h : j ≠ i ∨ f.answer = false) :
    ((t.inners.modify j (· ++ [f]))[i]?.getD []).filter (·.answer) =
      (t.inners[i]?.getD []).filter (·.answer) := by
  rw [List.getElem?_modify]
  cases t.inners[i]? with
  | none => rfl
  | some frames =>
    by_cases hij : j = i
    · have hanswer := h.resolve_left (not_not.mpr hij)
      simp [hij, hanswer]
    · simp [hij]

private theorem State.Balanced.of_eq (h : s.Balanced) (hsid : s'.opener.sid = s.opener.sid)
    (hinner : s'.opener.inner = s.opener.inner) (hopened : s'.opener.isOpened = s.opener.isOpened)
    (hstreams : s'.streams = s.streams) (htaken : s'.taken = s.taken)
    (hdie : s.die = true → s'.die = true)
    (hframe : (s'.missed, s'.sent, s'.recv, s'.wire) = (s.missed, s.sent, s.recv, s.wire)) :
    s'.Balanced := by
  simp only [Prod.mk.injEq] at hframe
  obtain ⟨hmissed, hsent, hrecv, hwire⟩ := hframe
  have hpending : s'.pending = s.pending := by simp only [State.pending, hrecv, hwire]
  have hflight : s'.inFlight = s.inFlight := by rw [State.inFlight, hpending, ← State.inFlight]
  have hholds : s'.holds = s.holds := by rw [State.holds, hopened, htaken, ← State.holds]
  have happlied : s'.applied = s.applied := by
    funext i
    simp only [State.applied, hstreams]
  refine ⟨?_, ?_, ?_, ?_, ?_, ?_, ?_, fun h' => hdie (h.dead (htaken ▸ h'))⟩
  · rw [hpending, hsid]
    exact h.answers
  · rw [hsent, hmissed, hinner, happlied, hflight]
    exact h.count
  · rw [hsent, hmissed, hinner, happlied, hflight]
    exact h.balance
  · rw [hstreams]
    exact h.entries
  · rw [hinner, hstreams]
    exact h.inner_lt
  · rw [hholds, hinner, hstreams]
    exact h.absent
  · intro hkept sid i hop
    rw [hstreams]
    rw [hop] at hsid hinner hopened
    cases hpc : s.opener with
    | opened sid' i' =>
      rw [hpc] at hsid hinner
      cases hsid
      cases hinner
      exact h.held (htaken ▸ hkept) sid i hpc
    | _ => rw [hpc] at hopened; cases hopened

private theorem State.allocate_balanced (h : s.Balanced) (hpc : s.opener = .allocate)
    (sid : UInt32) : ({ s with
      nextStreamId := sid
      streams := s.streams.create
      opener := .queueSyn sid s.streams.inners.length } : State).Balanced := by
  have hnone : ∀ f ∈ s.pending, f.answer = false := by
    intro f hf
    by_contra hanswer
    have := (h.answers f hf (by simpa using hanswer)).1
    rw [hpc] at this
    cases this
  have hcount := h.count
  have hbalance := h.balance
  rw [hpc] at hcount hbalance
  have hnew : ((s.streams.inners ++ [[]])[s.streams.inners.length]?.getD []).filter (·.answer) =
      ([] : List Frame) := by simp
  refine ⟨?_, ?_, ?_, ?_, ?_, ?_, by simp, h.dead⟩
  · intro f hf hanswer
    rw [hnone f hf] at hanswer
    cases hanswer
  · apply hcount.trans
    simp only [OpenerPc.inner, Option.elim, State.applied, Streams.create, hnew]
    rfl
  · intro hm
    refine (hbalance hm).trans ?_
    simp only [OpenerPc.inner, Option.elim, State.applied, Streams.create, hnew]
    rfl
  · intro e he
    have hlt := h.entries e he
    simp only [Streams.create, List.length_append, List.length_singleton]
    omega
  · intro i hi
    cases hi
    simp [Streams.create]
  · intro _ i hi e he
    cases hi
    exact Nat.ne_of_lt (h.entries e he)

private theorem State.register_balanced (h : s.Balanced) {sid : UInt32} {i : ℕ}
    (hpc : s.opener = .register sid i) (hdie : s.die = false) :
    ({ s with streams := s.streams.insert sid i, opener := .opened sid i } : State).Balanced := by
  have hlt := h.inner_lt i (by rw [hpc]; rfl)
  have hkept : s.taken = false := by
    rw [← Bool.not_eq_true]
    intro htaken
    rw [h.dead htaken] at hdie
    cases hdie
  have hanswers := h.answers
  have hcount := h.count
  have hbalance := h.balance
  rw [hpc] at hanswers hcount hbalance
  refine ⟨hanswers, hcount, hbalance, ?_, ?_, ?_, ?_, h.dead⟩
  · intro e he
    rcases List.mem_cons.mp he with rfl | he
    · exact hlt
    · exact h.entries e he
  · intro j hj
    cases hj
    exact hlt
  · intro hgone
    simp [State.holds, OpenerPc.isOpened, hkept] at hgone
  · intro _ sid' j hop
    cases hop
    exact List.lookup_cons_self

private theorem State.takeMap_balanced (h : s.Balanced) (hdie : s.die = true) :
    ({ s with streams := { s.streams with map := [] }, taken := true } : State).Balanced :=
  ⟨h.answers, h.count, h.balance, fun _ he => absurd he List.not_mem_nil, h.inner_lt,
    fun _ _ _ _ he => absurd he List.not_mem_nil, fun hkept => Bool.noConfusion hkept, fun _ => hdie⟩

private theorem State.peerSends_balanced (h : s.Balanced) (cmd : Cmd) (sid : UInt32)
    (hnext : s.next (.peerSends cmd sid) = some s') : s'.Balanced := by
  set f : Frame := ⟨cmd, sid, s.answers cmd sid⟩ with hf
  have hpending : s'.pending = s.pending ++ [f] := by
    cases hnext
    unfold State.pending
    cases s.recv <;> rfl
  have hsent : s'.sent = s.sent ++ [f].filter (·.answer) := by
    cases hnext
    cases hanswer : s.answers cmd sid <;> simp [hf, hanswer]
  have hflight : s'.inFlight = s.inFlight ++ [f].filter (·.answer) := by
    rw [State.inFlight, hpending, List.filter_append, ← State.inFlight]
  have hrest : s'.opener = s.opener ∧ s'.streams = s.streams ∧ s'.missed = s.missed ∧
      s'.taken = s.taken ∧ s'.die = s.die := by
    cases hnext
    exact ⟨rfl, rfl, rfl, rfl, rfl⟩
  obtain ⟨hopener, hstreams, hmissed, htaken, hdie⟩ := hrest
  have hholds : s'.holds = s.holds := by rw [State.holds, hopener, htaken, ← State.holds]
  have happlied : s'.applied = s.applied := by
    funext i
    simp only [State.applied, hstreams]
  refine ⟨?_, ?_, ?_, hstreams ▸ h.entries, ?_, ?_, ?_, ?_⟩
  · intro g hg hanswer
    rw [hopener]
    rw [hpending] at hg
    rcases List.mem_append.mp hg with hold | hnew
    · exact h.answers g hold hanswer
    · cases List.mem_singleton.mp hnew
      have hans : s.answers cmd sid = true := hanswer
      simp only [State.answers, Bool.and_eq_true, beq_iff_eq, bne_iff_ne] at hans
      exact ⟨hans.1.1.1.2, hans.1.1.2, hans.1.2, hans.2⟩
  · rw [hsent, hflight, hmissed, hopener, happlied, List.length_append, List.length_append, h.count,
      Nat.add_assoc]
  · intro hm
    rw [hmissed] at hm
    rw [hsent, hflight, hopener, happlied, h.balance hm, List.append_assoc]
  · rw [hopener, hstreams]
    exact h.inner_lt
  · rw [hholds, hopener, hstreams]
    exact h.absent
  · rw [htaken, hopener, hstreams]
    exact h.held
  · rw [htaken, hdie]
    exact h.dead

private theorem State.Balanced.lookup_answer (h : s.Balanced) {f : Frame} (hmem : f ∈ s.pending)
    (hanswer : f.answer = true) {i : ℕ} (hinner : s.opener.inner = some i) :
    s.streams.map.lookup f.sid = some i ↔ s.holds = true := by
  constructor
  · intro hlookup
    rw [← Bool.not_eq_false]
    intro hgone
    exact h.absent hgone i hinner _ (Streams.mem_of_lookup hlookup) rfl
  · intro hholds
    obtain ⟨hopened, hkept⟩ : s.opener.isOpened = true ∧ s.taken = false := by
      simpa [State.holds] using hholds
    cases hpc : s.opener with
    | opened sid k =>
      have hsid := (h.answers f hmem hanswer).1
      rw [hpc] at hsid hinner
      cases hsid
      cases hinner
      exact h.held hkept _ _ hpc
    | _ => rw [hpc] at hopened; cases hopened

/-- What `recv_loop` does to the new stream with the frame in hand: an answer is applied to it
exactly if it is registered, and no other frame counts. -/
theorem State.Balanced.applied_dispatch (h : s.Balanced) {f : Frame} (hrecv : s.recv = .got f) :
    (s.opener.inner.elim [] (s.dispatch f).applied) =
      s.opener.inner.elim [] s.applied ++ if f.answer && s.holds then [f] else [] := by
  have hmem : f ∈ s.pending := by
    rw [State.pending, hrecv]
    exact List.mem_cons_self
  cases hinner : s.opener.inner with
  | none =>
    have hclosed : s.holds = false := by
      cases hpc : s.opener <;> rw [hpc] at hinner <;> simp [State.holds, hpc, OpenerPc.isOpened]
      cases hinner
    simp [hclosed]
  | some i =>
    have hfinds := fun hanswer => h.lookup_answer hmem hanswer hinner
    simp only [Option.elim, State.applied, State.dispatch]
    rcases s.streams.handle_cases f with ⟨heq, hwhy⟩ | ⟨hsyn, -, heq⟩ | ⟨j, hlookup, heq⟩
    · -- nothing was applied, so this was no answer on a registered stream
      have hskip : (f.answer && s.holds) = false := by
        by_contra hboth
        simp only [Bool.not_eq_false, Bool.and_eq_true] at hboth
        obtain ⟨-, hsyn, hnop, hpsh⟩ := h.answers f hmem hboth.1
        rcases hwhy with hcmd | hnone
        · exact hcmd.elim hsyn (·.elim hnop hpsh)
        · rw [(hfinds hboth.1).mpr hboth.2] at hnone
          cases hnone
      rw [heq, hskip]
      simp
    · have hskip : f.answer = false := by
        by_contra hanswer
        exact (h.answers f hmem (by simpa using hanswer)).2.1 hsyn
      have hlt := h.inner_lt i hinner
      rw [heq, hskip]
      simp [Streams.create, Streams.insert, List.getElem?_append_left hlt]
    · rw [heq]
      by_cases hboth : f.answer = true ∧ s.holds = true
      · have hji : j = i := by
          rw [(hfinds hboth.1).mpr hboth.2] at hlookup
          exact (Option.some.inj hlookup).symm
        have hlt := h.inner_lt i hinner
        simp [hboth.1, hboth.2, hji, List.getElem?_eq_getElem hlt]
      · have hskip : (f.answer && s.holds) = false := by
          rw [Bool.eq_false_iff]
          simpa using hboth
        rw [hskip, if_neg (by simp), List.append_nil]
        apply s.streams.filter_modify
        by_cases hanswer : f.answer = true
        · left
          rintro rfl
          exact hboth ⟨hanswer, (hfinds hanswer).mp hlookup⟩
        · exact .inr (by simpa using hanswer)

/-- What a frame leaves of the map: the entries point to streams, none to the new one that did not
before, and the entry of an id stays. -/
theorem Streams.map_handle (t : Streams) (f : Frame) (hentries : ∀ e ∈ t.map, e.2 < t.inners.length) :
    (∀ e ∈ (t.handle f).map, e ∈ t.map ∧ e.2 < (t.handle f).inners.length ∨
      e.2 = t.inners.length ∧ e.2 < (t.handle f).inners.length) ∧
    t.inners.length ≤ (t.handle f).inners.length ∧
    ∀ sid i, t.map.lookup sid = some i → (t.handle f).map.lookup sid = some i := by
  rcases t.handle_cases f with ⟨heq, -⟩ | ⟨-, hnone, heq⟩ | ⟨j, -, heq⟩ <;> rw [heq]
  · exact ⟨fun e he => .inl ⟨he, hentries e he⟩, le_rfl, fun _ _ => id⟩
  · have hlen : (t.create.insert f.sid t.inners.length).inners.length = t.inners.length + 1 := by
      simp [Streams.insert, Streams.create]
    refine ⟨?_, by omega, ?_⟩
    · intro e he
      rcases List.mem_cons.mp he with rfl | he
      · exact .inr ⟨rfl, by rw [hlen]; exact Nat.lt_succ_self _⟩
      · exact .inl ⟨he, by have := hentries e he; omega⟩
    · intro sid i hlookup
      have hne : (sid == f.sid) = false := by
        rw [beq_eq_false_iff_ne]
        rintro rfl
        rw [hlookup] at hnone
        cases hnone
      simpa [Streams.insert, Streams.create, List.lookup_cons, hne] using hlookup
  · refine ⟨fun e he => .inl ⟨he, ?_⟩, by rw [List.length_modify], fun _ _ => id⟩
    rw [List.length_modify]
    exact hentries e he

private theorem State.dispatch_balanced (h : s.Balanced) {f : Frame} (hrecv : s.recv = .got f) :
    (s.dispatch f).Balanced := by
  have happlied := h.applied_dispatch hrecv
  have hpending : s.pending = f :: s.wire := by rw [State.pending, hrecv]
  have hinflight : s.inFlight = [f].filter (·.answer) ++ s.wire.filter (·.answer) := by
    rw [State.inFlight, hpending, ← List.filter_append]
    rfl
  have hcount := h.count
  have hbalance := h.balance
  rw [hinflight] at hcount hbalance
  obtain ⟨hentries, hgrows, hkeeps⟩ := s.streams.map_handle f h.entries
  refine ⟨fun g hg => h.answers g ?_, ?_, ?_, ?_, ?_,
    ?_, fun hkept sid i hop => hkeeps sid i (h.held hkept sid i hop), h.dead⟩
  · rw [hpending]
    exact List.mem_cons_of_mem f hg
  · change s.sent.length = (s.dispatch f).missed.length +
      (s.opener.inner.elim [] (s.dispatch f).applied).length + (s.wire.filter (·.answer)).length
    rw [happlied]
    cases hanswer : f.answer <;> cases hholds : s.holds <;>
      simp [State.dispatch, hanswer, hholds] at hcount ⊢ <;> omega
  · change (s.dispatch f).missed = [] → s.sent =
      s.opener.inner.elim [] (s.dispatch f).applied ++ s.wire.filter (·.answer)
    rw [happlied]
    cases hanswer : f.answer with
    | false => simpa [State.dispatch, hanswer] using hbalance
    | true =>
      cases hholds : s.holds with
      | false => simp [State.dispatch, hanswer, hholds]
      | true => simpa [State.dispatch, hanswer, hholds] using hbalance
  · intro e he
    exact (hentries e he).elim And.right And.right
  · intro i hi
    exact (h.inner_lt i hi).trans_le hgrows
  · intro hgone i hi e he
    rcases hentries e he with ⟨hold, -⟩ | ⟨hnew, -⟩
    · exact h.absent hgone i hi e hold
    · exact hnew ▸ (Nat.ne_of_gt (h.inner_lt i hi))

private theorem State.failed_next {e : Error} (hpc : s.opener = .failed e)
    (hnext : s.next a = some s') : s'.opener = .failed e := by
  cases a with
  | opener =>
    simp only [State.next, State.openerStep, hpc] at hnext
    cases hnext
  | openerGivesUp e' =>
    simp only [State.next, hpc] at hnext
    cases hnext
  | send =>
    simp only [State.next, State.sendStep] at hnext
    split at hnext <;> cases hnext <;> exact hpc
  | sendFails =>
    simp only [State.next] at hnext
    split at hnext <;> cases hnext
    exact hpc
  | recv =>
    simp only [State.next, State.recvStep] at hnext
    split at hnext <;> cases hnext <;> exact hpc
  | cancelDie | takeMap =>
    simp only [State.next] at hnext
    split_ifs at hnext
    cases hnext
    exact hpc
  | peerSends | closeSession | readFails => cases hnext; exact hpc

private theorem State.openerStep_balanced (h : s.Balanced) (hstep : s.openerStep = some s') :
    (∃ e, s'.opener = .failed e) ∨ s'.Balanced := by
  unfold State.openerStep at hstep
  split at hstep
  next hpc =>
    cases hstep
    split_ifs
    · exact .inl ⟨_, rfl⟩
    · exact .inr (h.of_eq (by rw [hpc]; rfl) (by rw [hpc]; rfl) (by rw [hpc]; rfl) rfl rfl id rfl)
  next hpc =>
    split_ifs at hstep
    · cases hstep
      exact .inl ⟨_, rfl⟩
    · cases hstep
      exact .inl ⟨_, rfl⟩
    · cases hstep
      exact .inr (State.allocate_balanced h hpc _)
  next sid inner hpc =>
    cases hstep
    exact .inr (h.of_eq (by rw [hpc]; rfl) (by rw [hpc]; rfl) (by rw [hpc]; rfl) rfl rfl id rfl)
  next sid inner hpc =>
    split at hstep
    · cases hstep
      exact .inr (h.of_eq (by rw [hpc]; rfl) (by rw [hpc]; rfl) (by rw [hpc]; rfl) rfl rfl id rfl)
    · cases hstep
      exact .inl ⟨_, rfl⟩
    · cases hstep
  next sid inner hpc =>
    cases hstep
    split_ifs with herror hdie
    · exact .inl ⟨_, rfl⟩
    · exact .inl ⟨_, rfl⟩
    · exact .inr (State.register_balanced h hpc (by simpa using hdie))
  next => cases hstep
  next => cases hstep

private theorem State.Balanced.next (h : s.Balanced) (hnext : s.next a = some s') :
    (∃ e, s'.opener = .failed e) ∨ s'.Balanced := by
  cases a with
  | opener => exact State.openerStep_balanced h hnext
  | openerGivesUp e =>
    simp only [State.next] at hnext
    split at hnext <;> cases hnext
    exact .inl ⟨_, rfl⟩
  | send =>
    simp only [State.next, State.sendStep] at hnext
    split at hnext <;> cases hnext <;> exact .inr (h.of_eq rfl rfl rfl rfl rfl id rfl)
  | sendFails =>
    simp only [State.next] at hnext
    split at hnext <;> cases hnext
    exact .inr (h.of_eq rfl rfl rfl rfl rfl id rfl)
  | peerSends cmd sid => exact .inr (State.peerSends_balanced h cmd sid hnext)
  | recv =>
    simp only [State.next, State.recvStep] at hnext
    split at hnext
    next => cases hnext
    next f wire hrecv hwire =>
      cases hnext
      have hpending : s.pending = f :: wire := by rw [State.pending, hrecv, hwire]
      have hanswers := h.answers
      have hcount := h.count
      have hbalance := h.balance
      rw [hpending] at hanswers
      rw [State.inFlight, hpending] at hcount hbalance
      exact .inr ⟨hanswers, hcount, hbalance, h.entries, h.inner_lt, h.absent, h.held, h.dead⟩
    next f hrecv =>
      cases hnext
      exact .inr (State.dispatch_balanced h hrecv)
  | cancelDie =>
    simp only [State.next] at hnext
    split_ifs at hnext
    cases hnext
    exact .inr (h.of_eq rfl rfl rfl rfl rfl (fun _ => rfl) rfl)
  | takeMap =>
    simp only [State.next] at hnext
    split_ifs at hnext with hdie
    cases hnext
    exact .inr (State.takeMap_balanced h hdie.1)
  | closeSession | readFails => cases hnext; exact .inr (h.of_eq rfl rfl rfl rfl rfl id rfl)

private theorem State.balanced_new (client : Bool) : (State.new client).Balanced := by
  constructor <;> simp [State.new, State.pending, State.inFlight, OpenerPc.inner]

/-- For every schedule at whose end `open_stream` has returned a stream: every frame the peer sent on
it after the `cmdSYN` was on the wire has been applied to that stream, or is still to be handled, in
the order sent, exactly if `recv_loop` never looked up such a frame before the registration or after
a close of the session took the map. -/
theorem answers_applied_iff (client : Bool) (as : List Action) {sid : UInt32} {inner : ℕ}
    (hrun : exec State.next (State.new client) as = some s) (hopened : s.opener = .opened sid inner) :
    s.applied inner ++ s.inFlight = s.sent ↔
      Along State.next State.Registered (State.new client) as := by
  have hinv := exec_invariant_all (fun s : State => (∃ e, s.opener = .failed e) ∨ s.Balanced)
    (fun _ _ _ hi hn => hi.elim (fun ⟨e, he⟩ => .inl ⟨e, State.failed_next he hn⟩) fun hb => hb.next hn)
    (.inr (State.balanced_new client)) hrun
  have hmissed : s.missed = [] ↔ Along State.next State.Registered (State.new client) as := by
    rw [State.missed_exec hrun]
    exact and_iff_right rfl
  rw [← hmissed]
  rcases hinv with ⟨e, he⟩ | hb
  · rw [he] at hopened
    cases hopened
  · have hcount := hb.count
    have hbalance := hb.balance
    rw [hopened] at hcount hbalance
    constructor
    · intro heq
      have hlen := congrArg List.length heq
      rw [List.length_append] at hlen
      change s.sent.length = s.missed.length + (s.applied inner).length + s.inFlight.length at hcount
      exact List.eq_nil_of_length_eq_zero (by omega)
    · intro hnil
      exact (hbalance hnil).symm

/-- The answers arrive after the registration, with a frame between them that carries nothing. -/
def patientPeer : List Action :=
  [.opener, .opener, .opener, .send, .send, .send, .opener, .opener, .peerSends (.psh [7]) 3,
    .peerSends (.psh []) 3, .peerSends .fin 3, .recv, .recv, .recv, .recv, .recv, .closeSession,
    .cancelDie]

theorem answers_applied_patient :
    ∃ s, exec State.next (State.new true) patientPeer = some s ∧ s.opener = .opened 3 0 ∧
      s.applied 0 ++ s.inFlight = s.sent ∧ s.sent = [⟨.psh [7], 3, true⟩, ⟨.fin, 3, true⟩] := by
  have hrun : ∃ s, exec State.next (State.new true) patientPeer = some s ∧
      s.opener = .opened 3 0 ∧ s.sent = [⟨.psh [7], 3, true⟩, ⟨.fin, 3, true⟩] := by decide +kernel
  obtain ⟨s, hs, hopened, hsent⟩ := hrun
  exact ⟨s, hs, hopened, (answers_applied_iff true patientPeer hs hopened).mpr (by decide +kernel),
    hsent⟩

def fastPeer : List Action :=
  [.opener, .opener, .opener, .send, .send, .peerSends (.psh [7]) 3, .recv, .recv, .send, .opener,
    .opener]

/-- The answer is gone: it has been handled, and not applied to the stream that is returned. -/
theorem fast_answer_lost :
    ∃ s, exec State.next (State.new true) fastPeer = some s ∧ s.opener = .opened 3 0 ∧
      s.sent = [⟨.psh [7], 3, true⟩] ∧ s.applied 0 = [] ∧ s.inFlight = [] := by
  decide +kernel

end Kcptun.Smux.Opening
