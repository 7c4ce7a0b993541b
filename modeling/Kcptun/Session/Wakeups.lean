/- Kcptun/Session/Wakeups
   source: crates/kcp/src/session.rs (read, write_buffers, kcp_input, update, Wakeups, wake,
     set_read_deadline, set_write_deadline)
   digest: A session whose reader and writer sleep while there is nothing to do for them: which
     operations owe them a notification, and that neither sleeps through what it waits for. -/

import Kcptun.Arq.Packets
import Kcptun.Lib.Wakeup
import Kcptun.Session.Carriage

set_option autoImplicit false
set_option relaxedAutoImplicit false

namespace Kcptun.Session

open Kcptun.Arq Kcptun.Lib Kcptun.Lib.LittleEndian
open Kcptun.Fec (TYPE_DATA TYPE_PARITY TYPE_OOB fecFlag)

namespace Endpoint

variable {O C : Type}

def readable (s : Endpoint O C) : Bool := s.reader.bufptrLen > 0 ∨ s.kcp.peekSize > 0

def writable (s : Endpoint O C) : Bool := waitSnd s.kcp < s.kcp.sndWnd.toNat

/-- Whether a datagram reaches the end of `kcp_input`, where the notifications are decided on. -/
def reachesWake (s : Endpoint O C) (data : Bytes) : Bool :=
  match decrypt s.crypt data with
  | none => false
  | some data =>
    if data.length < MIN_PACKET_SIZE ∨ data.length < 6 then false
    else if fecFlag data = TYPE_DATA ∨ fecFlag data = TYPE_PARITY then
      FEC_HEADER_SIZE_PLUS2 ≤ data.length
    else fecFlag data ≠ TYPE_OOB

/-- The notifications that an operation owes the reader and the writer in the state it leaves. -/
def owes (s s' : Endpoint O C) : Op → ℕ × ℕ
  | .packetInput data =>
    if s.reachesWake data then ((decide (s'.kcp.peekSize > 0)).toNat, s'.writable.toNat)
    else (0, 0)
  | .update => (0, s'.writable.toNat)
  | _ => (0, 0)

def Op.Background : Op → Bool
  | .write _ | .read _ => false
  | _ => true

private theorem tryRead_isSome (s : Endpoint O C) (size : ℕ) :
    (s.reader.tryRead size).2.isSome = s.readable := by
  unfold readable kcp Reader.tryRead
  by_cases hleft : s.reader.bufptrLen > 0
  · rw [if_pos hleft]
    exact (decide_eq_true (Or.inl hleft)).symm
  · rw [if_neg hleft]
    by_cases hpeek : s.reader.kcp.peekSize > 0
    · rw [if_pos hpeek, decide_eq_true (Or.inr hpeek)]
      dsimp only
      split_ifs <;> rfl
    · rw [if_neg hpeek]
      exact (decide_eq_false (not_or.mpr ⟨hleft, hpeek⟩)).symm

private theorem tryRead_of_not_readable (s : Endpoint O C) (size : ℕ) (h : s.readable = false) :
    (s.reader.tryRead size).1 = s.reader := by
  obtain ⟨hleft, hpeek⟩ := not_or.mp (of_decide_eq_false h)
  unfold kcp at hpeek
  unfold Reader.tryRead
  rw [if_neg hleft, if_neg hpeek]

variable [Output O] [Clock C]

private theorem tryWrite_isSome (s : Endpoint O C) (v : List Bytes) :
    (s.tryWrite v).2.isSome = s.writable := by
  unfold tryWrite writable
  split_ifs with hfull
  · exact (decide_eq_false (Nat.not_lt.mpr hfull)).symm
  · exact (decide_eq_true (Nat.not_le.mp hfull)).symm

private theorem tryWrite_of_not_writable (s : Endpoint O C) (v : List Bytes)
    (h : s.writable = false) : (s.tryWrite v).1 = s := by
  have hfull : waitSnd s.kcp ≥ s.kcp.sndWnd.toNat := Nat.not_lt.mp (of_decide_eq_false h)
  unfold tryWrite
  rw [if_pos hfull]

end Endpoint

section Flush

variable {O C : Type} [Output O] [Clock C] (k : Kcp O C)

omit [Output O] [Clock C] in
private theorem peekSize_of_items {k k' : Kcp O C} (h : k'.rcvQueue.items = k.rcvQueue.items) :
    k'.peekSize = k.peekSize := by
  unfold Kcp.peekSize Fifo.length
  rw [h]

private theorem peekSize_flush (flushType : FlushType) :
    (k.flush flushType).1.peekSize = k.peekSize :=
  peekSize_of_items (congrArg RecvView.queue (k.recvView_flush flushType))

private theorem waitSnd_flush (flushType : FlushType) :
    Endpoint.waitSnd (k.flush flushType).1 = Endpoint.waitSnd k := by
  obtain ⟨_, _, data, -, -, -, hbuffer⟩ := k.flush_spec flushType
  obtain ⟨n, hn, hqueue, -, hout⟩ := hbuffer.admitted
  have hlen := hout.length_eq
  unfold Endpoint.waitSnd Fifo.length
  rw [hqueue, ← hlen, List.length_append, length_number, List.length_take, List.length_drop]
  unfold Fifo.length at hn
  omega

private theorem sndWnd_flush (flushType : FlushType) : (k.flush flushType).1.sndWnd = k.sndWnd := by
  obtain ⟨acklist, clock, tsProbe, probeWait, probe, hframe⟩ := k.flushControl_eq
  have hcontrol : k.flushControl.1.sndWnd = k.sndWnd := by rw [hframe]
  cases flushType with
  | full =>
    obtain ⟨ssthresh, cwnd, incr, h⟩ := k.flush_full
    rw [h]
    exact hcontrol
  | ackOnly =>
    obtain ⟨ssthresh, cwnd, incr, h⟩ := k.flush_ackOnly
    rw [h]
    exact hcontrol

end Flush

/-- A session with the calls of its reader and its writer. `raised` says that the send window was
set since the last update. -/
structure Blocking (O C : Type) where
  session : Endpoint O C
  reader : Caller := {}
  writer : Caller := {}
  raised : Bool := false

namespace Blocking

/-- What happens next: an operation of another task, or a step of a call. A call looks at the state
under the lock of the session; what it owes others and what others owe it comes after. A new deadline
also notifies. -/
inductive Event where
  | background (op : Endpoint.Op)
  | readEnter
  | readCheck (size : ℕ)
  | readResume
  | readRelease
  | notifyRead
  | setReadDeadline
  | writeEnter
  | writeCheck (v : List Bytes)
  | writeResume
  | writeRelease
  | notifyWrite
  | setWriteDeadline

variable {O C : Type} [Output O] [Clock C]

def step (b : Blocking O C) : Event → Option (Blocking O C)
  | .background op =>
    if op.Background then
      (b.session.step op).map fun s =>
        { session := s
          reader := b.reader.owe (b.session.owes s op).1
          writer := b.writer.owe (b.session.owes s op).2
          raised := match op with
            | .setWindowSize _ _ => true
            | .update => false
            | _ => b.raised }
    else none
  | .readEnter => b.reader.enter.map fun reader => { b with reader }
  | .readCheck size =>
    (b.reader.check (b.session.reader.tryRead size).2.isSome).map fun reader =>
      { b with reader, session.reader := (b.session.reader.tryRead size).1 }
  | .readResume => b.reader.resume.map fun reader => { b with reader }
  | .readRelease => b.reader.release.map fun reader => { b with reader }
  | .notifyRead => b.reader.pay.map fun reader => { b with reader }
  | .setReadDeadline => some { b with reader := b.reader.owe 1 }
  | .writeEnter => b.writer.enter.map fun writer => { b with writer }
  | .writeCheck v =>
    (b.writer.check (b.session.tryWrite v).2.isSome).map fun writer =>
      { b with writer, session := (b.session.tryWrite v).1 }
  | .writeResume => b.writer.resume.map fun writer => { b with writer }
  | .writeRelease => b.writer.release.map fun writer => { b with writer }
  | .notifyWrite => b.writer.pay.map fun writer => { b with writer }
  | .setWriteDeadline => some { b with writer := b.writer.owe 1 }

/-- Neither call sleeps through what it waits for. -/
structure Ok (b : Blocking O C) : Prop where
  reader : b.reader.Awake b.session.readable
  writer : b.raised = false → b.writer.Awake b.session.writable

end Blocking

section Steps

variable {O C : Type} [Output O] [Clock C] {s s' : Endpoint O C}

omit [Output O] [Clock C] in
private theorem readable_of_eq (hbuf : s'.reader.bufptrLen = s.reader.bufptrLen)
    (hpeek : s'.kcp.peekSize = s.kcp.peekSize) : s'.readable = s.readable := by
  unfold Endpoint.readable
  rw [hbuf, hpeek]

omit [Output O] [Clock C] in
private theorem writable_of_eq (hwait : Endpoint.waitSnd s'.kcp = Endpoint.waitSnd s.kcp)
    (hwnd : s'.kcp.sndWnd = s.kcp.sndWnd) : s'.writable = s.writable := by
  unfold Endpoint.writable
  rw [hwait, hwnd]

private theorem packetInput_quiet {data : Bytes} (h : s.reachesWake data = false) :
    (s.packetInput data).1 = s := by
  unfold Endpoint.reachesWake at h
  unfold Endpoint.packetInput
  cases hplain : decrypt s.crypt data with
  | none => rfl
  | some plain =>
    rw [hplain] at h
    dsimp only at h ⊢
    split_ifs at h with hshort hfec
    · rcases hshort with hmin | hsix
      · rw [if_pos hmin]
      · unfold Endpoint.kcpInput
        rw [if_pos hsix]
        split_ifs <;> rfl
    · rw [if_neg (fun hmin => hshort (.inl hmin))]
      unfold Endpoint.kcpInput
      rw [if_neg (fun hsix => hshort (.inr hsix)), if_pos hfec,
        if_pos (Nat.not_le.mp (of_decide_eq_false h))]
    · have hoob : fecFlag plain = TYPE_OOB := by simpa using h
      rw [if_neg (fun hmin => hshort (.inl hmin))]
      unfold Endpoint.kcpInput
      rw [if_neg (fun hsix => hshort (.inr hsix)), if_neg hfec, if_pos hoob]

private theorem bufptrLen_packetInput (data : Bytes) :
    (s.packetInput data).1.reader.bufptrLen = s.reader.bufptrLen := by
  have hfeed : ∀ (effects : List Effect) (s : Endpoint O C),
      (s.feed effects).reader.bufptrLen = s.reader.bufptrLen := by
    intro effects
    induction effects with
    | nil =>
      intro s
      rfl
    | cons effect effects ih =>
      intro s
      cases effect with
      | input data pktType => exact ih (s.setKcp (s.kcp.input data pktType s.ackNoDelay).1)
      | oob payload => exact ih s
  obtain ⟨decoder, effects, heq⟩ := s.packetInput_eq_feed data
  rw [heq]
  exact hfeed effects _

private theorem readable_step {op : Endpoint.Op} (hbackground : op.Background = true)
    (hstep : s.step op = some s') (hready : s'.readable = true) :
    s.readable = true ∨ 0 < (s.owes s' op).1 := by
  have hkeep : ∀ {k : Kcp O C}, s' = s.setKcp k → k.peekSize = s.kcp.peekSize →
      s.readable = true ∨ 0 < (s.owes s' op).1 := by
    intro k hs hpeek
    left
    rw [← hready]
    subst hs
    exact (@readable_of_eq _ _ s (s.setKcp k) rfl hpeek).symm
  cases op with
  | write v => cases hbackground
  | read size => cases hbackground
  | packetInput data =>
    cases hstep
    by_cases hwake : s.reachesWake data = true
    · rcases of_decide_eq_true hready with hleft | hpeek
      · left
        apply decide_eq_true
        left
        rwa [bufptrLen_packetInput] at hleft
      · right
        unfold Endpoint.owes
        dsimp only
        rw [if_pos hwake, decide_eq_true hpeek]
        exact Nat.one_pos
    · left
      rwa [packetInput_quiet (Bool.eq_false_iff.mpr hwake)] at hready
  | update =>
    cases hstep
    exact hkeep rfl (peekSize_flush s.kcp .full)
  | close =>
    cases hstep
    exact hkeep rfl (peekSize_flush s.kcp .full)
  | setMtu mtu =>
    obtain ⟨r, hr, rfl⟩ := Option.map_eq_some_iff.mp hstep
    unfold setKcpMtu at hr
    dsimp only at hr
    split_ifs at hr
    cases hr
    obtain ⟨_, _, h⟩ := s.kcp.setMtu_frame _
    apply hkeep rfl
    rw [h]
    rfl
  | setStreamMode enable =>
    cases hstep
    exact hkeep rfl rfl
  | setAckNoDelay nodelay =>
    cases hstep
    exact .inl hready
  | setWriteDelay delay =>
    cases hstep
    exact .inl hready
  | setWindowSize sndwnd rcvwnd =>
    cases hstep
    obtain ⟨_, _, h⟩ := s.kcp.wndSize_frame sndwnd rcvwnd
    apply hkeep rfl
    rw [h]
    rfl
  | setNoDelay nodelay interval resend nc =>
    cases hstep
    obtain ⟨_, _, _, _, _, h⟩ := s.kcp.setNodelay_frame nodelay interval resend nc
    apply hkeep rfl
    rw [h]
    rfl
  | shrinkIdle heapReleased ackReleased recvbufGrown =>
    have hitems : (s.kcp.shrinkIdleBuffers heapReleased ackReleased).1.rcvQueue.items =
        s.kcp.rcvQueue.items :=
      congrArg RecvView.queue (s.kcp.recvView_shrinkIdleBuffers heapReleased ackReleased)
    have hpeek := peekSize_of_items hitems
    cases hstep
    left
    rw [← hready]
    refine (readable_of_eq ?_ ?_).symm
    · -- the buffer is given back only when nothing is left in it
      split_ifs with hidle
      · unfold Reader.bufptrLen
        exact (Nat.sub_eq_zero_of_le hidle.1).symm
      · rfl
    · split_ifs <;> exact hpeek

/-- What an operation makes writable it owes the writer a notification for, a new window size
apart. -/
theorem writable_step {op : Endpoint.Op} (hbackground : op.Background = true)
    (hwindow : ∀ sndwnd rcvwnd, op ≠ .setWindowSize sndwnd rcvwnd)
    (hstep : s.step op = some s') (hready : s'.writable = true) :
    s.writable = true ∨ 0 < (s.owes s' op).2 := by
  have hkeep : ∀ {k : Kcp O C}, s' = s.setKcp k → Endpoint.waitSnd k = Endpoint.waitSnd s.kcp →
      k.sndWnd = s.kcp.sndWnd → s.writable = true ∨ 0 < (s.owes s' op).2 := by
    intro k hs hwait hwnd
    left
    rw [← hready]
    subst hs
    exact (@writable_of_eq _ _ s (s.setKcp k) hwait hwnd).symm
  cases op with
  | write v => cases hbackground
  | read size => cases hbackground
  | packetInput data =>
    cases hstep
    by_cases hwake : s.reachesWake data = true
    · right
      unfold Endpoint.owes
      dsimp only
      rw [if_pos hwake, hready]
      exact Nat.one_pos
    · left
      rwa [packetInput_quiet (Bool.eq_false_iff.mpr hwake)] at hready
  | update =>
    cases hstep
    exact hkeep rfl (waitSnd_flush s.kcp .full) (sndWnd_flush s.kcp .full)
  | close =>
    cases hstep
    exact hkeep rfl (waitSnd_flush s.kcp .full) (sndWnd_flush s.kcp .full)
  | setMtu mtu =>
    obtain ⟨r, hr, rfl⟩ := Option.map_eq_some_iff.mp hstep
    unfold setKcpMtu at hr
    dsimp only at hr
    split_ifs at hr
    cases hr
    obtain ⟨_, _, h⟩ := s.kcp.setMtu_frame _
    apply hkeep rfl
    · rw [h]
      rfl
    · rw [h]
  | setStreamMode enable =>
    cases hstep
    exact hkeep rfl rfl rfl
  | setAckNoDelay nodelay =>
    cases hstep
    exact .inl hready
  | setWriteDelay delay =>
    cases hstep
    exact .inl hready
  | setWindowSize sndwnd rcvwnd => exact absurd rfl (hwindow sndwnd rcvwnd)
  | setNoDelay nodelay interval resend nc =>
    cases hstep
    obtain ⟨_, _, _, _, _, h⟩ := s.kcp.setNodelay_frame nodelay interval resend nc
    apply hkeep rfl
    · rw [h]
      rfl
    · rw [h]
  | shrinkIdle heapReleased ackReleased recvbufGrown =>
    have hkcp : Endpoint.waitSnd (s.kcp.shrinkIdleBuffers heapReleased ackReleased).1 =
        Endpoint.waitSnd s.kcp ∧
        (s.kcp.shrinkIdleBuffers heapReleased ackReleased).1.sndWnd = s.kcp.sndWnd := by
      unfold Endpoint.waitSnd Fifo.length Kcp.shrinkIdleBuffers
      dsimp only
      split_ifs <;> simp
    cases hstep
    left
    rw [← hready]
    refine (writable_of_eq ?_ ?_).symm
    · split_ifs <;> exact hkcp.1
    · split_ifs <;> exact hkcp.2

omit [Output O] [Clock C] in
private theorem writable_tryRead (s : Endpoint O C) (size : ℕ) :
    ({ s with reader := (s.reader.tryRead size).1 } : Endpoint O C).writable = s.writable := by
  have hrecv : ∀ buflen, Endpoint.waitSnd (s.reader.kcp.recv buflen).1 =
      Endpoint.waitSnd s.reader.kcp ∧ (s.reader.kcp.recv buflen).1.sndWnd = s.reader.kcp.sndWnd := by
    intro buflen
    obtain ⟨_, _, _, _, h⟩ := s.reader.kcp.recv_frame buflen
    rw [h]
    exact ⟨rfl, rfl⟩
  unfold Endpoint.writable Endpoint.kcp Reader.tryRead
  dsimp only
  split_ifs
  · rfl
  · rw [(hrecv size).1, (hrecv size).2]
  · rw [(hrecv _).1, (hrecv _).2]
  · rfl

private theorem readable_tryWrite (s : Endpoint O C) (v : List Bytes) :
    (s.tryWrite v).1.readable = s.readable := by
  have hqueued : (queueWrite s.kcp v).peekSize = s.kcp.peekSize :=
    peekSize_of_items (congrArg RecvView.queue (Endpoint.recvView_queueWrite s.kcp v))
  rcases s.tryWrite_eq v with heq | ⟨-, heq | heq⟩
  · rw [heq]
  · rw [heq]
    exact readable_of_eq rfl hqueued
  · rw [heq]
    exact readable_of_eq rfl ((peekSize_flush _ .full).trans hqueued)

private theorem Blocking.Ok.step {b b' : Blocking O C} (h : b.Ok) {event : Blocking.Event}
    (hstep : b.step event = some b') : b'.Ok := by
  cases event with
  | background op =>
    unfold Blocking.step at hstep
    dsimp only at hstep
    split_ifs at hstep with hbackground
    obtain ⟨s, hs, rfl⟩ := Option.map_eq_some_iff.mp hstep
    refine ⟨h.reader.owe (readable_step hbackground hs), ?_⟩
    intro hraised
    dsimp only at hraised ⊢
    by_cases hupdate : op = .update
    · -- an update looks at the window itself
      subst hupdate
      cases hs
      intro hturn hready
      refine Nat.add_pos_right _ ?_
      unfold Endpoint.owes
      dsimp only at hready ⊢
      rw [hready]
      exact Nat.one_pos
    · have hwindow : ∀ sndwnd rcvwnd, op ≠ .setWindowSize sndwnd rcvwnd := by
        rintro sndwnd rcvwnd rfl
        cases hraised
      have hbefore : b.raised = false := by
        cases op with
        | update => exact absurd rfl hupdate
        | setWindowSize sndwnd rcvwnd => exact absurd rfl (hwindow sndwnd rcvwnd)
        | _ => exact hraised
      exact (h.writer hbefore).owe (writable_step hbackground hwindow hs)
  | readEnter =>
    obtain ⟨c, hc, rfl⟩ := Option.map_eq_some_iff.mp hstep
    exact ⟨Caller.awake_enter hc, h.writer⟩
  | readCheck size =>
    obtain ⟨c, hc, rfl⟩ := Option.map_eq_some_iff.mp hstep
    constructor
    · rw [Endpoint.tryRead_isSome] at hc
      cases hready : b.session.readable with
      | false =>
        -- the look found nothing, and took nothing
        have hsame : (b.session.reader.tryRead size).1 = b.session.reader :=
          b.session.tryRead_of_not_readable size hready
        dsimp only
        rw [hready] at hc
        rw [hsame]
        rw [show Endpoint.readable { b.session with reader := b.session.reader } = false from hready]
        exact Caller.awake_check hc
      | true =>
        intro hturn
        rw [hready] at hc
        exact (Caller.check_ready hc hturn).elim
    · intro hraised
      dsimp only
      rw [writable_tryRead]
      exact h.writer hraised
  | readResume =>
    obtain ⟨c, hc, rfl⟩ := Option.map_eq_some_iff.mp hstep
    exact ⟨Caller.awake_resume hc, h.writer⟩
  | readRelease =>
    obtain ⟨c, hc, rfl⟩ := Option.map_eq_some_iff.mp hstep
    exact ⟨Caller.awake_release hc, h.writer⟩
  | notifyRead =>
    obtain ⟨c, hc, rfl⟩ := Option.map_eq_some_iff.mp hstep
    exact ⟨Caller.awake_pay hc, h.writer⟩
  | setReadDeadline =>
    cases hstep
    exact ⟨h.reader.owe fun _ => .inr Nat.one_pos, h.writer⟩
  | writeEnter =>
    obtain ⟨c, hc, rfl⟩ := Option.map_eq_some_iff.mp hstep
    exact ⟨h.reader, fun _ => Caller.awake_enter hc⟩
  | writeCheck v =>
    obtain ⟨c, hc, rfl⟩ := Option.map_eq_some_iff.mp hstep
    constructor
    · dsimp only
      rw [readable_tryWrite]
      exact h.reader
    · intro _
      rw [Endpoint.tryWrite_isSome] at hc
      cases hready : b.session.writable with
      | false =>
        have hsame : (b.session.tryWrite v).1 = b.session :=
          b.session.tryWrite_of_not_writable v hready
        dsimp only
        rw [hready] at hc
        rw [hsame, hready]
        exact Caller.awake_check hc
      | true =>
        intro hturn
        rw [hready] at hc
        exact (Caller.check_ready hc hturn).elim
  | writeResume =>
    obtain ⟨c, hc, rfl⟩ := Option.map_eq_some_iff.mp hstep
    exact ⟨h.reader, fun _ => Caller.awake_resume hc⟩
  | writeRelease =>
    obtain ⟨c, hc, rfl⟩ := Option.map_eq_some_iff.mp hstep
    exact ⟨h.reader, fun _ => Caller.awake_release hc⟩
  | notifyWrite =>
    obtain ⟨c, hc, rfl⟩ := Option.map_eq_some_iff.mp hstep
    exact ⟨h.reader, fun _ => Caller.awake_pay hc⟩
  | setWriteDeadline =>
    cases hstep
    exact ⟨h.reader, fun hraised => (h.writer hraised).owe fun _ => .inr Nat.one_pos⟩

/-- Neither the reader nor the writer of a session sleeps through what it waits for. Whenever the
reader is parked and a read would be served, a notification is under way that gets it to the data;
so is one for the writer when the window has room, unless the window was set since the last
update. -/
theorem no_lost_wakeup {b : Blocking O C} {events : List Blocking.Event}
    (hrun : exec Blocking.step { session := s } events = some b) :
    (b.reader.turn = .parked .waiting → ∀ size, (b.session.reader.tryRead size).2.isSome →
      0 < b.reader.owed ∧ ∃ b' f,
        exec Blocking.step b [.notifyRead, .readResume, .readEnter, .readCheck size] = some b' ∧
          b'.reader.turn = .busy f ∧ b'.session.reader = (b.session.reader.tryRead size).1) ∧
      (b.raised = false → b.writer.turn = .parked .waiting →
        ∀ v, (b.session.tryWrite v).2.isSome →
        0 < b.writer.owed ∧ ∃ b' f,
          exec Blocking.step b [.notifyWrite, .writeResume, .writeEnter, .writeCheck v] =
              some b' ∧
            b'.writer.turn = .busy f ∧ b'.session = (b.session.tryWrite v).1) := by
  have hok : b.Ok := by
    refine exec_invariant_all Blocking.Ok ?_ ?_ hrun
    · intro b event b' h hstep
      exact h.step hstep
    · refine ⟨?_, fun _ => ?_⟩
      all_goals
        intro hturn
        cases hturn
  constructor
  · intro hturn size hserved
    have howed := hok.reader hturn (by rwa [← Endpoint.tryRead_isSome])
    obtain ⟨c₁, c₂, c₃, c₄, f, hpay, hresume, henter, hcheck, hbusy⟩ := Caller.wakes hturn howed
    refine ⟨howed, { b with reader := c₄, session.reader := (b.session.reader.tryRead size).1 }, f,
      ?_, hbusy, rfl⟩
    simp only [exec, Blocking.step, hpay, hresume, henter, hserved, hcheck, Option.map_some,
      Option.bind_some]
  · intro hraised hturn v htaken
    have howed := hok.writer hraised hturn (by rwa [← Endpoint.tryWrite_isSome _ v])
    obtain ⟨c₁, c₂, c₃, c₄, f, hpay, hresume, henter, hcheck, hbusy⟩ := Caller.wakes hturn howed
    refine ⟨howed, { b with writer := c₄, session := (b.session.tryWrite v).1 }, f, ?_, hbusy, rfl⟩
    simp only [exec, Blocking.step, hpay, hresume, henter, htaken, hcheck, Option.map_some,
      Option.bind_some]

end Steps

/-- A window of one segment: the second write parks, and so does a read; then a packet comes that
acknowledges the first write and carries three bytes. -/
theorem no_lost_wakeup_packet : ∃ (s : Endpoint Unbounded VirtualClock) (p : TxPipeline)
    (b : Blocking Unbounded VirtualClock),
    Endpoint.new ⟨7, 0, 0, none⟩ {} ⟨0⟩ = .ok (s, p) ∧
      exec Blocking.step { session := s } [.background (.setNoDelay 1 10 2 1),
        .background (.setWindowSize 1 32), .background .update, .writeEnter, .writeCheck [[5]],
        .writeRelease, .writeEnter, .writeCheck [[6]], .readEnter, .readCheck 10,
        .background (.packetInput [7, 0, 0, 0, 81, 0, 32, 0, 0, 0, 0, 0, 0, 0, 0, 0, 1, 0, 0, 0,
          3, 0, 0, 0, 1, 2, 3])] = some b ∧
      (b.session.reader.tryRead 10).2 = some (3, [1, 2, 3]) ∧
      0 < b.reader.owed ∧ 0 < b.writer.owed := by
  obtain ⟨s, p, b, hnew, hrun, hread, hserved, hwrite, hraised, htaken⟩ :
      ∃ (s : Endpoint Unbounded VirtualClock) (p : TxPipeline)
        (b : Blocking Unbounded VirtualClock),
        Endpoint.new ⟨7, 0, 0, none⟩ {} ⟨0⟩ = .ok (s, p) ∧
        exec Blocking.step { session := s } [.background (.setNoDelay 1 10 2 1),
          .background (.setWindowSize 1 32), .background .update, .writeEnter, .writeCheck [[5]],
          .writeRelease, .writeEnter, .writeCheck [[6]], .readEnter, .readCheck 10,
          .background (.packetInput [7, 0, 0, 0, 81, 0, 32, 0, 0, 0, 0, 0, 0, 0, 0, 0, 1, 0, 0, 0,
            3, 0, 0, 0, 1, 2, 3])] = some b ∧
        b.reader.turn = .parked .waiting ∧
        (b.session.reader.tryRead 10).2 = some (3, [1, 2, 3]) ∧
        b.writer.turn = .parked .waiting ∧ b.raised = false ∧
        (b.session.tryWrite [[6]]).2 = some 1 :=
    ⟨_, _, _, rfl, rfl, by decide +kernel, by decide +kernel, by decide +kernel,
      by decide +kernel, by decide +kernel⟩
  have hsafe := no_lost_wakeup hrun
  exact ⟨s, p, b, hnew, hrun, hserved, (hsafe.1 hread 10 (by rw [hserved]; rfl)).1,
    (hsafe.2 hraised hwrite [[6]] (by rw [htaken]; rfl)).1⟩

end Kcptun.Session
