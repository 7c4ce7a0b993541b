/- Kcptun/Smux/WriteWindow
   source: crates/smux/src/stream.rs (write, write_v2, write_frame, update),
     crates/smux/src/session.rs (write_frame_internal, send_loop)
   digest: Version-2 writes of one writer, load by load, against any updates of the peer: what a
     window decision lets through, what a call has queued, and what num_written counts. -/

import Kcptun.Lib.Interleaving
import Kcptun.Smux.StreamBuf

set_option autoImplicit false
set_option relaxedAutoImplicit false

namespace Kcptun.Smux.WriteWindow

open Kcptun.Lib Kcptun.Lib.LittleEndian

/-! The unchecked operations of `write_v2` on `usize`; `none` stands for a panic. -/

def usizeAdd (x y : ℕ) : Option ℕ := if x + y ≤ 18446744073709551615 then some (x + y) else none

def usizeSub (x y : ℕ) : Option ℕ := if y ≤ x then some (x - y) else none

/-- The payload of one frame: `size` bytes starting at `off`. -/
def chunk (src : Bytes) (off size : ℕ) : Option Bytes := do
  let stop ← usizeAdd off size
  if stop ≤ src.length then some ((src.drop off).take size) else none

def sendTo (src : Bytes) (off : ℕ) (win : Int) : Option ℕ := do
  usizeAdd off (min (← usizeSub src.length off) win.toNat)

def splitFrame (src : Bytes) (off stop frameSize : ℕ) : Option (ℕ × Bytes) := do
  let size := min (← usizeSub stop off) frameSize
  return (size, ← chunk src off size)

def ISIZE_MAX : ℕ := 9223372036854775807

/-- Why a wait inside the session ends without a result. -/
inductive Failure where
  | closedPipe
  | timeout
  | socketError
deriving DecidableEq, Repr

inductive Error where
  | consumed
  | failed (reason : Failure)
deriving DecidableEq, Repr

structure Call where
  off : ℕ := 0
  sent : ℕ := 0
deriving DecidableEq, Repr

/-- `sent += n; off += size`. -/
def Call.advance (c : Call) (n size : ℕ) : Option Call := do
  return { sent := ← usizeAdd c.sent n, off := ← usizeAdd c.off size }

/-- Where `write_v2` is: before the load of `num_written`, of `peer_consumed` and of `peer_window`, in
the frame loop, at the two waits of `write_frame_internal`, before the count in `write_frame`, and at
its own wait. -/
inductive WriterPc where
  | idle
  | written (c : Call)
  | consumed (c : Call) (numWritten : UInt32)
  | window (c : Call) (inflight : Int)
  | frames (c : Call) (stop : ℕ)
  | admission (c : Call) (stop size : ℕ) (data : Bytes)
  | result (c : Call) (stop size : ℕ) (data : Bytes)
  | counting (c : Call) (stop size : ℕ) (outcome : Except Error ℕ)
  | waits (c : Call)
  | panicked
deriving DecidableEq, Repr

/-- Bytes of a frame that is in the shaper, or was given up, and has not been counted yet. -/
def WriterPc.uncounted : WriterPc → ℕ
  | .result _ _ size _ => size
  | .counting _ _ size _ => size
  | _ => 0

/-- Where `recv_loop` is inside `update`: its two stores are not one step. -/
inductive UpdatePc where
  | idle
  | storeWindow (window : UInt32)
  | notify
deriving DecidableEq, Repr

/-- What one window decision loaded, and the bytes queued after it; `window` is not loaded where the
decision fails. -/
structure Decision where
  written : UInt32
  consumed : UInt32
  window : Option UInt32 := none
  queued : ℕ := 0
deriving DecidableEq, Repr

/-- `num_written - peer_consumed`, modulo `2 ^ 32`. -/
def Decision.difference (d : Decision) : UInt32 := d.written - d.consumed

def Decision.inflight (d : Decision) : Int := i32 d.difference.toNat

/-- `src` is the argument of the call that runs or ran last. History: the payloads it queued, its
decisions (the newest first) and its result, and for all calls the payload bytes pushed into the
shaper and those of frames given up before their admission. -/
structure State where
  numWritten : UInt32 := 0
  peerConsumed : UInt32 := 0
  peerWindow : UInt32 := INITIAL_PEER_WINDOW
  updateEvent : Bool := false
  update : UpdatePc := .idle
  src : Bytes := []
  writer : WriterPc := .idle
  queued : List Bytes := []
  decisions : List Decision := []
  returned : Option (Except Error ℕ) := none
  pushed : ℕ := 0
  refused : ℕ := 0
deriving DecidableEq, Repr

/-- The choices of the scheduler. A wait inside the session may fail at any time, which is more than
the session does; `closed` is what `check_write_closed` finds. -/
inductive Action where
  | write (src : Bytes) (closed : Bool)
  | writer
  | letIn
  | send
  | fail (reason : Failure)
  | wakeUpdate
  | wakeWriter
  | update (consumed window : UInt32)
  | recvLoop
deriving DecidableEq, Repr

def loadWindow (window : UInt32) : List Decision → List Decision
  | [] => []
  | d :: ds => { d with window := some window } :: ds

def noteQueued (size : ℕ) : List Decision → List Decision
  | [] => []
  | d :: ds => { d with queued := d.queued + size } :: ds

namespace State

def finish (s : State) (result : Except Error ℕ) : State :=
  { s with writer := .idle, returned := some result }

/-- `write`, up to the first step of `write_v2`. -/
def enter (s : State) (src : Bytes) (closed : Bool) : State :=
  let s := { s with src := src, queued := [], decisions := [], returned := none }
  if src.length = 0 then s.finish (.ok 0)
  else if closed then s.finish (.error (.failed .closedPipe))
  else { s with writer := .written {} }

/-- The load of `peer_consumed`, and the security check. -/
def checkConsumed (s : State) (c : Call) (numWritten : UInt32) : State :=
  let d : Decision := { written := numWritten, consumed := s.peerConsumed }
  let s := { s with decisions := d :: s.decisions }
  if d.inflight < 0 then s.finish (.error .consumed)
  else { s with writer := .window c d.inflight }

/-- The load of `peer_window`, and how far this turn may send. -/
def openWindow (s : State) (c : Call) (inflight : Int) : State :=
  let win := i32 (i32 s.peerWindow.toNat - inflight)
  let s := { s with decisions := loadWindow s.peerWindow s.decisions }
  if win > 0 then
    match sendTo s.src c.off win with
    | some stop => { s with writer := .frames c stop }
    | none => { s with writer := .panicked }
  else { s with writer := .frames c c.off }

/-- The head of the frame loop, and what comes after the loop. -/
def nextFrame (frameSize : ℕ) (s : State) (c : Call) (stop : ℕ) : State :=
  if c.off < stop then
    match splitFrame s.src c.off stop frameSize with
    | some (size, data) => { s with writer := .admission c stop size data }
    | none => { s with writer := .panicked }
  else if c.off ≥ s.src.length then s.finish (.ok c.sent)
  else { s with writer := .waits c }

/-- `num_written` grows, then the result is looked at. -/
def count (s : State) (c : Call) (stop size : ℕ) (outcome : Except Error ℕ) : State :=
  let s := { s with numWritten := s.numWritten + UInt32.ofNat size }
  match outcome with
  | .error e => s.finish (.error e)
  | .ok n =>
    match c.advance n size with
    | some c => { s with writer := .frames c stop }
    | none => { s with writer := .panicked }

def writerStep (frameSize : ℕ) (s : State) : Option State :=
  match s.writer with
  | .written c => some { s with writer := .consumed c s.numWritten }
  | .consumed c numWritten => some (s.checkConsumed c numWritten)
  | .window c inflight => some (s.openWindow c inflight)
  | .frames c stop => some (s.nextFrame frameSize c stop)
  | .counting c stop size outcome => some (s.count c stop size outcome)
  | _ => none

def letIn (s : State) : Option State :=
  match s.writer with
  | .admission c stop size data => some { s with
      writer := .result c stop size data
      queued := s.queued ++ [data]
      decisions := noteQueued data.length s.decisions
      pushed := s.pushed + data.length }
  | _ => none

def send (s : State) : Option State :=
  match s.writer with
  | .result c stop size data => some { s with writer := .counting c stop size (.ok data.length) }
  | _ => none

def fail (s : State) (reason : Failure) : Option State :=
  match s.writer with
  | .admission c stop size data => some { s with
      writer := .counting c stop size (.error (.failed reason))
      refused := s.refused + data.length }
  | .result c stop size _ => some { s with
      writer := .counting c stop size (.error (.failed reason)) }
  | .waits _ => some (s.finish (.error (.failed reason)))
  | _ => none

def wake (s : State) : Option State :=
  match s.writer with
  | .waits c => some { s with writer := .written c }
  | _ => none

def next (frameSize : ℕ) (s : State) : Action → Option State
  | .write src closed =>
    if s.writer = .idle ∧ src.length ≤ ISIZE_MAX then some (s.enter src closed) else none
  | .writer => s.writerStep frameSize
  | .letIn => s.letIn
  | .send => s.send
  | .fail reason => s.fail reason
  | .wakeUpdate => if s.updateEvent then { s with updateEvent := false }.wake else none
  | .wakeWriter => s.wake
  | .update consumed window =>
    if s.update = .idle then
      some { s with peerConsumed := consumed, update := .storeWindow window }
    else none
  | .recvLoop =>
    match s.update with
    | .idle => none
    | .storeWindow window => some { s with peerWindow := window, update := .notify }
    | .notify => some { s with updateEvent := true, update := .idle }

end State

/-! The unchecked operations succeed inside the argument. -/

private theorem usizeAdd_eq {x y : ℕ} (h : x + y ≤ ISIZE_MAX) : usizeAdd x y = some (x + y) := by
  unfold ISIZE_MAX at h
  unfold usizeAdd
  rw [if_pos (by omega)]

private theorem usizeSub_eq {x y : ℕ} (h : y ≤ x) : usizeSub x y = some (x - y) := by
  unfold usizeSub
  rw [if_pos h]

private theorem sendTo_eq {src : Bytes} {off : ℕ} (hoff : off ≤ src.length)
    (hsize : src.length ≤ ISIZE_MAX)
    (win : Int) : sendTo src off win = some (off + min (src.length - off) win.toNat) := by
  unfold sendTo
  rw [usizeSub_eq hoff]
  exact usizeAdd_eq (by omega)

private theorem splitFrame_eq {src : Bytes} {off stop : ℕ} (frameSize : ℕ) (hoff : off ≤ stop)
    (hstop : stop ≤ src.length) (hsize : src.length ≤ ISIZE_MAX) :
    splitFrame src off stop frameSize = some (min (stop - off) frameSize,
      (src.drop off).take (min (stop - off) frameSize)) := by
  have hchunk : chunk src off (min (stop - off) frameSize) =
      some ((src.drop off).take (min (stop - off) frameSize)) := by
    unfold chunk
    rw [usizeAdd_eq (by omega)]
    exact if_pos (by omega)
  unfold splitFrame
  rw [usizeSub_eq hoff]
  change (chunk src off (min (stop - off) frameSize)).bind _ = _
  rw [hchunk]
  rfl

private theorem advance_eq {c : Call} {n size : ℕ} (hn : c.sent + n ≤ ISIZE_MAX)
    (hsize : c.off + size ≤ ISIZE_MAX) :
    c.advance n size = some { off := c.off + size, sent := c.sent + n } := by
  unfold Call.advance
  rw [usizeAdd_eq hn, usizeAdd_eq hsize]
  rfl

/-! One window decision. -/

section Decisions

variable {d : Decision} {ds : List Decision} {k n : ℕ}

private theorem Decision.difference_of_inflight (h : 0 ≤ d.inflight) :
    d.difference.toNat < 2147483648 ∧ d.inflight = d.difference.toNat := by
  have hlt := d.difference.toNat_lt
  unfold Decision.inflight i32 at h ⊢
  rw [Int.bmod_def] at h ⊢
  split_ifs at h ⊢ <;> omega

private theorem win_eq (h : 0 ≤ d.inflight) {window : UInt32}
    (hwin : 0 < i32 (i32 window.toNat - d.inflight)) :
    d.difference.toNat + (i32 (i32 window.toNat - d.inflight)).toNat = window.toNat := by
  obtain ⟨hlt, heq⟩ := d.difference_of_inflight h
  have hwindow := window.toNat_lt
  rw [Int.sub_eq_add_neg, i32_i32_add, heq] at hwin ⊢
  unfold i32 at hwin ⊢
  rw [Int.bmod_def] at hwin ⊢
  split_ifs at hwin ⊢ <;> omega

def Decision.Kept (d : Decision) : Prop :=
  0 < d.queued → ∃ window, d.window = some window ∧
    d.difference.toNat + d.queued ≤ window.toNat

def Room (ds : List Decision) (k : ℕ) : Prop :=
  0 < k → ∃ d ∈ ds.head?, ∃ window, d.window = some window ∧
    d.difference.toNat + d.queued + k ≤ window.toNat

private theorem Room.use (h : Room ds k) (hn : n ≤ k) : Room (noteQueued n ds) (k - n) := by
  intro hpos
  obtain ⟨d, hd, window, hwindow, hle⟩ := h (by omega)
  cases ds with
  | nil => cases hd
  | cons d' ds =>
    cases hd
    exact ⟨_, rfl, window, hwindow, by dsimp only [Decision.difference] at hle ⊢; omega⟩

private theorem Room.kept (h : Room ds k) (hn : n ≤ k) (hds : ∀ d ∈ ds, d.Kept) :
    ∀ d ∈ noteQueued n ds, d.Kept := by
  cases ds with
  | nil => exact hds
  | cons d ds =>
    refine List.forall_mem_cons.mpr ⟨?_, fun d' hd' => hds d' (List.mem_cons_of_mem d hd')⟩
    intro hpos
    by_cases hzero : n = 0
    · rw [hzero] at hpos ⊢
      exact hds d List.mem_cons_self hpos
    · obtain ⟨d', hd', window, hwindow, hle⟩ := h (by omega)
      cases hd'
      exact ⟨window, hwindow, by dsimp only [Decision.difference] at hle ⊢; omega⟩

end Decisions

namespace State

variable {s s' : State} {c : Call} {frameSize : ℕ}

/-- The call has queued the first `len` bytes of its argument and counted what was sent. -/
structure Sent (src : Bytes) (queued : List Bytes) (c : Call) (len : ℕ) : Prop where
  queued : queued.flatten = src.take len
  sent : c.sent = c.off

def Stands (src : Bytes) (queued : List Bytes) (decisions : List Decision)
    (returned : Option (Except Error ℕ)) : WriterPc → Prop
  | .idle => ∀ n, returned = some (.ok n) → queued.flatten = src ∧ n = src.length
  | .written c | .consumed c _ | .waits c => Sent src queued c c.off ∧ c.off ≤ src.length
  | .window c inflight => Sent src queued c c.off ∧ c.off ≤ src.length ∧ 0 ≤ inflight ∧
      ∃ d ∈ decisions.head?, d.queued = 0 ∧ d.inflight = inflight
  | .frames c stop => Sent src queued c c.off ∧ c.off ≤ stop ∧ stop ≤ src.length ∧
      Room decisions (stop - c.off)
  | .admission c stop size data => Sent src queued c c.off ∧ c.off + size ≤ stop ∧
      stop ≤ src.length ∧ data = (src.drop c.off).take size ∧ Room decisions (stop - c.off)
  | .result c stop size data => Sent src queued c (c.off + size) ∧ c.off + size ≤ stop ∧
      stop ≤ src.length ∧ data.length = size ∧ Room decisions (stop - (c.off + size))
  | .counting c stop size (.ok n) => Sent src queued c (c.off + size) ∧ c.off + size ≤ stop ∧
      stop ≤ src.length ∧ n = size ∧ Room decisions (stop - (c.off + size))
  | .counting _ _ _ (.error e) => e ≠ .consumed
  | .panicked => False

structure Inv (s : State) : Prop where
  stands : Stands s.src s.queued s.decisions s.returned s.writer
  size : s.src.length ≤ ISIZE_MAX
  front : s.queued.flatten <+: s.src
  kept : ∀ d ∈ s.decisions, d.Kept
  running : s.writer ≠ .idle → s.returned = none
  consumed : s.returned = some (.error .consumed) ↔ ∃ d ∈ s.decisions, d.inflight < 0

private theorem inv_new : ({} : State).Inv := by
  refine ⟨fun n hn => (by cases hn), Nat.zero_le _, List.prefix_refl [], ?_, fun _ => rfl, ?_⟩
  · intro d hd
    cases hd
  · exact ⟨fun h => (by cases h), fun ⟨d, hd, _⟩ => (by cases hd)⟩

private theorem Inv.sound (h : s.Inv) (hpc : s.writer ≠ .idle) :
    ∀ d ∈ s.decisions, 0 ≤ d.inflight := by
  intro d hd
  by_contra hneg
  have := h.consumed.mpr ⟨d, hd, Int.not_le.mp hneg⟩
  rw [h.running hpc] at this
  cases this

private theorem Inv.moves (h : s.Inv) (hpc : s.writer ≠ .idle) {pc : WriterPc}
    (hstands : Stands s.src s.queued s.decisions s.returned pc) :
    ({ s with writer := pc } : State).Inv :=
  ⟨hstands, h.size, h.front, h.kept, fun _ => h.running hpc, h.consumed⟩

private theorem Inv.finish (h : s.Inv) (hpc : s.writer ≠ .idle) {result : Except Error ℕ}
    (hresult : result ≠ .error .consumed)
    (hok : ∀ n, result = .ok n → s.queued.flatten = s.src ∧ n = s.src.length) :
    (s.finish result).Inv := by
  refine ⟨fun n hn => hok n (Option.some.inj hn), h.size, h.front, h.kept,
    fun hc => absurd rfl hc, ?_⟩
  constructor
  · intro heq
    exact absurd (Option.some.inj heq) hresult
  · rintro ⟨d, hd, hneg⟩
    exact absurd (h.sound hpc d hd) (Int.not_le.mpr hneg)

private theorem Inv.enter {src : Bytes} (hsize : src.length ≤ ISIZE_MAX) (closed : Bool) :
    (s.enter src closed).Inv := by
  have hnew : ({ s with
      src := src, queued := [], decisions := [], returned := none, writer := .written {} } :
        State).Inv := by
    refine ⟨⟨⟨?_, rfl⟩, Nat.zero_le _⟩, hsize, List.nil_prefix, ?_, fun _ => rfl, ?_⟩
    · rw [List.take_zero]
      rfl
    · intro d hd
      cases hd
    · exact ⟨fun hc => (by cases hc), fun ⟨d, hd, _⟩ => (by cases hd)⟩
  unfold State.enter
  dsimp only
  split_ifs with hempty
  · refine hnew.finish (by simp) (by simp) ?_
    intro n hn
    obtain rfl := Except.ok.inj hn
    exact ⟨(List.length_eq_zero_iff.mp hempty).symm, hempty.symm⟩
  · exact hnew.finish (by simp) (by simp) fun n hn => by cases hn
  · exact hnew

private theorem Inv.checkConsumed (h : s.Inv) {numWritten : UInt32}
    (hpc : s.writer = .consumed c numWritten) : (s.checkConsumed c numWritten).Inv := by
  have hrun : s.writer ≠ .idle := by simp [hpc]
  have hsound := h.sound hrun
  obtain ⟨hstands, hsize, hfront, hkept, hrunning, hconsumed⟩ := h
  rw [hpc] at hstands
  unfold State.checkConsumed
  dsimp only
  split_ifs with hneg
  · refine ⟨fun n hn => (by cases hn), hsize, hfront, ?_, fun hc => absurd rfl hc, ?_⟩
    · exact List.forall_mem_cons.mpr ⟨fun hc => (by cases hc), hkept⟩
    · exact ⟨fun _ => ⟨_, List.mem_cons_self, hneg⟩, fun _ => rfl⟩
  · refine ⟨⟨hstands.1, hstands.2, Int.not_lt.mp hneg, _, rfl, rfl, rfl⟩,
      hsize, hfront, ?_, fun _ => hrunning hrun, ?_⟩
    · exact List.forall_mem_cons.mpr ⟨fun hc => (by cases hc), hkept⟩
    · refine ⟨?_, fun ⟨d, hd, hlt⟩ => ?_⟩
      · intro hc
        rw [hrunning hrun] at hc
        cases hc
      · rcases List.mem_cons.mp hd with rfl | hd
        · exact absurd hlt hneg
        · exact absurd (hsound d hd) (Int.not_le.mpr hlt)

private theorem Inv.openWindow (h : s.Inv) {inflight : Int} (hpc : s.writer = .window c inflight) :
    (s.openWindow c inflight).Inv := by
  have hrun : s.writer ≠ .idle := by simp [hpc]
  obtain ⟨hstands, hsize, hfront, hkept, hrunning, hconsumed⟩ := h
  rw [hpc] at hstands
  obtain ⟨hsent, hoff, hpos, d, hd, hqueued, hinflight⟩ := hstands
  obtain ⟨ds, hds⟩ : ∃ ds, s.decisions = d :: ds := by
    cases hcases : s.decisions with
    | nil => rw [hcases] at hd; cases hd
    | cons d' ds => rw [hcases] at hd; cases hd; exact ⟨ds, rfl⟩
  have hload : loadWindow s.peerWindow s.decisions =
      { d with window := some s.peerWindow } :: ds := by
    rw [hds]
    rfl
  have hloaded : ∀ stop, c.off ≤ stop → stop ≤ s.src.length →
      Room (loadWindow s.peerWindow s.decisions) (stop - c.off) →
      ({ s with
        decisions := loadWindow s.peerWindow s.decisions, writer := .frames c stop } : State).Inv := by
    intro stop hle hstop hroom
    refine ⟨⟨hsent, hle, hstop, hroom⟩, hsize, hfront, ?_,
      fun _ => hrunning hrun, ?_⟩
    · rw [hds] at hkept
      rw [hload]
      refine List.forall_mem_cons.mpr ⟨?_, (List.forall_mem_cons.mp hkept).2⟩
      intro hc
      rw [hqueued] at hc
      cases hc
    · rw [hds, List.exists_mem_cons_iff] at hconsumed
      rw [hload, List.exists_mem_cons_iff]
      exact hconsumed
  unfold State.openWindow
  dsimp only
  split_ifs with hwin
  · rw [sendTo_eq hoff hsize]
    refine hloaded _ (Nat.le_add_right _ _) (by omega) ?_
    intro _
    rw [hload]
    refine ⟨_, rfl, s.peerWindow, rfl, ?_⟩
    rw [← hinflight] at hpos hwin ⊢
    have hsum := win_eq hpos hwin
    dsimp only [Decision.difference] at hsum ⊢
    omega
  · refine hloaded c.off (Nat.le_refl _) hoff ?_
    rw [Nat.sub_self]
    intro hc
    exact absurd hc (Nat.lt_irrefl 0)

private theorem Inv.nextFrame (h : s.Inv) {stop : ℕ} (hpc : s.writer = .frames c stop) :
    (s.nextFrame frameSize c stop).Inv := by
  have hrun : s.writer ≠ .idle := by simp [hpc]
  have hstands := h.stands
  rw [hpc] at hstands
  obtain ⟨hsent, hoff, hstop, hroom⟩ := hstands
  unfold State.nextFrame
  split_ifs with hmore hall
  · rw [splitFrame_eq frameSize hoff hstop h.size]
    exact h.moves hrun ⟨hsent, by omega, hstop, rfl, hroom⟩
  · refine h.finish hrun (by simp) ?_
    intro n hn
    obtain rfl := Except.ok.inj hn
    have hfull : c.off = s.src.length := by omega
    rw [hsent.queued, hsent.sent, hfull, List.take_length]
    exact ⟨rfl, rfl⟩
  · exact h.moves hrun ⟨hsent, by omega⟩

private theorem Inv.count (h : s.Inv) {stop size : ℕ} {outcome : Except Error ℕ}
    (hpc : s.writer = .counting c stop size outcome) : (s.count c stop size outcome).Inv := by
  have hrun : s.writer ≠ .idle := by simp [hpc]
  have hstands := h.stands
  have hsize := h.size
  rw [hpc] at hstands
  have hcounted : ({ s with numWritten := s.numWritten + UInt32.ofNat size } : State).Inv :=
    ⟨h.stands, hsize, h.front, h.kept, h.running, h.consumed⟩
  unfold State.count
  cases outcome with
  | error e =>
    refine hcounted.finish hrun (fun heq => hstands (Except.error.inj heq)) ?_
    intro n hn
    cases hn
  | ok n =>
    obtain ⟨hsent, hle, hstop, rfl, hroom⟩ := hstands
    have hcopy := hsent.sent
    dsimp only
    rw [advance_eq (by omega) (by omega)]
    refine hcounted.moves hrun ⟨⟨hsent.queued, ?_⟩, hle, hstop, hroom⟩
    dsimp only
    omega

private theorem Inv.writerStep (h : s.Inv) (hnext : s.writerStep frameSize = some s') : s'.Inv := by
  have hstands := h.stands
  unfold State.writerStep at hnext
  split at hnext
  next c hpc =>
    cases hnext
    rw [hpc] at hstands
    exact h.moves (by simp [hpc]) hstands
  next c numWritten hpc =>
    obtain rfl := Option.some.inj hnext
    exact h.checkConsumed hpc
  next c inflight hpc =>
    obtain rfl := Option.some.inj hnext
    exact h.openWindow hpc
  next c stop hpc =>
    obtain rfl := Option.some.inj hnext
    exact h.nextFrame hpc
  next c stop size outcome hpc =>
    obtain rfl := Option.some.inj hnext
    exact h.count hpc
  next => cases hnext

private theorem Inv.length_data (h : s.Inv) {stop size : ℕ} {data : Bytes}
    (hpc : s.writer = .admission c stop size data) : data.length = size := by
  have hstands := h.stands
  rw [hpc] at hstands
  obtain ⟨-, hle, hstop, rfl, -⟩ := hstands
  rw [List.length_take, List.length_drop]
  omega

private theorem Inv.letIn (h : s.Inv) (hnext : s.letIn = some s') : s'.Inv := by
  unfold State.letIn at hnext
  split at hnext
  next c stop size data hpc =>
    cases hnext
    have hrun : s.writer ≠ .idle := by simp [hpc]
    have hlength := h.length_data hpc
    obtain ⟨hstands, hsize, hfront, hkept, hrunning, hconsumed⟩ := h
    rw [hpc] at hstands
    obtain ⟨hsent, hle, hstop, rfl, hroom⟩ := hstands
    have hqueued : (s.queued ++ [(s.src.drop c.off).take size]).flatten =
        s.src.take (c.off + size) := by
      rw [List.flatten_append, hsent.queued, List.flatten_singleton, ← List.take_add]
    rw [hlength]
    have hroom' := hroom.use (n := size) (by omega)
    rw [Nat.sub_sub] at hroom'
    refine ⟨⟨⟨hqueued, hsent.sent⟩, hle, hstop, hlength, hroom'⟩, hsize, ?_,
      hroom.kept (by omega) hkept, fun _ => hrunning hrun, ?_⟩
    · exact hqueued ▸ List.take_prefix _ _
    · cases hds : s.decisions with
      | nil =>
        rw [hds] at hconsumed
        exact hconsumed
      | cons d ds =>
        rw [hds, List.exists_mem_cons_iff] at hconsumed
        rw [noteQueued, List.exists_mem_cons_iff]
        exact hconsumed
  next => cases hnext

private theorem Inv.send (h : s.Inv) (hnext : s.send = some s') : s'.Inv := by
  have hstands := h.stands
  unfold State.send at hnext
  split at hnext
  next c stop size data hpc =>
    cases hnext
    rw [hpc] at hstands
    exact h.moves (by simp [hpc]) hstands
  next => cases hnext

private theorem Inv.fail (h : s.Inv) {reason : Failure} (hnext : s.fail reason = some s') :
    s'.Inv := by
  have hother : Error.failed reason ≠ .consumed := by simp
  unfold State.fail at hnext
  split at hnext
  next c stop size data hpc =>
    cases hnext
    obtain ⟨-, hsize, hfront, hkept, hrunning, hconsumed⟩ := h
    exact ⟨hother, hsize, hfront, hkept, fun _ => hrunning (by simp [hpc]), hconsumed⟩
  next c stop size data hpc =>
    cases hnext
    exact h.moves (by simp [hpc]) hother
  next c hpc =>
    cases hnext
    refine h.finish (by simp [hpc]) (by simp) ?_
    intro n hn
    cases hn
  next => cases hnext

private theorem Inv.wake (h : s.Inv) (hnext : s.wake = some s') : s'.Inv := by
  have hstands := h.stands
  unfold State.wake at hnext
  split at hnext
  next c hpc =>
    cases hnext
    rw [hpc] at hstands
    exact h.moves (by simp [hpc]) hstands
  next => cases hnext

private theorem Inv.next {a : Action} (h : s.Inv) (hnext : s.next frameSize a = some s') :
    s'.Inv := by
  cases a with
  | write src closed =>
    obtain ⟨⟨-, hsize⟩, hs'⟩ := Option.ite_none_right_eq_some.mp hnext
    obtain rfl := Option.some.inj hs'
    exact Inv.enter hsize closed
  | writer => exact h.writerStep hnext
  | letIn => exact h.letIn hnext
  | send => exact h.send hnext
  | fail reason => exact h.fail hnext
  | wakeUpdate =>
    obtain ⟨-, hwake⟩ := Option.ite_none_right_eq_some.mp hnext
    refine Inv.wake ?_ hwake
    exact ⟨h.stands, h.size, h.front, h.kept, h.running, h.consumed⟩
  | wakeWriter => exact h.wake hnext
  | update consumed window =>
    obtain ⟨-, hs'⟩ := Option.ite_none_right_eq_some.mp hnext
    obtain rfl := Option.some.inj hs'
    exact ⟨h.stands, h.size, h.front, h.kept, h.running, h.consumed⟩
  | recvLoop =>
    unfold State.next at hnext
    dsimp only at hnext
    split at hnext
    next => cases hnext
    next =>
      cases hnext
      exact ⟨h.stands, h.size, h.front, h.kept, h.running, h.consumed⟩
    next =>
      cases hnext
      exact ⟨h.stands, h.size, h.front, h.kept, h.running, h.consumed⟩

/-! What `num_written` counts. -/

/-- Every frame is counted once, pushed or not. -/
def Counted (s : State) : Prop :=
  s.numWritten + UInt32.ofNat s.writer.uncounted = UInt32.ofNat (s.pushed + s.refused)

private theorem Counted.keep (h : s.Counted) (hold : s.writer.uncounted = 0)
    (hnew : s'.writer.uncounted = 0) (hwritten : s'.numWritten = s.numWritten)
    (hpushed : s'.pushed = s.pushed) (hrefused : s'.refused = s.refused) : s'.Counted := by
  unfold Counted at h ⊢
  rw [hnew, hwritten, hpushed, hrefused, ← hold]
  exact h

private theorem Counted.wake (h : s.Counted) (hnext : s.wake = some s') : s'.Counted := by
  unfold State.wake at hnext
  split at hnext
  next c hpc =>
    cases hnext
    exact h.keep (by rw [hpc]; rfl) rfl rfl rfl rfl
  next => cases hnext

private theorem Counted.writerStep (h : s.Counted) (hnext : s.writerStep frameSize = some s') :
    s'.Counted := by
  unfold State.writerStep at hnext
  split at hnext
  next c hpc =>
    obtain rfl := Option.some.inj hnext
    exact h.keep (by rw [hpc]; rfl) rfl rfl rfl rfl
  next c numWritten hpc =>
    obtain rfl := Option.some.inj hnext
    have hold : s.writer.uncounted = 0 := by rw [hpc]; rfl
    unfold State.checkConsumed
    dsimp only
    split_ifs <;> exact h.keep hold rfl rfl rfl rfl
  next c inflight hpc =>
    obtain rfl := Option.some.inj hnext
    have hold : s.writer.uncounted = 0 := by rw [hpc]; rfl
    unfold State.openWindow
    dsimp only
    split_ifs
    · split <;> exact h.keep hold rfl rfl rfl rfl
    · exact h.keep hold rfl rfl rfl rfl
  next c stop hpc =>
    obtain rfl := Option.some.inj hnext
    have hold : s.writer.uncounted = 0 := by rw [hpc]; rfl
    unfold State.nextFrame
    split_ifs
    · split <;> exact h.keep hold rfl rfl rfl rfl
    · exact h.keep hold rfl rfl rfl rfl
    · exact h.keep hold rfl rfl rfl rfl
  next c stop size outcome hpc =>
    obtain rfl := Option.some.inj hnext
    have hcounted : ({ s with numWritten := s.numWritten + UInt32.ofNat size, writer := .idle } :
        State).Counted := by
      unfold Counted at h ⊢
      rw [hpc] at h
      rw [← h]
      exact UInt32.add_zero _
    unfold State.count
    cases outcome with
    | error e => exact hcounted
    | ok n =>
      dsimp only
      split <;> exact hcounted.keep rfl rfl rfl rfl rfl
  next => cases hnext

private theorem Counted.next {a : Action} (h : s.Counted) (hinv : s.Inv)
    (hnext : s.next frameSize a = some s') : s'.Counted := by
  have hstands := hinv.stands
  cases a with
  | write src closed =>
    obtain ⟨⟨hidle, -⟩, hs'⟩ := Option.ite_none_right_eq_some.mp hnext
    obtain rfl := Option.some.inj hs'
    have hold : s.writer.uncounted = 0 := by rw [hidle]; rfl
    unfold State.enter
    dsimp only
    split_ifs <;> exact h.keep hold rfl rfl rfl rfl
  | writer => exact h.writerStep hnext
  | letIn =>
    obtain hnext : s.letIn = some s' := hnext
    unfold State.letIn at hnext
    split at hnext
    next c stop size data hpc =>
      cases hnext
      have hlength := hinv.length_data hpc
      unfold Counted at h ⊢
      rw [hpc] at h
      dsimp only [WriterPc.uncounted] at h ⊢
      rw [hlength, Nat.add_right_comm, UInt32.ofNat_add, ← h,
        show UInt32.ofNat 0 = 0 from rfl, UInt32.add_zero]
    next => cases hnext
  | send =>
    obtain hnext : s.send = some s' := hnext
    unfold State.send at hnext
    split at hnext
    next c stop size data hpc =>
      cases hnext
      unfold Counted at h ⊢
      rw [hpc] at h
      exact h
    next => cases hnext
  | fail reason =>
    obtain hnext : s.fail reason = some s' := hnext
    unfold State.fail at hnext
    split at hnext
    next c stop size data hpc =>
      cases hnext
      have hlength := hinv.length_data hpc
      unfold Counted at h ⊢
      rw [hpc] at h
      dsimp only [WriterPc.uncounted] at h ⊢
      rw [hlength, ← Nat.add_assoc, UInt32.ofNat_add, ← h,
        show UInt32.ofNat 0 = 0 from rfl, UInt32.add_zero]
    next c stop size data hpc =>
      cases hnext
      unfold Counted at h ⊢
      rw [hpc] at h
      exact h
    next c hpc =>
      cases hnext
      exact h.keep (by rw [hpc]; rfl) rfl rfl rfl rfl
    next => cases hnext
  | wakeUpdate =>
    obtain ⟨-, hwake⟩ := Option.ite_none_right_eq_some.mp hnext
    exact Counted.wake (s := { s with updateEvent := false }) h hwake
  | wakeWriter => exact h.wake hnext
  | update consumed window =>
    obtain ⟨-, hs'⟩ := Option.ite_none_right_eq_some.mp hnext
    obtain rfl := Option.some.inj hs'
    exact h
  | recvLoop =>
    unfold State.next at hnext
    dsimp only at hnext
    split at hnext
    next => cases hnext
    next =>
      cases hnext
      exact h
    next =>
      cases hnext
      exact h

private theorem inv_run {actions : List Action}
    (hrun : exec (State.next frameSize) {} actions = some s) : s.Inv ∧ s.Counted := by
  refine exec_invariant_all (fun s => s.Inv ∧ s.Counted) ?_ ⟨inv_new, rfl⟩ hrun
  intro s a s' h hnext
  exact ⟨h.1.next hnext, h.2.next h.1 hnext⟩

end State

/-- For every sequence of writes and of updates of the peer: nothing overflows and no slice is out of
range; a call ends with `Consumed` exactly when one of its decisions found the difference negative;
what is queued after a decision keeps the unconsumed bytes within the window that decision loaded;
and the payloads queued are a prefix of the argument, all of it when the call returns `Ok`. -/
theorem write_within_window {frameSize : ℕ} {actions : List Action} {s : State}
    (hrun : exec (State.next frameSize) {} actions = some s) :
    s.writer ≠ .panicked ∧
      (s.returned = some (.error .consumed) ↔ ∃ d ∈ s.decisions, d.inflight < 0) ∧
      (∀ d ∈ s.decisions, 0 < d.queued → ∃ window, d.window = some window ∧
        d.difference.toNat + d.queued ≤ window.toNat) ∧
      s.queued.flatten <+: s.src ∧
      ∀ n, s.returned = some (.ok n) → s.queued.flatten = s.src ∧ n = s.src.length := by
  obtain ⟨hinv, -⟩ := State.inv_run hrun
  have hstands := hinv.stands
  refine ⟨?_, hinv.consumed, hinv.kept, hinv.front, ?_⟩
  · intro hpc
    rw [hpc] at hstands
    exact hstands
  · intro n hn
    have hidle : s.writer = .idle := by
      by_contra hrunning
      rw [hinv.running hrunning] at hn
      cases hn
    rw [hidle] at hstands
    exact hstands n hn

/-- The peer reports one byte more than was written and a window of `2 ^ 31`: as an `i32` the window
minus the difference wraps to a positive number. Three bytes go out in two frames. -/
def hostileWindow : List Action :=
  [.update 0xffffffff 0x80000000, .recvLoop, .recvLoop, .write [1, 2, 3] false, .writer, .writer,
    .writer, .writer, .letIn, .send, .writer, .writer, .letIn, .send, .writer, .writer]

theorem write_within_window_hostile : ∃ s, exec (State.next 2) {} hostileWindow = some s ∧
    s.returned = some (.ok 3) ∧ s.writer ≠ .panicked ∧ s.queued.flatten <+: s.src ∧
      ∀ d ∈ s.decisions, 0 < d.queued → ∃ window, d.window = some window ∧
        d.difference.toNat + d.queued ≤ window.toNat := by
  obtain ⟨s, hrun, hreturned⟩ : ∃ s, exec (State.next 2) {} hostileWindow = some s ∧
      s.returned = some (.ok 3) := ⟨_, rfl, rfl⟩
  obtain ⟨hsafe, -, hkept, hfront, -⟩ := write_within_window hrun
  exact ⟨s, hrun, hreturned, hsafe, hfront, hkept⟩

/-- After every call `num_written` is, modulo `2 ^ 32`, the payload pushed into the shaper and the
payload of the frames given up before their admission: `write_frame` counts before it looks at the
result. It is the payload pushed alone exactly when the rest is a multiple of `2 ^ 32`. -/
theorem written_counts_every_frame {frameSize : ℕ} {actions : List Action} {s : State}
    (hrun : exec (State.next frameSize) {} actions = some s) (hidle : s.writer = .idle) :
    s.numWritten = UInt32.ofNat (s.pushed + s.refused) ∧
      (s.numWritten = UInt32.ofNat s.pushed ↔ 4294967296 ∣ s.refused) := by
  obtain ⟨-, hcounted⟩ := State.inv_run hrun
  have heq : s.numWritten = UInt32.ofNat (s.pushed + s.refused) := by
    unfold State.Counted at hcounted
    rw [hidle] at hcounted
    rw [← hcounted]
    exact (UInt32.add_zero _).symm
  refine ⟨heq, ?_⟩
  rw [heq, ← UInt32.toNat_inj, UInt32.toNat_ofNat', UInt32.toNat_ofNat']
  omega

/-- Two bytes are written, the write deadline passes before the frame is admitted, and two more are
written. -/
def deadlineBeforeAdmission : List Action :=
  [.write [1, 2] false, .writer, .writer, .writer, .writer, .fail .timeout, .writer,
    .write [3, 4] false, .writer, .writer, .writer, .writer, .letIn, .send, .writer, .writer]

theorem written_counts_every_frame_refused : ∃ s,
    exec (State.next 8) {} deadlineBeforeAdmission = some s ∧ s.returned = some (.ok 2) ∧
      s.pushed = 2 ∧ s.numWritten = UInt32.ofNat (s.pushed + s.refused) ∧
        (s.numWritten = UInt32.ofNat s.pushed ↔ 4294967296 ∣ s.refused) := by
  obtain ⟨s, hrun, hidle, hreturned, hpushed⟩ : ∃ s,
      exec (State.next 8) {} deadlineBeforeAdmission = some s ∧ s.writer = .idle ∧
        s.returned = some (.ok 2) ∧ s.pushed = 2 := ⟨_, rfl, rfl, rfl, rfl⟩
  exact ⟨s, hrun, hreturned, hpushed, written_counts_every_frame hrun hidle⟩

/-- The first call ends by its deadline, nothing has been pushed, and `num_written` is 2. -/
theorem refused_frame_counted : ∃ s,
    exec (State.next 8) {} (deadlineBeforeAdmission.take 7) = some s ∧ s.writer = .idle ∧
      s.returned = some (.error (.failed .timeout)) ∧ s.pushed = 0 ∧
        s.numWritten ≠ UInt32.ofNat s.pushed := ⟨_, rfl, rfl, rfl, rfl, by decide⟩

end Kcptun.Smux.WriteWindow
