/- Kcptun/Arq/Queues
   source: crates/kcp/src/kcp.rs (peek_size, recv, send, parse_data, wnd_unused, shrink_idle_buffers)
   digest: The application's side of a connection: queueing messages and reassembling them. -/

import Kcptun.Arq.State

set_option autoImplicit false
set_option relaxedAutoImplicit false

namespace Kcptun.Arq

open Kcptun.Lib Kcptun.Lib.LittleEndian

def runBytes : List Segment → ℕ
  | [] => 0
  | seg :: rest => seg.data.length + if seg.frg = 0 then 0 else runBytes rest

/-- Pops up to and including the first segment with `frg = 0`: the bytes and the rest. -/
def popRun : List Segment → Bytes × List Segment
  | [] => ([], [])
  | seg :: rest =>
    if seg.frg = 0 then (seg.data, rest)
    else (seg.data ++ (popRun rest).1, (popRun rest).2)

/-- The part of the state that the drain loop of `recv` and `parse_data` moves. -/
structure Ready where
  buf : SegmentHeap
  queue : Fifo Segment
  nxt : UInt32

/-- Moves in-order segments from the heap to the queue; the first one that does not fit is pushed
back. The loop runs at most once per segment in the heap. -/
def drain (wnd : UInt32) : ℕ → Ready → Ready
  | 0, r => r
  | fuel + 1, r =>
    match r.buf.pop with
    | none => r
    | some (seg, buf) =>
      if seg.sn = r.nxt ∧ r.queue.length < wnd.toNat then
        drain wnd fuel ⟨buf, r.queue.push seg, r.nxt + 1⟩
      else { r with buf := buf.push seg }

/-- `(count - i - 1) as u8` for the `i`-th of the segments still to be queued. -/
def fragments (stream : Bool) (mss : ℕ) : ℕ → Bytes → List Segment
  | 0, _ => []
  | count + 1, buffer =>
    let size := min buffer.length mss
    { data := buffer.take size, frg := if stream then 0 else UInt8.ofNat count } ::
      fragments stream mss count (buffer.drop size)

namespace Kcp

variable {O C : Type}

/-- Free receive window advertised to the peer; truncates for windows above 65535. -/
def wndUnused (k : Kcp O C) : UInt16 :=
  if k.rcvQueue.length < k.rcvWnd.toNat then UInt16.ofNat (k.rcvWnd.toNat - k.rcvQueue.length)
  else 0

/-- Size of the next message in the receive queue, or -1. The comparison with `frg + 1` is made
in `u8`, so `frg = 255` wraps to 0. -/
def peekSize (k : Kcp O C) : Int :=
  match k.rcvQueue.items with
  | [] => -1
  | seg :: _ =>
    if seg.frg = 0 then seg.data.length
    else if k.rcvQueue.length < (seg.frg + 1).toNat then -1
    else runBytes k.rcvQueue.items

def moveReady (k : Kcp O C) : Kcp O C :=
  let r := drain k.rcvWnd k.rcvBuf.len ⟨k.rcvBuf, k.rcvQueue, k.rcvNxt⟩
  { k with rcvBuf := r.buf, rcvQueue := r.queue, rcvNxt := r.nxt }

/-- Receives one message into a buffer of `buflen` bytes: the returned count and the bytes
written. -/
def recv (k : Kcp O C) (buflen : ℕ) : Kcp O C × Int × Bytes :=
  if k.peekSize < 0 then (k, -1, [])
  else if k.peekSize > buflen then (k, -2, [])
  else
    let fastRecover := k.rcvQueue.length ≥ k.rcvWnd.toNat
    let (bytes, rest) := popRun k.rcvQueue.items
    let k := moveReady { k with rcvQueue := k.rcvQueue.setItems rest }
    let probe :=
      if k.rcvQueue.length < k.rcvWnd.toNat ∧ fastRecover then k.probe ||| IKCP_ASK_TELL
      else k.probe
    ({ k with probe := probe }, bytes.length, bytes)

theorem recv_frame (k : Kcp O C) (buflen : ℕ) : ∃ rcvBuf rcvQueue rcvNxt probe,
    (k.recv buflen).1 = { k with rcvBuf, rcvQueue, rcvNxt, probe } := by
  unfold recv
  split_ifs
  · exact ⟨_, _, _, _, rfl⟩
  · exact ⟨_, _, _, _, rfl⟩
  · exact ⟨_, _, _, _, rfl⟩

/-- Stream mode: appends to the last queued segment as much as fits, and returns what is left. -/
def fillLast (k : Kcp O C) (buffer : Bytes) : Kcp O C × Bytes :=
  match k.sndQueue.items.getLast? with
  | none => (k, buffer)
  | some seg =>
    if seg.data.length < k.mss.toNat then
      let extend := min buffer.length (k.mss.toNat - seg.data.length)
      let seg := { seg with data := seg.data ++ buffer.take extend }
      ({ k with sndQueue := k.sndQueue.setItems (k.sndQueue.items.dropLast ++ [seg]) },
        buffer.drop extend)
    else (k, buffer)

/-- Splits `buffer` into segments at the tail of `sndQueue`. The source divides by `mss`, which is
0 only for an `mtu` that truncates to 24. -/
def queueFragments (k : Kcp O C) (buffer : Bytes) : Kcp O C × Int :=
  let mss := k.mss.toNat
  let count := if buffer.length ≤ mss then 1 else (buffer.length + mss - 1) / mss
  if count > 255 then (k, -2) else
    let count := if count = 0 then 1 else count
    let segs := fragments (k.stream ≠ 0) mss count buffer
    ({ k with sndQueue := segs.foldl Fifo.push k.sndQueue }, 0)

/-- Queues `buffer` for sending. In stream mode bytes first fill up the last queued segment, even
when -2 is then returned for the rest. -/
def send (k : Kcp O C) (buffer : Bytes) : Kcp O C × Int :=
  if buffer.isEmpty then (k, -1)
  else if k.stream ≠ 0 then
    let (k, buffer) := k.fillLast buffer
    if buffer.isEmpty then (k, 0) else k.queueFragments buffer
  else k.queueFragments buffer

def ackPush (k : Kcp O C) (sn ts : UInt32) : Kcp O C :=
  { k with acklist := k.acklist ++ [⟨sn, ts⟩] }

/-- Stores a received PUSH segment unless it is out of the receive window or already there, then
moves the in-order segments to `rcvQueue`. Returns whether the segment was a repeat. -/
def parseData (k : Kcp O C) (newseg : Segment) (data : Bytes) : Kcp O C × Bool :=
  let sn := newseg.sn
  if itimediff sn (k.rcvNxt + k.rcvWnd) ≥ 0 ∨ itimediff sn k.rcvNxt < 0 then (k, true)
  else if k.rcvBuf.has sn then (moveReady k, true)
  else (moveReady { k with rcvBuf := k.rcvBuf.push { newseg with data := data } }, false)

/-- Gives back the capacity of the empty queues. Whether the standard library's vectors of
`rcv_buf` and `acklist` released anything is up to the allocator. -/
def shrinkIdleBuffers (k : Kcp O C) (heapReleased ackReleased : Bool) : Kcp O C × Bool :=
  let (a, sndQueue) := if k.sndQueue.isEmpty then k.sndQueue.shrinkTo (IKCP_WND_SND.toNat * 2)
    else (false, k.sndQueue)
  let (b, sndBuf) := if k.sndBuf.isEmpty then k.sndBuf.shrinkTo (IKCP_WND_SND.toNat * 2)
    else (false, k.sndBuf)
  let (c, rcvQueue) := if k.rcvQueue.isEmpty then k.rcvQueue.shrinkTo (IKCP_WND_RCV.toNat * 2)
    else (false, k.rcvQueue)
  let d := k.rcvBuf.isEmpty && heapReleased
  let e := k.acklist.isEmpty && ackReleased
  ({ k with sndQueue, sndBuf, rcvQueue }, a || b || c || d || e)

theorem send_frame (k : Kcp O C) (buffer : Bytes) : ∃ sndQueue,
    (k.send buffer).1 = { k with sndQueue } := by
  have hfill : ∃ sndQueue, (k.fillLast buffer).1 = { k with sndQueue } := by
    unfold fillLast
    split
    · exact ⟨_, rfl⟩
    · split <;> exact ⟨_, rfl⟩
  have hfragment : ∀ (k : Kcp O C) buffer, ∃ sndQueue,
      (k.queueFragments buffer).1 = { k with sndQueue } := by
    intro k buffer
    unfold queueFragments
    dsimp only
    split_ifs <;> exact ⟨_, rfl⟩
  simp only [send]
  split_ifs
  · exact ⟨_, rfl⟩
  · exact hfill
  · obtain ⟨sndQueue, heq⟩ := hfill
    obtain ⟨sndQueue', heq'⟩ := hfragment (k.fillLast buffer).1 (k.fillLast buffer).2
    rw [heq', heq]
    exact ⟨_, rfl⟩
  · exact hfragment k buffer

end Kcp

end Kcptun.Arq
