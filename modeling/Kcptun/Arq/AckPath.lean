/- Kcptun/Arq/AckPath
   source: crates/kcp/src/kcp.rs (update_ack, shrink_buf, snd_buf_offset, scan_for_sn, parse_ack,
     parse_fastack, parse_una)
   digest: What an acknowledgement does to the send window and to the round-trip estimate. -/

import Kcptun.Arq.State

set_option autoImplicit false
set_option relaxedAutoImplicit false

namespace Kcptun.Arq

open Kcptun.Lib

def imin (a b : UInt32) : UInt32 := if a ≤ b then a else b

def imax (a b : UInt32) : UInt32 := if a ≥ b then a else b

def ibound (lower middle upper : UInt32) : UInt32 := imin (imax lower middle) upper

def scanForSn (sn : UInt32) : List Segment → Option ℕ
  | [] => none
  | seg :: rest =>
    if sn = seg.sn then some 0
    else if itimediff sn seg.sn < 0 then none
    else (scanForSn sn rest).map (· + 1)

/-- One segment's share of `parse_fastack`: whether it reached the threshold, and whether it was
raised while unacknowledged. -/
def bumpFastack (ts fastresend : UInt32) (seg : Segment) : Segment × Bool × Bool :=
  if itimediff seg.ts ts ≤ 0 ∧ seg.fastack ≠ 0xFFFFFFFF then
    let seg := { seg with fastack := seg.fastack + 1 }
    (seg, seg.fastack ≥ fastresend, !seg.acked)
  else (seg, false, false)

def bumpAll (ts fastresend : UInt32) : List Segment → List Segment × Bool × Bool
  | [] => ([], false, false)
  | seg :: rest =>
    let (seg, reached, bumped) := bumpFastack ts fastresend seg
    let (rest, reachedRest, bumpedRest) := bumpAll ts fastresend rest
    (seg :: rest, reached || reachedRest, bumped || bumpedRest)

/-- The linear scan of `parse_fastack`: it stops at the first segment past `sn` and skips the one
that carries `sn`. -/
def bumpScan (sn ts fastresend : UInt32) : List Segment → List Segment × Bool × Bool
  | [] => ([], false, false)
  | seg :: rest =>
    if itimediff sn seg.sn < 0 then (seg :: rest, false, false)
    else
      let (seg, reached, bumped) :=
        if sn ≠ seg.sn then bumpFastack ts fastresend seg else (seg, false, false)
      let (rest, reachedRest, bumpedRest) := bumpScan sn ts fastresend rest
      (seg :: rest, reached || reachedRest, bumped || bumpedRest)

namespace Kcp

variable {O C : Type}

/-- The smoothed round-trip time, its variance and the timeout from one sample; `i32` arithmetic
wraps. -/
def updateAck (k : Kcp O C) (rtt : Int32) : Kcp O C :=
  let (srtt, rttvar) :=
    if k.rxSrtt = 0 then (rtt, rtt >>> 1)
    else
      let delta := rtt - k.rxSrtt
      let srtt := k.rxSrtt + (delta >>> 3)
      let delta := if delta < 0 then -delta else delta
      if rtt < srtt - k.rxRttvar then (srtt, k.rxRttvar + ((delta - k.rxRttvar) >>> 5))
      else (srtt, k.rxRttvar + ((delta - k.rxRttvar) >>> 2))
  let rto := srtt.toUInt32 + imax k.interval (rttvar.toUInt32 <<< 2)
  { k with rxSrtt := srtt, rxRttvar := rttvar, rxRto := ibound k.rxMinrto rto IKCP_RTO_MAX }

/-- `sndUna` becomes the first segment still in `sndBuf`, or `sndNxt` if it is empty. -/
def shrinkBuf (k : Kcp O C) : Kcp O C :=
  { k with sndUna := match k.sndBuf.peek with
      | some seg => seg.sn
      | none => k.sndNxt }

/-- Where `sn` sits in `sndBuf`, computed from `sn` and checked. -/
def sndBufOffset (k : Kcp O C) (sn : UInt32) : Option ℕ :=
  if !k.flushScan.enabled then none else
    let offset := (sn - k.sndUna).toNat
    match k.sndBuf.get offset with
    | some seg => if seg.sn = sn then some offset else none
    | none => none

/-- Marks the segment acknowledged and frees its payload, but leaves it in `sndBuf`. -/
def parseAck (k : Kcp O C) (sn : UInt32) : Kcp O C :=
  if itimediff sn k.sndUna < 0 ∨ itimediff sn k.sndNxt ≥ 0 then k else
    let offset := match k.sndBufOffset sn with
      | some offset => some offset
      | none => scanForSn sn k.sndBuf.items
    match offset with
    | none => k
    | some offset =>
      let items := k.sndBuf.items.modify offset fun seg => { seg with acked := true, data := [] }
      { k with sndBuf := k.sndBuf.setItems items }

/-- Counts the acknowledgement of `sn` as a duplicate one for every earlier segment sent no later
than `ts`; returns whether a segment reached the fast-retransmit threshold. -/
def parseFastack (k : Kcp O C) (sn ts : UInt32) : Kcp O C × Bool :=
  if itimediff sn k.sndUna < 0 ∨ itimediff sn k.sndNxt ≥ 0 then (k, false) else
    let fastresend := k.fastresend.toUInt32
    let (items, reached, bumped) := match k.sndBufOffset sn with
      | some offset =>
        let (front, reached, bumped) := bumpAll ts fastresend (k.sndBuf.items.take offset)
        (front ++ k.sndBuf.items.drop offset, reached, bumped)
      | none => bumpScan sn ts fastresend k.sndBuf.items
    let flushScan := if bumped then { k.flushScan with noFastack := false } else k.flushScan
    ({ k with sndBuf := k.sndBuf.setItems items, flushScan := flushScan }, reached)

def parseUna (k : Kcp O C) (una : UInt32) : Kcp O C × ℕ :=
  let count := (k.sndBuf.items.takeWhile fun seg => itimediff una seg.sn > 0).length
  let sndBuf := k.sndBuf.discard count
  let unsent := min k.flushScan.unsent sndBuf.length
  ({ k with sndBuf := sndBuf, flushScan := { k.flushScan with unsent := unsent } }, count)

end Kcp

end Kcptun.Arq
