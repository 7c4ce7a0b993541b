/- Kcptun/Pipe/SmuxEnd
   source: crates/std/src/smuxio.rs (PipeEnd for SmuxStream), crates/smux/src/stream.rs (read_chunk,
     pop_chunk, peer_finished)
   digest: A smux stream as the source of a pipe: the frames it hands over, and what it still holds. -/

import Kcptun.Pipe.Transfer

set_option autoImplicit false
set_option relaxedAutoImplicit false

namespace Kcptun.Pipe

open Kcptun.Lib (Poll)
open Kcptun.Lib.LittleEndian

/-- The adapter of a smux stream: the tail of a frame that `poll_read` kept, the receive buffer of the
stream, and what ended it. -/
structure SmuxStream where
  pending : Option Bytes := none
  buffer : List Bytes := []
  eof : Bool := false
  gotFin : Bool := false
  closed : Bool := false
  recvFailed : Bool := false
  deriving DecidableEq, Repr

inductive StreamEvent where
  | push (chunk : Bytes)
  | fin
  | close
  | fail
  deriving DecidableEq, Repr

def StreamEvent.bytes : StreamEvent → Bytes
  | .push chunk => chunk
  | _ => []

namespace SmuxStream

variable {ε : Type}

/-- `read_chunk` on an empty buffer; `idle` is how it waits: for more, to the end of the stream, or to
an error. -/
def waitRead (s : SmuxStream) (idle : Poll (Except ε Unit)) :
    SmuxStream × Poll (Except ε (Option Bytes)) :=
  if s.closed then ({ s with eof := true }, .ready (.ok none))
  else
    match idle with
    | .pending => (s, .pending)
    | .ready (.ok _) => ({ s with eof := true }, .ready (.ok none))
    | .ready (.error e) => (s, .ready (.error e))

def readChunk (s : SmuxStream) (idle : Poll (Except ε Unit)) :
    SmuxStream × Poll (Except ε (Option Bytes)) :=
  match s.buffer with
  | chunk :: rest => ({ s with buffer := rest }, .ready (.ok (some chunk)))
  | [] => s.waitRead idle

def pollReadFrame (s : SmuxStream) (idle : Poll (Except ε Unit)) :
    SmuxStream × Poll (Except ε (Option Bytes)) :=
  match s.pending with
  | some chunk => ({ s with pending := none }, .ready (.ok (some chunk)))
  | none => if s.eof then (s, .ready (.ok none)) else s.readChunk idle

def receive (s : SmuxStream) : StreamEvent → SmuxStream
  | .push chunk => { s with buffer := s.buffer ++ [chunk] }
  | .fin => { s with gotFin := true }
  | .close => { s with closed := true }
  | .fail => { s with recvFailed := true }

def peerFinished (s : SmuxStream) : Bool := s.gotFin || s.closed || s.recvFailed

def bufferedLen (s : SmuxStream) : ℕ := (s.buffer.map List.length).sum

def undelivered (s : SmuxStream) : Bool :=
  s.pending.isSome || decide (s.bufferedLen > 0) || (s.peerFinished && !s.gotFin)

def held (s : SmuxStream) : Bytes := s.pending.getD [] ++ s.buffer.flatten

def CutOff (s : SmuxStream) : Prop := s.peerFinished = true ∧ s.gotFin = false

private theorem frameBytes_waitRead (s : SmuxStream) (idle : Poll (Except ε Unit)) :
    frameBytes (s.waitRead idle).2 ++ (s.waitRead idle).1.held = s.held := by
  unfold waitRead
  split_ifs
  · rfl
  · match idle with
    | .pending => rfl
    | .ready (.ok _) => rfl
    | .ready (.error e) => rfl

theorem frameBytes_pollReadFrame (s : SmuxStream) (idle : Poll (Except ε Unit)) :
    frameBytes (s.pollReadFrame idle).2 ++ (s.pollReadFrame idle).1.held = s.held := by
  cases hpending : s.pending with
  | some chunk =>
    simp only [pollReadFrame, held, hpending]
    rfl
  | none =>
    simp only [pollReadFrame, hpending]
    split_ifs
    · rfl
    · cases hbuf : s.buffer with
      | cons chunk rest =>
        simp only [readChunk, held, hbuf, hpending]
        rfl
      | nil =>
        simp only [readChunk, hbuf]
        exact frameBytes_waitRead s idle

theorem held_receive (s : SmuxStream) (ev : StreamEvent) :
    (s.receive ev).held = s.held ++ ev.bytes := by
  cases ev with
  | push chunk => simp [receive, held, StreamEvent.bytes]
  | fin => exact (List.append_nil _).symm
  | close => exact (List.append_nil _).symm
  | fail => exact (List.append_nil _).symm

theorem undelivered_of_held {s : SmuxStream} (h : s.held ≠ []) : s.undelivered = true := by
  unfold undelivered
  cases hpending : s.pending with
  | some chunk => rfl
  | none =>
    have hlen : 0 < s.held.length := List.length_pos_of_ne_nil h
    have hsum : s.bufferedLen > 0 := by
      unfold bufferedLen
      rw [← List.length_flatten]
      simpa [held, hpending] using hlen
    rw [decide_eq_true hsum]
    rfl

theorem undelivered_of_cutOff {s : SmuxStream} (h : s.CutOff) : s.undelivered = true := by
  unfold undelivered
  rw [h.1, h.2, Bool.not_false, Bool.and_self, Bool.or_true]

end SmuxStream

end Kcptun.Pipe
