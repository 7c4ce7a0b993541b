/- Kcptun/Smux/ReadFull
   source: crates/smux/src/session.rs (BufConnReader, read_full, eof_error)
   digest: The buffered reader of a session: it gives what unbuffered reads of the connection would,
     whatever the buffer's size and the pieces in which the stream arrives. -/

import Kcptun.Lib.Arrivals
import Kcptun.Lib.Io
import Kcptun.Lib.LittleEndian
import Kcptun.Lib.Splice

set_option autoImplicit false
set_option relaxedAutoImplicit false

namespace Kcptun.Smux.ReadFull

open Kcptun.Lib Kcptun.Lib.LittleEndian

variable {ε : Type}

def eofError (readSoFar : ℕ) : IoError ε :=
  if readSoFar = 0 then .new .unexpectedEof "EOF" else .new .unexpectedEof "unexpected EOF"

structure BufConnReader where
  buf : Bytes
  pos : ℕ
  cap : ℕ
deriving DecidableEq, Repr

def BufConnReader.new (size : ℕ) : BufConnReader := ⟨List.replicate size 0, 0, 0⟩

/-- `conn.read(&mut buf[start..])`: what it returns, the buffer and the connection after it. -/
def readAt (conn : List (Arrival UInt8 ε)) (buf : Bytes) (start : ℕ) :
    Option (Except ε ℕ × Bytes × List (Arrival UInt8 ε)) :=
  if start ≤ buf.length then
    match (readOnce conn (buf.length - start)).1 with
    | .error e => some (.error e, buf, (readOnce conn (buf.length - start)).2)
    | .ok data => (splice buf start data).map fun buf' =>
        (.ok data.length, buf', (readOnce conn (buf.length - start)).2)
  else none

/-- A call of `read_full` between two turns of its loop. -/
structure Call (ε : Type) where
  reader : BufConnReader
  conn : List (Arrival UInt8 ε)
  out : Bytes
  done : ℕ

inductive Outcome (ε : Type) where
  | goesOn (c : Call ε)
  | returns (result : Except (IoError ε) Unit) (c : Call ε)

namespace Call

def bypass (c : Call ε) : Option (Outcome ε) :=
  (readAt c.conn c.out c.done).map fun r =>
    match r.1 with
    | .error e => .returns (.error (.conn e)) { c with conn := r.2.2 }
    | .ok n =>
      if n = 0 then .returns (.error (eofError c.done)) { c with conn := r.2.2 }
      else .goesOn { c with out := r.2.1, conn := r.2.2, done := c.done + n }

/-- A read into the buffer, which is empty. -/
def refill (c : Call ε) : Option (Outcome ε) :=
  (readAt c.conn c.reader.buf 0).map fun r =>
    match r.1 with
    | .error e => .returns (.error (.conn e)) { c with reader := ⟨r.2.1, 0, 0⟩, conn := r.2.2 }
    | .ok n =>
      if n = 0 then
        .returns (.error (eofError c.done)) { c with reader := ⟨r.2.1, 0, 0⟩, conn := r.2.2 }
      else .goesOn { c with reader := ⟨r.2.1, 0, n⟩, conn := r.2.2 }

def copyOut (c : Call ε) : Option (Outcome ε) :=
  if c.reader.pos ≤ c.reader.cap then
    let take := min (c.reader.cap - c.reader.pos) (c.out.length - c.done)
    (slice c.reader.buf c.reader.pos (c.reader.pos + take)).bind fun xs =>
      (splice c.out c.done xs).map fun out => .goesOn { c with
        reader := { c.reader with pos := c.reader.pos + take }, out := out, done := c.done + take }
  else none

def turn (c : Call ε) : Option (Outcome ε) :=
  if c.reader.pos = c.reader.cap then
    if c.reader.buf.length ≤ c.out.length - c.done then c.bypass
    else c.refill.bind fun
      | .goesOn c => c.copyOut
      | .returns result c => some (.returns result c)
  else c.copyOut

/-- The loop; every turn that goes on brings a byte. -/
def loop : ℕ → Call ε → Option (Except (IoError ε) Unit × Call ε)
  | 0, c => if c.done < c.out.length then none else some (.ok (), c)
  | fuel + 1, c =>
    if c.done < c.out.length then
      c.turn.bind fun
        | .goesOn c => loop fuel c
        | .returns result c => some (result, c)
    else some (.ok (), c)

end Call

/-- Fills `out`: the result, and reader, connection and destination after it. -/
def BufConnReader.readFull (r : BufConnReader) (conn : List (Arrival UInt8 ε)) (out : Bytes) :
    Option (Except (IoError ε) Unit × Call ε) := Call.loop out.length ⟨r, conn, out, 0⟩

/-- A sequence of requests: what each returned, and what its destination holds afterwards. -/
def BufConnReader.requests : BufConnReader → List (Arrival UInt8 ε) → List Bytes →
    Option (List (Except (IoError ε) Unit × Bytes))
  | _, _, [] => some []
  | r, conn, out :: outs => (r.readFull conn out).bind fun s =>
    (s.2.reader.requests s.2.conn outs).map fun rest => (s.1, s.2.out) :: rest

/-! Full reads without a buffer. -/

def resultOf (got : ℕ) : Option (Option ε) → Except (IoError ε) Unit
  | none => .ok ()
  | some none =>
    if got = 0 then .error (.new .unexpectedEof "EOF")
    else .error (.new .unexpectedEof "unexpected EOF")
  | some (some e) => .error (.conn e)

/-- `io.ReadFull` on the connection itself, request by request. -/
def ioReadFull : List (Arrival UInt8 ε) → List Bytes → List (Except (IoError ε) Unit × Bytes)
  | _, [] => []
  | conn, out :: outs =>
    let r := fullReads out.length conn out.length
    (resultOf r.1.length r.2.1, r.1 ++ out.drop r.1.length) :: ioReadFull r.2.2 outs

/-! What a turn does. -/

def BufConnReader.left (r : BufConnReader) : Bytes := (r.buf.take r.cap).drop r.pos

/-- What the connection still has for the caller: the bytes read ahead come first. -/
def Call.ahead (c : Call ε) : List (Item UInt8 ε) := elems c.reader.left ++ stream c.conn

structure BufConnReader.Ok (size : ℕ) (r : BufConnReader) : Prop where
  pos_le : r.pos ≤ r.cap
  cap_le : r.cap ≤ r.buf.length
  size : r.buf.length = size

/-- What a turn comes to: it takes some bytes from the stream, or finds that the stream stops. -/
inductive Turned (size : ℕ) (c : Call ε) : Outcome ε → Prop
  | took (xs : Bytes) {c' : Call ε} (hok : c'.reader.Ok size) (hne : xs ≠ [])
      (hfit : c.done + xs.length ≤ c.out.length) (hahead : c.ahead = elems xs ++ c'.ahead)
      (hout : c'.out = c.out.take c.done ++ xs ++ c.out.drop (c.done + xs.length))
      (hdone : c'.done = c.done + xs.length) : Turned size c (.goesOn c')
  | stopped (why : Option ε) {c' : Call ε} (hok : c'.reader.Ok size)
      (h : StopsAt c.ahead why c'.ahead) (hout : c'.out = c.out) :
      Turned size c (.returns (resultOf c.done (some why)) c')

inductive ReadsAt (conn : List (Arrival UInt8 ε)) (buf : Bytes) (start : ℕ) :
    Except ε ℕ × Bytes × List (Arrival UInt8 ε) → Prop
  | ended {conn' : List (Arrival UInt8 ε)} (h : StopsAt (stream conn) none (stream conn')) :
      ReadsAt conn buf start (.ok 0, buf, conn')
  | failed {e : ε} {conn' : List (Arrival UInt8 ε)}
      (h : StopsAt (stream conn) (some e) (stream conn')) :
      ReadsAt conn buf start (.error e, buf, conn')
  | got (xs : Bytes) {conn' : List (Arrival UInt8 ε)} (hne : xs ≠ [])
      (hfit : start + xs.length ≤ buf.length) (h : stream conn = elems xs ++ stream conn') :
      ReadsAt conn buf start
        (.ok xs.length, buf.take start ++ xs ++ buf.drop (start + xs.length), conn')

section Turns

variable {size : ℕ} {c : Call ε} {conn : List (Arrival UInt8 ε)} {buf : Bytes} {start : ℕ}

private theorem readAt_spec (conn : List (Arrival UInt8 ε)) (hstart : start < buf.length) :
    ∃ r, readAt conn buf start = some r ∧ ReadsAt conn buf start r := by
  have hroom : buf.length - start ≠ 0 := by omega
  have hfound := readOnce_found conn hroom
  unfold readAt
  rw [if_pos (Nat.le_of_lt hstart)]
  generalize readOnce conn (buf.length - start) = r at hfound ⊢
  obtain ⟨result, conn'⟩ := r
  generalize hstream : stream conn = items at hfound
  generalize hrest : stream conn' = rest at hfound
  cases hfound with
  | ended h =>
    have hnil : splice buf start [] = some buf := by
      rw [splice, if_pos (show start + ([] : Bytes).length ≤ buf.length from Nat.le_of_lt hstart)]
      rw [List.append_nil, List.length_nil, Nat.add_zero, List.take_append_drop]
    dsimp only
    rw [hnil]
    exact ⟨_, rfl, .ended (by rw [hstream, hrest]; exact h)⟩
  | failed h => exact ⟨_, rfl, .failed (by rw [hstream, hrest]; exact h)⟩
  | got hne hle =>
    rename_i xs
    have hfit : start + xs.length ≤ buf.length := by omega
    dsimp only
    rw [splice, if_pos hfit]
    exact ⟨_, rfl, .got xs hne hfit (by rw [hstream, hrest])⟩

private theorem eofError_eq (n : ℕ) :
    (.error (eofError n) : Except (IoError ε) Unit) = resultOf n (some none) := by
  unfold eofError resultOf
  split_ifs <;> rfl

theorem BufConnReader.left_nil {r : BufConnReader} (h : r.pos = r.cap) : r.left = [] := by
  unfold BufConnReader.left
  rw [List.drop_eq_nil_iff, List.length_take, h]
  exact Nat.min_le_left _ _

private theorem Call.ahead_nil (h : c.reader.pos = c.reader.cap) : c.ahead = stream c.conn := by
  unfold Call.ahead
  rw [BufConnReader.left_nil h, elems_nil, List.nil_append]

private theorem Call.bypass_turned (hok : c.reader.Ok size) (hempty : c.reader.pos = c.reader.cap)
    (hdone : c.done < c.out.length) : ∃ o, c.bypass = some o ∧ Turned size c o := by
  have hahead : ∀ (conn : List (Arrival UInt8 ε)) (out : Bytes) (done : ℕ),
      Call.ahead ⟨c.reader, conn, out, done⟩ = stream conn :=
    fun conn out done => @ahead_nil ε ⟨c.reader, conn, out, done⟩ hempty
  obtain ⟨r, hread, hreads⟩ := readAt_spec c.conn hdone
  unfold Call.bypass
  rw [hread]
  cases hreads with
  | ended h =>
    refine ⟨_, rfl, ?_⟩
    dsimp only
    rw [if_pos rfl, eofError_eq]
    exact .stopped none hok (by rw [ahead_nil hempty, hahead]; exact h) rfl
  | failed h =>
    exact ⟨_, rfl, .stopped (some _) hok (by rw [ahead_nil hempty, hahead]; exact h) rfl⟩
  | got xs hne hfit h =>
    have hpos : xs.length ≠ 0 := fun hzero => hne (List.length_eq_zero_iff.mp hzero)
    refine ⟨_, rfl, ?_⟩
    dsimp only
    rw [if_neg hpos]
    refine .took xs hok hne hfit ?_ rfl rfl
    rw [ahead_nil hempty, hahead, h]

private theorem Call.refill_spec (hok : c.reader.Ok size) (hempty : c.reader.pos = c.reader.cap)
    (hsize : size ≠ 0) : ∃ o, c.refill = some o ∧ (Turned size c o ∧ (∀ c', o ≠ .goesOn c') ∨
      ∃ r conn, o = .goesOn ⟨r, conn, c.out, c.done⟩ ∧ r.Ok size ∧ r.pos < r.cap ∧
        c.ahead = elems r.left ++ stream conn) := by
  have hbuf : 0 < c.reader.buf.length := by
    rw [hok.size]
    omega
  have hkept : ∀ {buf : Bytes}, buf.length = c.reader.buf.length →
      (⟨buf, 0, 0⟩ : BufConnReader).Ok size :=
    fun {buf} h => ⟨Nat.le_refl 0, Nat.zero_le _, h.trans hok.size⟩
  obtain ⟨r, hread, hreads⟩ := readAt_spec c.conn hbuf
  unfold Call.refill
  rw [hread]
  cases hreads with
  | ended h =>
    refine ⟨_, rfl, .inl ?_⟩
    dsimp only
    rw [if_pos rfl, eofError_eq]
    refine ⟨.stopped none (hkept rfl) ?_ rfl, fun c' hc => by cases hc⟩
    rw [ahead_nil hempty, ahead_nil rfl]
    exact h
  | failed h =>
    refine ⟨_, rfl, .inl ⟨.stopped (some _) (hkept rfl) ?_ rfl, fun c' hc => by cases hc⟩⟩
    rw [ahead_nil hempty, ahead_nil rfl]
    exact h
  | got xs hne hfit h =>
    have hpos : xs.length ≠ 0 := fun hzero => hne (List.length_eq_zero_iff.mp hzero)
    rw [Nat.zero_add] at hfit
    refine ⟨_, rfl, .inr ⟨_, _, by dsimp only; rw [if_neg hpos], ⟨Nat.zero_le _, ?_, ?_⟩, ?_, ?_⟩⟩
    · simp only [List.length_append, List.take_zero, List.length_nil, Nat.zero_add]
      omega
    · simp only [List.length_append, List.take_zero, List.length_nil, Nat.zero_add,
        List.length_drop]
      rw [← hok.size]
      omega
    · dsimp only
      omega
    · unfold BufConnReader.left
      rw [ahead_nil hempty, h, List.take_zero, List.nil_append, List.take_left, List.drop_zero]

private theorem Call.copyOut_turned (hok : c.reader.Ok size) (hleft : c.reader.pos < c.reader.cap)
    (hdone : c.done < c.out.length) : ∃ o, c.copyOut = some o ∧ Turned size c o := by
  have hcap := hok.cap_le
  unfold Call.copyOut
  rw [if_pos hok.pos_le]
  generalize htake : min (c.reader.cap - c.reader.pos) (c.out.length - c.done) = take
  have hslice : slice c.reader.buf c.reader.pos (c.reader.pos + take) =
      some ((c.reader.buf.take (c.reader.pos + take)).drop c.reader.pos) := by
    rw [slice, if_pos ⟨Nat.le_add_right _ _, by omega⟩]
  dsimp only
  rw [hslice, Option.bind_some]
  generalize hxs : (c.reader.buf.take (c.reader.pos + take)).drop c.reader.pos = xs
  have hlen : xs.length = take := by
    rw [← hxs, List.length_drop, List.length_take]
    omega
  have hfit : c.done + xs.length ≤ c.out.length := by omega
  rw [splice, if_pos hfit]
  refine ⟨_, rfl, .took xs ⟨?_, hcap, hok.size⟩ ?_ hfit ?_ rfl (by rw [hlen])⟩
  · dsimp only
    omega
  · rintro rfl
    rw [List.length_nil] at hlen
    omega
  · unfold Call.ahead BufConnReader.left
    dsimp only
    rw [← List.append_assoc, ← elems_append, ← hxs]
    rw [take_drop_split (show c.reader.pos + take ≤ c.reader.cap by omega)]

private theorem Call.turn_turned (hok : c.reader.Ok size) (hsize : size ≠ 0)
    (hdone : c.done < c.out.length) : ∃ o, c.turn = some o ∧ Turned size c o := by
  unfold Call.turn
  by_cases hempty : c.reader.pos = c.reader.cap
  · rw [if_pos hempty]
    split_ifs with hlarge
    · exact bypass_turned hok hempty hdone
    · obtain ⟨o, hrefill, ho⟩ := refill_spec hok hempty hsize
      rw [hrefill, Option.bind_some]
      rcases ho with ⟨hturned, hreturns⟩ | ⟨r, conn, rfl, hok', hleft, hahead⟩
      · cases o with
        | goesOn c' => exact absurd rfl (hreturns c')
        | returns result c' => exact ⟨_, rfl, hturned⟩
      · obtain ⟨o, hcopy, hturned⟩ :=
          @copyOut_turned _ size ⟨r, conn, c.out, c.done⟩ hok' hleft hdone
        refine ⟨o, hcopy, ?_⟩
        cases hturned with
        | took xs hok'' hne hfit hahead' hout hdone' =>
          exact .took xs hok'' hne hfit (hahead.trans hahead') hout hdone'
        | stopped why hok'' h hout => exact .stopped why hok'' (by rw [hahead]; exact h) hout
  · rw [if_neg hempty]
    exact copyOut_turned hok (Nat.lt_of_le_of_ne hok.pos_le hempty) hdone

end Turns

/-! Whole calls, and sequences of them. -/

/-- A call that has got `got` of what it still needed. -/
structure Finished (size : ℕ) (c : Call ε) (got : Bytes) (stopped : Option (Option ε))
    (s : Except (IoError ε) Unit × Call ε) : Prop where
  ok : s.2.reader.Ok size
  full : full c.ahead (c.out.length - c.done) = (got, stopped, s.2.ahead)
  result : s.1 = resultOf (c.done + got.length) stopped
  out : s.2.out = c.out.take c.done ++ got ++ c.out.drop (c.done + got.length)

section Calls

variable {size : ℕ} {c : Call ε}

private theorem Finished.done (hok : c.reader.Ok size) (hdone : ¬c.done < c.out.length) :
    Finished size c [] none (.ok (), c) := by
  refine ⟨hok, ?_, rfl, ?_⟩
  · rw [Nat.sub_eq_zero_of_le (Nat.not_lt.mp hdone), full_zero]
  · rw [List.append_nil, List.length_nil, Nat.add_zero, List.take_append_drop]

private theorem Finished.stopped {c' : Call ε} {why : Option ε} (hdone : c.done < c.out.length)
    (hok : c'.reader.Ok size) (h : StopsAt c.ahead why c'.ahead) (hout : c'.out = c.out) :
    Finished size c [] (some why) (resultOf c.done (some why), c') := by
  refine ⟨hok, h.full (by omega), rfl, ?_⟩
  rw [List.append_nil, List.length_nil, Nat.add_zero, List.take_append_drop]
  exact hout

private theorem Finished.took {c' : Call ε} {xs got : Bytes} {stopped : Option (Option ε)}
    {s : Except (IoError ε) Unit × Call ε} (h : Finished size c' got stopped s)
    (hfit : c.done + xs.length ≤ c.out.length) (hahead : c.ahead = elems xs ++ c'.ahead)
    (hout : c'.out = c.out.take c.done ++ xs ++ c.out.drop (c.done + xs.length))
    (hdone : c'.done = c.done + xs.length) : Finished size c (xs ++ got) stopped s := by
  obtain ⟨hok, hfull, hresult, hfinal⟩ := h
  have hfront : (c.out.take c.done ++ xs).length = c.done + xs.length := by
    rw [List.length_append, List.length_take, Nat.min_eq_left (by omega)]
  have hlen : c'.out.length = c.out.length := by
    rw [hout, List.length_append, hfront, List.length_drop]
    omega
  rw [hlen, hdone, ← Nat.sub_sub] at hfull
  rw [hdone, hout, List.take_left' hfront, ← hfront, List.drop_length_add_append, hfront,
    List.drop_drop] at hfinal
  refine ⟨hok, ?_, ?_, ?_⟩
  · rw [hahead, full_elems (by omega), hfull]
  · rw [hresult, hdone, List.length_append, Nat.add_assoc]
  · rw [hfinal, List.length_append, ← Nat.add_assoc, List.append_assoc (c.out.take c.done)]

theorem Call.loop_spec {fuel : ℕ} (hok : c.reader.Ok size) (hsize : size ≠ 0)
    (hfuel : c.out.length - c.done ≤ fuel) :
    ∃ got stopped s, c.loop fuel = some s ∧ Finished size c got stopped s := by
  induction fuel generalizing c with
  | zero =>
    have hdone : ¬c.done < c.out.length := by omega
    rw [Call.loop, if_neg hdone]
    exact ⟨[], none, _, rfl, .done hok hdone⟩
  | succ fuel ih =>
    rw [Call.loop]
    split_ifs with hdone
    · obtain ⟨o, hturn, hturned⟩ := turn_turned hok hsize hdone
      rw [hturn, Option.bind_some]
      cases hturned with
      | took xs hok' hne hfit hahead hout hdone' =>
        rename_i c'
        have hpos := List.length_pos_iff.mpr hne
        have hlen : c'.out.length = c.out.length := by
          rw [hout, List.length_append, List.length_append, List.length_take, List.length_drop]
          omega
        obtain ⟨got, stopped, s, hloop, hs⟩ := ih hok' (by omega)
        exact ⟨xs ++ got, stopped, s, hloop, hs.took hfit hahead hout hdone'⟩
      | stopped why hok' h hout => exact ⟨[], some why, _, rfl, .stopped hdone hok' h hout⟩
    · exact ⟨[], none, _, rfl, .done hok hdone⟩

theorem BufConnReader.ok_new (size : ℕ) : (BufConnReader.new size).Ok size :=
  ⟨Nat.le_refl 0, Nat.zero_le _, List.length_replicate⟩

/-- A sequence of requests of a reader that has read ahead gives what full reads without a buffer
give of the same stream. -/
theorem BufConnReader.requests_eq (hsize : size ≠ 0) {r : BufConnReader}
    {conn conn' : List (Arrival UInt8 ε)} (hok : r.Ok size)
    (hsame : elems r.left ++ stream conn = stream conn') (outs : List Bytes) :
    r.requests conn outs = some (ioReadFull conn' outs) := by
  induction outs generalizing r conn conn' with
  | nil => rfl
  | cons out outs ih =>
    obtain ⟨got, stopped, s, hloop, hok', hfull, hresult, hout⟩ :=
      @Call.loop_spec _ _ ⟨r, conn, out, 0⟩ out.length hok hsize (Nat.sub_le _ _)
    have hdirect := fullReads_eq conn' (Nat.le_refl out.length)
    have hahead : Call.ahead ⟨r, conn, out, 0⟩ = stream conn' := hsame
    rw [hahead, show out.length - 0 = out.length from rfl, ← hdirect] at hfull
    rw [ioReadFull]
    generalize fullReads out.length conn' out.length = r' at hfull
    obtain ⟨got', stopped', conn''⟩ := r'
    obtain ⟨rfl, hrest⟩ := Prod.mk.inj hfull
    obtain ⟨rfl, hleft⟩ := Prod.mk.inj hrest
    have hlater := ih hok' hleft.symm
    rw [List.take_zero, List.nil_append] at hout
    rw [Nat.zero_add] at hresult hout
    rw [BufConnReader.requests, BufConnReader.readFull, hloop, Option.bind_some, hlater, hresult,
      hout]
    rfl

end Calls

private theorem resultOf_eof {got : ℕ} {stopped : Option (Option ε)} :
    resultOf got stopped = .error (.new .unexpectedEof "EOF") ↔ stopped = some none ∧ got = 0 := by
  rcases stopped with - | - | e
  · simp [resultOf]
  · unfold resultOf
    split_ifs with hgot <;> simp [hgot]
  · simp [resultOf]

private theorem resultOf_unexpected {got : ℕ} {stopped : Option (Option ε)} :
    resultOf got stopped = .error (.new .unexpectedEof "unexpected EOF") ↔
      stopped = some none ∧ got ≠ 0 := by
  rcases stopped with - | - | e
  · simp [resultOf]
  · unfold resultOf
    split_ifs with hgot <;> simp [hgot]
  · simp [resultOf]

/-! The states of a reader. -/

/-- The calls of a reader, each between two turns or after the buffer has been refilled. A call
may follow however the one before it ended. -/
inductive Visited (size : ℕ) : Call ε → Prop
  | first (conn : List (Arrival UInt8 ε)) (out : Bytes) :
      Visited size ⟨BufConnReader.new size, conn, out, 0⟩
  | refills {c c' : Call ε} (h : Visited size c) (hdone : c.done < c.out.length)
      (hempty : c.reader.pos = c.reader.cap) (hrefill : c.refill = some (.goesOn c')) :
      Visited size c'
  | goesOn {c c' : Call ε} (h : Visited size c) (hdone : c.done < c.out.length)
      (hturn : c.turn = some (.goesOn c')) : Visited size c'
  | returns {c c' : Call ε} {result : Except (IoError ε) Unit} (h : Visited size c)
      (hdone : c.done < c.out.length) (hturn : c.turn = some (.returns result c')) :
      Visited size c'
  | next {c : Call ε} (h : Visited size c) (out : Bytes) : Visited size ⟨c.reader, c.conn, out, 0⟩

private theorem Visited.ok {size : ℕ} {c : Call ε} (h : Visited size c) (hsize : size ≠ 0) :
    c.reader.Ok size := by
  have hturned : ∀ {c : Call ε} {o}, c.reader.Ok size → c.done < c.out.length →
      c.turn = some o → Turned size c o := by
    intro c o hok hdone hturn
    obtain ⟨o', hturn', hturned⟩ := Call.turn_turned hok hsize hdone
    obtain rfl := Option.some.inj (hturn.symm.trans hturn')
    exact hturned
  induction h with
  | first conn out => exact BufConnReader.ok_new size
  | refills h hdone hempty hrefill ih =>
    obtain ⟨o, hrefill', ho⟩ := Call.refill_spec ih hempty hsize
    obtain rfl := Option.some.inj (hrefill.symm.trans hrefill')
    rcases ho with ⟨-, hreturns⟩ | ⟨r, conn, hgoes, hok, -⟩
    · exact absurd rfl (hreturns _)
    · cases hgoes
      exact hok
  | goesOn h hdone hturn ih =>
    cases hturned ih hdone hturn with
    | took xs hok => exact hok
  | returns h hdone hturn ih =>
    cases hturned ih hdone hturn with
    | stopped why hok => exact hok
  | next h out ih => exact ih

/-- Requests of any lengths, on a reader with a buffer of any size, give what `io.ReadFull` gives on
the same stream in any other pieces: `EOF` when the stream ends before the first byte of a request,
`unexpected EOF` when it ends later, and the connection's own errors. In every state of the reader
the position is within what the buffer holds, and that within the buffer. -/
theorem read_full_exact {size : ℕ} (hsize : 1 ≤ size) {conn conn' : List (Arrival UInt8 ε)}
    (hsame : stream conn = stream conn') (outs : List Bytes) :
    (BufConnReader.new size).requests conn outs = some (ioReadFull conn' outs) ∧
      (∀ (got : ℕ) (stopped : Option (Option ε)),
        (resultOf got stopped = .error (.new .unexpectedEof "EOF") ↔
          stopped = some none ∧ got = 0) ∧
        (resultOf got stopped = .error (.new .unexpectedEof "unexpected EOF") ↔
          stopped = some none ∧ got ≠ 0)) ∧
      ∀ c : Call ε, Visited size c →
        c.reader.pos ≤ c.reader.cap ∧ c.reader.cap ≤ c.reader.buf.length := by
  have hpos : size ≠ 0 := Nat.ne_of_gt hsize
  refine ⟨?_, fun got stopped => ⟨resultOf_eof, resultOf_unexpected⟩,
    fun c hc => ⟨(hc.ok hpos).pos_le, (hc.ok hpos).cap_le⟩⟩
  refine BufConnReader.requests_eq hpos (BufConnReader.ok_new size) ?_ outs
  rw [BufConnReader.left_nil rfl]
  exact hsame

/-- The pieces of a stream of three bytes, which ends and then fails. -/
def shortStream : List (Arrival UInt8 Unit) := [.data [1, 2], .data [3], .data [], .fails ()]

/-- A buffer of two bytes serves a request of one byte, one of none, one that the end of the stream
cuts short, and one that fails. -/
theorem read_full_exact_short :
    (BufConnReader.new 2).requests shortStream [[0], [], [0, 0, 0], [0]] =
        some [(.ok (), [1]), (.ok (), []), (.error (.new .unexpectedEof "unexpected EOF"), [2, 3, 0]),
          (.error (.conn ()), [0])] ∧
      (BufConnReader.new 2).requests shortStream [[0], [], [0, 0, 0], [0]] =
        some (ioReadFull [.data [1, 2, 3], .data [], .fails ()] [[0], [], [0, 0, 0], [0]]) :=
  ⟨rfl, (read_full_exact (Nat.le_succ 1) rfl _).1⟩

end Kcptun.Smux.ReadFull
