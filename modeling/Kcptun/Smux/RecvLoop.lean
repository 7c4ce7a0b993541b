/- Kcptun/Smux/RecvLoop
   source: crates/smux/src/session.rs (recv_loop, BufConnReader)
   digest: What the receive loop makes of the byte stream of a connection: the frames it acts on and
     why it ends depend on the stream only, not on its pieces or on the reader's buffer. -/

import Kcptun.Smux.Frames
import Kcptun.Smux.ReadFull

set_option autoImplicit false
set_option relaxedAutoImplicit false

namespace Kcptun.Smux.RecvLoop

open Kcptun.Lib Kcptun.Lib.LittleEndian Kcptun.Smux.Frames Kcptun.Smux.ReadFull

variable {ε : Type}

/-- What ends the loop: an error of the connection's, or one of the peer's. -/
inductive Ended (ε : Type) where
  | readError (e : IoError ε)
  | protoError (e : Frames.Error)
deriving DecidableEq, Repr

/-- The reader of the loop, its connection, and the two buffers that every turn reads into. -/
structure Receiver (ε : Type) where
  reader : BufConnReader
  conn : List (Arrival UInt8 ε)
  hdr : Bytes
  upd : Bytes

namespace Receiver

def new (size : ℕ) (conn : List (Arrival UInt8 ε)) : Receiver ε :=
  ⟨.new size, conn, List.replicate HEADER_SIZE 0, List.replicate SZ_CMD_UPD 0⟩

/-- `reader.read_full(out)`, with the bytes it read. -/
def readFull (r : Receiver ε) (out : Bytes) : Option (Except (Ended ε) Bytes × Receiver ε) :=
  (r.reader.readFull r.conn out).map fun s =>
    (match s.1 with
      | .ok () => .ok s.2.out
      | .error e => .error (.readError e), { r with reader := s.2.reader, conn := s.2.conn })

/-- The payload of a header that passed the check; a pushed frame may have none. -/
def payload (r : Receiver ε) (header : RawHeader) : Option (Except (Ended ε) Bytes × Receiver ε) :=
  if header.cmd = CMD_NOP ∨ header.cmd = CMD_SYN ∨ header.cmd = CMD_FIN then some (.ok [], r)
  else if header.cmd = CMD_PSH then
    if header.length = 0 then some (.ok [], r)
    else r.readFull (List.replicate header.length.toNat 0)
  else if header.cmd = CMD_UPD then
    (r.readFull r.upd).map fun s => match s.1 with
      | .ok bytes => (s.1, { s.2 with upd := bytes })
      | .error _ => s
  else some (.error (.protoError .invalidProtocol), r)

/-- One turn of the loop: the next frame, or why there is none. -/
def turn (version : UInt8) (r : Receiver ε) : Option (Except (Ended ε) Frame × Receiver ε) :=
  (r.readFull r.hdr).bind fun s => match s.1 with
    | .error e => some (.error e, s.2)
    | .ok hdr => (RawHeader.fromBytes hdr).bind fun header =>
      match header.checkProtocol version with
      | .error e => some (.error (.protoError e), { s.2 with hdr })
      | .ok () => (({ s.2 with hdr } : Receiver ε).payload header).map fun p =>
        (p.1.map (Frame.withData header.version header.cmd header.streamId), p.2)

/-- The frames the loop acts on, and what ends it; every turn that goes on takes a byte. -/
def loop (version : UInt8) : ℕ → Receiver ε → Option (List Frame × Ended ε)
  | 0, _ => none
  | fuel + 1, r => (r.turn version).bind fun s => match s.1 with
    | .error e => some ([], e)
    | .ok f => (loop version fuel s.2).map fun t => (f :: t.1, t.2)

end Receiver

def recvLoop (version : UInt8) (size : ℕ) (conn : List (Arrival UInt8 ε)) :
    Option (List Frame × Ended ε) :=
  (Receiver.new size conn).loop version (elemCount (stream conn) + 1)

/-! Frames of a stream, read without a buffer. -/

def take (items : List (Item UInt8 ε)) (need : ℕ) : Except (Ended ε) Bytes × List (Item UInt8 ε) :=
  (match resultOf (full items need).1.length (full items need).2.1 with
    | .ok () => .ok (full items need).1
    | .error e => .error (.readError e), (full items need).2.2)

def announced (header : RawHeader) : ℕ := if header.cmd = CMD_PSH ∨ header.cmd = CMD_UPD then
  header.length.toNat else 0

def decode (version : UInt8) (items : List (Item UInt8 ε)) :
    Except (Ended ε) Frame × List (Item UInt8 ε) :=
  match take items HEADER_SIZE with
  | (.error e, rest) => (.error e, rest)
  | (.ok hdr, rest) => match RawHeader.fromBytes hdr with
    | none => (.error (.protoError .invalidProtocol), rest)
    | some header => match header.checkProtocol version with
      | .error e => (.error (.protoError e), rest)
      | .ok () => ((take rest (announced header)).1.map
          (Frame.withData header.version header.cmd header.streamId), (take rest (announced header)).2)

/-- No frame can be read at the front of the stream. -/
inductive Stops (version : UInt8) : Ended ε → List (Item UInt8 ε) → Prop
  | header {items rest : List (Item UInt8 ε)} {got : Bytes} {why : Option ε} {e : IoError ε}
      (hfull : full items HEADER_SIZE = (got, some why, rest))
      (he : resultOf got.length (some why) = .error e) : Stops version (.readError e) items
  | rejected {h : RawHeader} (hbad : h.checkProtocol version = .error .invalidProtocol)
      (rest : List (Item UInt8 ε)) :
      Stops version (.protoError .invalidProtocol) (elems h.bytes ++ rest)
  | payload {h : RawHeader} (hok : h.checkProtocol version = .ok ())
      {items rest : List (Item UInt8 ε)} {got : Bytes} {why : Option ε} {e : IoError ε}
      (hfull : full items h.length.toNat = (got, some why, rest))
      (he : resultOf got.length (some why) = .error e) :
      Stops version (.readError e) (elems h.bytes ++ items)

section Decoding

variable {version : UInt8} {items rest : List (Item UInt8 ε)} {need : ℕ} {f : Frame}
  {e : Ended ε} {h : RawHeader}

inductive Taken (need : ℕ) (items : List (Item UInt8 ε)) :
    Except (Ended ε) Bytes × List (Item UInt8 ε) → Prop
  | got {got : Bytes} {rest : List (Item UInt8 ε)} (hlen : got.length = need)
      (hitems : items = elems got ++ rest) : Taken need items (.ok got, rest)
  | stopped {got : Bytes} {why : Option ε} {rest : List (Item UInt8 ε)} {e : IoError ε}
      (hfull : full items need = (got, some why, rest))
      (he : resultOf got.length (some why) = .error e) :
      Taken need items (.error (.readError e), rest)

private theorem resultOf_some (got : ℕ) (why : Option ε) :
    ∃ e, resultOf got (some why) = .error e := by
  unfold resultOf
  cases why with
  | some e => exact ⟨_, rfl⟩
  | none =>
    dsimp only
    split_ifs <;> exact ⟨_, rfl⟩

private theorem taken (items : List (Item UInt8 ε)) (need : ℕ) :
    Taken need items (take items need) := by
  have hsplit := full_split items need
  have hcomplete := full_complete items need
  generalize hfull : full items need = r at hsplit hcomplete
  obtain ⟨got, stopped, rest⟩ := r
  unfold take
  rw [hfull]
  cases stopped with
  | none => exact .got (hcomplete.mp rfl) (hsplit rfl)
  | some why =>
    obtain ⟨e, he⟩ := resultOf_some got.length why
    dsimp only
    rw [he]
    exact .stopped hfull he

private theorem take_elems {xs : Bytes} (hlen : xs.length = need) :
    take (elems xs ++ rest) need = (.ok xs, rest) := by
  subst hlen
  unfold take
  rw [full_elems (Nat.le_refl _), Nat.sub_self, full_zero, List.append_nil]
  rfl

private theorem fromBytes_self (h : RawHeader) : RawHeader.fromBytes h.bytes = some h := by
  have happend := h.fromBytes_append []
  rwa [List.append_nil] at happend

private theorem announced_of_ok (hok : h.checkProtocol version = .ok ()) :
    announced h = h.length.toNat := by
  unfold announced
  obtain ⟨-, ⟨hplain, hlen⟩ | hpsh | ⟨hupd, -⟩⟩ := RawHeader.checkProtocol_ok.mp hok
  · rw [hlen]
    split_ifs <;> rfl
  · rw [if_pos (.inl hpsh)]
  · rw [if_pos (.inr hupd)]

private theorem decode_header (hok : h.checkProtocol version = .ok ())
    (items : List (Item UInt8 ε)) :
    decode version (elems h.bytes ++ items) = ((take items h.length.toNat).1.map
      (Frame.withData h.version h.cmd h.streamId), (take items h.length.toNat).2) := by
  unfold decode
  rw [take_elems h.size]
  dsimp only
  rw [fromBytes_self]
  dsimp only
  rw [hok]
  dsimp only
  rw [announced_of_ok hok]

private theorem decode_rejected (hbad : h.checkProtocol version = .error .invalidProtocol)
    (rest : List (Item UInt8 ε)) :
    decode version (elems h.bytes ++ rest) = (.error (.protoError .invalidProtocol), rest) := by
  unfold decode
  rw [take_elems h.size]
  dsimp only
  rw [fromBytes_self]
  dsimp only
  rw [hbad]

/-- What a decoding comes to: the frame at the front, or why there is none. -/
inductive Decoded (version : UInt8) (items : List (Item UInt8 ε)) :
    Except (Ended ε) Frame × List (Item UInt8 ε) → Prop
  | frame {f : Frame} {rest : List (Item UInt8 ε)} (hvalid : f.Valid version)
      (hitems : items = elems f.encode ++ rest) : Decoded version items (.ok f, rest)
  | stops {e : Ended ε} (h : Stops version e items) (rest : List (Item UInt8 ε)) :
      Decoded version items (.error e, rest)

theorem decoded (version : UInt8) (items : List (Item UInt8 ε)) :
    Decoded version items (decode version items) := by
  have hhdr := taken items HEADER_SIZE
  generalize htake : take items HEADER_SIZE = t at hhdr
  cases hhdr with
  | stopped hfull he =>
    unfold decode
    rw [htake]
    exact .stops (.header hfull he) _
  | got hlen hitems =>
    rename_i hdr rest
    obtain ⟨h, rfl⟩ : ∃ h : RawHeader, h.bytes = hdr := ⟨⟨hdr, hlen⟩, rfl⟩
    subst hitems
    by_cases hok : h.checkProtocol version = .ok ()
    · rw [decode_header hok]
      have hpayload := taken rest h.length.toNat
      generalize take rest h.length.toNat = p at hpayload
      cases hpayload with
      | stopped hfull he => exact .stops (.payload hok hfull he) _
      | got hlen hitems =>
        rename_i data rest
        obtain ⟨hvalid, hheader⟩ := Frame.ofHeader hok hlen
        refine .frame hvalid ?_
        rw [Frame.encode, hheader, elems_append, List.append_assoc, hitems]
        rfl
    · have hbad := RawHeader.checkProtocol_error hok
      rw [decode_rejected hbad]
      exact .stops (.rejected hbad rest) rest

private theorem decode_encode (hvalid : f.Valid version) (rest : List (Item UInt8 ε)) :
    decode version (elems f.encode ++ rest) = (.ok f, rest) := by
  have hlen : f.data.length = f.header.length.toNat := (Frame.length_header hvalid.fits).symm
  have hsid : f.header.streamId = f.sid := RawHeader.streamId_new
  rw [Frame.encode, elems_append, List.append_assoc, decode_header hvalid.checked, take_elems hlen,
    hsid]
  rfl

end Decoding

/-! The loop on a buffered reader. -/

namespace Receiver

variable {size : ℕ} {r : Receiver ε} {version : UInt8}

/-- What is left to read: the bytes read ahead come first. -/
def ahead (r : Receiver ε) : List (Item UInt8 ε) := elems r.reader.left ++ stream r.conn

structure Ok (size : ℕ) (r : Receiver ε) : Prop where
  reader : r.reader.Ok size
  hdr : r.hdr.length = HEADER_SIZE
  upd : r.upd.length = SZ_CMD_UPD

theorem ok_new (conn : List (Arrival UInt8 ε)) : (new size conn).Ok size :=
  ⟨BufConnReader.ok_new size, List.length_replicate, List.length_replicate⟩

theorem ahead_new (conn : List (Arrival UInt8 ε)) : (new size conn).ahead = stream conn := by
  unfold ahead new
  rw [BufConnReader.left_nil rfl]
  rfl

private theorem Ok.readFull (hok : r.Ok size) (hsize : size ≠ 0) (out : Bytes) :
    ∃ r', r.readFull out = some ((take r.ahead out.length).1, r') ∧ r'.Ok size ∧
      r'.ahead = (take r.ahead out.length).2 ∧ r'.hdr = r.hdr ∧ r'.upd = r.upd := by
  obtain ⟨got, stopped, s, hloop, hreader, hfull, hresult, hout⟩ :=
    @Call.loop_spec _ size ⟨r.reader, r.conn, out, 0⟩ out.length hok.reader hsize (Nat.sub_le _ _)
  have hfull : full r.ahead out.length = (got, stopped, s.2.ahead) := hfull
  have hlen := full_complete r.ahead out.length
  rw [hfull] at hlen
  rw [List.take_zero, List.nil_append, Nat.zero_add] at hout
  rw [Nat.zero_add] at hresult
  refine ⟨{ r with reader := s.2.reader, conn := s.2.conn }, ?_, ⟨hreader, hok.hdr, hok.upd⟩, ?_,
    rfl, rfl⟩
  · unfold Receiver.readFull BufConnReader.readFull take
    rw [hloop, hfull, Option.map_some, hresult]
    cases stopped with
    | none =>
      have hgot : got ++ out.drop got.length = got := by
        rw [hlen.mp rfl, List.drop_length, List.append_nil]
      rw [hout, hgot]
    | some why =>
      obtain ⟨e, he⟩ := resultOf_some got.length why
      rw [he]
  · unfold take
    rw [hfull]
    rfl

private theorem Ok.payload (hok : r.Ok size) (hsize : size ≠ 0) {h : RawHeader}
    (hcheck : h.checkProtocol version = .ok ()) :
    ∃ r', r.payload h = some ((take r.ahead h.length.toNat).1, r') ∧ r'.Ok size ∧
      r'.ahead = (take r.ahead h.length.toNat).2 := by
  have hnone : take r.ahead (0 : UInt16).toNat = (.ok [], r.ahead) := @take_elems ε r.ahead 0 [] rfl
  unfold Receiver.payload
  obtain ⟨-, ⟨hplain, hlen⟩ | hpsh | ⟨hupd, -, hlen⟩⟩ := RawHeader.checkProtocol_ok.mp hcheck
  · rw [if_pos hplain, hlen, hnone]
    exact ⟨r, rfl, hok, rfl⟩
  · have hother : ¬(h.cmd = CMD_NOP ∨ h.cmd = CMD_SYN ∨ h.cmd = CMD_FIN) := by
      rw [hpsh]
      decide
    rw [if_neg hother, if_pos hpsh]
    split_ifs with hzero
    · rw [hzero, hnone]
      exact ⟨r, rfl, hok, rfl⟩
    · obtain ⟨r', hread, hok', hahead, -⟩ := hok.readFull hsize (List.replicate h.length.toNat 0)
      rw [List.length_replicate] at hread hahead
      exact ⟨r', hread, hok', hahead⟩
  · have hother : ¬(h.cmd = CMD_NOP ∨ h.cmd = CMD_SYN ∨ h.cmd = CMD_FIN) := by
      rw [hupd]
      decide
    have hpsh : h.cmd ≠ CMD_PSH := by
      rw [hupd]
      decide
    rw [if_neg hother, if_neg hpsh, if_pos hupd]
    obtain ⟨r', hread, hok', hahead, -, hupd'⟩ := hok.readFull hsize r.upd
    rw [hok.upd, ← hlen] at hread hahead
    rw [hread, Option.map_some]
    have htaken := taken r.ahead h.length.toNat
    generalize take r.ahead h.length.toNat = t at htaken hahead
    cases htaken with
    | got hgot hitems => exact ⟨_, rfl, ⟨hok'.reader, hok'.hdr, hgot.trans hlen⟩, hahead⟩
    | stopped hfull he => exact ⟨_, rfl, hok', hahead⟩

theorem Ok.turn (hok : r.Ok size) (hsize : size ≠ 0) (version : UInt8) :
    ∃ r', r.turn version = some ((decode version r.ahead).1, r') ∧ r'.Ok size ∧
      r'.ahead = (decode version r.ahead).2 := by
  obtain ⟨r', hread, hok', hahead, hhdr, hupd⟩ := hok.readFull hsize r.hdr
  rw [hok.hdr] at hread hahead
  unfold Receiver.turn
  rw [hread, Option.bind_some]
  have htaken := taken r.ahead HEADER_SIZE
  generalize htake : take r.ahead HEADER_SIZE = t at htaken hahead
  cases htaken with
  | stopped hfull he =>
    refine ⟨r', ?_, hok', ?_⟩
    · unfold decode
      rw [htake]
    · unfold decode
      rw [htake]
      exact hahead
  | got hlen hitems =>
    rename_i hdr rest
    obtain ⟨h, rfl⟩ : ∃ h : RawHeader, h.bytes = hdr := ⟨⟨hdr, hlen⟩, rfl⟩
    have hkept : ({ r' with hdr := h.bytes } : Receiver ε).Ok size := ⟨hok'.reader, hlen, hok'.upd⟩
    dsimp only
    rw [fromBytes_self, Option.bind_some, hitems]
    by_cases hcheck : h.checkProtocol version = .ok ()
    · obtain ⟨last, hpayload, hlast, hahead'⟩ := hkept.payload hsize hcheck
      have hrest : ({ r' with hdr := h.bytes } : Receiver ε).ahead = rest := hahead
      rw [hrest] at hpayload hahead'
      rw [hcheck, decode_header hcheck]
      dsimp only
      rw [hpayload]
      exact ⟨last, rfl, hlast, hahead'⟩
    · have hbad := RawHeader.checkProtocol_error hcheck
      rw [hbad, decode_rejected hbad]
      exact ⟨_, rfl, hkept, hahead⟩

private theorem Ok.loop (hok : r.Ok size) (hsize : size ≠ 0) {fuel : ℕ}
    (hfuel : elemCount r.ahead < fuel) :
    ∃ fs e rest, r.loop version fuel = some (fs, e) ∧ (∀ f ∈ fs, f.Valid version) ∧
      r.ahead = elems (fs.flatMap Frame.encode) ++ rest ∧ Stops version e rest := by
  induction fuel generalizing r with
  | zero => exact absurd hfuel (Nat.not_lt_zero _)
  | succ fuel ih =>
    obtain ⟨r', hturn, hok', hahead⟩ := hok.turn hsize version
    rw [Receiver.loop, hturn, Option.bind_some]
    have hdecoded := decoded version r.ahead
    generalize decode version r.ahead = d at hdecoded hahead
    cases hdecoded with
    | stops h rest => exact ⟨[], _, r.ahead, rfl, fun f hf => (List.not_mem_nil hf).elim, rfl, h⟩
    | frame hvalid hitems =>
      rename_i f rest
      have hcount : elemCount r'.ahead < fuel := by
        rw [hitems, elemCount_append, elemCount_elems, Frame.length_encode, Frame.encodedLen] at hfuel
        rw [hahead]
        have hheader : 0 < HEADER_SIZE := by decide
        dsimp only
        omega
      obtain ⟨fs, e, last, hloop, hfs, hsplit, hstops⟩ := ih hok' hcount
      refine ⟨f :: fs, e, last, ?_, List.forall_mem_cons.mpr ⟨hvalid, hfs⟩, ?_, hstops⟩
      · dsimp only
        rw [hloop]
        rfl
      · rw [hitems, List.flatMap_cons, elems_append, List.append_assoc, ← hsplit, hahead]

end Receiver

section Streams

variable {version : UInt8} {fs gs : List Frame} {items rest more : List (Item UInt8 ε)} {e : Ended ε}

private theorem Stops.not_frame (h : Stops version e items) {f : Frame} (hvalid : f.Valid version) :
    items ≠ elems f.encode ++ rest := by
  intro hitems
  have hframe := decode_encode hvalid rest
  rw [← hitems] at hframe
  cases h with
  | header hfull he =>
    unfold decode take at hframe
    rw [hfull] at hframe
    dsimp only at hframe
    rw [he] at hframe
    cases hframe
  | rejected hbad rest =>
    rw [decode_rejected hbad] at hframe
    cases hframe
  | payload hok hfull he =>
    rw [decode_header hok] at hframe
    unfold take at hframe
    rw [hfull] at hframe
    dsimp only at hframe
    rw [he] at hframe
    cases hframe

private theorem Stops.prefix (h : Stops version e rest) (hfs : ∀ f ∈ fs, f.Valid version)
    (hgs : ∀ g ∈ gs, g.Valid version)
    (hsame : elems (fs.flatMap Frame.encode) ++ rest = elems (gs.flatMap Frame.encode) ++ more) :
    gs <+: fs := by
  induction gs generalizing fs with
  | nil => exact List.nil_prefix
  | cons g gs ih =>
    rw [List.forall_mem_cons] at hgs
    rw [List.flatMap_cons, elems_append, List.append_assoc] at hsame
    have hread := decode_encode hgs.1 (elems (gs.flatMap Frame.encode) ++ more)
    rw [← hsame] at hread
    cases fs with
    | nil => exact absurd hsame (h.not_frame hgs.1)
    | cons f fs =>
      rw [List.forall_mem_cons] at hfs
      rw [List.flatMap_cons, elems_append, List.append_assoc, decode_encode hfs.1] at hread
      obtain ⟨hframe, hrest⟩ := Prod.mk.inj hread
      cases hframe
      exact (List.prefix_cons_inj g).mpr (ih hfs.2 hgs.2 hrest)

end Streams

/-- The frames the loop acts on, and why it ends, are those of the stream, however it arrives and
whatever the reader's buffer: every frame is one that the session accepts, they are what the stream
begins with, and no further one can be read; frames that a peer wrote at the front of the stream are
the first of them. -/
theorem recv_loop_exact {size : ℕ} (hsize : 1 ≤ size) (version : UInt8)
    (conn : List (Arrival UInt8 ε)) :
    ∃ fs e rest, recvLoop version size conn = some (fs, e) ∧ (∀ f ∈ fs, f.Valid version) ∧
      stream conn = elems (fs.flatMap Frame.encode) ++ rest ∧ Stops version e rest ∧
      ∀ (sent : List Frame) (more : List (Item UInt8 ε)), (∀ f ∈ sent, f.Valid version) →
        stream conn = elems (sent.flatMap Frame.encode) ++ more → sent <+: fs := by
  have hok := @Receiver.ok_new ε size conn
  have hcount : elemCount (Receiver.new size conn).ahead < elemCount (stream conn) + 1 := by
    rw [Receiver.ahead_new]
    exact Nat.lt_succ_self _
  obtain ⟨fs, e, rest, hloop, hfs, hsplit, hstops⟩ :=
    hok.loop (Nat.ne_of_gt hsize) hcount
  rw [Receiver.ahead_new] at hsplit
  refine ⟨fs, e, rest, hloop, hfs, hsplit, hstops, ?_⟩
  intro sent more hsent hsame
  exact hstops.prefix hfs hsent (hsplit.symm.trans hsame)

/-- Stream 3 is opened and sent two bytes, in pieces that are no frames, and then an unknown command
follows. -/
def unknownCommand : List (Arrival UInt8 Unit) :=
  [.data [1, 0, 0, 0, 3, 0], .data [0, 0, 1, 2, 2], .data [0, 3, 0, 0, 0, 104],
    .data [105, 1, 9, 0, 0, 0], .data [0, 0, 0]]

theorem recv_loop_exact_unknown : ∃ rest : List (Item UInt8 Unit),
    recvLoop 1 4 unknownCommand = some ([.new 1 CMD_SYN 3, .withData 1 CMD_PSH 3 [104, 105]],
        .protoError .invalidProtocol) ∧
      stream unknownCommand = elems ([Frame.new 1 CMD_SYN 3,
        .withData 1 CMD_PSH 3 [104, 105]].flatMap Frame.encode) ++ rest ∧
      Stops 1 (.protoError .invalidProtocol) rest := by
  have hrun : recvLoop 1 4 unknownCommand = some ([.new 1 CMD_SYN 3,
      .withData 1 CMD_PSH 3 [104, 105]], .protoError .invalidProtocol) := by
    decide +kernel
  obtain ⟨fs, e, rest, hloop, -, hsplit, hstops, -⟩ :=
    recv_loop_exact (show 1 ≤ 4 by decide) 1 unknownCommand
  rw [hrun] at hloop
  cases hloop
  exact ⟨rest, hrun, hsplit, hstops⟩

end Kcptun.Smux.RecvLoop
