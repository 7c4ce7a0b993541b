/- Kcptun/Session/SizeBound
   source: crates/kcp/src/session.rs (KcpOutput::output, set_kcp_mtu), crates/kcp/src/tx.rs (process,
     seal), crates/kcp/src/fec.rs (encode)
   digest: Every packet of a session leaves room for the headers and the tag in front of and behind
     it, so nothing between the connection and the socket refuses one for its size. -/

import Kcptun.Arq.PacketSize
import Kcptun.Fec.Alignment
import Kcptun.Session.Endpoint

set_option autoImplicit false
set_option relaxedAutoImplicit false

namespace Kcptun.Session

open Kcptun.Arq Kcptun.Lib Kcptun.Lib.LittleEndian
open Kcptun.Fec (MTU_LIMIT FecEncoder longest longest_le_iff length_le_longest)

variable {O C : Type} [Output O] [Clock C]

def roomFor (headerSize : ℕ) (crypt : Option PacketCrypt) : ℕ :=
  MTU_LIMIT - headerSize - cryptOverhead crypt

private theorem cryptOverhead_le : ∀ crypt, cryptOverhead crypt ≤ 16
  | none => Nat.zero_le 16
  | some (.aead _) => le_refl 16
  | some (.block _) => Nat.zero_le 16

theorem cryptHeaderSize_le : ∀ crypt, cryptHeaderSize crypt ≤ 20
  | none => Nat.zero_le 20
  | some (.aead _) => show 12 ≤ 20 by decide
  | some (.block _) => le_refl 20

omit [Output O] [Clock C] in
/-- An mtu that survives the arithmetic is within what the headers leave; one that wraps around asks
for a flush buffer that cannot be had. -/
theorem setKcpMtu_spec {k k' : Kcp O C} {mtu : Int64} {headerSize : ℕ} {crypt : Option PacketCrypt}
    {took : Bool} (hsize : headerSize ≤ 28)
    (h : setKcpMtu k mtu headerSize crypt = some (k', took)) :
    ∃ m : Int, m ≤ roomFor headerSize crypt ∧ k' = (k.setMtu m).1 ∧
      (took = true → (k.setMtu m).2 = 0) := by
  have hover := cryptOverhead_le crypt
  have hlow := mtu.le_toInt
  have hhigh := mtu.toInt_lt
  unfold setKcpMtu at h
  dsimp only at h
  generalize hm : isize (isize (min mtu.toInt MTU_LIMIT - headerSize) - cryptOverhead crypt) = m at h
  split_ifs at h with habort
  cases h
  refine ⟨m, ?_, rfl, fun htook => of_decide_eq_true htook⟩
  unfold roomFor MTU_LIMIT
  unfold ISIZE_MAX IKCP_OVERHEAD at habort
  unfold isize MTU_LIMIT at hm
  rw [Int.bmod_def, Int.bmod_def] at hm
  omega

omit [Output O] [Clock C] in
private theorem sized_writeSlice {limit : ℕ} (fuel : ℕ) {k : Kcp O C} (h : k.Sized limit)
    (b : Bytes) : (Endpoint.writeSlice fuel k b).Sized limit := by
  induction fuel generalizing k b with
  | zero => exact h
  | succ fuel ih =>
    rw [Endpoint.writeSlice]
    split_ifs
    · exact h.send b
    · exact ih (h.send _) _

omit [Output O] [Clock C] in
private theorem sized_foldl_writeSlice {limit : ℕ} (v : List Bytes) {k : Kcp O C}
    (h : k.Sized limit) :
    (v.foldl (fun k b => Endpoint.writeSlice (b.length + 1) k b) k).Sized limit := by
  induction v generalizing k with
  | nil => exact h
  | cons b v ih => exact ih (sized_writeSlice _ h b)

omit [Output O] [Clock C] in
private theorem sized_recv {limit : ℕ} {k : Kcp O C} (h : k.Sized limit) (buflen : ℕ) :
    (k.recv buflen).1.Sized limit := by
  obtain ⟨_, _, _, _, heq⟩ := k.recv_frame buflen
  rw [heq]
  exact h.releases (.of_eq rfl rfl rfl)

omit [Output O] [Clock C] in
private theorem sized_tryRead {limit : ℕ} {r : Reader O C} (h : r.kcp.Sized limit) (size : ℕ) :
    (r.tryRead size).1.kcp.Sized limit := by
  simp only [Reader.tryRead]
  split_ifs
  · exact h
  · exact sized_recv h size
  · exact sized_recv h _
  · exact h

omit [Output O] [Clock C] in
private theorem sized_shrinkIdleBuffers {limit : ℕ} {k : Kcp O C} (h : k.Sized limit) (a b : Bool) :
    (k.shrinkIdleBuffers a b).1.Sized limit := by
  refine h.releases (.of_eq rfl ?_ ?_)
  · simp only [Kcp.outView, Kcp.shrinkIdleBuffers]
    split_ifs <;> simp
  · simp only [Kcp.shrinkIdleBuffers]
    split_ifs <;> simp

omit [Output O] [Clock C] in
private theorem sized_withClock {limit : ℕ} (conv : UInt32) (channel : O) (clock : C)
    (hlimit : 1400 ≤ limit) : (Kcp.withClock conv channel clock).Sized limit :=
  ⟨show 50 ≤ 1400 by decide, hlimit, rfl, by simp [Kcp.withClock], by simp [Kcp.withClock],
    by simp [Kcp.withClock]⟩

namespace Endpoint

/-- The connection of a session stays within what the headers leave of a datagram. -/
structure Bounded (headerSize : ℕ) (crypt : Option PacketCrypt) (s : Endpoint O C) : Prop where
  header : s.headerSize = headerSize
  crypt_eq : s.crypt = crypt
  sized : s.kcp.Sized (roomFor headerSize crypt)

variable {headerSize : ℕ} {crypt : Option PacketCrypt} {s s' : Endpoint O C}

omit [Output O] [Clock C] in
private theorem Bounded.setKcp (h : s.Bounded headerSize crypt) {k : Kcp O C}
    (hk : k.Sized (roomFor headerSize crypt)) : (s.setKcp k).Bounded headerSize crypt :=
  ⟨h.header, h.crypt_eq, hk⟩

private theorem Bounded.feed (h : s.Bounded headerSize crypt) (effects : List Effect) :
    (s.feed effects).Bounded headerSize crypt := by
  induction effects generalizing s with
  | nil => exact h
  | cons effect effects ih =>
    apply ih
    cases effect with
    | input data pktType => exact h.setKcp (h.sized.input data pktType _)
    | oob payload => exact h

private theorem Bounded.packetInput (h : s.Bounded headerSize crypt) (data : Bytes) :
    (s.packetInput data).1.Bounded headerSize crypt := by
  obtain ⟨d, effects, heq⟩ := s.packetInput_eq_feed data
  have hdecoder : ({ s with fecDecoder := d } : Endpoint O C).Bounded headerSize crypt :=
    ⟨h.header, h.crypt_eq, h.sized⟩
  rw [heq]
  exact hdecoder.feed effects

private theorem Bounded.tryWrite (h : s.Bounded headerSize crypt) (v : List Bytes) :
    (s.tryWrite v).1.Bounded headerSize crypt := by
  have hqueued := sized_foldl_writeSlice v h.sized
  simp only [Endpoint.tryWrite]
  split_ifs
  · exact h
  · exact h.setKcp (hqueued.flush .full)
  · exact h.setKcp hqueued

theorem Bounded.step (h : s.Bounded headerSize crypt) (hsize : headerSize ≤ 28) {op : Op}
    (hstep : s.step op = some s') : s'.Bounded headerSize crypt := by
  cases op with
  | write v =>
    cases hstep
    exact h.tryWrite v
  | read size =>
    cases hstep
    exact ⟨h.header, h.crypt_eq, sized_tryRead h.sized size⟩
  | packetInput data =>
    cases hstep
    exact h.packetInput data
  | update =>
    cases hstep
    exact h.setKcp (h.sized.flush .full)
  | close =>
    cases hstep
    exact h.setKcp (h.sized.flush .full)
  | setMtu mtu =>
    obtain ⟨⟨k, took⟩, hmtu, rfl⟩ := Option.map_eq_some_iff.mp hstep
    rw [h.header, h.crypt_eq] at hmtu
    obtain ⟨m, hm, rfl, -⟩ := setKcpMtu_spec hsize hmtu
    refine h.setKcp (h.sized.setMtu hm ?_)
    unfold roomFor MTU_LIMIT
    omega
  | setStreamMode enable =>
    cases hstep
    exact h.setKcp ⟨h.sized.low, h.sized.mtu, h.sized.mss, h.sized.queue, h.sized.buf, h.sized.sent⟩
  | setAckNoDelay nodelay =>
    cases hstep
    exact ⟨h.header, h.crypt_eq, h.sized⟩
  | setWriteDelay delay =>
    cases hstep
    exact ⟨h.header, h.crypt_eq, h.sized⟩
  | setWindowSize sndwnd rcvwnd =>
    cases hstep
    obtain ⟨_, _, heq⟩ := s.kcp.wndSize_frame sndwnd rcvwnd
    rw [heq]
    exact h.setKcp (h.sized.releases (.of_eq rfl rfl rfl))
  | setNoDelay nodelay interval resend nc =>
    cases hstep
    obtain ⟨_, _, _, _, _, heq⟩ := s.kcp.setNodelay_frame nodelay interval resend nc
    rw [heq]
    exact h.setKcp (h.sized.releases (.of_eq rfl rfl rfl))
  | shrinkIdle heapReleased ackReleased recvbufGrown =>
    cases hstep
    have hshrunk := h.setKcp (sized_shrinkIdleBuffers h.sized heapReleased ackReleased)
    split_ifs
    · exact ⟨hshrunk.header, hshrunk.crypt_eq, hshrunk.sized⟩
    · exact hshrunk

omit [Output O] [Clock C] in
theorem new_spec {config : SessionConfig} {channel : O} {clock : C} {p : TxPipeline}
    (h : Endpoint.new config channel clock = .ok (s, p)) :
    s.Bounded s.headerSize config.crypt ∧ p.crypt = config.crypt ∧
      s.headerSize = cryptHeaderSize config.crypt +
        (if p.fecEncoder.isSome then FEC_HEADER_SIZE_PLUS2 else 0) ∧
      s.fecEnabled = p.fecEncoder.isSome ∧
      FecEncoder.new config.dataShards config.parityShards (cryptHeaderSize config.crypt) =
        .ok p.fecEncoder := by
  have hheader := cryptHeaderSize_le config.crypt
  unfold Endpoint.new at h
  dsimp only at h
  split at h
  next => cases h
  next encoder hencoder =>
    have hsize : cryptHeaderSize config.crypt +
        (if encoder.isSome then FEC_HEADER_SIZE_PLUS2 else 0) ≤ 28 := by
      unfold FEC_HEADER_SIZE_PLUS2
      split_ifs <;> omega
    split at h
    next k hmtu =>
      cases h
      obtain ⟨m, hm, rfl, htook⟩ := setKcpMtu_spec hsize hmtu
      have hover := cryptOverhead_le config.crypt
      have hroom : 1400 ≤ roomFor (cryptHeaderSize config.crypt +
          (if encoder.isSome then FEC_HEADER_SIZE_PLUS2 else 0)) config.crypt := by
        unfold roomFor MTU_LIMIT
        omega
      have hlimit : roomFor (cryptHeaderSize config.crypt +
          (if encoder.isSome then FEC_HEADER_SIZE_PLUS2 else 0)) config.crypt ≤ 1500 := by
        unfold roomFor MTU_LIMIT
        omega
      exact ⟨⟨rfl, rfl, (sized_withClock _ _ _ hroom).setMtu hm hlimit⟩, rfl, rfl, rfl, hencoder⟩
    next => cases h

omit [Output O] [Clock C] in
theorem headerSize_of_new {config : SessionConfig} {channel : O} {clock : C} {p : TxPipeline}
    (hnew : Endpoint.new config channel clock = .ok (s, p)) : s.headerSize ≤ 28 := by
  obtain ⟨-, -, hheader, -⟩ := new_spec hnew
  have hle := cryptHeaderSize_le config.crypt
  rw [hheader]
  unfold FEC_HEADER_SIZE_PLUS2
  split_ifs <;> omega

theorem bounded_run {config : SessionConfig} {channel : O} {clock : C} {p : TxPipeline}
    (hnew : Endpoint.new config channel clock = .ok (s, p)) {ops : List Op}
    (hrun : exec Endpoint.step s ops = some s') : s'.Bounded s.headerSize config.crypt := by
  have hsize := headerSize_of_new hnew
  exact exec_invariant_all (Endpoint.Bounded s.headerSize config.crypt)
    (fun s op s' h hstep => h.step hsize hstep) (new_spec hnew).1 hrun

def Fits (crypt : Option PacketCrypt) (fec : Bool) (request : SendRequest) : Prop :=
  cryptHeaderSize crypt + (if fec then FEC_HEADER_SIZE_PLUS2 else 0) ≤ request.buffer.length ∧
    request.buffer.length + cryptOverhead crypt ≤ MTU_LIMIT

/-- A request that a session hands to its tx task: a packet of its connection, or an out-of-band
one. -/
def Requests (s : Endpoint O C) (request : SendRequest) : Prop :=
  (∃ b ∈ s.kcp.output.sent, ∃ stale, output s.headerSize stale b = some request) ∨
    ∃ stale payload, s.sendOob stale payload = some request

omit [Output O] [Clock C] in
private theorem Bounded.request (h : s.Bounded headerSize crypt) {request : SendRequest}
    (hrequest : s.Requests request) :
    headerSize + CONV_SIZE ≤ request.buffer.length ∧
      request.buffer.length + cryptOverhead crypt ≤ MTU_LIMIT := by
  have hlow := h.sized.low
  have hmtu := h.sized.mtu
  have hover := cryptOverhead_le crypt
  unfold roomFor at hmtu
  rcases hrequest with ⟨b, hb, stale, hout⟩ | ⟨stale, payload, hoob⟩
  · have hlen := (h.sized.sent b hb).1
    unfold output at hout
    split_ifs at hout with hshort
    cases hout
    unfold roomFor at hlen
    unfold IKCP_OVERHEAD at hshort
    unfold CONV_SIZE
    rw [h.header]
    simp only [List.length_append, List.length_map, List.length_range]
    omega
  · unfold sendOob at hoob
    split_ifs at hoob
    cases hoob
    rw [h.header]
    simp only [List.length_append, List.length_map, List.length_range, length_le32, CONV_SIZE] at *
    omega

theorem request_fits {config : SessionConfig} {channel : O} {clock : C} {p : TxPipeline}
    (hnew : Endpoint.new config channel clock = .ok (s, p)) {ops : List Op}
    (hrun : exec Endpoint.step s ops = some s') {request : SendRequest}
    (hrequest : s'.Requests request) : Fits config.crypt p.fecEncoder.isSome request := by
  obtain ⟨-, -, hheader, -⟩ := new_spec hnew
  obtain ⟨hshort, hlong⟩ := (bounded_run hnew hrun).request hrequest
  rw [hheader] at hshort
  exact ⟨le_trans (Nat.le_add_right ..) hshort, hlong⟩

end Endpoint

namespace TxPipeline

/-- What the tx task holds between two requests: an encoder whose waiting packets leave room for a
tag. -/
structure Ok (crypt : Option PacketCrypt) (fec : Bool) (p : TxPipeline) : Prop where
  crypt_eq : p.crypt = crypt
  enabled : p.fecEncoder.isSome = fec
  encoder : ∀ e ∈ p.fecEncoder, ∃ ds ps m n group,
    e.Ok ds ps (cryptHeaderSize crypt) m n group ∧
      ∀ b ∈ group, b.length + cryptOverhead crypt ≤ MTU_LIMIT

/-- What goes through the cipher for one request, the crypto headers cut off: the payload as it is
without FEC; an out-of-band packet; or a data packet and parity packets. -/
def Framing (crypt : Option PacketCrypt) (fec : Bool) (request : SendRequest) (packets : List Bytes) :
    Prop :=
  let cut := List.drop (cryptHeaderSize crypt)
  if fec = false then packets.map cut = [cut request.buffer]
  else if request.oob then packets.length = 1
  else ∃ seqid size parity,
    packets.map cut = (Fec.fecHeader seqid Fec.TYPE_DATA ++ le16 size ++
      request.buffer.drop (cryptHeaderSize crypt + FEC_HEADER_SIZE_PLUS2)) :: parity ∧
    ∀ q ∈ parity, ∃ seqid rest, q = Fec.fecHeader seqid Fec.TYPE_PARITY ++ rest

private theorem sealAll_spec {crypt : Option PacketCrypt} (entropy : ℕ → ℕ → UInt8) (i : ℕ)
    {packets : List Bytes} (hshort : ∀ b ∈ packets, cryptHeaderSize crypt ≤ b.length)
    (hlong : ∀ b ∈ packets, b.length + cryptOverhead crypt ≤ MTU_LIMIT) :
    ∃ datagrams, sealAll crypt entropy i packets = some datagrams ∧
      List.Forall₂ (fun b d => ∃ nonce, sealPacket crypt nonce b = some d) packets datagrams := by
  induction packets generalizing i with
  | nil => exact ⟨[], rfl, .nil⟩
  | cons b rest ih =>
    rw [List.forall_mem_cons] at hshort hlong
    obtain ⟨d, hd⟩ := sealPacket_isSome (entropy i) hshort.1 hlong.1
    obtain ⟨ds, hds, hall⟩ := ih (i + 1) hshort.2 hlong.2
    refine ⟨d :: ds, ?_, .cons ⟨entropy i, hd⟩ hall⟩
    rw [sealAll, hd, hds]
    rfl

variable {crypt : Option PacketCrypt} {fec : Bool} {p : TxPipeline} {request : SendRequest}

private theorem encodeOob_spec {e : FecEncoder} {ds ps ho n : ℕ} {m : Rs.Matrix}
    {group : List Bytes} {b : Bytes} (h : e.Ok ds ps ho m n group) (hb : FecEncoder.Admits ho b) :
    ∃ b', e.encodeOob b = .ok b' ∧ b'.length = b.length := by
  have hpo := h.payload_eq hb
  have hlow := hb.1
  unfold FecEncoder.encodeOob
  rw [if_neg (by rw [hpo]; unfold Fec.saturatingAdd; omega)]
  refine ⟨_, rfl, ?_⟩
  have hfirst : (Fec.overwrite b e.headerOffset (Fec.fecHeader Fec.OOB_SEQID Fec.TYPE_OOB)).length =
      b.length := by
    apply Fec.length_overwrite
    rw [h.header]
    simp only [Fec.fecHeader, List.length_append, length_le32, length_le16]
    omega
  rw [Fec.length_overwrite _, hfirst]
  rw [hfirst, hpo, length_le16]
  omega

/-- A request of the right size goes through: the datagrams are the sealed packet, its copies and the
sealed parity packets. -/
theorem Ok.process (h : p.Ok crypt fec) (hfits : Endpoint.Fits crypt fec request) (now : Int)
    (dup : ℕ) (entropy : ℕ → ℕ → UInt8) :
    ∃ p' packets datagrams,
      p.process request now dup entropy = (p', .ok (queueAll dup datagrams)) ∧ p'.Ok crypt fec ∧
      Framing crypt fec request packets ∧
      List.Forall₂ (fun b d => ∃ nonce, sealPacket crypt nonce b = some d) packets datagrams := by
  obtain ⟨hshort, hlong⟩ := hfits
  have hcrypt := h.crypt_eq
  have hfec := h.enabled
  have hover := cryptOverhead_le crypt
  unfold TxPipeline.process
  dsimp only
  cases hencoder : p.fecEncoder with
  | none =>
    rw [hencoder] at hfec
    cases hfec
    have hshort : cryptHeaderSize crypt ≤ request.buffer.length := by simpa using hshort
    obtain ⟨datagrams, hseal, hall⟩ := sealAll_spec entropy 0
      (List.forall_mem_singleton.mpr hshort) (List.forall_mem_singleton.mpr hlong)
    rw [hcrypt, hseal]
    exact ⟨p, _, datagrams, rfl, h, by simp [Framing], hall⟩
  | some e =>
    rw [hencoder] at hfec
    cases hfec
    obtain ⟨ds, ps, m, n, group, hok, hgroup⟩ := h.encoder e hencoder
    have hadmits : FecEncoder.Admits (cryptHeaderSize crypt) request.buffer := by
      refine ⟨?_, by omega⟩
      simpa [FEC_HEADER_SIZE_PLUS2] using hshort
    dsimp only
    split_ifs with hoob
    · obtain ⟨b', hencode, hlen⟩ := encodeOob_spec hok hadmits
      have hlow := hadmits.1
      obtain ⟨datagrams, hseal, hall⟩ := sealAll_spec entropy 0
        (List.forall_mem_singleton.mpr (show cryptHeaderSize crypt ≤ b'.length by omega))
        (List.forall_mem_singleton.mpr (show b'.length + cryptOverhead crypt ≤ MTU_LIMIT by omega))
      rw [hencode]
      dsimp only
      rw [hcrypt, hseal]
      exact ⟨p, _, datagrams, rfl, h, by simp [Framing, hoob], hall⟩
    · obtain ⟨e', parity, hencode, -, hok', hparity, hlens⟩ :=
        hok.encode hadmits MAX_FEC_ENCODE_LATENCY now
      have hmax : longest (group ++ [request.buffer]) ≤ MTU_LIMIT - cryptOverhead crypt := by
        apply longest_le_iff.mpr
        intro b hb
        rcases List.mem_append.mp hb with hb | hb
        · have := hgroup b hb
          omega
        · rw [List.mem_singleton.mp hb]
          omega
      have hmin : request.buffer.length ≤ longest (group ++ [request.buffer]) :=
        length_le_longest (by simp)
      have hlow := hadmits.1
      have hself := FecEncoder.length_sealData hok.toHolds hadmits
      obtain ⟨datagrams, hseal, hall⟩ := @sealAll_spec crypt entropy 0
        (e.sealData request.buffer :: parity)
        (List.forall_mem_cons.mpr ⟨by omega, fun b hb => by rw [hlens b hb]; omega⟩)
        (List.forall_mem_cons.mpr ⟨by omega,
          fun b hb => by rw [hlens b hb]; unfold MTU_LIMIT at *; omega⟩)
      rw [hencode]
      dsimp only
      rw [hcrypt, hseal]
      refine ⟨_, _, datagrams, rfl, ⟨rfl, rfl, ?_⟩, ?_, hall⟩
      · rintro _ ⟨⟩
        refine ⟨ds, ps, m, n + 1, _, hok', ?_⟩
        intro b hb
        split_ifs at hb
        · cases hb
        · rcases List.mem_append.mp hb with hb | hb
          · exact hgroup b hb
          · rw [List.mem_singleton.mp hb]
            exact hlong
      · simp only [Framing, Option.isSome_some, Bool.true_eq_false, if_false, hoob]
        refine ⟨e.next, UInt16.ofNat (request.buffer.length - (cryptHeaderSize crypt + 6)),
          parity.map (List.drop (cryptHeaderSize crypt)), ?_, ?_⟩
        · rw [List.map_cons, FecEncoder.drop_sealData hok.toHolds hadmits, Fec.dataShard,
            List.append_assoc]
          rfl
        · rw [hparity]
          split_ifs
          · intro q hq
            obtain ⟨i, -, rfl⟩ := List.mem_map.mp hq
            exact ⟨_, _, rfl⟩
          · intro q hq
            cases hq

end TxPipeline

/-- A request together with what the tx task reads while it works on it: the clock, the number of
copies, and random bytes. -/
structure Job where
  request : SendRequest
  now : Int
  dup : ℕ
  entropy : ℕ → ℕ → UInt8

def TxPipeline.step (p : TxPipeline) (job : Job) : TxPipeline × Except TxPipeline.Drop (List Bytes) :=
  p.process job.request job.now job.dup job.entropy

theorem TxPipeline.ok_new {config : SessionConfig} {p : TxPipeline} (hcrypt : p.crypt = config.crypt)
    (hencoder : FecEncoder.new config.dataShards config.parityShards (cryptHeaderSize config.crypt) =
      .ok p.fecEncoder) : p.Ok config.crypt p.fecEncoder.isSome := by
  refine ⟨hcrypt, rfl, ?_⟩
  intro e he
  have hsome : p.fecEncoder = some e := he
  rw [hsome] at hencoder
  obtain ⟨ds, ps, hds, hps, hds1, hps1, hsum⟩ := FecEncoder.new_bounds hencoder
  obtain ⟨e', m, hnew, hok, -⟩ := FecEncoder.new_ok hds1 hps1 hsum (cryptHeaderSize config.crypt)
  rw [hds, hps, hnew] at hencoder
  cases hencoder
  exact ⟨ds, ps, m, 0, [], hok, fun b hb => by cases hb⟩

theorem TxPipeline.Ok.run {crypt : Option PacketCrypt} {fec : Bool} {p : TxPipeline}
    (h : p.Ok crypt fec) {jobs : List Job}
    (hfits : ∀ job ∈ jobs, Endpoint.Fits crypt fec job.request) :
    (run TxPipeline.step p jobs).1.Ok crypt fec ∧
      ∀ out ∈ (run TxPipeline.step p jobs).2, ∃ datagrams, out = .ok datagrams := by
  induction jobs generalizing p with
  | nil => exact ⟨h, by simp⟩
  | cons job jobs ih =>
    rw [List.forall_mem_cons] at hfits
    obtain ⟨p', packets, datagrams, heq, hok, -⟩ := h.process hfits.1 job.now job.dup job.entropy
    have hstep : p.step job = (p', .ok (queueAll job.dup datagrams)) := heq
    obtain ⟨hrest, hall⟩ := ih hok hfits.2
    rw [run_cons, hstep]
    exact ⟨hrest, List.forall_mem_cons.mpr ⟨⟨_, rfl⟩, hall⟩⟩

/-- In every run of a session, every packet its connection hands over leaves room for the headers
and the tag, so the output callback takes it; and whatever the session queues, packets and
out-of-band ones, the encoder and the cipher take every request and every parity packet. -/
theorem datagrams_fit {config : SessionConfig} {channel : O} {clock : C} {s s' : Endpoint O C}
    {p : TxPipeline} (hnew : Endpoint.new config channel clock = .ok (s, p))
    {ops : List Endpoint.Op} (hrun : exec Endpoint.step s ops = some s') :
    (∀ b ∈ s'.kcp.output.sent,
      s.headerSize + b.length + cryptOverhead config.crypt ≤ MTU_LIMIT ∧
      (IKCP_OVERHEAD ≤ b.length → ∀ stale, ∃ request, output s.headerSize stale b = some request)) ∧
    ∀ jobs : List Job,
      (∀ job ∈ jobs, ∃ pre before, pre <+: ops ∧ exec Endpoint.step s pre = some before ∧
        before.Requests job.request) →
      ∀ out ∈ (run TxPipeline.step p jobs).2, ∃ datagrams, out = .ok datagrams := by
  obtain ⟨-, hcrypt, -, -, hencoder⟩ := Endpoint.new_spec hnew
  constructor
  · intro b hb
    have hbounded := Endpoint.bounded_run hnew hrun
    have hlen := (hbounded.sized.sent b hb).1
    have hlow := hbounded.sized.low
    have hmtu := hbounded.sized.mtu
    unfold roomFor at hlen hmtu
    refine ⟨by omega, ?_⟩
    intro hbig stale
    unfold output
    rw [if_neg (by omega), if_neg (by omega)]
    exact ⟨_, rfl⟩
  · intro jobs hjobs
    refine ((TxPipeline.ok_new hcrypt hencoder).run ?_).2
    intro job hjob
    obtain ⟨pre, before, -, hbefore, hrequest⟩ := hjobs job hjob
    exact Endpoint.request_fits hnew hbefore hrequest

/-- A stand-in for an AEAD: the plaintext and sixteen bytes of tag. -/
def tagOnly : AeadCrypt where
  encryptTagged _ plaintext := plaintext ++ List.replicate AEAD_OVERHEAD 0
  decryptTagged _ body := some (body.take (body.length - AEAD_OVERHEAD))

def taggedConfig : SessionConfig := ⟨7, 0, 0, some (.aead tagOnly)⟩

/-- A session with a tag writes under one mtu and flushes again under a smaller one. -/
theorem datagrams_fit_tagged : ∃ (s s' : Endpoint Unbounded VirtualClock) (p : TxPipeline),
    Endpoint.new taggedConfig ⟨⟩ ⟨0⟩ = .ok (s, p) ∧
      exec Endpoint.step s [.write [[1, 2, 3]], .setMtu 100, .update] = some s' ∧
      s'.kcp.output.sent.length = 1 ∧
      ∀ b ∈ s'.kcp.output.sent, s.headerSize + b.length + 16 ≤ MTU_LIMIT := by
  obtain ⟨s, s', p, hnew, hrun, hlen⟩ : ∃ (s s' : Endpoint Unbounded VirtualClock) (p : TxPipeline),
      Endpoint.new taggedConfig ⟨⟩ ⟨0⟩ = .ok (s, p) ∧
        exec Endpoint.step s [.write [[1, 2, 3]], .setMtu 100, .update] = some s' ∧
        s'.kcp.output.sent.length = 1 := ⟨_, _, _, rfl, rfl, by decide +kernel⟩
  exact ⟨s, s', p, hnew, hrun, hlen, fun b hb => ((datagrams_fit hnew hrun).1 b hb).1⟩

end Kcptun.Session
