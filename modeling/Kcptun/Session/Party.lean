/- Kcptun/Session/Party
   source: crates/kcp/src/session.rs (KcpOutput::output, send_oob, packet_input), crates/kcp/src/tx.rs (send,
     run, process)
   digest: A session with its channel and its tx task: whatever it does, every datagram it puts on the
     wire opens to a packet of its connection, a shard of one, or an out-of-band packet. -/

import Kcptun.Fec.AnyOrder
import Kcptun.Session.Carriage
import Kcptun.Session.RoundTrip

set_option autoImplicit false
set_option relaxedAutoImplicit false

namespace Kcptun.Session

open Kcptun.Arq Kcptun.Lib Kcptun.Lib.LittleEndian
open Kcptun.Fec (MTU_LIMIT FecEncoder FecDecoder TYPE_DATA TYPE_PARITY TYPE_OOB OOB_SEQID fecHeader)

/-- A session, the channel to its tx task and the datagrams of that task, with what its application
gave and got: the bytes of writes and reads, and the out-of-band payloads it sent and was handed.
`numbered` counts the segments of its connection, `encoded` the packets its encoder was given. -/
structure Party (O C : Type) where
  session : Endpoint O C
  queue : List SendRequest := []
  tx : TxPipeline
  datagrams : List Bytes := []
  written : Bytes := []
  returned : Bytes := []
  offered : List Bytes := []
  handled : List Bytes := []
  numbered : ℕ := 0
  encoded : ℕ := 0

namespace Party

/-- What a session and its tx task do. The tx task drains the channel while a flush fills it, so which
packets find room in it is not determined by the state. -/
inductive Event where
  | op (op : Endpoint.Op) (room : ℕ → Bool) (stale : ℕ → ℕ → UInt8)
  | sendOob (payload : Bytes) (room : Bool) (stale : ℕ → UInt8)
  | transmit (now : Int) (dup : ℕ) (entropy : ℕ → ℕ → UInt8)

def Event.Own : Event → Prop
  | .op does _ _ => does.Own
  | _ => True

def requests (headerSize : ℕ) (room : ℕ → Bool) (stale : ℕ → ℕ → UInt8) (packets : List Bytes) :
    List SendRequest :=
  packets.zipIdx.filterMap fun (b, i) => if room i then output headerSize (stale i) b else none

/-- The payloads among the effects of a packet that go to the out-of-band handler. -/
def oobPayloads (effects : List Effect) : List Bytes :=
  effects.filterMap fun
    | .oob payload => some payload
    | .input _ _ => none

variable {O C : Type} [Output O] [Clock C]

def handedOver (s : Endpoint O C) : Endpoint.Op → List Bytes
  | .packetInput data => oobPayloads (s.packetInput data).2
  | _ => []

def step (p : Party O C) : Event → Option (Party O C)
  | .op op room stale => (p.session.step op).map fun s =>
    { p with
      session := s
      queue := p.queue ++ requests p.session.headerSize room stale
        (s.kcp.output.sent.drop p.session.kcp.output.sent.length)
      written := p.written ++ p.session.taken op
      returned := p.returned ++ p.session.readBack op
      handled := p.handled ++ handedOver p.session op
      numbered := p.numbered +
        ((p.session.queuedBy op).sndQueue.length - s.kcp.sndQueue.length) }
  | .sendOob payload room stale =>
    match p.session.sendOob stale payload with
    | none => some p
    | some request =>
      some { p with
        queue := if room then p.queue ++ [request] else p.queue
        offered := p.offered ++ [payload] }
  | .transmit now dup entropy =>
    match p.queue with
    | [] => some p
    | request :: rest =>
      let result := p.tx.process request now dup entropy
      some { p with
        queue := rest
        tx := result.1
        datagrams := p.datagrams ++ result.2.toOption.getD []
        encoded := p.encoded + if request.oob then 0 else 1 }

end Party

section Requests

variable {headerSize : ℕ} {sent sent' offered offered' : List Bytes} {request : SendRequest}

/-- A request of a session: a packet of its connection or, with FEC, an out-of-band payload. -/
def Queued (headerSize : ℕ) (fec : Bool) (sent offered : List Bytes) (request : SendRequest) : Prop :=
  (request.oob = false ∧ request.buffer.drop headerSize ∈ sent ∧
      IKCP_OVERHEAD ≤ (request.buffer.drop headerSize).length) ∨
    (request.oob = true ∧ fec = true ∧ headerSize ≤ request.buffer.length ∧
      request.buffer.length ≤ MTU_LIMIT ∧ ∃ conv : UInt32, ∃ payload ∈ offered,
        request.buffer.drop headerSize = le32 conv ++ payload)

private theorem Queued.mono {fec : Bool} (h : Queued headerSize fec sent offered request)
    (hsent : sent ⊆ sent') (hoffered : offered ⊆ offered') :
    Queued headerSize fec sent' offered' request := by
  rcases h with ⟨hkind, hmem, hlen⟩ | ⟨hkind, hfec, hlow, hhigh, conv, payload, hmem, hbuf⟩
  · exact .inl ⟨hkind, hsent hmem, hlen⟩
  · exact .inr ⟨hkind, hfec, hlow, hhigh, conv, payload, hoffered hmem, hbuf⟩

private theorem queued_output {fec : Bool} {stale : ℕ → UInt8} {b : Bytes} (hb : b ∈ sent)
    (hout : output headerSize stale b = some request) :
    Queued headerSize fec sent offered request := by
  unfold output at hout
  split_ifs at hout with hshort
  cases hout
  have hdrop : ((List.range headerSize).map stale ++ b).drop headerSize = b :=
    List.drop_left' (by simp)
  refine .inl ⟨rfl, ?_, ?_⟩
  · rw [hdrop]
    exact hb
  · rw [hdrop]
    exact Nat.not_lt.mp hshort

private theorem queued_requests {fec : Bool} {room : ℕ → Bool} {stale : ℕ → ℕ → UInt8}
    {packets : List Bytes} (hpackets : packets ⊆ sent) :
    ∀ request ∈ Party.requests headerSize room stale packets,
      Queued headerSize fec sent offered request := by
  intro request hrequest
  obtain ⟨⟨b, i⟩, hmem, hout⟩ := List.mem_filterMap.mp hrequest
  obtain ⟨-, -, hget⟩ := List.mem_zipIdx hmem
  have hb : b ∈ packets := hget ▸ List.getElem_mem _
  dsimp only at hout
  split_ifs at hout
  exact queued_output (hpackets hb) hout

private theorem queued_sendOob {O C : Type} {s : Endpoint O C} {stale : ℕ → UInt8} {payload : Bytes}
    (hpayload : payload ∈ offered) (hout : s.sendOob stale payload = some request) :
    Queued s.headerSize s.fecEnabled sent offered request := by
  unfold Endpoint.sendOob at hout
  split_ifs at hout with hfec hmtu hlimit
  cases hout
  refine .inr ⟨rfl, by simpa using hfec, ?_, ?_, s.kcp.conv, payload, hpayload, ?_⟩
  · simp
  · simp only [List.length_append, List.length_map, List.length_range, length_le32]
    unfold CONV_SIZE at hlimit
    omega
  · exact List.drop_left' (by simp)

private theorem mem_sealAll {crypt : Option PacketCrypt} {entropy : ℕ → ℕ → UInt8} {i dup : ℕ}
    {packets datagrams : List Bytes}
    (hseal : TxPipeline.sealAll crypt entropy i packets = some datagrams) :
    ∀ d ∈ TxPipeline.queueAll dup datagrams, ∃ b ∈ packets, ∃ nonce,
      sealPacket crypt nonce b = some d := by
  have hall : ∀ d ∈ datagrams, ∃ b ∈ packets, ∃ nonce, sealPacket crypt nonce b = some d := by
    induction packets generalizing i datagrams with
    | nil =>
      cases hseal
      intro d hd
      exact absurd hd List.not_mem_nil
    | cons b rest ih =>
      rw [TxPipeline.sealAll] at hseal
      obtain ⟨first, hfirst, hseal⟩ := Option.bind_eq_some_iff.mp hseal
      obtain ⟨others, hothers, hseal⟩ := Option.bind_eq_some_iff.mp hseal
      cases hseal
      refine List.forall_mem_cons.mpr ⟨⟨b, List.mem_cons_self, _, hfirst⟩, ?_⟩
      intro d hd
      obtain ⟨b', hb', hnonce⟩ := ih hothers d hd
      exact ⟨b', List.mem_cons_of_mem _ hb', hnonce⟩
  intro d hd
  cases datagrams with
  | nil => cases hd
  | cons first parity =>
    apply hall d
    rw [TxPipeline.queueAll, List.mem_cons, List.mem_append] at hd
    rcases hd with rfl | hd | hd
    · exact List.mem_cons_self
    · rw [List.eq_of_mem_replicate hd]
      exact List.mem_cons_self
    · exact List.mem_cons_of_mem _ hd

end Requests

section Framed

variable {O C : Type} {config : SessionConfig} {e₀ : Option FecEncoder} {calls : List Fec.Call}
  {p : Party O C}

/-- What a datagram opens to, for an encoder that has worked on `calls`. -/
def OnWire (ho : ℕ) (e₀ : Option FecEncoder) (calls : List Fec.Call) (sent offered : List Bytes)
    (pkt : Bytes) : Prop :=
  match e₀ with
  | none => pkt ∈ sent ∧ IKCP_OVERHEAD ≤ pkt.length
  | some e => pkt ∈ Fec.wire ho (run FecEncoder.step e calls).2 ∨
    ∃ size, ∃ conv : UInt32, ∃ payload ∈ offered,
      pkt = fecHeader OOB_SEQID TYPE_OOB ++ le16 size ++ (le32 conv ++ payload)

private theorem wire_append_singleton (ho : ℕ) (e : FecEncoder) (calls : List Fec.Call)
    (c : Fec.Call) : Fec.wire ho (run FecEncoder.step e (calls ++ [c])).2 =
      Fec.wire ho (run FecEncoder.step e calls).2 ++
        Fec.wire ho [((run FecEncoder.step e calls).1.step c).2] := by
  rw [run_append_singleton]
  simp [Fec.wire, Fec.sealedOf]

private theorem OnWire.mono {ho : ℕ} {sent sent' offered offered' : List Bytes} {pkt : Bytes}
    (h : OnWire ho e₀ calls sent offered pkt) (hsent : sent ⊆ sent') (hoffered : offered ⊆ offered') :
    OnWire ho e₀ calls sent' offered' pkt := by
  unfold OnWire at h ⊢
  cases e₀ with
  | none => exact ⟨hsent h.1, h.2⟩
  | some e =>
    rcases h with hwire | ⟨size, conv, payload, hmem, hpkt⟩
    · exact .inl hwire
    · exact .inr ⟨size, conv, payload, hoffered hmem, hpkt⟩

private theorem OnWire.call {ho : ℕ} {sent offered : List Bytes} {pkt : Bytes}
    (h : OnWire ho e₀ calls sent offered pkt) (c : Fec.Call) :
    OnWire ho e₀ (calls ++ [c]) sent offered pkt := by
  unfold OnWire at h ⊢
  cases e₀ with
  | none => exact h
  | some e =>
    apply h.imp_left
    intro hwire
    rw [wire_append_singleton]
    exact List.mem_append_left _ hwire

/-- The sending side: the requests in the channel, the state of the encoder and the datagrams on the
wire all come from what the session sent. -/
structure Party.Framed (config : SessionConfig) (e₀ : Option FecEncoder) (calls : List Fec.Call)
    (p : Party O C) : Prop where
  bounded : p.session.Bounded p.session.headerSize config.crypt
  header : p.session.headerSize =
    cryptHeaderSize config.crypt + if e₀.isSome then FEC_HEADER_SIZE_PLUS2 else 0
  fec : p.session.fecEnabled = e₀.isSome
  crypt : p.tx.crypt = config.crypt
  encoder : p.tx.fecEncoder = e₀.map fun e => (run FecEncoder.step e calls).1
  queue : ∀ request ∈ p.queue, Queued p.session.headerSize p.session.fecEnabled
    p.session.kcp.output.sent p.offered request
  taken : ∀ b ∈ Fec.accepted (cryptHeaderSize config.crypt) calls,
    b.drop (cryptHeaderSize config.crypt + 8) ∈ p.session.kcp.output.sent
  count : (Fec.accepted (cryptHeaderSize config.crypt) calls).length ≤ p.encoded
  wire : ∀ d ∈ p.datagrams, ∃ pkt, decrypt config.crypt d = some pkt ∧
    OnWire (cryptHeaderSize config.crypt) e₀ calls p.session.kcp.output.sent p.offered pkt

theorem Party.Framed.session [Output O] [Clock C] (h : p.Framed config e₀ calls) {s : Endpoint O C}
    (hkeeps : Endpoint.Keeps p.session s) (hbounded : s.Bounded p.session.headerSize config.crypt)
    (room : ℕ → Bool) (stale : ℕ → ℕ → UInt8) {p' : Party O C} (hsession : p'.session = s)
    (htx : p'.tx = p.tx) (hdatagrams : p'.datagrams = p.datagrams) (hencoded : p'.encoded = p.encoded)
    (hoffered : p'.offered = p.offered)
    (hqueue : p'.queue = p.queue ++ Party.requests p.session.headerSize room stale
      (s.kcp.output.sent.drop p.session.kcp.output.sent.length)) :
    p'.Framed config e₀ calls := by
  obtain ⟨hheader, hcrypt, hfec, -, hsent⟩ := hkeeps
  have hsub := hsent.subset
  subst hsession
  refine ⟨?_, hheader.trans h.header, hfec.trans h.fec, htx ▸ h.crypt, htx ▸ h.encoder, ?_, ?_,
    hencoded ▸ h.count, ?_⟩
  · rw [hheader]
    exact hbounded
  · rw [hqueue, hheader, hfec, hoffered]
    refine List.forall_mem_append.mpr ⟨?_, ?_⟩
    · intro request hrequest
      exact (h.queue request hrequest).mono hsub fun _ hx => hx
    · exact queued_requests (List.drop_subset _ _)
  · intro b hb
    exact hsub (h.taken b hb)
  · rw [hdatagrams, hoffered]
    intro d hd
    obtain ⟨pkt, hopen, hwire⟩ := h.wire d hd
    exact ⟨pkt, hopen, hwire.mono hsub fun _ hx => hx⟩

theorem Party.Framed.sendOob (h : p.Framed config e₀ calls) {payload : Bytes} {stale : ℕ → UInt8}
    {request : SendRequest} (hout : p.session.sendOob stale payload = some request) (room : Bool) :
    Party.Framed config e₀ calls { p with
      queue := if room then p.queue ++ [request] else p.queue
      offered := p.offered ++ [payload] } := by
  have hsub : p.offered ⊆ p.offered ++ [payload] := List.subset_append_left _ _
  have hold : ∀ request ∈ p.queue, Queued p.session.headerSize p.session.fecEnabled
      p.session.kcp.output.sent (p.offered ++ [payload]) request :=
    fun request hrequest => (h.queue request hrequest).mono (fun _ hx => hx) hsub
  refine ⟨h.bounded, h.header, h.fec, h.crypt, h.encoder, ?_, h.taken, h.count, ?_⟩
  · dsimp only
    split_ifs
    · refine List.forall_mem_append.mpr ⟨hold, List.forall_mem_singleton.mpr ?_⟩
      exact queued_sendOob (List.mem_append_right _ (List.mem_singleton_self _)) hout
    · exact hold
  · intro d hd
    obtain ⟨pkt, hopen, hwire⟩ := h.wire d hd
    exact ⟨pkt, hopen, hwire.mono (fun _ hx => hx) hsub⟩

end Framed

section Transmit

variable {O C : Type} {config : SessionConfig} {e₀ : Option FecEncoder} {calls : List Fec.Call}
  {p : Party O C}

/-- The packets of one request: the payload as it is without FEC, an out-of-band packet, or what the
encoder makes of it. Nothing when one of them fails. -/
inductive Packets (p : TxPipeline) (request : SendRequest) (now : Int) :
    Option FecEncoder → List Bytes → Prop
  | plain : p.fecEncoder = none → Packets p request now none [request.buffer]
  | oob {e : FecEncoder} {packet : Bytes} : p.fecEncoder = some e → request.oob = true →
      e.encodeOob request.buffer = .ok packet → Packets p request now (some e) [packet]
  | shard {e e' : FecEncoder} {packet : Bytes} {parity : List Bytes} : p.fecEncoder = some e →
      request.oob = false →
      e.encode request.buffer MAX_FEC_ENCODE_LATENCY now = .ok (e', packet, parity) →
      Packets p request now (some e') (packet :: parity)

/-- Processing a request: either the encoder refuses it and nothing changes, or its packets go
through the cipher, whether that takes them or not. -/
theorem process_cases (p : TxPipeline) (request : SendRequest) (now : Int) (dup : ℕ)
    (entropy : ℕ → ℕ → UInt8) :
    (p.process request now dup entropy).1 = p ∧
        (p.process request now dup entropy).2.toOption = none ∨
      ∃ e packets, Packets p request now e packets ∧
        (p.process request now dup entropy).1 = { p with fecEncoder := e } ∧
        ∀ d ∈ (p.process request now dup entropy).2.toOption.getD [], ∃ b ∈ packets, ∃ nonce,
          sealPacket p.crypt nonce b = some d := by
  unfold TxPipeline.process
  dsimp only
  cases hencoder : p.fecEncoder with
  | none =>
    refine .inr ⟨none, [request.buffer], .plain hencoder, ?_⟩
    dsimp only
    cases hseal : TxPipeline.sealAll p.crypt entropy 0 [request.buffer] with
    | none => exact ⟨by rw [← hencoder], fun d hd => absurd hd List.not_mem_nil⟩
    | some datagrams => exact ⟨by rw [← hencoder], mem_sealAll hseal⟩
  | some e =>
    dsimp only
    split_ifs with hoob
    · cases hencode : e.encodeOob request.buffer with
      | error err => exact .inl ⟨rfl, rfl⟩
      | ok packet =>
        refine .inr ⟨some e, [packet], .oob hencoder hoob hencode, ?_⟩
        dsimp only
        cases hseal : TxPipeline.sealAll p.crypt entropy 0 [packet] with
        | none => exact ⟨by rw [← hencoder], fun d hd => absurd hd List.not_mem_nil⟩
        | some datagrams => exact ⟨by rw [← hencoder], mem_sealAll hseal⟩
    · cases hencode : e.encode request.buffer MAX_FEC_ENCODE_LATENCY now with
      | error err => exact .inl ⟨rfl, rfl⟩
      | ok out =>
        obtain ⟨e', packet, parity⟩ := out
        refine .inr ⟨some e', _, .shard hencoder (by simpa using hoob) hencode, ?_⟩
        dsimp only
        cases hseal : TxPipeline.sealAll p.crypt entropy 0 (packet :: parity) with
        | none => exact ⟨rfl, fun d hd => absurd hd List.not_mem_nil⟩
        | some datagrams => exact ⟨rfl, mem_sealAll hseal⟩

private theorem accepted_append_singleton (ho : ℕ) (calls : List Fec.Call) (c : Fec.Call) :
    Fec.accepted ho (calls ++ [c]) = Fec.accepted ho calls ++ Fec.accepted ho [c] :=
  List.filterMap_append ..

private theorem Party.Framed.sends (h : p.Framed config e₀ calls) {request : SendRequest}
    {rest : List SendRequest} (hqueue : p.queue = request :: rest) (tx : TxPipeline)
    (hcrypt : tx.crypt = p.tx.crypt) (hencoder : tx.fecEncoder = p.tx.fecEncoder)
    {datagrams : List Bytes} (hdatagrams : ∀ d ∈ datagrams, ∃ pkt, decrypt config.crypt d = some pkt ∧
      OnWire (cryptHeaderSize config.crypt) e₀ calls p.session.kcp.output.sent p.offered pkt) :
    ∃ later, Party.Framed config e₀ (calls ++ later) { p with
      queue := rest
      tx := tx
      datagrams := p.datagrams ++ datagrams
      encoded := p.encoded + if request.oob then 0 else 1 } := by
  have hrest : ∀ r ∈ rest, Queued p.session.headerSize p.session.fecEnabled
      p.session.kcp.output.sent p.offered r := by
    intro r hr
    apply h.queue
    rw [hqueue]
    exact List.mem_cons_of_mem _ hr
  refine ⟨[], ?_⟩
  rw [List.append_nil]
  exact ⟨h.bounded, h.header, h.fec, hcrypt.trans h.crypt, hencoder.trans h.encoder, hrest, h.taken,
    h.count.trans (Nat.le_add_right _ _), List.forall_mem_append.mpr ⟨h.wire, hdatagrams⟩⟩

private theorem Party.Framed.queued_head (h : p.Framed config e₀ calls) {request : SendRequest}
    {rest : List SendRequest} (hqueue : p.queue = request :: rest) :
    Queued p.session.headerSize p.session.fecEnabled p.session.kcp.output.sent p.offered request := by
  apply h.queue
  rw [hqueue]
  exact List.mem_cons_self

private theorem Party.Framed.onWire_plain (h : p.Framed config e₀ calls) {request : SendRequest}
    {rest : List SendRequest} (hqueue : p.queue = request :: rest) (hplain : p.tx.fecEncoder = none) :
    OnWire (cryptHeaderSize config.crypt) e₀ calls p.session.kcp.output.sent p.offered
      (request.buffer.drop (cryptHeaderSize config.crypt)) := by
  have hencoder := h.encoder
  rw [hplain] at hencoder
  cases e₀ with
  | some _ => cases hencoder
  | none =>
    have hheader : p.session.headerSize = cryptHeaderSize config.crypt := h.header
    rcases h.queued_head hqueue with ⟨-, hsent, hlen⟩ | ⟨-, hfec, -⟩
    · rw [hheader] at hsent hlen
      exact ⟨hsent, hlen⟩
    · rw [h.fec] at hfec
      cases hfec

private theorem Party.Framed.onWire_oob
    (hnew : FecEncoder.new config.dataShards config.parityShards (cryptHeaderSize config.crypt) =
      .ok e₀) (h : p.Framed config e₀ calls) {request : SendRequest} {rest : List SendRequest}
    (hqueue : p.queue = request :: rest) {e : FecEncoder} {packet : Bytes}
    (hfec : p.tx.fecEncoder = some e) (hkind : request.oob = true)
    (hencode : e.encodeOob request.buffer = .ok packet) :
    OnWire (cryptHeaderSize config.crypt) e₀ calls p.session.kcp.output.sent p.offered
      (packet.drop (cryptHeaderSize config.crypt)) := by
  have hencoder := h.encoder
  rw [hfec] at hencoder
  cases e₀ with
  | none => cases hencoder
  | some e₀ =>
    obtain ⟨ds, ps, hds, hps, hds1, hps1, hsum⟩ := FecEncoder.new_bounds hnew
    rw [hds, hps] at hnew
    obtain ⟨m, -, hok, -⟩ := FecEncoder.run_of_new hds1 hps1 hsum hnew calls
    cases hencoder
    right
    have hheader : p.session.headerSize = cryptHeaderSize config.crypt + 8 := h.header
    rcases h.queued_head hqueue with ⟨hdata, -⟩ | ⟨-, -, hlow, hhigh, conv, payload, hpayload, hbuf⟩
    · rw [hkind] at hdata
      cases hdata
    · rw [hheader] at hlow hbuf
      obtain ⟨out, hout, hdrop⟩ := hok.toHolds.encodeOob ⟨hlow, hhigh⟩
      rw [hencode] at hout
      cases hout
      refine ⟨UInt16.ofNat (request.buffer.length - (cryptHeaderSize config.crypt + 6)), conv, payload,
        hpayload, ?_⟩
      rw [hdrop, Fec.dataShard, ← hbuf, List.append_assoc]

private theorem accepted_encode (ho : ℕ) (buf : Bytes) (latency : UInt32) (now : Int) :
    Fec.accepted ho [.encode buf latency now] ⊆ [buf] ∧
      (Fec.accepted ho [.encode buf latency now]).length ≤ 1 := by
  by_cases hadmits : FecEncoder.Admits ho buf
  · simp [Fec.accepted, hadmits]
  · simp [Fec.accepted, hadmits]

private theorem Party.Framed.shard (h : p.Framed config e₀ calls) {request : SendRequest}
    {rest : List SendRequest} (hqueue : p.queue = request :: rest) {e e' : FecEncoder}
    {packet : Bytes} {parity : List Bytes} {now : Int} (hfec : p.tx.fecEncoder = some e)
    (hkind : request.oob = false)
    (hencode : e.encode request.buffer MAX_FEC_ENCODE_LATENCY now = .ok (e', packet, parity))
    {datagrams : List Bytes}
    (hopen : ∀ d ∈ datagrams, ∃ b ∈ packet :: parity,
      decrypt config.crypt d = some (b.drop (cryptHeaderSize config.crypt))) :
    ∃ later, Party.Framed config e₀ (calls ++ later) { p with
      queue := rest
      tx := { p.tx with fecEncoder := some e' }
      datagrams := p.datagrams ++ datagrams
      encoded := p.encoded + if request.oob then 0 else 1 } := by
  have hencoder := h.encoder
  rw [hfec] at hencoder
  cases e₀ with
  | none => cases hencoder
  | some e₀ =>
    cases hencoder
    have hstep : (run FecEncoder.step e₀ calls).1.step
        (.encode request.buffer MAX_FEC_ENCODE_LATENCY now) = (e', .sealed packet parity) := by
      simp only [FecEncoder.step, hencode]
    have hheader : p.session.headerSize = cryptHeaderSize config.crypt + 8 := h.header
    have hsent : request.buffer.drop (cryptHeaderSize config.crypt + 8) ∈
        p.session.kcp.output.sent := by
      rw [← hheader]
      rcases h.queued_head hqueue with ⟨-, hsent, -⟩ | ⟨hoob, -⟩
      · exact hsent
      · rw [hkind] at hoob
        cases hoob
    obtain ⟨hbuf, hone⟩ := accepted_encode (cryptHeaderSize config.crypt) request.buffer
      MAX_FEC_ENCODE_LATENCY now
    refine ⟨[.encode request.buffer MAX_FEC_ENCODE_LATENCY now], ?_⟩
    constructor
    · exact h.bounded
    · exact h.header
    · exact h.fec
    · exact h.crypt
    · rw [Option.map_some, run_append_state, run_cons, hstep]
      rfl
    · intro r hr
      apply h.queue
      rw [hqueue]
      exact List.mem_cons_of_mem _ hr
    · rw [accepted_append_singleton]
      refine List.forall_mem_append.mpr ⟨h.taken, ?_⟩
      intro b hb
      rw [List.mem_singleton.mp (hbuf hb)]
      exact hsent
    · have hcount := h.count
      rw [accepted_append_singleton, List.length_append]
      dsimp only
      rw [hkind, if_neg (by decide)]
      omega
    · refine List.forall_mem_append.mpr ⟨?_, ?_⟩
      · intro d hd
        obtain ⟨pkt, hdecrypt, hwire⟩ := h.wire d hd
        exact ⟨pkt, hdecrypt, hwire.call _⟩
      · intro d hd
        obtain ⟨b, hb, hdecrypt⟩ := hopen d hd
        refine ⟨_, hdecrypt, .inl ?_⟩
        rw [wire_append_singleton, hstep]
        refine List.mem_append_right _ (List.mem_flatMap.mpr ⟨(packet, parity), ?_, ?_⟩)
        · exact List.mem_singleton_self _
        · exact List.mem_map_of_mem hb

theorem Party.Framed.transmit (hlawful : ∀ c ∈ config.crypt, c.Lawful)
    (hnew : FecEncoder.new config.dataShards config.parityShards (cryptHeaderSize config.crypt) =
      .ok e₀) (h : p.Framed config e₀ calls) {request : SendRequest} {rest : List SendRequest}
    (hqueue : p.queue = request :: rest) (now : Int) (dup : ℕ) (entropy : ℕ → ℕ → UInt8) :
    ∃ later, Party.Framed config e₀ (calls ++ later) { p with
      queue := rest
      tx := (p.tx.process request now dup entropy).1
      datagrams := p.datagrams ++ (p.tx.process request now dup entropy).2.toOption.getD []
      encoded := p.encoded + if request.oob then 0 else 1 } := by
  have hopen {nonce : ℕ → UInt8} {b d : Bytes} (hd : sealPacket p.tx.crypt nonce b = some d) :
      decrypt config.crypt d = some (b.drop (cryptHeaderSize config.crypt)) := by
    rw [h.crypt] at hd
    exact decrypt_sealPacket hlawful hd
  rcases process_cases p.tx request now dup entropy with
    ⟨hstate, hnone⟩ | ⟨e, packets, hpackets, hstate, hseal⟩
  · rw [hstate, hnone]
    exact h.sends hqueue _ rfl rfl fun d hd => absurd hd List.not_mem_nil
  · rw [hstate]
    cases hpackets with
    | plain hplain =>
      refine h.sends hqueue { p.tx with fecEncoder := none } rfl hplain.symm ?_
      intro d hd
      obtain ⟨b, hb, nonce, hnonce⟩ := hseal d hd
      cases List.mem_singleton.mp hb
      exact ⟨_, hopen hnonce, h.onWire_plain hqueue hplain⟩
    | @oob e packet hfec hkind hencode =>
      refine h.sends hqueue { p.tx with fecEncoder := some e } rfl hfec.symm ?_
      intro d hd
      obtain ⟨b, hb, nonce, hnonce⟩ := hseal d hd
      cases List.mem_singleton.mp hb
      exact ⟨_, hopen hnonce, h.onWire_oob hnew hqueue hfec hkind hencode⟩
    | @shard e e' packet parity hfec hkind hencode =>
      apply h.shard hqueue hfec hkind hencode
      intro d hd
      obtain ⟨b, hb, nonce, hnonce⟩ := hseal d hd
      exact ⟨b, hb, hopen hnonce⟩

end Transmit

end Kcptun.Session
