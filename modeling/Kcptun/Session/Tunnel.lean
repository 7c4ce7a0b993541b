/- Kcptun/Session/Tunnel
   source: crates/kcp/src/session.rs (new, write_buffers, read, packet_input, kcp_input, send_oob),
     crates/kcp/src/tx.rs (run, process), crates/kcp/src/fec.rs (decode), crates/kcp/src/kcp.rs (input)
   digest: Two sessions over a network that drops, repeats, delays and reorders datagrams: in both
     directions the bytes read are the first ones of those written, whatever FEC repairs on the way. -/

import Kcptun.Session.Party

set_option autoImplicit false
set_option relaxedAutoImplicit false

namespace Kcptun.Session

open Kcptun.Arq Kcptun.Lib Kcptun.Lib.LittleEndian
open Kcptun.Fec (MTU_LIMIT FecEncoder FecDecoder TYPE_DATA TYPE_PARITY TYPE_OOB OOB_SEQID fecHeader
  fecFlag InGroups Emitted slotPacket numbersUsed)

structure Tunnel (O C P D : Type) where
  a : Party O C
  b : Party P D

namespace Tunnel

/-- A side does something, or the network hands over any datagram that the other side has ever put
on the wire: as often as it likes and in any order, or never. -/
inductive Event where
  | atA (event : Party.Event)
  | atB (event : Party.Event)
  | toA (i : ℕ) (room : ℕ → Bool) (stale : ℕ → ℕ → UInt8)
  | toB (i : ℕ) (room : ℕ → Bool) (stale : ℕ → ℕ → UInt8)

def Event.Allowed : Event → Prop
  | .atA event => event.Own
  | .atB event => event.Own
  | _ => True

variable {O C P D : Type} [Output O] [Clock C] [Output P] [Clock D]

def step (t : Tunnel O C P D) : Event → Option (Tunnel O C P D)
  | .atA event => (t.a.step event).map fun a => { t with a := a }
  | .atB event => (t.b.step event).map fun b => { t with b := b }
  | .toA i room stale =>
    match t.b.datagrams[i]? with
    | none => some t
    | some d => (t.a.step (.op (.packetInput d) room stale)).map fun a => { t with a := a }
  | .toB i room stale =>
    match t.a.datagrams[i]? with
    | none => some t
    | some d => (t.b.step (.op (.packetInput d) room stale)).map fun b => { t with b := b }

end Tunnel

section Delivered

variable {P D : Type} [Output P] [Clock D]

def Brings (sent offered : List Bytes) (effects : List Effect) : Prop :=
  ∀ e ∈ effects, (∃ pkt ∈ sent, ∃ pktType, e = .input pkt pktType) ∨
    ∃ payload ∈ offered, e = .oob payload

private theorem Brings.oobPayloads {sent offered : List Bytes} {effects : List Effect}
    (h : Brings sent offered effects) : Party.oobPayloads effects ⊆ offered := by
  intro payload hpayload
  obtain ⟨e, he, hsome⟩ := List.mem_filterMap.mp hpayload
  rcases h e he with ⟨pkt, -, pktType, rfl⟩ | ⟨payload', hmem, rfl⟩
  · cases hsome
  · cases hsome
    exact hmem

private theorem Carried.feed {O C : Type} {a : Kcp O C} {s : Endpoint P D}
    {written received : Bytes}
    {numbered c n : ℕ} {log : List Entry} {offered : List Bytes} (hnum : numbered < 4294967296)
    {effects : List Effect} (hbrings : Brings a.output.sent offered effects)
    (h : Carried a s.kcp written received numbered log c n) :
    ∃ n', Carried a (s.feed effects).kcp written received numbered log c n' := by
  induction effects generalizing s n with
  | nil => exact ⟨n, h⟩
  | cons e effects ih =>
    obtain ⟨hfirst, hrest⟩ := List.forall_mem_cons.mp hbrings
    rcases hfirst with ⟨pkt, hpkt, pktType, rfl⟩ | ⟨payload, -, rfl⟩
    · obtain ⟨n', hinput⟩ := h.input hnum hpkt pktType s.ackNoDelay
      exact @ih (s.setKcp (s.kcp.input pkt pktType s.ackNoDelay).1) n' hrest hinput
    · exact @ih s n hrest h

private theorem kcpInput_plain (s : Endpoint P D) {sent offered : List Bytes} {pkt : Bytes}
    (hpkt : pkt ∈ sent) (hpacket : IsPacket pkt) (hlen : IKCP_OVERHEAD ≤ pkt.length) :
    (s.kcpInput pkt).1 = s.feed (s.kcpInput pkt).2 ∧ Brings sent offered (s.kcpInput pkt).2 := by
  have hne : pkt ≠ [] := List.ne_nil_of_length_pos (lt_of_lt_of_le (by decide) hlen)
  obtain ⟨hbig, hdata, hparity, hoob⟩ := IsPacket.regular hpacket hne
  rw [s.kcpInput_regular hbig hdata hparity hoob]
  exact ⟨rfl, List.forall_mem_singleton.mpr (.inl ⟨pkt, hpkt, .regular, rfl⟩)⟩

private theorem kcpInput_oob (s : Endpoint P D) {sent offered : List Bytes} {payload : Bytes}
    (hpayload : payload ∈ offered) (size : UInt16) (conv : UInt32) :
    let pkt := fecHeader OOB_SEQID TYPE_OOB ++ le16 size ++ (le32 conv ++ payload)
    (s.kcpInput pkt).1 = s.feed (s.kcpInput pkt).2 ∧ Brings sent offered (s.kcpInput pkt).2 := by
  intro pkt
  have hpkt : pkt = fecHeader OOB_SEQID TYPE_OOB ++ le16 size ++ (le32 conv ++ payload) := rfl
  have hflag : fecFlag pkt = TYPE_OOB := by
    rw [hpkt, List.append_assoc, Fec.fecFlag_fecHeader]
  have hlen : pkt.length = 12 + payload.length := by
    rw [hpkt]
    simp only [List.length_append, Fec.length_fecHeader, length_le16, length_le32]
    omega
  have hdrop : pkt.drop (FEC_HEADER_SIZE_PLUS2 + CONV_SIZE) = payload := by
    rw [hpkt]
    rfl
  have hdata : TYPE_OOB ≠ TYPE_DATA := by decide
  have hparity : TYPE_OOB ≠ TYPE_PARITY := by decide
  unfold Endpoint.kcpInput
  rw [if_neg (by omega)]
  simp only [hflag, hdata, hparity, or_self, if_false, if_true]
  rw [if_neg (by unfold FEC_HEADER_SIZE_PLUS2 CONV_SIZE; omega), hdrop]
  exact ⟨rfl, List.forall_mem_singleton.mpr (.inr ⟨payload, hpayload, rfl⟩)⟩

private theorem kcpInput_shard (s : Endpoint P D) {decoder : FecDecoder}
    (hdecoder : s.fecDecoder = some decoder)
    {sent offered : List Bytes} {ds ps ho : ℕ} {m : Rs.Matrix} {packets : List Bytes} {pkt : Bytes}
    (hds : 0 < ds) (hle : ds + ps ≤ 256) (hused : numbersUsed ds ps packets.length < 2147483648)
    (hadmits : ∀ b ∈ packets, FecEncoder.Admits ho b) (hsent : ∀ b ∈ packets, b.drop (ho + 8) ∈ sent)
    (hgrouped : InGroups ds ps m (Emitted ds ps packets) (slotPacket ds ps (ho + 6) m packets) decoder)
    (hpkt : Fec.Sent (ds + ps) (Emitted ds ps packets) (slotPacket ds ps (ho + 6) m packets) pkt) :
    ∃ decoder', (s.kcpInput pkt).1 =
        ({ s with fecDecoder := some decoder' } : Endpoint P D).feed (s.kcpInput pkt).2 ∧
      Brings sent offered (s.kcpInput pkt).2 ∧
      InGroups ds ps m (Emitted ds ps packets) (slotPacket ds ps (ho + 6) m packets) decoder' := by
  obtain ⟨hgrouped', hpayloads⟩ := hgrouped.payloads hds hle hused hadmits hpkt
  have hunchanged : ∃ decoder', s =
        ({ s with fecDecoder := some decoder' } : Endpoint P D).feed [] ∧
      Brings sent offered [] ∧
      InGroups ds ps m (Emitted ds ps packets) (slotPacket ds ps (ho + 6) m packets) decoder' := by
    refine ⟨decoder, ?_, fun e he => absurd he List.not_mem_nil, hgrouped⟩
    rw [← hdecoder]
    rfl
  have hrecovered : Brings sent offered ((decoder.decode pkt).2.filterMap recovered) := by
    intro e he
    obtain ⟨r, hr, hrec⟩ := List.mem_filterMap.mp he
    obtain ⟨b, hb, hpayload⟩ := hpayloads r hr
    unfold recovered at hrec
    dsimp only at hrec
    split_ifs at hrec
    cases hrec
    refine .inl ⟨_, hsent b hb, .fec, ?_⟩
    rw [← hpayload]
  have hflag : fecFlag pkt = TYPE_DATA ∨ fecFlag pkt = TYPE_PARITY := by
    obtain ⟨hemitted, heq⟩ := hpkt
    rw [heq, slotPacket]
    split_ifs
    · exact .inl (Fec.fecFlag_fecHeader ..)
    · exact .inr (Fec.fecFlag_fecHeader ..)
  have hdirect : fecFlag pkt = TYPE_DATA → pkt.drop FEC_HEADER_SIZE_PLUS2 ∈ sent := by
    obtain ⟨hemitted, heq⟩ := hpkt
    rw [heq, slotPacket]
    split_ifs with hslot
    · intro _
      rcases hemitted with ⟨-, hn⟩ | ⟨hge, -⟩
      · have hb := List.getElem_mem hn
        rw [List.getD_eq_getElem _ _ hn]
        exact hsent _ hb
      · omega
    · intro hdata
      have hparity := hdata.symm.trans (Fec.fecFlag_fecHeader ..)
      exact absurd hparity (by decide)
  unfold Endpoint.kcpInput
  rw [hdecoder, Option.some_or]
  by_cases hshort : pkt.length < 6
  · rw [if_pos hshort]
    exact hunchanged
  rw [if_neg hshort, if_pos hflag]
  by_cases hshort' : pkt.length < FEC_HEADER_SIZE_PLUS2
  · rw [if_pos hshort']
    exact hunchanged
  rw [if_neg hshort']
  dsimp only
  refine ⟨_, rfl, List.forall_mem_append.mpr ⟨?_, hrecovered⟩, hgrouped'⟩
  split_ifs with hdata
  · exact List.forall_mem_singleton.mpr (.inl ⟨_, hdirect hdata, .regular, rfl⟩)
  · intro e he
    exact absurd he List.not_mem_nil

end Delivered

section Direction

variable {O C P D : Type} {config : SessionConfig} {e₀ : Option FecEncoder} {m : Rs.Matrix}
  {calls : List Fec.Call} {a a' : Party O C} {b b' : Party P D} {log : List Entry} {c n : ℕ}

/-- What the encoder of a session has been given so far, and what it makes of that. -/
def Shards (config : SessionConfig) (m : Rs.Matrix) (calls : List Fec.Call) (d : FecDecoder) : Prop :=
  let packets := Fec.accepted (cryptHeaderSize config.crypt) calls
  InGroups config.dataShards.toNat config.parityShards.toNat m
    (Emitted config.dataShards.toNat config.parityShards.toNat packets)
    (slotPacket config.dataShards.toNat config.parityShards.toNat
      (cryptHeaderSize config.crypt + 6) m packets) d

/-- Everything that connects what `a` sends to what `b` receives. -/
structure Feeds (config : SessionConfig) (e₀ : Option FecEncoder) (m : Rs.Matrix)
    (calls : List Fec.Call) (a : Party O C) (b : Party P D) (log : List Entry) (c n : ℕ) : Prop where
  framed : a.Framed config e₀ calls
  carried : Carried a.session.kcp b.session.kcp a.written (b.returned ++ b.session.leftover)
    a.numbered log c n
  key : b.session.crypt = config.crypt
  decoder : e₀.isSome → ∃ d, b.session.fecDecoder = some d ∧ Shards config m calls d
  handled : b.handled ⊆ a.offered

def Coded (config : SessionConfig) (e₀ : Option FecEncoder) (m : Rs.Matrix) : Prop :=
  FecEncoder.new config.dataShards config.parityShards (cryptHeaderSize config.crypt) = .ok e₀ ∧
    ∀ e ∈ e₀, e.Ok config.dataShards.toNat config.parityShards.toNat (cryptHeaderSize config.crypt) m
      0 []

private theorem Shards.later {d : FecDecoder} (h : Shards config m calls d)
    (later : List Fec.Call) : Shards config m (calls ++ later) d := by
  have hsplit : Fec.accepted (cryptHeaderSize config.crypt) (calls ++ later) =
      Fec.accepted (cryptHeaderSize config.crypt) calls ++
        Fec.accepted (cryptHeaderSize config.crypt) later := List.filterMap_append ..
  unfold Shards at h ⊢
  rw [hsplit]
  exact h.grow fun g i hemitted => Fec.emitted_append _ hemitted

private theorem numbersUsed_mono {ds ps n n' : ℕ} (h : n ≤ n') :
    numbersUsed ds ps n ≤ numbersUsed ds ps n' := by
  have hsplit (k : ℕ) : numbersUsed ds ps k = k + k / ds * ps := by
    unfold numbersUsed
    have hdiv := Nat.div_add_mod' k ds
    rw [Nat.mul_add]
    omega
  rw [hsplit, hsplit]
  exact Nat.add_le_add h (Nat.mul_le_mul_right ps (Nat.div_le_div_right h))

section Sending

variable [Output O] [Clock C]

private theorem Feeds.sender (hlawful : ∀ c ∈ config.crypt, c.Lawful) (hcoded : Coded config e₀ m)
    (h : Feeds config e₀ m calls a b log c n) {event : Party.Event} (hstep : a.step event = some a')
    (hnum : a'.numbered < 4294967296) :
    ∃ calls' log', Feeds config e₀ m calls' a' b log' c n := by
  cases event with
  | op op room stale =>
    obtain ⟨s, hs, rfl⟩ := Option.map_eq_some_iff.mp hstep
    have hmss := h.framed.bounded.one_le_mss
    have hsize : a.session.headerSize ≤ 28 := by
      have hle := cryptHeaderSize_le config.crypt
      rw [h.framed.header]
      unfold FEC_HEADER_SIZE_PLUS2
      split_ifs <;> omega
    obtain ⟨log', hcarried⟩ := h.carried.sender hmss hs hnum
    exact ⟨calls, log', h.framed.session (Endpoint.step_keeps hmss hs)
      (h.framed.bounded.step hsize hs) room stale rfl rfl rfl rfl rfl rfl, hcarried, h.key, h.decoder,
      h.handled⟩
  | sendOob payload room stale =>
    unfold Party.step at hstep
    dsimp only at hstep
    split at hstep
    next =>
      cases hstep
      exact ⟨calls, log, h⟩
    next request hrequest =>
      cases hstep
      exact ⟨calls, log, h.framed.sendOob hrequest room, h.carried, h.key, h.decoder,
        fun _ hx => List.mem_append_left _ (h.handled hx)⟩
  | transmit now dup entropy =>
    unfold Party.step at hstep
    dsimp only at hstep
    split at hstep
    next =>
      cases hstep
      exact ⟨calls, log, h⟩
    next request rest hqueue =>
      cases hstep
      obtain ⟨later, hframed⟩ := h.framed.transmit hlawful hcoded.1 hqueue now dup entropy
      refine ⟨calls ++ later, log, hframed, h.carried, h.key, ?_, h.handled⟩
      intro hsome
      obtain ⟨d, hd, hshards⟩ := h.decoder hsome
      exact ⟨d, hd, hshards.later later⟩

end Sending

section Receiving

variable [Output P] [Clock D]

private theorem Feeds.receiver (h : Feeds config e₀ m calls a b log c n)
    (hnum : a.numbered < 4294967296)
    (hmss : 1 ≤ b.session.kcp.mss.toNat) {event : Party.Event} (hown : event.Own)
    (hstep : b.step event = some b') :
    ∃ c' n', Feeds config e₀ m calls a b' log c' n' := by
  cases event with
  | op op room stale =>
    obtain ⟨s, hs, rfl⟩ := Option.map_eq_some_iff.mp hstep
    obtain ⟨c', n', hcarried⟩ := h.carried.receiver hnum hmss hown hs
    have hkeeps := Endpoint.step_keeps hmss hs
    have hnone : Party.handedOver b.session op = [] := by
      cases op with
      | packetInput data => exact hown.elim
      | _ => rfl
    refine ⟨c', n', h.framed, hcarried, hkeeps.crypt.trans h.key, ?_, ?_⟩
    · intro hsome
      obtain ⟨d, hd, hshards⟩ := h.decoder hsome
      exact ⟨d, (Endpoint.step_decoder hown hs).trans hd, hshards⟩
    · dsimp only
      rw [hnone, List.append_nil]
      exact h.handled
  | sendOob payload room stale =>
    unfold Party.step at hstep
    dsimp only at hstep
    split at hstep <;>
    · cases hstep
      exact ⟨c, n, h.framed, h.carried, h.key, h.decoder, h.handled⟩
  | transmit now dup entropy =>
    unfold Party.step at hstep
    dsimp only at hstep
    split at hstep <;>
    · cases hstep
      exact ⟨c, n, h.framed, h.carried, h.key, h.decoder, h.handled⟩

private theorem Feeds.brings (hcoded : Coded config e₀ m) (h : Feeds config e₀ m calls a b log c n)
    (hused : numbersUsed config.dataShards.toNat config.parityShards.toNat a.encoded < 2147483648)
    {d : Bytes} (hd : d ∈ a.datagrams) :
    ∃ decoder, (b.session.packetInput d).1 = ({ b.session with
          fecDecoder := decoder } : Endpoint P D).feed (b.session.packetInput d).2 ∧
      Brings a.session.kcp.output.sent a.offered (b.session.packetInput d).2 ∧
      (e₀.isSome → ∃ d, decoder = some d ∧ Shards config m calls d) := by
  obtain ⟨pkt, hopen, hwire⟩ := h.framed.wire d hd
  have hunchanged : ∃ decoder, b.session = ({ b.session with
        fecDecoder := decoder } : Endpoint P D).feed [] ∧
      Brings a.session.kcp.output.sent a.offered [] ∧
      (e₀.isSome → ∃ d, decoder = some d ∧ Shards config m calls d) :=
    ⟨b.session.fecDecoder, rfl, fun e he => absurd he List.not_mem_nil, h.decoder⟩
  by_cases hshort : pkt.length < MIN_PACKET_SIZE
  · have hnone : b.session.packetInput d = (b.session, []) := by
      unfold Endpoint.packetInput
      rw [h.key, hopen]
      exact if_pos hshort
    rw [hnone]
    exact hunchanged
  have hinput : b.session.packetInput d = b.session.kcpInput pkt :=
    b.session.packetInput_of_decrypt (by rw [h.key]; exact hopen) (Nat.not_lt.mp hshort)
  rw [hinput]
  cases e₀ with
  | none =>
    obtain ⟨hmem, hlen⟩ := hwire
    obtain ⟨hstate, hbrings⟩ := @kcpInput_plain P D _ _ b.session _ a.offered pkt hmem
      (h.framed.bounded.sized.sent pkt hmem).2 hlen
    exact ⟨b.session.fecDecoder, hstate, hbrings, fun hsome => absurd hsome (by simp)⟩
  | some e =>
    obtain ⟨decoder, hdecoder, hshards⟩ := h.decoder rfl
    rcases hwire with hwire | ⟨size, conv, payload, hpayload, rfl⟩
    · obtain ⟨hnew, hok⟩ := hcoded
      obtain ⟨ds, ps, hds, hps, hds1, hps1, hsum⟩ := FecEncoder.new_bounds hnew
      have hcount := h.framed.count
      have htaken := h.framed.taken
      unfold Shards at hshards ⊢
      rw [hds, hps] at hnew hok hused hshards
      rw [hds, hps]
      rw [Int.toNat_natCast, Int.toNat_natCast] at *
      obtain ⟨m', hok', -, hlen, hemits⟩ := FecEncoder.run_of_new hds1 hps1 hsum hnew calls
      obtain rfl : m' = m :=
        Option.some.inj (hok'.codec_ok.matrix.symm.trans (hok e rfl).codec_ok.matrix)
      have hused' := lt_of_le_of_lt (numbersUsed_mono hcount) hused
      have hadmits : ∀ b ∈ Fec.accepted (cryptHeaderSize config.crypt) calls,
          FecEncoder.Admits (cryptHeaderSize config.crypt) b := fun b hb => Fec.admits_of_mem hb
      have hsent := Fec.sent_of_mem_wire hds1 hsum hused' hemits hlen hwire
      obtain ⟨decoder', hstate, hbrings, hgrouped⟩ := @kcpInput_shard P D _ _ b.session decoder
        hdecoder _ a.offered _ _ _ _ _ _ hds1 hsum hused' hadmits htaken hshards hsent
      exact ⟨some decoder', hstate, hbrings, fun _ => ⟨decoder', rfl, hgrouped⟩⟩
    · obtain ⟨hstate, hbrings⟩ := @kcpInput_oob P D _ _ b.session a.session.kcp.output.sent a.offered
        payload hpayload size conv
      exact ⟨b.session.fecDecoder, hstate, hbrings, h.decoder⟩

private theorem Feeds.deliver (hcoded : Coded config e₀ m) (h : Feeds config e₀ m calls a b log c n)
    (hnum : a.numbered < 4294967296)
    (hused : numbersUsed config.dataShards.toNat config.parityShards.toNat a.encoded < 2147483648)
    {d : Bytes} (hd : d ∈ a.datagrams) {room : ℕ → Bool} {stale : ℕ → ℕ → UInt8}
    (hstep : b.step (.op (.packetInput d) room stale) = some b') :
    ∃ n', Feeds config e₀ m calls a b' log c n' := by
  change some _ = some b' at hstep
  cases hstep
  obtain ⟨decoder, hstate, hbrings, hshards⟩ := h.brings hcoded hused hd
  obtain ⟨-, hcrypt, -, hdecoder, hleft⟩ := Endpoint.fields_feed
    ({ b.session with fecDecoder := decoder } : Endpoint P D) (b.session.packetInput d).2
  have hcarried : Carried a.session.kcp ({ b.session with fecDecoder := decoder } : Endpoint P D).kcp
      a.written (b.returned ++ b.session.leftover) a.numbered log c n := h.carried
  obtain ⟨n', hfed⟩ := Carried.feed hnum hbrings hcarried
  rw [← hstate] at hcrypt hdecoder hleft hfed
  refine ⟨n', h.framed, ?_, hcrypt.trans h.key, ?_, ?_⟩
  · dsimp only
    rw [hleft]
    have hback : b.session.readBack (.packetInput d) = [] := rfl
    rw [hback, List.append_nil]
    exact hfed
  · intro hsome
    obtain ⟨d', hd', hgrouped⟩ := hshards hsome
    exact ⟨d', hdecoder.trans hd', hgrouped⟩
  · exact List.append_subset.mpr ⟨h.handled, hbrings.oobPayloads⟩

end Receiving

end Direction

section Start

variable {O C P D : Type} [Output O] [Clock C] [Output P] [Clock D] {config : SessionConfig}

omit [Output O] [Clock C] in
private theorem fields_of_new {channel : O} {clock : C} {s : Endpoint O C} {p : TxPipeline}
    (hnew : Endpoint.new config channel clock = .ok (s, p)) :
    (∃ mtu, s.kcp = ((Kcp.withClock config.conv channel clock).setMtu mtu).1) ∧
      s.fecDecoder = FecDecoder.new config.dataShards config.parityShards ∧
      s.crypt = config.crypt ∧ s.leftover = [] := by
  unfold Endpoint.new at hnew
  dsimp only at hnew
  split at hnew
  next => cases hnew
  next encoder _ =>
    split at hnew
    next k hmtu =>
      cases hnew
      obtain ⟨-, heq⟩ := Option.ite_none_left_eq_some.mp hmtu
      refine ⟨⟨_, (congrArg Prod.fst (Option.some.inj heq)).symm⟩, rfl, rfl, ?_⟩
      exact List.drop_eq_nil_of_le (List.length_replicate ..).le
    next => cases hnew

omit [Output O] [Clock C] [Output P] [Clock D] in
private theorem reconfigures_setMtu (k : Kcp O C) (mtu : Int) :
    Reconfigures k (k.setMtu mtu).1 := by
  obtain ⟨_, _, heq⟩ := k.setMtu_frame mtu
  rw [heq]
  exact ⟨rfl, rfl, rfl, rfl, rfl, rfl⟩

omit [Output O] [Clock C] [Output P] [Clock D] in
private theorem carried_start (conv : UInt32) (chanA : O) (clockA : C) (chanB : P) (clockB : D)
    (mtuA mtuB : Int) :
    Carried ((Kcp.withClock conv chanA clockA).setMtu mtuA).1
      ((Kcp.withClock conv chanB clockB).setMtu mtuB).1 [] [] 0 [] 0 0 := by
  have hstart : Carried (Kcp.withClock conv chanA clockA) (Kcp.withClock conv chanB clockB) [] [] 0
      [] 0 0 := by
    refine ⟨⟨rfl, Kcp.ok_withClock conv chanA clockA, ?_, ?_, ?_⟩,
      ⟨rfl, le_rfl, le_rfl, ?_, rfl⟩, rfl, rfl, ?_, rfl, rfl⟩
    · simp [Kcp.withClock]
    · simp [Kcp.withClock]
    · simp [Kcp.withClock]
    · simp [Kcp.withClock, Kcp.recvView]
    · simp [Kcp.withClock]
  obtain ⟨_, _, heq⟩ := (Kcp.withClock conv chanB clockB).setMtu_frame mtuB
  have hb := (hstart.reconfigured (reconfigures_setMtu _ mtuA))
  rw [heq]
  exact hb.keep rfl rfl rfl rfl

omit [Output O] [Clock C] in
private theorem exists_coded {channel : O} {clock : C} {s : Endpoint O C} {p : TxPipeline}
    (hnew : Endpoint.new config channel clock = .ok (s, p)) :
    ∃ m, Coded config p.fecEncoder m ∧
      (p.fecEncoder.isSome → ∃ d, FecDecoder.new config.dataShards config.parityShards = some d ∧
        Shards config m [] d) := by
  obtain ⟨-, -, -, -, hencoder⟩ := Endpoint.new_spec hnew
  cases hfec : p.fecEncoder with
  | none =>
    rw [hfec] at hencoder
    exact ⟨.ofFn 0 0 fun _ _ => 0, ⟨hencoder, nofun⟩, fun hsome => absurd hsome (by simp)⟩
  | some e =>
    rw [hfec] at hencoder
    have hcodec := Fec.FecEncoder.codec_of_new hencoder
    obtain ⟨ds, ps, hds, hps, hds1, hps1, hsum⟩ := FecEncoder.new_bounds hencoder
    rw [hds, hps] at hencoder hcodec
    rw [Int.toNat_natCast, Int.toNat_natCast] at hcodec
    obtain ⟨m, hok, -⟩ := FecEncoder.run_of_new hds1 hps1 hsum hencoder []
    obtain ⟨d, m', hdec, hcodec', hcodecd, hgrouped⟩ := Fec.inGroups_new hds1 hps1 hsum
    obtain rfl : m = m' := by
      have hsame : e.codec = d.codec := Except.ok.inj (hcodec.symm.trans hcodecd)
      rw [← hsame] at hcodec'
      exact Option.some.inj (hok.codec_ok.matrix.symm.trans hcodec'.matrix)
    unfold Coded Shards
    rw [hds, hps, Int.toNat_natCast, Int.toNat_natCast]
    refine ⟨m, ⟨hencoder, ?_⟩, fun _ => ⟨d, hdec, hgrouped _ _⟩⟩
    rintro _ ⟨⟩
    exact hok

omit [Output O] [Clock C] [Output P] [Clock D] in
private theorem feeds_start {chanA : O} {clockA : C} {chanB : P} {clockB : D} {a : Endpoint O C}
    {b : Endpoint P D} {p q : TxPipeline} {m : Rs.Matrix}
    (hnewA : Endpoint.new config chanA clockA = .ok (a, p))
    (hnewB : Endpoint.new config chanB clockB = .ok (b, q))
    (hshards : p.fecEncoder.isSome → ∃ d, FecDecoder.new config.dataShards config.parityShards = some d ∧
        Shards config m [] d) :
    Feeds config p.fecEncoder m [] { session := a, tx := p } { session := b, tx := q } [] 0 0 := by
  obtain ⟨hbounded, hcrypt, hheader, hfec, -⟩ := Endpoint.new_spec hnewA
  obtain ⟨⟨mtuA, hkcpA⟩, -⟩ := fields_of_new hnewA
  obtain ⟨⟨mtuB, hkcpB⟩, hdecoder, hkey, hleft⟩ := fields_of_new hnewB
  refine ⟨⟨hbounded, hheader, hfec, hcrypt, ?_, by simp, by simp [Fec.accepted], Nat.zero_le _,
    by simp⟩, ?_, hkey, ?_, List.Subset.refl _⟩
  · cases p.fecEncoder <;> rfl
  · dsimp only
    rw [hkcpA, hkcpB, hleft]
    exact carried_start ..
  · intro hsome
    obtain ⟨d, hd, hgrouped⟩ := hshards hsome
    exact ⟨d, hdecoder.trans hd, hgrouped⟩

end Start

namespace Tunnel

variable {O C P D : Type} [Output O] [Clock C] [Output P] [Clock D] {config : SessionConfig}
  {e₀ : Option FecEncoder} {m : Rs.Matrix} {t t' : Tunnel O C P D}

def Ok (config : SessionConfig) (e₀ : Option FecEncoder) (m : Rs.Matrix) (t : Tunnel O C P D) : Prop :=
  (∃ calls log c n, Feeds config e₀ m calls t.a t.b log c n) ∧
    ∃ calls log c n, Feeds config e₀ m calls t.b t.a log c n

end Tunnel

def Party.Fresh {O C : Type} (config : SessionConfig) (p : Party O C) : Prop :=
  p.numbered < 4294967296 ∧
    numbersUsed config.dataShards.toNat config.parityShards.toNat p.encoded < 2147483648

private theorem Party.Fresh.before {O C : Type} [Output O] [Clock C] {config : SessionConfig}
    {p p' : Party O C} {event : Party.Event} (hstep : p.step event = some p')
    (h : p'.Fresh config) : p.Fresh config := by
  have hle : p.numbered ≤ p'.numbered ∧ p.encoded ≤ p'.encoded := by
    cases event with
    | op op room stale =>
      obtain ⟨s, -, rfl⟩ := Option.map_eq_some_iff.mp hstep
      exact ⟨Nat.le_add_right _ _, le_rfl⟩
    | sendOob payload room stale =>
      unfold Party.step at hstep
      dsimp only at hstep
      split at hstep <;>
      · cases hstep
        exact ⟨le_rfl, le_rfl⟩
    | transmit now dup entropy =>
      unfold Party.step at hstep
      dsimp only at hstep
      split at hstep
      · cases hstep
        exact ⟨le_rfl, le_rfl⟩
      · cases hstep
        exact ⟨le_rfl, Nat.le_add_right _ _⟩
  exact ⟨lt_of_le_of_lt hle.1 h.1, lt_of_le_of_lt (numbersUsed_mono hle.2) h.2⟩

namespace Tunnel

variable {O C P D : Type} [Output O] [Clock C] [Output P] [Clock D] {config : SessionConfig}
  {e₀ : Option FecEncoder} {m : Rs.Matrix} {t t' : Tunnel O C P D}

private theorem fresh_before {event : Event} (hstep : t.step event = some t')
    (h : t'.a.Fresh config ∧ t'.b.Fresh config) : t.a.Fresh config ∧ t.b.Fresh config := by
  cases event with
  | atA event =>
    obtain ⟨a, ha, rfl⟩ := Option.map_eq_some_iff.mp hstep
    exact ⟨h.1.before ha, h.2⟩
  | atB event =>
    obtain ⟨b, hb, rfl⟩ := Option.map_eq_some_iff.mp hstep
    exact ⟨h.1, h.2.before hb⟩
  | toA i room stale =>
    unfold step at hstep
    dsimp only at hstep
    split at hstep
    · cases hstep
      exact h
    · obtain ⟨a, ha, rfl⟩ := Option.map_eq_some_iff.mp hstep
      exact ⟨h.1.before ha, h.2⟩
  | toB i room stale =>
    unfold step at hstep
    dsimp only at hstep
    split at hstep
    · cases hstep
      exact h
    · obtain ⟨b, hb, rfl⟩ := Option.map_eq_some_iff.mp hstep
      exact ⟨h.1, h.2.before hb⟩

private theorem Ok.step (hlawful : ∀ c ∈ config.crypt, c.Lawful) (hcoded : Coded config e₀ m)
    (h : t.Ok config e₀ m) {event : Event} (hallowed : event.Allowed)
    (hstep : t.step event = some t') (hfresh : t'.a.Fresh config ∧ t'.b.Fresh config) :
    t'.Ok config e₀ m := by
  obtain ⟨⟨calls, log, c, n, hab⟩, ⟨calls', log', c', n', hba⟩⟩ := h
  cases event with
  | atA event =>
    obtain ⟨a, ha, rfl⟩ := Option.map_eq_some_iff.mp hstep
    obtain ⟨calls₁, log₁, hab₁⟩ := hab.sender hlawful hcoded ha hfresh.1.1
    obtain ⟨c₁, n₁, hba₁⟩ := hba.receiver hfresh.2.1 hab.framed.bounded.one_le_mss hallowed ha
    exact ⟨⟨_, _, _, _, hab₁⟩, ⟨_, _, _, _, hba₁⟩⟩
  | atB event =>
    obtain ⟨b, hb, rfl⟩ := Option.map_eq_some_iff.mp hstep
    obtain ⟨calls₁, log₁, hba₁⟩ := hba.sender hlawful hcoded hb hfresh.2.1
    obtain ⟨c₁, n₁, hab₁⟩ := hab.receiver hfresh.1.1 hba.framed.bounded.one_le_mss hallowed hb
    exact ⟨⟨_, _, _, _, hab₁⟩, ⟨_, _, _, _, hba₁⟩⟩
  | toA i room stale =>
    unfold Tunnel.step at hstep
    dsimp only at hstep
    split at hstep
    next =>
      cases hstep
      exact ⟨⟨_, _, _, _, hab⟩, ⟨_, _, _, _, hba⟩⟩
    next d hd =>
      obtain ⟨a, ha, rfl⟩ := Option.map_eq_some_iff.mp hstep
      obtain ⟨calls₁, log₁, hab₁⟩ := hab.sender hlawful hcoded ha hfresh.1.1
      obtain ⟨n₁, hba₁⟩ := hba.deliver hcoded hfresh.2.1 hfresh.2.2 (List.mem_of_getElem? hd) ha
      exact ⟨⟨_, _, _, _, hab₁⟩, ⟨_, _, _, _, hba₁⟩⟩
  | toB i room stale =>
    unfold Tunnel.step at hstep
    dsimp only at hstep
    split at hstep
    next =>
      cases hstep
      exact ⟨⟨_, _, _, _, hab⟩, ⟨_, _, _, _, hba⟩⟩
    next d hd =>
      obtain ⟨b, hb, rfl⟩ := Option.map_eq_some_iff.mp hstep
      obtain ⟨calls₁, log₁, hba₁⟩ := hba.sender hlawful hcoded hb hfresh.2.1
      obtain ⟨n₁, hab₁⟩ := hab.deliver hcoded hfresh.1.1 hfresh.1.2 (List.mem_of_getElem? hd) hb
      exact ⟨⟨_, _, _, _, hab₁⟩, ⟨_, _, _, _, hba₁⟩⟩

end Tunnel

section Runs

variable {O C P D : Type} [Output O] [Clock C] [Output P] [Clock D] {config : SessionConfig}

omit [Output O] [Clock C] [Output P] [Clock D] in
theorem Feeds.returned_prefix {e₀ : Option FecEncoder} {m : Rs.Matrix} {calls : List Fec.Call}
    {a : Party O C} {b : Party P D} {log : List Entry} {c n : ℕ}
    (h : Feeds config e₀ m calls a b log c n) : b.returned <+: a.written :=
  (List.prefix_append _ _).trans h.carried.prefix

theorem tunnel_run (hlawful : ∀ c ∈ config.crypt, c.Lawful) {chanA : O} {clockA : C}
    {chanB : P} {clockB : D} {a : Endpoint O C} {b : Endpoint P D} {p q : TxPipeline}
    (hnewA : Endpoint.new config chanA clockA = .ok (a, p))
    (hnewB : Endpoint.new config chanB clockB = .ok (b, q)) {events : List Tunnel.Event}
    (hallowed : ∀ event ∈ events, event.Allowed) {t : Tunnel O C P D}
    (hrun : exec Tunnel.step ⟨{ session := a, tx := p }, { session := b, tx := q }⟩ events = some t)
    (hfresh : t.a.Fresh config ∧ t.b.Fresh config) : ∃ m, t.Ok config p.fecEncoder m := by
  obtain ⟨m, hcoded, hshards⟩ := exists_coded hnewA
  have hsame : q.fecEncoder = p.fecEncoder := by
    obtain ⟨-, -, -, -, hencoderA⟩ := Endpoint.new_spec hnewA
    obtain ⟨-, -, -, -, hencoderB⟩ := Endpoint.new_spec hnewB
    exact Except.ok.inj (hencoderB.symm.trans hencoderA)
  have hstart : Tunnel.Ok config p.fecEncoder m
      (⟨{ session := a, tx := p }, { session := b, tx := q }⟩ : Tunnel O C P D) := by
    refine ⟨⟨_, _, _, _, feeds_start hnewA hnewB hshards⟩, ⟨[], [], 0, 0, ?_⟩⟩
    rw [← hsame] at hshards ⊢
    exact feeds_start hnewB hnewA hshards
  exact ⟨m, exec_invariant_within (Tunnel.Ok config p.fecEncoder m)
    (fun t : Tunnel O C P D => t.a.Fresh config ∧ t.b.Fresh config) Tunnel.Event.Allowed
    (fun _ _ _ hstep => Tunnel.fresh_before hstep)
    (fun _ _ _ hok hev hstep => hok.step hlawful hcoded hev hstep) hallowed hstart hrun hfresh⟩

end Runs

/-- Two sessions of one configuration over a network that hands over any datagram of the other side,
in any order, any number of times, late or never, while both applications read, write, send
out-of-band payloads and change settings, and the tx tasks add parity shards and copies. As long as
neither side has run through its segment or shard numbers, in both directions the bytes that were
read are the first ones of those that were written, and every out-of-band payload that was handed
over is one that the other side sent. -/
theorem tunnel_delivery {O C P D : Type} [Output O] [Clock C] [Output P] [Clock D]
    {config : SessionConfig} (hlawful : ∀ c ∈ config.crypt, c.Lawful) {chanA : O} {clockA : C}
    {chanB : P} {clockB : D} {a : Endpoint O C} {b : Endpoint P D} {p q : TxPipeline}
    (hnewA : Endpoint.new config chanA clockA = .ok (a, p))
    (hnewB : Endpoint.new config chanB clockB = .ok (b, q)) {events : List Tunnel.Event}
    (hallowed : ∀ event ∈ events, event.Allowed) {t : Tunnel O C P D}
    (hrun : exec Tunnel.step ⟨{ session := a, tx := p }, { session := b, tx := q }⟩ events = some t)
    (hfresh : t.a.Fresh config ∧ t.b.Fresh config) :
    t.b.returned <+: t.a.written ∧ t.a.returned <+: t.b.written ∧
      t.b.handled ⊆ t.a.offered ∧ t.a.handled ⊆ t.b.offered := by
  obtain ⟨m, ⟨_, _, _, _, hab⟩, ⟨_, _, _, _, hba⟩⟩ :=
    tunnel_run hlawful hnewA hnewB hallowed hrun hfresh
  exact ⟨hab.returned_prefix, hba.returned_prefix, hab.handled, hba.handled⟩

theorem eq_ok_of_toOption {ε α : Type} {x : Except ε α} {a : α} (h : x.toOption = some a) :
    x = .ok a := by
  cases x with
  | error e => cases h
  | ok b => exact congrArg Except.ok (Option.some.inj h)

/-- Of the second data packet only the parity packet arrives, twice. -/
def parityTwice : List Tunnel.Event :=
  let room := fun _ : ℕ => true
  let stale := fun _ _ : ℕ => (0 : UInt8)
  [.atA (.op (.setNoDelay 1 10 2 1) room stale), .atA (.op (.write [[1, 2, 3]]) room stale),
    .atA (.op (.write [[4]]) room stale), .atA (.transmit 0 0 stale), .atA (.transmit 0 0 stale),
    .toB 0 room stale, .toB 2 room stale, .toB 2 room stale, .atB (.op (.read 9) room stale),
    .atB (.op (.read 9) room stale)]

theorem tunnel_delivery_parity : ∃ (a : Endpoint Unbounded VirtualClock) (p : TxPipeline)
    (t : Tunnel Unbounded VirtualClock Unbounded VirtualClock),
    Endpoint.new protectedConfig ⟨⟩ ⟨0⟩ = .ok (a, p) ∧
      exec Tunnel.step ⟨{ session := a, tx := p }, { session := a, tx := p }⟩ parityTwice = some t ∧
      t.b.returned = [1, 2, 3, 4] ∧ t.b.returned <+: t.a.written := by
  have hout : ((Endpoint.new protectedConfig ⟨⟩ ⟨0⟩ : Except SessionError
        (Endpoint Unbounded VirtualClock × TxPipeline)).toOption.bind fun s =>
      (exec Tunnel.step ⟨{ session := s.1, tx := s.2 }, { session := s.1, tx := s.2 }⟩
        parityTwice).map fun t =>
        (t.b.returned, t.a.numbered, t.a.encoded, t.b.numbered, t.b.encoded)) =
      some ([1, 2, 3, 4], 2, 2, 0, 0) := by decide +kernel
  obtain ⟨⟨a, p⟩, hnew, hout⟩ := Option.bind_eq_some_iff.mp hout
  obtain ⟨t, hrun, hout⟩ := Option.map_eq_some_iff.mp hout
  simp only [Prod.mk.injEq] at hout
  obtain ⟨hreturned, hnumbered, hencoded, hnumbered', hencoded'⟩ := hout
  have hnew := eq_ok_of_toOption hnew
  have hlawful : ∀ c ∈ protectedConfig.crypt, c.Lawful := by
    rintro _ ⟨⟩
    exact lawful_tagOnly
  have hallowed : ∀ event ∈ parityTwice, event.Allowed := by
    simp [parityTwice, Tunnel.Event.Allowed, Party.Event.Own, Endpoint.Op.Own]
  have hfresh : t.a.Fresh protectedConfig ∧ t.b.Fresh protectedConfig := by
    unfold Party.Fresh
    rw [hnumbered, hencoded, hnumbered', hencoded']
    decide
  exact ⟨a, p, t, hnew, hrun, hreturned,
    (tunnel_delivery hlawful hnew hnew hallowed hrun hfresh).1⟩

end Kcptun.Session
