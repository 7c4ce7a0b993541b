/- Kcptun/Session/RoundTrip
   source: crates/kcp/src/tx.rs (process, seal), crates/kcp/src/session.rs (packet_input, kcp_input,
     decrypt)
   digest: A packet of the connection goes through encoder and cipher and comes out of the peer's
     input path as the same bytes, once, whatever the crypt mode and with or without FEC. -/

import Kcptun.Session.SizeBound

set_option autoImplicit false
set_option relaxedAutoImplicit false

namespace Kcptun.Session

open Kcptun.Arq Kcptun.Lib Kcptun.Lib.LittleEndian
open Kcptun.Fec (MTU_LIMIT FecDecoder TYPE_DATA TYPE_PARITY TYPE_OOB fecFlag fecHeader)

variable {O C : Type} [Output O] [Clock C]

private theorem lo_ofLe16 (a b : UInt8) : (ofLe16 a b).toNat % 256 = a.toNat := by
  have ha := a.toNat_lt
  have hb := b.toNat_lt
  simp only [ofLe16, UInt16.toNat_ofNat']
  omega

/-- A packet that is not empty starts with a whole segment header, and its command is none of the
FEC types. -/
theorem IsPacket.regular {b : Bytes} (h : IsPacket b) (hne : b ≠ []) :
    IKCP_OVERHEAD ≤ b.length ∧
      fecFlag b ≠ TYPE_DATA ∧ fecFlag b ≠ TYPE_PARITY ∧ fecFlag b ≠ TYPE_OOB := by
  obtain ⟨segs, rfl, hcmd⟩ := h
  cases segs with
  | nil => exact absurd rfl hne
  | cons seg segs =>
    have hpacket : packet (seg :: segs) = seg.encode ++ (seg.data ++ packet segs) := by
      simp [packet, Segment.wire]
    have hflag : fecFlag (packet (seg :: segs)) = ofLe16 seg.cmd seg.frg := by
      rw [hpacket]
      rfl
    have hlow : (fecFlag (packet (seg :: segs))).toNat % 256 = seg.cmd.toNat := by
      rw [hflag, lo_ofLe16]
    constructor
    · rw [hpacket, List.length_append, length_encode]
      omega
    · have hne (t : UInt16) (ht : 0xf1 ≤ t.toNat % 256) : fecFlag (packet (seg :: segs)) ≠ t := by
        rintro rfl
        rw [hlow] at ht
        rcases hcmd seg (List.mem_cons_self ..) with hc | hc | hc | hc <;> rw [hc] at ht <;>
          exact absurd ht (by decide)
      exact ⟨hne _ (by decide), hne _ (by decide), hne _ (by decide)⟩

namespace Endpoint

/-- A packet the FEC decoder hands over: a shard it repaired, marked as such. -/
def Repairs (s : Endpoint O C) (data : Bytes) (e : Effect) : Prop :=
  ∃ decoder ∈ s.fecDecoder.or (FecDecoder.new 1 1), ∃ r ∈ (decoder.decode data).2,
    recovered r = some e ∧ ∃ payload, e = .input payload .fec

omit [Output O] [Clock C] in
private theorem repairs_of_mem {s : Endpoint O C} {data : Bytes} {decoder : FecDecoder}
    (hdecoder : s.fecDecoder.or (FecDecoder.new 1 1) = some decoder) {e : Effect}
    (he : e ∈ (decoder.decode data).2.filterMap recovered) : s.Repairs data e := by
  obtain ⟨r, hr, hrec⟩ := List.mem_filterMap.mp he
  refine ⟨decoder, hdecoder, r, hr, hrec, ?_⟩
  simp only [recovered] at hrec
  split_ifs at hrec
  cases hrec
  exact ⟨_, rfl⟩

private theorem feed_setDecoder (s : Endpoint O C) (decoder : Option FecDecoder)
    (effects : List Effect) :
    (({ s with fecDecoder := decoder } : Endpoint O C).feed effects).kcp = (s.feed effects).kcp := by
  have hgen (t : Endpoint O C) (hkcp : t.kcp = s.kcp) (hack : t.ackNoDelay = s.ackNoDelay) :
      (t.feed effects).kcp = (s.feed effects).kcp := by
    induction effects generalizing s t with
    | nil => exact hkcp
    | cons effect effects ih =>
      cases effect with
      | input data pktType =>
        refine ih _ _ ?_ hack
        show (t.kcp.input data pktType t.ackNoDelay).1 = (s.kcp.input data pktType s.ackNoDelay).1
        rw [hkcp, hack]
      | oob payload => exact ih _ _ hkcp hack
  exact hgen _ rfl rfl

theorem kcpInput_regular (s : Endpoint O C) {b : Bytes} (hlen : IKCP_OVERHEAD ≤ b.length)
    (hdata : fecFlag b ≠ TYPE_DATA) (hparity : fecFlag b ≠ TYPE_PARITY) (hoob : fecFlag b ≠ TYPE_OOB) :
    s.kcpInput b = (s.feed [.input b .regular], [.input b .regular]) := by
  unfold IKCP_OVERHEAD at hlen
  unfold kcpInput
  rw [if_neg (by omega), if_neg (by tauto), if_neg hoob]

/-- The input switch on a data packet: its payload goes to KCP first, then what the decoder could
repair. -/
theorem kcpInput_data (s : Endpoint O C) (seqid : UInt32) (size : UInt16) (b : Bytes) :
    let data := fecHeader seqid TYPE_DATA ++ le16 size ++ b
    ∃ repairs, (s.kcpInput data).2 = .input b .regular :: repairs ∧
      (s.kcpInput data).1.kcp = (s.feed (.input b .regular :: repairs)).kcp ∧
      ∀ e ∈ repairs, s.Repairs data e := by
  intro data
  have hdata : data = fecHeader seqid TYPE_DATA ++ le16 size ++ b := rfl
  have hflag : fecFlag data = TYPE_DATA := by
    rw [hdata, List.append_assoc, Fec.fecFlag_fecHeader]
  have hlen : data.length = 8 + b.length := by
    rw [hdata]
    simp only [List.length_append, Fec.length_fecHeader, length_le16]
  have hdrop : data.drop FEC_HEADER_SIZE_PLUS2 = b := by
    rw [hdata]
    rfl
  unfold kcpInput FEC_HEADER_SIZE_PLUS2 at *
  rw [if_neg (by omega), if_pos (.inl hflag), if_neg (by omega)]
  simp only [hflag, if_true, hdrop]
  cases hdecoder : s.fecDecoder.or (FecDecoder.new 1 1) with
  | none => exact ⟨[], rfl, rfl, fun e he => by cases he⟩
  | some decoder =>
    exact ⟨_, rfl, feed_setDecoder s _ _, fun e he => repairs_of_mem hdecoder he⟩

private theorem kcpInput_parity (s : Endpoint O C) {data rest : Bytes} {seqid : UInt32}
    (hdata : data = fecHeader seqid TYPE_PARITY ++ rest) :
    ∀ e ∈ (s.kcpInput data).2, s.Repairs data e := by
  have hflag : fecFlag data = TYPE_PARITY := by
    rw [hdata, Fec.fecFlag_fecHeader]
  have hne : TYPE_PARITY ≠ TYPE_DATA := by decide
  intro e he
  unfold kcpInput at he
  simp only [hflag, hne, or_true, if_true, if_false] at he
  split_ifs at he
  · cases he
  · cases he
  · cases hdecoder : s.fecDecoder.or (FecDecoder.new 1 1) with
    | none =>
      rw [hdecoder] at he
      cases he
    | some decoder =>
      rw [hdecoder] at he
      exact repairs_of_mem hdecoder he

theorem packetInput_of_decrypt (s : Endpoint O C) {datagram data : Bytes}
    (hdecrypt : decrypt s.crypt datagram = some data) (hlen : MIN_PACKET_SIZE ≤ data.length) :
    s.packetInput datagram = s.kcpInput data := by
  unfold packetInput
  rw [hdecrypt]
  exact if_neg (Nat.not_lt.mpr hlen)

private theorem packetInput_parity (s : Endpoint O C) {datagram rest : Bytes} {seqid : UInt32}
    (hdecrypt : decrypt s.crypt datagram = some (fecHeader seqid TYPE_PARITY ++ rest)) :
    ∀ e ∈ (s.packetInput datagram).2, s.Repairs (fecHeader seqid TYPE_PARITY ++ rest) e := by
  unfold packetInput
  rw [hdecrypt]
  dsimp only
  split_ifs
  · intro e he
    cases he
  · exact s.kcpInput_parity rfl

end Endpoint

private theorem exists_left_of_forall₂ {α β : Type} {R : α → β → Prop} {l : List α} {l' : List β}
    (h : List.Forall₂ R l l') {b : β} (hb : b ∈ l') : ∃ a ∈ l, R a b := by
  induction h with
  | nil => cases hb
  | cons hab _ ih =>
    rcases List.mem_cons.mp hb with rfl | hb
    · exact ⟨_, List.mem_cons_self .., hab⟩
    · obtain ⟨a, ha, hr⟩ := ih hb
      exact ⟨a, List.mem_cons_of_mem _ ha, hr⟩

private theorem decrypt_all {crypt : Option PacketCrypt} (hlawful : ∀ c ∈ crypt, c.Lawful)
    {packets datagrams : List Bytes}
    (hseal : List.Forall₂ (fun b d => ∃ nonce, sealPacket crypt nonce b = some d) packets datagrams) :
    List.Forall₂ (fun b d => decrypt crypt d = some b)
      (packets.map (List.drop (cryptHeaderSize crypt))) datagrams := by
  induction hseal with
  | nil => exact .nil
  | cons hd _ ih =>
    obtain ⟨nonce, hd⟩ := hd
    exact .cons (decrypt_sealPacket hlawful hd) ih

def RequestsOf (s : Endpoint O C) (ops : List Endpoint.Op) (jobs : List Job) : Prop :=
  ∀ job ∈ jobs, ∃ pre before, pre <+: ops ∧ exec Endpoint.step s pre = some before ∧
    before.Requests job.request

private theorem TxPipeline.ok_run {config : SessionConfig} {channel : O} {clock : C}
    {s : Endpoint O C} {p : TxPipeline} (hnew : Endpoint.new config channel clock = .ok (s, p))
    {ops : List Endpoint.Op} {jobs : List Job} (hjobs : RequestsOf s ops jobs) :
    (run TxPipeline.step p jobs).1.Ok config.crypt p.fecEncoder.isSome := by
  obtain ⟨-, hcrypt, -, -, hencoder⟩ := Endpoint.new_spec hnew
  refine ((TxPipeline.ok_new hcrypt hencoder).run ?_).1
  intro job hjob
  obtain ⟨pre, before, -, hbefore, hrequest⟩ := hjobs job hjob
  exact Endpoint.request_fits hnew hbefore hrequest

omit [Output O] [Clock C] in
private theorem output_spec {headerSize : ℕ} (stale : ℕ → UInt8) {b : Bytes}
    (hbig : IKCP_OVERHEAD ≤ b.length) (hfits : headerSize + b.length ≤ MTU_LIMIT) :
    ∃ request, output headerSize stale b = some request ∧
      request.buffer.length = headerSize + b.length ∧ request.oob = false ∧
      request.buffer.drop headerSize = b := by
  refine ⟨⟨(List.range headerSize).map stale ++ b, false⟩, ?_, by simp, rfl,
    List.drop_left' (by simp)⟩
  unfold output
  rw [if_neg (by omega), if_neg (by omega)]

/-- Every packet that the connection of a session hands over, in any run and whatever the tx task
worked on before: the callback queues it, the tx task queues one datagram for it, with the copies
and the parity packets behind, and any peer with the same key feeds exactly these bytes to KCP as a
regular packet, once; what else the datagram sets off are repaired packets. Without FEC nothing else
happens. Parity packets set off repairs only. (A flush also hands over an empty buffer when a segment
is longer than a lowered mtu; that is no packet, and the callback drops it.) -/
theorem wire_round_trip {P D : Type} [Output P] [Clock D] {config : SessionConfig} {channel : O}
    {clock : C} {s s' : Endpoint O C} {p : TxPipeline} (hlawful : ∀ c ∈ config.crypt, c.Lawful)
    (hnew : Endpoint.new config channel clock = .ok (s, p)) {ops : List Endpoint.Op}
    (hrun : exec Endpoint.step s ops = some s') {jobs : List Job} (hjobs : RequestsOf s ops jobs)
    {b : Bytes} (hb : b ∈ s'.kcp.output.sent) (hne : b ≠ []) (stale : ℕ → UInt8) (now : Int)
    (dup : ℕ) (entropy : ℕ → ℕ → UInt8) :
    ∃ request first parity, output s.headerSize stale b = some request ∧
      ((run TxPipeline.step p jobs).1.process request now dup entropy).2 =
        .ok (first :: (List.replicate dup first ++ parity)) ∧
      ∀ peer : Endpoint P D, peer.crypt = config.crypt →
        (∃ data repairs, decrypt config.crypt first = some data ∧
          (peer.packetInput first).2 = .input b .regular :: repairs ∧
          (peer.packetInput first).1.kcp = (peer.feed (.input b .regular :: repairs)).kcp ∧
          (∀ e ∈ repairs, peer.Repairs data e) ∧
          (p.fecEncoder = none → data = b ∧ repairs = [] ∧
            fecFlag data ≠ TYPE_DATA ∧ fecFlag data ≠ TYPE_PARITY ∧ fecFlag data ≠ TYPE_OOB)) ∧
        ∀ q ∈ parity, ∃ data, decrypt config.crypt q = some data ∧ fecFlag data = TYPE_PARITY ∧
          ∀ e ∈ (peer.packetInput q).2, peer.Repairs data e := by
  have hbounded := Endpoint.bounded_run hnew hrun
  obtain ⟨-, -, hheader, -, -⟩ := Endpoint.new_spec hnew
  obtain ⟨hlen, hpacket⟩ := hbounded.sized.sent b hb
  obtain ⟨hbig, hdata, hparity, hoob⟩ := IsPacket.regular hpacket hne
  have hlow := hbounded.sized.low
  have hmtu := hbounded.sized.mtu
  unfold roomFor at hlen hmtu
  obtain ⟨request, hout, hreq, hkind, hcut⟩ := output_spec stale hbig
    (show s.headerSize + b.length ≤ MTU_LIMIT by omega)
  have hfits : Endpoint.Fits config.crypt p.fecEncoder.isSome request := by
    unfold Endpoint.Fits
    rw [← hheader]
    omega
  obtain ⟨p', packets, datagrams, hprocess, -, hframing, hseal⟩ :=
    (TxPipeline.ok_run hnew hjobs).process hfits now dup entropy
  have hopen := decrypt_all hlawful hseal
  unfold TxPipeline.Framing at hframing
  dsimp only at hframing
  rw [hkind] at hframing
  refine ⟨request, ?_⟩
  cases hfec : p.fecEncoder.isSome with
  | false =>
    -- no FEC header: the payload of the datagram is the packet itself
    rw [hfec] at hframing hheader
    rw [if_pos rfl] at hframing
    have hhead : cryptHeaderSize config.crypt = s.headerSize := by rw [hheader]; rfl
    rw [hframing, hhead, hcut] at hopen
    obtain ⟨first, others, hfirst, hothers, rfl⟩ := List.forall₂_cons_left_iff.mp hopen
    cases List.forall₂_nil_left_iff.mp hothers
    refine ⟨first, [], hout, by rw [hprocess]; rfl, fun peer hkey => ⟨?_, by simp⟩⟩
    have hinput : peer.packetInput first = (peer.feed [.input b .regular], [.input b .regular]) := by
      rw [peer.packetInput_of_decrypt (by rw [hkey]; exact hfirst) (le_trans (by decide) hbig),
        peer.kcpInput_regular hbig hdata hparity hoob]
    exact ⟨b, [], hfirst, by rw [hinput], by rw [hinput], by simp,
      fun _ => ⟨rfl, rfl, hdata, hparity, hoob⟩⟩
  | true =>
    have hon : p.fecEncoder ≠ none := by
      intro hnone
      rw [hnone] at hfec
      cases hfec
    rw [hfec] at hframing hheader
    rw [if_neg (by decide), if_neg (by decide)] at hframing
    obtain ⟨seqid, size, shards, hmap, hshards⟩ := hframing
    have hhead : cryptHeaderSize config.crypt + FEC_HEADER_SIZE_PLUS2 = s.headerSize := by
      rw [hheader]
      rfl
    rw [hmap, hhead, hcut] at hopen
    obtain ⟨first, parity, hfirst, hrest, rfl⟩ := List.forall₂_cons_left_iff.mp hopen
    refine ⟨first, parity, hout, by rw [hprocess]; rfl, fun peer hkey => ⟨?_, ?_⟩⟩
    · obtain ⟨repairs, heffects, hkcp, hrepairs⟩ := peer.kcpInput_data seqid size b
      have hlen : MIN_PACKET_SIZE ≤ (fecHeader seqid TYPE_DATA ++ le16 size ++ b).length := by
        rw [List.length_append]
        exact le_trans (le_trans (by decide) hbig) (Nat.le_add_left ..)
      have hinput := peer.packetInput_of_decrypt (by rw [hkey]; exact hfirst) hlen
      rw [hinput]
      exact ⟨_, repairs, hfirst, heffects, hkcp, hrepairs, fun hnone => absurd hnone hon⟩
    · intro q hq
      obtain ⟨data, hmem, hopen⟩ := exists_left_of_forall₂ hrest hq
      obtain ⟨seqid, rest, rfl⟩ := hshards data hmem
      exact ⟨_, hopen, Fec.fecFlag_fecHeader .., peer.packetInput_parity (by rw [hkey]; exact hopen)⟩

theorem lawful_tagOnly : (PacketCrypt.aead tagOnly).Lawful := by
  intro nonce plaintext
  simp [tagOnly, AEAD_OVERHEAD]

def protectedConfig : SessionConfig := ⟨7, 1, 1, some (.aead tagOnly)⟩

/-- With one parity packet for each data packet and a tag: the packet of three bytes arrives at a peer
that has seen nothing yet. -/
theorem wire_round_trip_protected : ∃ (s s' : Endpoint Unbounded VirtualClock) (p : TxPipeline)
    (b first : Bytes) (repairs : List Effect),
    Endpoint.new protectedConfig ⟨⟩ ⟨0⟩ = .ok (s, p) ∧
      exec Endpoint.step s [.write [[1, 2, 3]], .update] = some s' ∧
      p.fecEncoder.isSome ∧ s'.kcp.output.sent = [b] ∧ b.length = 27 ∧
      (s.packetInput first).2 = .input b .regular :: repairs := by
  obtain ⟨s, s', p, b, hnew, hrun, hfec, hsent, hlen, hcrypt⟩ :
      ∃ (s s' : Endpoint Unbounded VirtualClock) (p : TxPipeline) (b : Bytes),
        Endpoint.new protectedConfig ⟨⟩ ⟨0⟩ = .ok (s, p) ∧
        exec Endpoint.step s [.write [[1, 2, 3]], .update] = some s' ∧
        p.fecEncoder.isSome ∧ s'.kcp.output.sent = [b] ∧ b.length = 27 ∧
        s.crypt = protectedConfig.crypt :=
    ⟨_, _, _, _, rfl, rfl, by decide +kernel, rfl, by decide +kernel, rfl⟩
  have hlawful : ∀ c ∈ protectedConfig.crypt, c.Lawful := by
    rintro _ ⟨⟩
    exact lawful_tagOnly
  have hne : b ≠ [] := List.ne_nil_of_length_pos (by omega)
  have hmem : b ∈ s'.kcp.output.sent := by
    rw [hsent]
    exact List.mem_singleton_self b
  have hjobs : RequestsOf s [.write [[1, 2, 3]], .update] [] := fun job hjob => by cases hjob
  obtain ⟨request, first, parity, -, -, hpeer⟩ := wire_round_trip (P := Unbounded)
    (D := VirtualClock) hlawful hnew hrun hjobs hmem hne (fun _ => 0) 0 0 (fun _ _ => 0)
  obtain ⟨⟨data, repairs, -, hinput, -⟩, -⟩ := hpeer s hcrypt
  exact ⟨s, s', p, b, first, repairs, hnew, hrun, hfec, hsent, hlen, hinput⟩

end Kcptun.Session
