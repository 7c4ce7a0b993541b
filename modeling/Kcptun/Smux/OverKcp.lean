/- Kcptun/Smux/OverKcp
   source: crates/client/src/main.rs (serve, dial), crates/server/src/main.rs (handle_mux),
     crates/std/src/comp.rs (CompStream), crates/std/src/qpp.rs (QppStream)
   digest: The layers put together: streams of a session over compressed or plain bytes over a KCP
     session over a network that drops, repeats, delays and reorders datagrams. -/

import Kcptun.Qpp.Stream
import Kcptun.Session.Tunnel
import Kcptun.Smux.StreamDelivery
import Kcptun.Snappy.CutOff

set_option autoImplicit false
set_option relaxedAutoImplicit false

namespace Kcptun.Smux.OverKcp

open Kcptun.Arq Kcptun.Lib Kcptun.Smux.Multiplex
open Kcptun.Lib.LittleEndian
open Kcptun.Qpp (Primitives QuantumPermutationPad Port createPrng)
open Kcptun.Session (Endpoint SessionConfig Tunnel TxPipeline)
open Kcptun.Snappy (Brings Delivers Snap WriteCall Writer Wire reads writes)

/-! The connection of a session: a KCP session, or a compressing stream over one. -/

def okBytes (outs : List (Except Snappy.IoError Bytes)) : Bytes :=
  outs.flatMap fun out => out.toOption.getD []

/-- `written` went into the KCP session of a connection that was given `given`. -/
def Lowered (comp : Option Snap) (given written : Bytes) : Prop :=
  match comp with
  | none => written <+: given
  | some snap => ∃ (outcomes : List (Option (ℕ × Snappy.IoError))) (calls : List WriteCall)
      (results : List (Except Snappy.IoError Unit)) (w : Writer) (wire : Wire),
      writes snap .new ⟨[], outcomes⟩ calls = some (results, w, wire) ∧
        calls.flatMap WriteCall.data <+: given ∧ written <+: wire.bytes

/-- `arrived` came out of a connection whose KCP session returned `returned`, possibly more than its
compressing stream has asked for. -/
def Raised (comp : Option Snap) (returned arrived : Bytes) : Prop :=
  match comp with
  | none => arrived <+: returned
  | some snap => ∃ (conn : List Snappy.Arrival) (front : Bytes) (why : Option Snappy.IoError)
      (sizes : List ℕ) (outs : List (Except Snappy.IoError Bytes)),
      front <+: returned ∧ Brings conn front why ∧ reads snap .new conn sizes = some outs ∧
        arrived <+: okBytes outs

/-- The block codec of a connection that compresses does what its documentation promises. -/
def Sound (comp : Option Snap) : Prop := ∀ snap ∈ comp, snap.Lawful ∧ snap.Exact

private theorem okBytes_delivers {verdict : Snappy.Sticky} {data : Bytes} {sizes : List ℕ}
    {outs : List (Except Snappy.IoError Bytes)} (h : Delivers verdict.result data sizes outs) :
    okBytes outs <+: data := by
  have hstop : verdict.result.toOption.getD [] = [] := by cases verdict <;> rfl
  induction h with
  | done data => exact List.nil_prefix
  | serves _ _ _ _ ih => exact (List.prefix_append_right_inj _).mpr ih
  | stopped _ ih =>
    unfold okBytes at ih ⊢
    rw [List.flatMap_cons, hstop, List.nil_append]
    exact ih

private theorem raised_prefix {comp : Option Snap} (hsound : Sound comp)
    {given written returned arrived : Bytes} (hlowered : Lowered comp given written)
    (hcarried : returned <+: written) (hraised : Raised comp returned arrived) :
    arrived <+: given := by
  cases comp with
  | none => exact (hraised.trans hcarried).trans hlowered
  | some snap =>
    obtain ⟨hlawful, hexact⟩ := hsound snap rfl
    obtain ⟨outcomes, calls, results, w, wire, hwrites, hcalls, hwritten⟩ := hlowered
    obtain ⟨conn, front, why, sizes, outs, hfront, hbrings, hreads, harrived⟩ := hraised
    obtain ⟨r, blocks, cut, hwrites', hsent, hpre, -⟩ :=
      (Snappy.sent_new snap outcomes).writes hlawful calls
    obtain rfl := Option.some.inj (hwrites.symm.trans hwrites')
    rw [List.nil_append] at hsent
    have hwire : front <+: Snappy.encode snap (blocks ++ cut) :=
      ((hfront.trans hcarried).trans hwritten).trans hsent.bytes
    obtain ⟨items, after, hstream, hstops⟩ := hbrings.stream
    obtain ⟨taken, hdecodes, htaken, -⟩ :=
      Snappy.decodes_cut_wire hlawful (fun p hp => (hsent.small p hp).2) hwire hstops
    rw [← hstream] at hdecodes
    obtain ⟨outs', hreads', hdelivers⟩ :=
      Snappy.reads_delivers hexact sizes (.inl (Snappy.pending_new hdecodes))
    obtain rfl := Option.some.inj (hreads.symm.trans hreads')
    have hdelivered := harrived.trans (okBytes_delivers hdelivers)
    exact ((hdelivered.trans htaken.flatten).trans (hpre rfl)).trans hcalls

/-! Streams under a permutation pad. -/

/-- A stream of `a` that is fed by one end of a pad gives the other end, reading the stream at `b`,
its plaintext back. -/
def Deciphers (prims : Primitives) (seed : Bytes) (pad : QuantumPermutationPad)
    (b a : Multiplex.Session) : Prop :=
  ∀ inner ∈ b.inners, inner.recycled = false → inner.early = [] →
    ∀ (incoming : Bytes) (calls peerCalls : List Qpp.Call),
      a.queued inner.id <+:
        (run (Port.step pad) (Port.start prims seed incoming) calls).1.stream.underlying.accepted →
      (run (Port.step pad) (Port.start prims seed inner.returned) peerCalls).1.returned <+:
        (run (Port.step pad) (Port.start prims seed incoming) calls).1.plain

private theorem deciphers_of_gets {prims : Primitives} {seed : Bytes} {pad : QuantumPermutationPad}
    {a b : Multiplex.Session} (h : b.Gets a) : Deciphers prims seed pad b a := by
  intro inner hinner hkept hearly incoming calls peerCalls hfed
  have hgot := (h inner hinner).1 hkept
  rw [hearly, List.nil_append] at hgot
  have hsender := @Port.sound_run pad prims seed incoming calls
  have hreader := @Port.sound_run pad prims seed inner.returned peerCalls
  have hwire := (hgot.trans hfed).trans hsender.accepted.1
  rw [(hreader.peer hwire).1]
  exact List.take_prefix _ _

/-- Two processes, each with its streams multiplexed over a connection, compressed or not, over a KCP
session, none of whose numbers have run out. Whatever the network does to the datagrams, whatever
streams are opened and closed at either end and however often each layer cuts the bytes anew, what
arrived for a stream before it was registered and what was read from it are a front of what was queued
for it at the other end; where nothing arrived so early, the plaintext read under a pad is a front of
the plaintext written. -/
theorem streams_over_kcp {O C P D : Type} [Output O] [Clock C] [Output P] [Clock D]
    {config : SessionConfig} (hlawful : ∀ c ∈ config.crypt, c.Lawful) {chanA : O} {clockA : C}
    {chanB : P} {clockB : D} {endA : Endpoint O C} {endB : Endpoint P D} {p q : TxPipeline}
    (hnewA : Endpoint.new config chanA clockA = .ok (endA, p))
    (hnewB : Endpoint.new config chanB clockB = .ok (endB, q)) {events : List Tunnel.Event}
    (hallowed : ∀ event ∈ events, event.Allowed) {t : Tunnel O C P D}
    (hrun : exec Tunnel.step ⟨{ session := endA, tx := p }, { session := endB, tx := q }⟩ events =
      some t) (hfresh : t.a.Fresh config ∧ t.b.Fresh config)
    {configA configB : Config} (hconfigA : verifyConfig configA = .ok ())
    (hconfigB : verifyConfig configB = .ok ()) {sizeA sizeB : ℕ} (hsizeA : 1 ≤ sizeA)
    (hsizeB : 1 ≤ sizeB) {eventsA eventsB : List Multiplex.Event} {a b : Multiplex.Session}
    (hrunA : exec (Session.step configA) (Session.new true sizeA) eventsA = some a)
    (hrunB : exec (Session.step configB) (Session.new false sizeB) eventsB = some b)
    (hpacedA : Along (Session.step configA) (Session.Paced configA) (Session.new true sizeA) eventsA)
    (hpacedB : Along (Session.step configB) (Session.Paced configB) (Session.new false sizeB) eventsB)
    {comp : Option Snap} (hcomp : Sound comp)
    (hloweredA : Lowered comp a.out.wire t.a.written)
    (hraisedB : Raised comp t.b.returned b.inc.arrived)
    (hloweredB : Lowered comp b.out.wire t.b.written)
    (hraisedA : Raised comp t.a.returned a.inc.arrived) :
    b.Gets a ∧ a.Gets b ∧ ∀ prims seed pad,
      Deciphers prims seed pad b a ∧ Deciphers prims seed pad a b := by
  obtain ⟨m, ⟨_, _, _, _, hfeedsB⟩, ⟨_, _, _, _, hfeedsA⟩⟩ :=
    Session.tunnel_run hlawful hnewA hnewB hallowed hrun hfresh
  have hab := raised_prefix hcomp hloweredA hfeedsB.returned_prefix hraisedB
  have hba := raised_prefix hcomp hloweredB hfeedsA.returned_prefix hraisedA
  have ha := Session.inv_run (verified_of_verifyConfig hconfigA) (Nat.ne_of_gt hsizeA) hrunA hpacedA
  have hb := Session.inv_run (verified_of_verifyConfig hconfigB) (Nat.ne_of_gt hsizeB) hrunB hpacedB
  have hgets : b.Gets a ∧ a.Gets b := Session.gets_of_inv ha hb hab hba
  refine ⟨hgets.1, hgets.2, ?_⟩
  intro prims seed pad
  exact ⟨deciphers_of_gets hgets.1, deciphers_of_gets hgets.2⟩

/-- The client's bytes cross in one datagram that arrives twice, the server's answer in another. -/
def crossing : List Tunnel.Event :=
  let room := fun _ : ℕ => true
  let stale := fun _ _ : ℕ => (0 : UInt8)
  [.atA (.op (.setNoDelay 1 10 2 1) room stale),
    .atA (.op (.write [[1, 0, 0, 0, 3, 0, 0, 0], [1, 2, 3, 0, 3, 0, 0, 0, 1, 2, 3, 1, 3, 0, 0, 0, 0, 0,
      0, 1, 2, 1, 0, 3, 0, 0, 0, 4]]) room stale),
    .atA (.transmit 0 0 stale), .toB 0 room stale, .toB 0 room stale,
    .atB (.op (.read 9) room stale), .atB (.op (.read 90) room stale),
    .atB (.op (.setNoDelay 1 10 2 1) room stale),
    .atB (.op (.write [[1, 2, 1, 0, 3, 0, 0, 0, 9]]) room stale), .atB (.transmit 0 0 stale),
    .toA 0 room stale, .atA (.op (.read 90) room stale)]

theorem streams_over_kcp_crossing : ∃ a b : Multiplex.Session,
    (b.inners.map fun inner => (inner.id, inner.returned)) = [(3, [1, 2, 3, 4])] ∧
      (a.inners.map fun inner => (inner.id, inner.returned)) = [(3, [9])] ∧
      b.Gets a ∧ a.Gets b := by
  obtain ⟨a, hrunA, harrivedA, hwireA, hinnersA⟩ := client_run
  obtain ⟨b, hrunB, harrivedB, hwireB, hinnersB⟩ := server_run
  have hout : ((Endpoint.new Kcptun.Session.protectedConfig ⟨⟩ ⟨0⟩ :
        Except Kcptun.Session.SessionError (Endpoint Unbounded VirtualClock × TxPipeline)).toOption.bind
      fun s => (exec Tunnel.step ⟨{ session := s.1, tx := s.2 }, { session := s.1, tx := s.2 }⟩
        crossing).map fun t => ((t.a.written, t.b.returned, t.b.written, t.a.returned),
          t.a.numbered, t.a.encoded, t.b.numbered, t.b.encoded)) =
      some (([1, 0, 0, 0, 3, 0, 0, 0, 1, 2, 3, 0, 3, 0, 0, 0, 1, 2, 3, 1, 3, 0, 0, 0, 0, 0, 0, 1, 2, 1,
        0, 3, 0, 0, 0, 4], [1, 0, 0, 0, 3, 0, 0, 0, 1, 2, 3, 0, 3, 0, 0, 0, 1, 2, 3, 1, 3, 0, 0, 0, 0,
        0, 0, 1, 2, 1, 0, 3, 0, 0, 0, 4], [1, 2, 1, 0, 3, 0, 0, 0, 9], [1, 2, 1, 0, 3, 0, 0, 0, 9]),
        2, 1, 1, 1) := by
    decide +kernel
  obtain ⟨⟨s, p⟩, hnew, hout⟩ := Option.bind_eq_some_iff.mp hout
  obtain ⟨t, hrun, hout⟩ := Option.map_eq_some_iff.mp hout
  simp only [Prod.mk.injEq] at hout
  obtain ⟨⟨hwrittenA, hreturnedB, hwrittenB, hreturnedA⟩, hcounts⟩ := hout
  have hnew := Kcptun.Session.eq_ok_of_toOption hnew
  refine ⟨a, b, hinnersB, hinnersA, ?_⟩
  have hlawful : ∀ c ∈ Kcptun.Session.protectedConfig.crypt, c.Lawful := by
    rintro _ ⟨⟩
    exact Kcptun.Session.lawful_tagOnly
  have hallowed : ∀ event ∈ crossing, event.Allowed := by
    simp [crossing, Tunnel.Event.Allowed, Kcptun.Session.Party.Event.Own, Endpoint.Op.Own]
  have hfresh : t.a.Fresh Kcptun.Session.protectedConfig ∧
      t.b.Fresh Kcptun.Session.protectedConfig := by
    unfold Kcptun.Session.Party.Fresh
    rw [hcounts.1, hcounts.2.1, hcounts.2.2.1, hcounts.2.2.2]
    decide
  have hnone : Sound none := by
    rintro _ ⟨⟩
  obtain ⟨hb, ha, -⟩ := streams_over_kcp hlawful hnew hnew hallowed hrun hfresh rfl rfl
    (show 1 ≤ 16 by decide) (show 1 ≤ 5 by decide) hrunA hrunB client_paced server_paced hnone
    (show t.a.written <+: a.out.wire by rw [hwrittenA, hwireA])
    (show b.inc.arrived <+: t.b.returned by rw [hreturnedB, harrivedB])
    (show t.b.written <+: b.out.wire by rw [hwrittenB, hwireB])
    (show a.inc.arrived <+: t.a.returned by rw [hreturnedA, harrivedA])
  exact ⟨hb, ha⟩

end Kcptun.Smux.OverKcp
