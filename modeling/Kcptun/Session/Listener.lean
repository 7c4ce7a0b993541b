/- Kcptun/Session/Listener
   source: crates/kcp/src/listener.rs (packet_input, remove_session, register_conv, push_accept),
     crates/kcp/src/session.rs (close), crates/kcp/src/addr.rs (canonical)
   digest: The two tables of a listener, by address and by conversation, under its receive path and
     the closes of its sessions: in which schedules they stay consistent. -/

import Mathlib.Data.List.AList
import Kcptun.Session.Endpoint

set_option autoImplicit false
set_option relaxedAutoImplicit false

namespace Kcptun.Session

open Kcptun.Arq Kcptun.Lib Kcptun.Lib.LittleEndian
open Kcptun.Fec (TYPE_DATA TYPE_PARITY TYPE_OOB fecFlag)

def ACCEPT_BACKLOG : ℕ := 128
def IKCP_SN_OFFSET : ℕ := 12

/-- A socket address; the sixteen bytes of an IPv6 address are two words. -/
inductive SocketAddr where
  | v4 (ip : UInt32) (port : UInt16)
  | v6 (high low : UInt64) (port : UInt16) (flowinfo scopeId : UInt32)
deriving DecidableEq, Repr

/-- The key of an address: an IPv4 address mapped into IPv6 is that IPv4 address. -/
def canonical : SocketAddr → SocketAddr
  | .v4 ip port => .v4 ip port
  | .v6 high low port flowinfo scopeId =>
    if high = 0 ∧ low >>> 32 = 0xffff ∧ scopeId = 0 then .v4 low.toUInt32 port
    else .v6 high low port flowinfo scopeId

/-- `le_u32`: 0 where the data is too short. -/
def leU32 (data : Bytes) (offset : ℕ) : UInt32 :=
  if offset + 4 ≤ data.length then
    ofLe32 (data.getD offset 0) (data.getD (offset + 1) 0) (data.getD (offset + 2) 0)
      (data.getD (offset + 3) 0)
  else 0

/-- The conversation and the sequence number of a packet, by its framing; parity packets and short
data packets carry none. Nothing when the packet is dropped. -/
def conversation (data : Bytes) : Option (Option (UInt32 × UInt32)) :=
  if fecFlag data = TYPE_DATA then
    if data.length ≥ FEC_HEADER_SIZE_PLUS2 + IKCP_OVERHEAD then
      some (some (leU32 data FEC_HEADER_SIZE_PLUS2,
        leU32 data (FEC_HEADER_SIZE_PLUS2 + IKCP_SN_OFFSET)))
    else some none
  else if fecFlag data = TYPE_PARITY then some none
  else if fecFlag data = TYPE_OOB then some (some (leU32 data FEC_HEADER_SIZE_PLUS2, 0))
  else if data.length < IKCP_OVERHEAD then none
  else some (some (leU32 data 0, leU32 data IKCP_SN_OFFSET))

/-- A decrypted packet: where it came from, and its conversation and sequence number. -/
structure Inbound where
  addr : SocketAddr
  conv : Option (UInt32 × UInt32)
  data : Bytes
deriving DecidableEq, Repr

def openPacket (crypt : Option PacketCrypt) (data : Bytes) (addr : SocketAddr) : Option Inbound :=
  (decrypt crypt data).bind fun data =>
    if data.length < MIN_PACKET_SIZE then none
    else (conversation data).map fun conv => { addr := canonical addr, conv, data }

namespace Listener

/-- Where `UdpSession::close` of a session stands; `removed` is between the two parts of
`remove_session`, with the session that was taken out. -/
inductive Stage where
  | live
  | flagged
  | flushed
  | cancelled
  | removed (victim : Option ℕ)
  | returned
deriving DecidableEq, Repr

structure Entry where
  remote : SocketAddr
  conv : UInt32
  stage : Stage := .live
deriving DecidableEq, Repr

/-- Where `packet_input` stands: after each access to a table. -/
inductive Receive where
  | idle
  | byAddr (p : Inbound) (existing : Option ℕ)
  | found (p : Inbound) (existing : Option ℕ)
  | closing (p : Inbound) (id : ℕ)
  | creating (p : Inbound)
  | inserted (id : ℕ)
  | registered (id : ℕ)
deriving DecidableEq, Repr

/-- A listener, and every session it created, under the number of its creation. -/
structure State where
  crypt : Option PacketCrypt
  strictSource : Bool
  entries : List Entry := []
  sessions : AList fun _ : SocketAddr => ℕ := ∅
  byConv : AList fun _ : UInt32 => ℕ := ∅
  accepts : List ℕ := []
  receive : Receive := .idle

inductive Act where
  | packet (data : Bytes) (addr : SocketAddr)
  | receive
  | close (id : ℕ)
  | advance (id : ℕ)
  | accept

namespace State

def setStage (s : State) (id : ℕ) (stage : Stage) : State :=
  { s with entries := s.entries.modify id fun e => { e with stage } }

/-- `close` up to its flag, which only the first call takes. -/
def swapFlag (s : State) (id : ℕ) (e : Entry) : State :=
  if e.stage = .live then s.setStage id .flagged else s

/-- The first part of `remove_session`: whatever holds the address leaves. -/
def removeAddr (s : State) (id : ℕ) (e : Entry) : State :=
  { s.setStage id (.removed (s.sessions.lookup e.remote)) with
    sessions := s.sessions.erase e.remote }

/-- Its second part: the alias of the session taken out, while it still points there. -/
def removeConv (s : State) (id : ℕ) (victim : Option ℕ) : State :=
  let conv := (victim.bind (s.entries[·]?)).map Entry.conv
  { s.setStage id .returned with
    byConv :=
      match conv with
      | some c => if s.byConv.lookup c = victim then s.byConv.erase c else s.byConv
      | none => s.byConv }

def advance (s : State) (id : ℕ) (e : Entry) : Option State :=
  match e.stage with
  | .flagged => some (s.setStage id .flushed)
  | .flushed => some (s.setStage id .cancelled)
  | .cancelled => some (s.removeAddr id e)
  | .removed victim => some (s.removeConv id victim)
  | _ => none

/-- The session of a packet from an address that has none, by its conversation. -/
def aliased (s : State) (p : Inbound) : Option ℕ :=
  if s.strictSource then none else p.conv.bind fun c => s.byConv.lookup c.1

/-- A packet for a session: fed to it, dropped, or the reset of its conversation. -/
def route (s : State) (p : Inbound) (id : ℕ) (e : Entry) : State :=
  match p.conv with
  | none => { s with receive := .idle }
  | some c =>
    if c.1 = e.conv then { s with receive := .idle }
    else if c.2 ≠ 0 then { s with receive := .idle }
    else { s.swapFlag id e with receive := if e.stage = .live then .closing p id else .creating p }

/-- A new session, while the backlog has room. -/
def create (s : State) (p : Inbound) : State :=
  match p.conv with
  | none => { s with receive := .idle }
  | some c =>
    if s.accepts.length ≥ ACCEPT_BACKLOG then { s with receive := .idle }
    else { s with
      entries := s.entries ++ [{ remote := p.addr, conv := c.1 }]
      sessions := s.sessions.insert p.addr s.entries.length
      receive := .inserted s.entries.length }

/-- `register_conv`: the first session with a conversation keeps the alias. -/
def registerConv (s : State) (id : ℕ) : State :=
  { s with
    byConv :=
      match s.entries[id]? with
      | some e => if s.byConv.lookup e.conv = none then s.byConv.insert e.conv id else s.byConv
      | none => s.byConv
    receive := .registered id }

def next (s : State) : Option State :=
  match s.receive with
  | .idle => none
  | .byAddr p none => some { s with receive := .found p (s.aliased p) }
  | .byAddr p (some id) => some { s with receive := .found p (some id) }
  | .found p none => some { s with receive := .creating p }
  | .found p (some id) => s.entries[id]?.map (s.route p id)
  | .closing p id =>
    -- it waits for the steps of the close it made
    if (s.entries[id]?).map Entry.stage = some .returned then some { s with receive := .creating p }
    else none
  | .creating p => some (s.create p)
  | .inserted id => some (s.registerConv id)
  | .registered id => some { s with accepts := s.accepts ++ [id], receive := .idle }

/-- One step; nothing when it is not its turn. -/
def step (s : State) : Act → Option State
  | .packet data addr =>
    if s.receive = .idle then
      some (match openPacket s.crypt data addr with
        | some p => { s with receive := .byAddr p (s.sessions.lookup p.addr) }
        | none => s)
    else none
  | .receive => s.next
  | .close id => s.entries[id]?.map (s.swapFlag id)
  | .advance id => s.entries[id]?.bind (s.advance id)
  | .accept => if s.accepts = [] then none else some { s with accepts := s.accepts.tail }

end State

def start (crypt : Option PacketCrypt) (strictSource : Bool) : State := { crypt, strictSource }

def Stage.held : Stage → Bool
  | .live | .flagged | .flushed | .cancelled => true
  | .removed _ | .returned => false

/-- Until its own close takes it out a session is in `sessions` under its own address, a close takes
out its own session, and every alias is of a session in `sessions`, or of one whose own close stands
between the two tables. -/
structure Consistent (s : State) : Prop where
  held : ∀ id (e : Entry), s.entries[id]? = some e → e.stage.held = true →
    s.sessions.lookup e.remote = some id
  own : ∀ id (e : Entry) victim, s.entries[id]? = some e → e.stage = .removed victim → victim = some id
  aliases : ∀ conv id, s.byConv.lookup conv = some id → ∃ e : Entry, s.entries[id]? = some e ∧
    (s.sessions.lookup e.remote = some id ∨ e.stage = .removed (some id))

/-- The steps that keep the tables consistent: a new session finds its address free, and the close
of a session has not returned when its alias is made, unless the conversation has one. -/
def Allowed (s : State) : Act → Prop
  | .receive =>
    match s.receive with
    | .creating p => p.conv = none ∨ s.accepts.length ≥ ACCEPT_BACKLOG ∨
        s.sessions.lookup p.addr = none
    | .inserted id => ∀ e : Entry, s.entries[id]? = some e → e.stage = .returned →
        s.byConv.lookup e.conv ≠ none
    | _ => True
  | _ => True

structure Inv (s : State) : Prop where
  held : ∀ id (e : Entry), s.entries[id]? = some e → e.stage.held = true →
    s.sessions.lookup e.remote = some id
  table : ∀ addr id, s.sessions.lookup addr = some id →
    ∃ e : Entry, s.entries[id]? = some e ∧ e.remote = addr ∧ e.stage.held = true
  own : ∀ id (e : Entry) victim, s.entries[id]? = some e → e.stage = .removed victim → victim = some id
  aliases : ∀ conv id, s.byConv.lookup conv = some id → ∃ e : Entry, s.entries[id]? = some e ∧
    e.conv = conv ∧ (e.stage.held = true ∨ e.stage = .removed (some id))

section Invariant

variable {s s' : State}

private theorem Inv.consistent (h : Inv s) : Consistent s := by
  refine ⟨h.held, h.own, ?_⟩
  intro conv id hid
  obtain ⟨e, he, -, hstage⟩ := h.aliases conv id hid
  exact ⟨e, he, hstage.imp_left (h.held id e he)⟩

theorem State.entry_ne {id j : ℕ} {stage : Stage} (hne : j ≠ id) :
    (s.setStage id stage).entries[j]? = s.entries[j]? := by
  rw [State.setStage, List.getElem?_modify]
  simp only [if_neg hne.symm]
  exact Option.map_id'

theorem State.entry_self {id : ℕ} {e : Entry} {stage : Stage} (he : s.entries[id]? = some e) :
    (s.setStage id stage).entries[id]? = some { e with stage } := by
  rw [State.setStage, List.getElem?_modify, he]
  simp

theorem State.entry_cases {id j : ℕ} {e e' : Entry} {stage : Stage} (he : s.entries[id]? = some e)
    (he' : (s.setStage id stage).entries[j]? = some e') :
    j ≠ id ∧ s.entries[j]? = some e' ∨ j = id ∧ e' = { e with stage } := by
  rcases eq_or_ne j id with rfl | hne
  · exact .inr ⟨rfl, Option.some.inj (he'.symm.trans (entry_self he))⟩
  · exact .inl ⟨hne, (entry_ne hne).symm.trans he'⟩

theorem State.append_cases {j : ℕ} {e new : Entry} (he : (s.entries ++ [new])[j]? = some e) :
    s.entries[j]? = some e ∨ j = s.entries.length ∧ e = new := by
  rcases lt_or_ge j s.entries.length with hlt | hge
  · exact .inl ((List.getElem?_append_left hlt).symm.trans he)
  · have hnew := (List.getElem?_append_right hge).symm.trans he
    obtain ⟨hzero, hval⟩ := List.getElem?_eq_some_iff.mp hnew
    rw [List.length_singleton] at hzero
    rw [List.getElem_singleton] at hval
    exact .inr ⟨by omega, hval.symm⟩

private theorem Inv.setStage (h : Inv s) {id : ℕ} {e : Entry} {stage : Stage}
    (he : s.entries[id]? = some e) (hheld : e.stage.held = true) (hstage : stage.held = true) :
    Inv (s.setStage id stage) := by
  refine ⟨?_, ?_, ?_, ?_⟩
  · intro j e' he' hheld'
    rcases State.entry_cases he he' with ⟨-, he₀⟩ | ⟨rfl, rfl⟩
    · exact h.held j e' he₀ hheld'
    · exact h.held j e he hheld
  · intro addr j hj
    obtain ⟨e₀, he₀, hremote, hheld₀⟩ := h.table addr j hj
    rcases eq_or_ne j id with rfl | hne
    · obtain rfl := Option.some.inj (he.symm.trans he₀)
      exact ⟨_, State.entry_self he, hremote, hstage⟩
    · exact ⟨e₀, (State.entry_ne hne).trans he₀, hremote, hheld₀⟩
  · intro j e' victim he' hremoved
    rcases State.entry_cases he he' with ⟨-, he₀⟩ | ⟨rfl, rfl⟩
    · exact h.own j e' victim he₀ hremoved
    · obtain rfl : stage = .removed victim := hremoved
      exact absurd hstage Bool.false_ne_true
  · intro conv j hj
    obtain ⟨e₀, he₀, hconv, hstage₀⟩ := h.aliases conv j hj
    rcases eq_or_ne j id with rfl | hne
    · obtain rfl := Option.some.inj (he.symm.trans he₀)
      exact ⟨_, State.entry_self he, hconv, .inl hstage⟩
    · exact ⟨e₀, (State.entry_ne hne).trans he₀, hconv, hstage₀⟩

theorem Inv.removeAddr (h : Inv s) {id : ℕ} {e : Entry} (he : s.entries[id]? = some e)
    (hheld : e.stage.held = true) : Inv (s.removeAddr id e) := by
  have hvictim := h.held id e he hheld
  have hentries : (s.removeAddr id e).entries = (s.setStage id (.removed (some id))).entries := by
    rw [State.removeAddr, hvictim]
  refine ⟨?_, ?_, ?_, ?_⟩
  · intro j e' he' hheld'
    rw [hentries] at he'
    rcases State.entry_cases he he' with ⟨hne, he₀⟩ | ⟨rfl, rfl⟩
    · have hlookup := h.held j e' he₀ hheld'
      have haddr : e'.remote ≠ e.remote := by
        intro heq
        rw [heq, hvictim] at hlookup
        exact hne (Option.some.inj hlookup).symm
      exact (AList.lookup_erase_ne haddr).trans hlookup
    · exact absurd hheld' Bool.false_ne_true
  · intro addr j hj
    have haddr : addr ≠ e.remote := by
      rintro rfl
      have hnone : (s.sessions.erase e.remote).lookup e.remote = none := AList.lookup_erase _ _
      exact absurd (hnone.symm.trans hj) (by simp)
    have hlookup : s.sessions.lookup addr = some j := (AList.lookup_erase_ne haddr).symm.trans hj
    obtain ⟨e₀, he₀, hremote, hheld₀⟩ := h.table addr j hlookup
    have hne : j ≠ id := by
      rintro rfl
      obtain rfl := Option.some.inj (he.symm.trans he₀)
      exact haddr hremote.symm
    refine ⟨e₀, ?_, hremote, hheld₀⟩
    rw [hentries, State.entry_ne hne, he₀]
  · intro j e' victim he' hremoved
    rw [hentries] at he'
    rcases State.entry_cases he he' with ⟨-, he₀⟩ | ⟨rfl, rfl⟩
    · exact h.own j e' victim he₀ hremoved
    · exact (Stage.removed.inj hremoved).symm
  · intro conv j hj
    obtain ⟨e₀, he₀, hconv, hstage⟩ := h.aliases conv j hj
    rw [hentries]
    rcases eq_or_ne j id with rfl | hne
    · obtain rfl := Option.some.inj (he.symm.trans he₀)
      exact ⟨_, State.entry_self he, hconv, .inr rfl⟩
    · exact ⟨e₀, (State.entry_ne hne).trans he₀, hconv, hstage⟩

theorem Inv.removeConv (h : Inv s) {id : ℕ} {e : Entry} {victim : Option ℕ}
    (he : s.entries[id]? = some e) (hstage : e.stage = .removed victim) :
    Inv (s.removeConv id victim) := by
  obtain rfl := h.own id e victim he hstage
  have hconvs : (s.removeConv id (some id)).byConv =
      if s.byConv.lookup e.conv = some id then s.byConv.erase e.conv else s.byConv := by
    rw [State.removeConv]
    simp only [Option.bind_some, he, Option.map_some]
  refine ⟨?_, ?_, ?_, ?_⟩
  · intro j e' he' hheld'
    rcases State.entry_cases he he' with ⟨-, he₀⟩ | ⟨rfl, rfl⟩
    · exact h.held j e' he₀ hheld'
    · exact absurd hheld' Bool.false_ne_true
  · intro addr j hj
    obtain ⟨e₀, he₀, hremote, hheld₀⟩ := h.table addr j hj
    refine ⟨e₀, (State.entry_ne ?_).trans he₀, hremote, hheld₀⟩
    rintro rfl
    obtain rfl := Option.some.inj (he.symm.trans he₀)
    rw [hstage] at hheld₀
    exact absurd hheld₀ Bool.false_ne_true
  · intro j e' victim' he' hremoved
    rcases State.entry_cases he he' with ⟨-, he₀⟩ | ⟨rfl, rfl⟩
    · exact h.own j e' victim' he₀ hremoved
    · exact absurd hremoved (by simp)
  · intro conv j hj
    -- the alias is not the one of this session, which has just gone
    have hold : s.byConv.lookup conv = some j ∧ j ≠ id := by
      rw [hconvs] at hj
      split_ifs at hj with hown
      · have hne : conv ≠ e.conv := by
          rintro rfl
          exact absurd ((AList.lookup_erase _ _).symm.trans hj) (by simp)
        have hlookup := (AList.lookup_erase_ne hne).symm.trans hj
        refine ⟨hlookup, ?_⟩
        rintro rfl
        obtain ⟨e₀, he₀, hconv, -⟩ := h.aliases conv j hlookup
        obtain rfl := Option.some.inj (he.symm.trans he₀)
        exact hne hconv.symm
      · refine ⟨hj, ?_⟩
        rintro rfl
        obtain ⟨e₀, he₀, hconv, -⟩ := h.aliases conv j hj
        obtain rfl := Option.some.inj (he.symm.trans he₀)
        exact hown (hconv ▸ hj)
    obtain ⟨e₀, he₀, hconv, hstage₀⟩ := h.aliases conv j hold.1
    exact ⟨e₀, (State.entry_ne hold.2).trans he₀, hconv, hstage₀⟩

theorem Inv.create (h : Inv s) {p : Inbound} (hfree : p.conv = none ∨
    s.accepts.length ≥ ACCEPT_BACKLOG ∨ s.sessions.lookup p.addr = none) : Inv (s.create p) := by
  rw [State.create]
  cases hconv : p.conv with
  | none => exact ⟨h.held, h.table, h.own, h.aliases⟩
  | some c =>
    dsimp only
    split_ifs with hfull
    · exact ⟨h.held, h.table, h.own, h.aliases⟩
    · have hnone : s.sessions.lookup p.addr = none := by
        rcases hfree with hno | hno | hno
        · exact absurd (hconv.symm.trans hno) (Option.some_ne_none c)
        · exact absurd hno hfull
        · exact hno
      have hentry : ∀ {j : ℕ} {e : Entry}, s.entries[j]? = some e →
          (s.entries ++ [({ remote := p.addr, conv := c.1 } : Entry)])[j]? = some e := by
        intro j e he
        obtain ⟨hlt, -⟩ := List.getElem?_eq_some_iff.mp he
        rw [List.getElem?_append_left hlt, he]
      refine ⟨?_, ?_, ?_, ?_⟩
      · intro j e he hheld
        rcases State.append_cases he with he | ⟨rfl, rfl⟩
        · have hlookup := h.held j e he hheld
          have haddr : e.remote ≠ p.addr := by
            intro heq
            rw [heq, hnone] at hlookup
            exact absurd hlookup (by simp)
          exact (AList.lookup_insert_ne haddr).trans hlookup
        · exact AList.lookup_insert _
      · intro addr j hj
        rcases eq_or_ne addr p.addr with rfl | haddr
        · obtain rfl := Option.some.inj ((AList.lookup_insert _).symm.trans hj)
          exact ⟨_, List.getElem?_concat_length, rfl, rfl⟩
        · obtain ⟨e, he, hremote⟩ := h.table addr j ((AList.lookup_insert_ne haddr).symm.trans hj)
          exact ⟨e, hentry he, hremote⟩
      · intro j e victim he hremoved
        rcases State.append_cases he with he | ⟨rfl, rfl⟩
        · exact h.own j e victim he hremoved
        · exact absurd hremoved (by simp)
      · intro conv j hj
        obtain ⟨e, he, hstage⟩ := h.aliases conv j hj
        exact ⟨e, hentry he, hstage⟩

theorem Inv.registerConv (h : Inv s) {id : ℕ} (hopen : ∀ e : Entry, s.entries[id]? = some e →
    e.stage = .returned → s.byConv.lookup e.conv ≠ none) : Inv (s.registerConv id) := by
  refine ⟨h.held, h.table, h.own, ?_⟩
  intro conv j hj
  rw [State.registerConv] at hj
  cases he : s.entries[id]? with
  | none =>
    rw [he] at hj
    exact h.aliases conv j hj
  | some e =>
    rw [he] at hj
    dsimp only at hj
    split_ifs at hj with hnone
    · rcases eq_or_ne conv e.conv with rfl | hconv
      · obtain rfl := Option.some.inj ((AList.lookup_insert _).symm.trans hj)
        refine ⟨e, he, rfl, ?_⟩
        cases hstage : e.stage with
        | returned => exact absurd hnone (hopen e he hstage)
        | removed victim => exact .inr (h.own id e victim he hstage ▸ rfl)
        | _ => exact .inl rfl
      · exact h.aliases conv j ((AList.lookup_insert_ne hconv).symm.trans hj)
    · exact h.aliases conv j hj

private theorem Inv.swapFlag (h : Inv s) {id : ℕ} {e : Entry} (he : s.entries[id]? = some e) :
    Inv (s.swapFlag id e) := by
  rw [State.swapFlag]
  split_ifs with hlive
  · exact h.setStage he (hlive ▸ rfl) rfl
  · exact h

private theorem Inv.advance (h : Inv s) {id : ℕ} {e : Entry} (he : s.entries[id]? = some e)
    (hstep : s.advance id e = some s') : Inv s' := by
  rw [State.advance] at hstep
  cases hstage : e.stage with
  | flagged =>
    rw [hstage] at hstep
    exact Option.some.inj hstep ▸ h.setStage he (hstage ▸ rfl) rfl
  | flushed =>
    rw [hstage] at hstep
    exact Option.some.inj hstep ▸ h.setStage he (hstage ▸ rfl) rfl
  | cancelled =>
    rw [hstage] at hstep
    exact Option.some.inj hstep ▸ h.removeAddr he (hstage ▸ rfl)
  | removed victim =>
    rw [hstage] at hstep
    exact Option.some.inj hstep ▸ h.removeConv he hstage
  | live | returned =>
    rw [hstage] at hstep
    exact absurd hstep (by simp)

private theorem Inv.next (h : Inv s) (hok : Allowed s .receive) (hstep : s.next = some s') :
    Inv s' := by
  rw [State.next] at hstep
  rw [Allowed] at hok
  cases hreceive : s.receive with
  | idle =>
    rw [hreceive] at hstep
    exact absurd hstep (by simp)
  | byAddr p existing =>
    rw [hreceive] at hstep
    cases existing <;> exact Option.some.inj hstep ▸ ⟨h.held, h.table, h.own, h.aliases⟩
  | found p existing =>
    rw [hreceive] at hstep
    cases existing with
    | none => exact Option.some.inj hstep ▸ ⟨h.held, h.table, h.own, h.aliases⟩
    | some id =>
      obtain ⟨e, he, rfl⟩ := Option.map_eq_some_iff.mp hstep
      have hswap := h.swapFlag he
      rw [State.route]
      split
      · exact ⟨h.held, h.table, h.own, h.aliases⟩
      · split_ifs
        · exact ⟨h.held, h.table, h.own, h.aliases⟩
        · exact ⟨h.held, h.table, h.own, h.aliases⟩
        · exact ⟨hswap.held, hswap.table, hswap.own, hswap.aliases⟩
        · exact ⟨hswap.held, hswap.table, hswap.own, hswap.aliases⟩
  | closing p id =>
    rw [hreceive] at hstep
    dsimp only at hstep
    split_ifs at hstep
    exact Option.some.inj hstep ▸ ⟨h.held, h.table, h.own, h.aliases⟩
  | creating p =>
    rw [hreceive] at hstep hok
    exact Option.some.inj hstep ▸ h.create hok
  | inserted id =>
    rw [hreceive] at hstep hok
    exact Option.some.inj hstep ▸ h.registerConv hok
  | registered id =>
    rw [hreceive] at hstep
    exact Option.some.inj hstep ▸ ⟨h.held, h.table, h.own, h.aliases⟩

private theorem Inv.step (h : Inv s) {a : Act} (hok : Allowed s a) (hstep : s.step a = some s') :
    Inv s' := by
  cases a with
  | packet data addr =>
    rw [State.step] at hstep
    split_ifs at hstep
    obtain rfl := Option.some.inj hstep
    cases openPacket s.crypt data addr with
    | none => exact h
    | some p => exact ⟨h.held, h.table, h.own, h.aliases⟩
  | receive => exact h.next hok hstep
  | close id =>
    obtain ⟨e, he, rfl⟩ := Option.map_eq_some_iff.mp hstep
    exact h.swapFlag he
  | advance id =>
    obtain ⟨e, he, hadvance⟩ := Option.bind_eq_some_iff.mp hstep
    exact h.advance he hadvance
  | accept =>
    rw [State.step] at hstep
    split_ifs at hstep
    exact Option.some.inj hstep ▸ ⟨h.held, h.table, h.own, h.aliases⟩

private theorem Inv.not_consistent (h : Inv s) {a : Act} (hok : ¬Allowed s a)
    (hstep : s.step a = some s') : ¬Consistent s' := by
  intro hcons
  cases a with
  | packet | close | advance | accept => exact hok trivial
  | receive =>
    rw [State.step, State.next] at hstep
    rw [Allowed] at hok
    cases hreceive : s.receive with
    | idle | byAddr | found | closing | registered =>
      rw [hreceive] at hok
      exact hok trivial
    | creating p =>
      rw [hreceive] at hok hstep
      dsimp only at hok
      push Not at hok
      obtain ⟨hconv, hroom, hbusy⟩ := hok
      obtain ⟨c, hc⟩ := Option.ne_none_iff_exists'.mp hconv
      obtain ⟨id, hid⟩ := Option.ne_none_iff_exists'.mp hbusy
      obtain ⟨e, he, hremote, hheld⟩ := h.table p.addr id hid
      obtain ⟨hlt, -⟩ := List.getElem?_eq_some_iff.mp he
      obtain rfl := Option.some.inj hstep
      -- the session that held the address is still to be taken out, and no longer there
      have hlost := hcons.held id e
      rw [State.create, hc] at hlost
      dsimp only at hlost
      rw [if_neg (not_le.mpr hroom)] at hlost
      dsimp only at hlost
      rw [List.getElem?_append_left hlt, hremote, AList.lookup_insert] at hlost
      exact hlt.ne (Option.some.inj (hlost he hheld)).symm
    | inserted id =>
      rw [hreceive] at hok hstep
      dsimp only at hok
      push Not at hok
      obtain ⟨e, he, hreturned, hnone⟩ := hok
      obtain rfl := Option.some.inj hstep
      have hstale := hcons.aliases e.conv id
      rw [State.registerConv, he] at hstale
      dsimp only at hstale
      rw [if_pos hnone, AList.lookup_insert] at hstale
      obtain ⟨e', he', hheld | hremoved⟩ := hstale rfl
      · obtain ⟨e₀, he₀, -, hheld₀⟩ := h.table e'.remote id hheld
        obtain rfl := Option.some.inj (he.symm.trans he₀)
        rw [hreturned] at hheld₀
        exact absurd hheld₀ Bool.false_ne_true
      · obtain rfl := Option.some.inj he'
        exact absurd (hreturned.symm.trans hremoved) (by simp)

end Invariant

section Runs

theorem inv_start (crypt : Option PacketCrypt) (strictSource : Bool) :
    Inv (start crypt strictSource) := by
  refine ⟨?_, ?_, ?_, ?_⟩
  · intro id e he
    exact absurd he (by simp [start])
  · intro addr id hid
    exact absurd hid (by simp [start])
  · intro id e victim he
    exact absurd he (by simp [start])
  · intro conv id hid
    exact absurd hid (by simp [start])

/-- The tables are consistent all along a run of a listener exactly when every session is inserted
under a free address, and gets its alias before its close has returned. -/
theorem tables_consistent_iff {crypt : Option PacketCrypt} {strictSource : Bool} {as : List Act}
    {s : State} (hrun : exec State.step (start crypt strictSource) as = some s) :
    Along State.step Allowed (start crypt strictSource) as ↔
      ∀ front, front <+: as → ∀ t, exec State.step (start crypt strictSource) front = some t →
        Consistent t :=
  along_iff_throughout Inv Consistent (fun _ h => h.consistent)
    (fun _ _ _ h hok hstep => h.step hok hstep) (fun _ _ _ h hok hstep => h.not_consistent hok hstep)
    (inv_start crypt strictSource) hrun

/-- The first segment of a conversation, as a plain packet. -/
def firstSegment (conv : UInt8) : Bytes := [conv, 0, 0, 0, 81] ++ List.replicate 19 0

/-- A session of conversation 1 takes its flag for closing; before it is taken out, a packet of its
address begins conversation 2; then the close goes on. -/
def takeover : List Act :=
  [.packet (firstSegment 1) (.v4 1 1)] ++ List.replicate 5 .receive ++ [.close 0] ++
    [.packet (firstSegment 2) (.v4 1 1)] ++ List.replicate 5 .receive ++
    List.replicate 4 (.advance 0)

private theorem takeover_end : ∃ s, exec State.step (start none false) takeover = some s ∧
    s.entries = [⟨.v4 1 1, 1, .returned⟩, ⟨.v4 1 1, 2, .live⟩] ∧
    s.sessions.lookup (.v4 1 1) = none ∧ s.byConv.lookup 1 = some 0 ∧ s.accepts = [0, 1] :=
  ⟨_, rfl, rfl, rfl, rfl, rfl⟩

theorem tables_consistent_iff_takeover :
    ¬Along State.step Allowed (start none false) takeover := by
  obtain ⟨s, hrun, hentries, hlookup, -⟩ := takeover_end
  intro h
  have hcons := (tables_consistent_iff hrun).mp h takeover List.prefix_rfl s hrun
  have hheld := hcons.held 1 ⟨.v4 1 1, 2, .live⟩ (by rw [hentries]; rfl) rfl
  exact absurd (hlookup.symm.trans hheld) (by decide)

/-- A close takes another session out: the new one is live, and in no table, while the alias of the
closed one stays. -/
theorem live_session_taken_out : ∃ s, exec State.step (start none false) takeover = some s ∧
    (∃ e, s.entries[1]? = some e ∧ e.stage = .live ∧ s.sessions.lookup e.remote = none) ∧
    (∃ e, s.byConv.lookup 1 = some 0 ∧ s.entries[0]? = some e ∧ e.stage = .returned ∧
      s.sessions.lookup e.remote = none) ∧ ¬Consistent s := by
  obtain ⟨s, hrun, hentries, hlookup, halias, -⟩ := takeover_end
  have hlive : s.entries[1]? = some ⟨.v4 1 1, 2, .live⟩ := by rw [hentries]; rfl
  have hdead : s.entries[0]? = some ⟨.v4 1 1, 1, .returned⟩ := by rw [hentries]; rfl
  refine ⟨s, hrun, ⟨_, hlive, rfl, hlookup⟩, ⟨_, halias, hdead, rfl, hlookup⟩, ?_⟩
  intro hcons
  exact absurd (hlookup.symm.trans (hcons.held 1 _ hlive rfl)) (by decide)

end Runs

end Listener

end Kcptun.Session
