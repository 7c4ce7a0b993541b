/- Kcptun/Session/Demux
   source: crates/kcp/src/listener.rs (packet_input, remove_session, session, session_by_conv,
     register_conv, push_accept, le_u16, le_u32), crates/kcp/src/session.rs (close)
   digest: A listener that takes one datagram after the other: to which session each goes, and which
     it closes or creates, whatever the decryption lets through. -/

import Kcptun.Session.Listener

set_option autoImplicit false
set_option relaxedAutoImplicit false

namespace Kcptun.Session

open Kcptun.Arq Kcptun.Lib Kcptun.Lib.LittleEndian
open Kcptun.Fec (TYPE_DATA TYPE_PARITY TYPE_OOB fecFlag)

/-! The framings of a packet, with every access checked. -/

def leU16In (data : Bytes) (offset : ℕ) : Option UInt16 :=
  if offset + 2 ≤ data.length then
    some (ofLe16 (data.getD offset 0) (data.getD (offset + 1) 0))
  else none

def leU32In (data : Bytes) (offset : ℕ) : Option UInt32 :=
  if offset + 4 ≤ data.length then some (leU32 data offset) else none

/-- `conversation`, or nothing where an access is out of range or the assertion on the length of an
OOB packet fails. -/
def conversationIn (data : Bytes) : Option (Option (Option (UInt32 × UInt32))) :=
  (leU16In data 4).bind fun flag =>
    if flag = TYPE_DATA then
      if data.length ≥ FEC_HEADER_SIZE_PLUS2 + IKCP_OVERHEAD then
        (leU32In data FEC_HEADER_SIZE_PLUS2).bind fun conv =>
          (leU32In data (FEC_HEADER_SIZE_PLUS2 + IKCP_SN_OFFSET)).map fun sn =>
            some (some (conv, sn))
      else some (some none)
    else if flag = TYPE_PARITY then some (some none)
    else if flag = TYPE_OOB then
      if data.length ≥ FEC_HEADER_SIZE_PLUS2 + CONV_SIZE then
        (leU32In data FEC_HEADER_SIZE_PLUS2).map fun conv => some (some (conv, 0))
      else none
    else if data.length < IKCP_OVERHEAD then some none
    else (leU32In data 0).bind fun conv =>
      (leU32In data IKCP_SN_OFFSET).map fun sn => some (some (conv, sn))

private theorem conversationIn_eq {data : Bytes} (hlen : MIN_PACKET_SIZE ≤ data.length) :
    conversationIn data = some (conversation data) := by
  have hmin : MIN_PACKET_SIZE = 12 ∧ IKCP_OVERHEAD = 24 ∧ FEC_HEADER_SIZE_PLUS2 = 8 ∧
      CONV_SIZE = 4 ∧ IKCP_SN_OFFSET = 12 := by decide
  have hread : ∀ {offset}, offset + 4 ≤ data.length →
      leU32In data offset = some (leU32 data offset) := fun {offset} h => if_pos h
  have hflag : leU16In data 4 = some (fecFlag data) := if_pos (by omega)
  unfold conversationIn conversation
  rw [hflag, Option.bind_some]
  split_ifs with hdata hlong hparity hoob hshort hshort
  · rw [hread (by omega), hread (by omega)]
    rfl
  · rfl
  · rfl
  · rw [hread (by omega)]
    rfl
  · omega
  · rfl
  · rw [hread (by omega), hread (by omega)]
    rfl

namespace Listener

inductive Effect where
  | creates (id : ℕ)
  | closes (id : ℕ)
  | feeds (id : ℕ) (data : Bytes)
deriving DecidableEq, Repr

def Effect.fed? : Effect → Option ℕ
  | .feeds id _ => some id
  | _ => none

namespace State

/-- `close` of a session: with nothing in between it takes the session itself out. -/
def close (s : State) (id : ℕ) (e : Entry) : State × List Effect :=
  if e.stage = .live then
    ((s.removeAddr id e).removeConv id (s.sessions.lookup e.remote), [.closes id])
  else (s, [])

/-- The end of `packet_input`: a session for the packet, if it may have one. -/
def newSession (s : State) (p : Inbound) : State × List Effect :=
  if p.conv = none ∨ s.accepts.length ≥ ACCEPT_BACKLOG then (s, [])
  else
    ({ (s.create p).registerConv s.entries.length with
        accepts := s.accepts ++ [s.entries.length], receive := .idle },
      [.creates s.entries.length, .feeds s.entries.length p.data])

def existing (s : State) (p : Inbound) : Option ℕ :=
  match s.sessions.lookup p.addr with
  | none => s.aliased p
  | some id => some id

def reset (s : State) (p : Inbound) (id : ℕ) (e : Entry) : State × List Effect :=
  (((s.close id e).1.newSession p).1, (s.close id e).2 ++ ((s.close id e).1.newSession p).2)

def deliver (s : State) (p : Inbound) (id : ℕ) (e : Entry) : State × List Effect :=
  match p.conv with
  | none => (s, [.feeds id p.data])
  | some c =>
    if c.1 = e.conv then (s, [.feeds id p.data])
    else if c.2 ≠ 0 then (s, [])
    else s.reset p id e

def demux (s : State) (p : Inbound) : Option (State × List Effect) :=
  match s.existing p with
  | none => some (s.newSession p)
  | some id => s.entries[id]?.map (s.deliver p id)

/-- A whole call of `packet_input`; `opens` is the decryption. -/
def packetInput (opens : Bytes → Option Bytes) (s : State) (data : Bytes) (addr : SocketAddr) :
    Option (State × List Effect) :=
  match opens data with
  | none => some (s, [])
  | some data =>
    if data.length < MIN_PACKET_SIZE then some (s, [])
    else (conversationIn data).bind fun
      | none => some (s, [])
      | some conv => s.demux { addr := canonical addr, conv, data }

end State

/-- The calls of a listener. An `accept` of an empty backlog waits. -/
inductive Call where
  | packet (data : Bytes) (addr : SocketAddr)
  | accept
deriving DecidableEq, Repr

def State.call (opens : Bytes → Option Bytes) (s : State) : Call → Option State
  | .packet data addr => (s.packetInput opens data addr).map Prod.fst
  | .accept => some { s with accepts := s.accepts.tail }

/-- Between two calls: the tables are consistent, and no close is under way. -/
structure Settled (s : State) : Prop where
  inv : Inv s
  idle : s.receive = .idle
  stages : ∀ (id : ℕ) (e : Entry), s.entries[id]? = some e → e.stage = .live ∨ e.stage = .returned

/-- The sessions of `s` are there in `s'` too, with their addresses and conversations. -/
def Keeps (s s' : State) : Prop := ∀ (id : ℕ) (e : Entry), s.entries[id]? = some e →
  ∃ e' : Entry, s'.entries[id]? = some e' ∧ e'.remote = e.remote ∧ e'.conv = e.conv

/-- What may become of a packet whose framing has been read. -/
structure Routed (s : State) (p : Inbound) (s' : State) (effects : List Effect) : Prop where
  once : (effects.filterMap Effect.fed?).length ≤ 1
  fed : ∀ id data, .feeds id data ∈ effects → data = p.data ∧
    (.creates id ∈ effects ∨ s.sessions.lookup p.addr = some id ∨
      s.sessions.lookup p.addr = none ∧ s.strictSource = false ∧
        ∃ c, p.conv = some c ∧ s.byConv.lookup c.1 = some id) ∧
    ∃ e : Entry, s'.entries[id]? = some e ∧ e.stage = .live ∧ ∀ c, p.conv = some c → c.1 = e.conv
  closed : ∀ (id : ℕ) (e e' : Entry), s.entries[id]? = some e → e.stage = .live →
    s'.entries[id]? = some e' → e'.stage ≠ .live →
    e.remote = p.addr ∧ s.sessions.lookup p.addr = some id ∧
      ∃ c, p.conv = some c ∧ c.1 ≠ e.conv ∧ c.2 = 0
  created : ∀ id, (.creates id ∈ effects ∨ s.entries.length ≤ id ∧ id < s'.entries.length) →
    id = s.entries.length ∧ s.accepts.length < 128 ∧
      ∃ c, p.conv = some c ∧ s'.entries[id]? = some ⟨p.addr, c.1, .live⟩
  kept : Keeps s s'

section Calls

variable {s s' : State} {p : Inbound} {id : ℕ} {e : Entry}

private theorem Settled.live_of_held (h : Settled s) (he : s.entries[id]? = some e)
    (hheld : e.stage.held = true) : e.stage = .live := by
  rcases h.stages id e he with hlive | hreturned
  · exact hlive
  · rw [hreturned] at hheld
    cases hheld

private theorem Settled.of_lookup (h : Settled s) {addr : SocketAddr}
    (hid : s.sessions.lookup addr = some id) :
    ∃ e : Entry, s.entries[id]? = some e ∧ e.remote = addr ∧ e.stage = .live := by
  obtain ⟨e, he, hremote, hheld⟩ := h.inv.table addr id hid
  exact ⟨e, he, hremote, h.live_of_held he hheld⟩

private theorem Settled.of_alias (h : Settled s) {conv : UInt32}
    (hid : s.byConv.lookup conv = some id) :
    ∃ e : Entry, s.entries[id]? = some e ∧ e.conv = conv ∧ e.stage = .live := by
  obtain ⟨e, he, hconv, hheld | hremoved⟩ := h.inv.aliases conv id hid
  · exact ⟨e, he, hconv, h.live_of_held he hheld⟩
  · rcases h.stages id e he with hlive | hreturned
    · exact ⟨e, he, hconv, hlive⟩
    · rw [hremoved] at hreturned
      cases hreturned

private theorem Keeps.refl (s : State) : Keeps s s := fun _ e he => ⟨e, he, rfl, rfl⟩

private theorem Keeps.trans {s'' : State} (h : Keeps s s') (h' : Keeps s' s'') : Keeps s s'' := by
  intro id e he
  obtain ⟨e', he', hremote, hconv⟩ := h id e he
  obtain ⟨e'', he'', hremote', hconv'⟩ := h' id e' he'
  exact ⟨e'', he'', hremote'.trans hremote, hconv'.trans hconv⟩

private theorem Routed.nothing (s : State) (p : Inbound) : Routed s p s [] := by
  refine ⟨Nat.zero_le 1, fun id data h => (by cases h), ?_, ?_, .refl s⟩
  · intro id e e' he hlive he' hdead
    obtain rfl := Option.some.inj (he.symm.trans he')
    exact absurd hlive hdead
  · intro id h
    rcases h with h | ⟨hge, hlt⟩
    · cases h
    · omega

private theorem Routed.feeds (he : s.entries[id]? = some e) (hlive : e.stage = .live)
    (hconv : ∀ c, p.conv = some c → c.1 = e.conv)
    (hid : s.sessions.lookup p.addr = some id ∨ s.sessions.lookup p.addr = none ∧
      s.strictSource = false ∧ ∃ c, p.conv = some c ∧ s.byConv.lookup c.1 = some id) :
    Routed s p s [.feeds id p.data] := by
  refine ⟨Nat.le_refl 1, ?_, (nothing s p).closed, ?_, .refl s⟩
  · intro j data h
    obtain ⟨rfl, rfl⟩ := Effect.feeds.inj (List.mem_singleton.mp h)
    exact ⟨rfl, .inr hid, e, he, hlive, hconv⟩
  · intro j h
    rcases h with h | ⟨hge, hlt⟩
    · cases List.mem_singleton.mp h
    · omega

/-! The close of a session. -/

private theorem close_entries (hlive : e.stage = .live) :
    (s.close id e).1.entries = (s.setStage id .returned).entries := by
  unfold State.close
  rw [if_pos hlive]
  unfold State.removeConv State.removeAddr State.setStage
  dsimp only
  rw [List.modify_modify_eq]
  rfl

private theorem Settled.close (h : Settled s) (hid : s.sessions.lookup e.remote = some id)
    (he : s.entries[id]? = some e) (hlive : e.stage = .live) :
    Settled (s.close id e).1 ∧ (s.close id e).1.sessions.lookup e.remote = none := by
  have hentries := @close_entries s id e hlive
  have hremoved : Inv (s.removeAddr id e) := h.inv.removeAddr he (hlive ▸ rfl)
  have hentry : (s.removeAddr id e).entries[id]? =
      some { e with stage := .removed (s.sessions.lookup e.remote) } := State.entry_self he
  have hinv := hremoved.removeConv hentry rfl
  have hclose : (s.close id e).1 = (s.removeAddr id e).removeConv id (s.sessions.lookup e.remote) := by
    unfold State.close
    rw [if_pos hlive]
  refine ⟨⟨hclose ▸ hinv, hclose ▸ h.idle, ?_⟩, ?_⟩
  · intro j e' he'
    rw [hentries] at he'
    rcases State.entry_cases he he' with ⟨-, he'⟩ | ⟨rfl, rfl⟩
    · exact h.stages j e' he'
    · exact .inr rfl
  · rw [hclose]
    exact AList.lookup_erase _ _

/-! A new session. -/

private theorem create_entries {c : UInt32 × UInt32} (hc : p.conv = some c)
    (hroom : ¬s.accepts.length ≥ ACCEPT_BACKLOG) :
    (s.create p).entries = s.entries ++ [⟨p.addr, c.1, .live⟩] := by
  unfold State.create
  rw [hc]
  dsimp only
  rw [if_neg hroom]

private theorem newSession_cases (s : State) (p : Inbound) :
    s.newSession p = (s, []) ∨ ∃ c, p.conv = some c ∧ s.accepts.length < 128 ∧
      (s.newSession p).1.entries = s.entries ++ [⟨p.addr, c.1, .live⟩] ∧
      (s.newSession p).2 = [.creates s.entries.length, .feeds s.entries.length p.data] := by
  unfold State.newSession
  split_ifs with hdrop
  · exact .inl rfl
  · obtain ⟨hconv, hroom⟩ := not_or.mp hdrop
    obtain ⟨c, hc⟩ := Option.ne_none_iff_exists'.mp hconv
    exact .inr ⟨c, hc, Nat.not_le.mp hroom, create_entries hc hroom, rfl⟩

private theorem Settled.newSession (h : Settled s) (hfree : s.sessions.lookup p.addr = none) :
    Settled (s.newSession p).1 := by
  unfold State.newSession
  split_ifs with hdrop
  · exact h
  obtain ⟨hconv, hroom⟩ := not_or.mp hdrop
  obtain ⟨c, hc⟩ := Option.ne_none_iff_exists'.mp hconv
  have hentries := create_entries hc hroom
  have hcreated : Inv (s.create p) := h.inv.create (.inr (.inr hfree))
  have hregistered : Inv ((s.create p).registerConv s.entries.length) := by
    apply hcreated.registerConv
    intro e he hreturned
    rw [hentries, List.getElem?_concat_length] at he
    obtain rfl := Option.some.inj he
    cases hreturned
  refine ⟨⟨hregistered.held, hregistered.table, hregistered.own, hregistered.aliases⟩, rfl, ?_⟩
  intro id e he
  have he : (s.create p).entries[id]? = some e := he
  rw [hentries] at he
  rcases State.append_cases he with he | ⟨-, rfl⟩
  · exact h.stages id e he
  · exact .inl rfl

private theorem Routed.new {s₁ : State} {closes : List Effect}
    (honly : ∀ effect ∈ closes, ∃ id, effect = .closes id)
    (hlen : s₁.entries.length = s.entries.length) (haccepts : s₁.accepts = s.accepts)
    (hkept : Keeps s s₁) (hclosed : ∀ (id : ℕ) (e e' : Entry), s.entries[id]? = some e →
      e.stage = .live → s₁.entries[id]? = some e' → e'.stage ≠ .live → e.remote = p.addr ∧
        s.sessions.lookup p.addr = some id ∧ ∃ c, p.conv = some c ∧ c.1 ≠ e.conv ∧ c.2 = 0) :
    Routed s p (s₁.newSession p).1 (closes ++ (s₁.newSession p).2) := by
  have hfeeds : ∀ {id data}, Effect.feeds id data ∉ closes := by
    intro id data hmem
    obtain ⟨j, hj⟩ := honly _ hmem
    cases hj
  have hcreates : ∀ {id}, Effect.creates id ∉ closes := by
    intro id hmem
    obtain ⟨j, hj⟩ := honly _ hmem
    cases hj
  have hnone : closes.filterMap Effect.fed? = [] := by
    apply List.filterMap_eq_nil_iff.mpr
    intro effect heffect
    obtain ⟨j, rfl⟩ := honly effect heffect
    rfl
  rcases newSession_cases s₁ p with hdrop | ⟨c, hc, hroom, hentries, heffects⟩
  · rw [hdrop, List.append_nil]
    refine ⟨hnone ▸ Nat.zero_le 1, fun id data h => absurd h hfeeds, hclosed, ?_, hkept⟩
    intro id h
    rcases h with h | ⟨hge, hlt⟩
    · exact absurd h hcreates
    · rw [hlen] at hlt
      omega
  · have hold : ∀ {id : ℕ} {e : Entry}, s₁.entries[id]? = some e →
        (s₁.newSession p).1.entries[id]? = some e := by
      intro id e he
      obtain ⟨hlt, -⟩ := List.getElem?_eq_some_iff.mp he
      rw [hentries, List.getElem?_append_left hlt, he]
    have hnew : (s₁.newSession p).1.entries[s.entries.length]? = some ⟨p.addr, c.1, .live⟩ := by
      rw [hentries, ← hlen, List.getElem?_concat_length]
    rw [heffects, hlen]
    refine ⟨?_, ?_, ?_, ?_, ?_⟩
    · rw [List.filterMap_append, hnone]
      exact Nat.le_refl 1
    · intro id data h
      rcases List.mem_append.mp h with h | h
      · exact absurd h hfeeds
      · rcases List.mem_cons.mp h with h | h
        · cases h
        · obtain ⟨rfl, rfl⟩ := Effect.feeds.inj (List.mem_singleton.mp h)
          refine ⟨rfl, .inl (List.mem_append_right _ List.mem_cons_self), _, hnew, rfl, ?_⟩
          intro c' hc'
          obtain rfl := Option.some.inj (hc.symm.trans hc')
          rfl
    · intro id e e' he hlive he' hdead
      obtain ⟨e₁, he₁, -⟩ := hkept id e he
      obtain rfl := Option.some.inj ((hold he₁).symm.trans he')
      exact hclosed id e e₁ he hlive he₁ hdead
    · intro id h
      obtain rfl : id = s.entries.length := by
        rcases h with h | ⟨hge, hlt⟩
        · rcases List.mem_append.mp h with h | h
          · exact absurd h hcreates
          · rcases List.mem_cons.mp h with h | h
            · exact Effect.creates.inj h
            · cases List.mem_singleton.mp h
        · rw [hentries, List.length_append, List.length_singleton, hlen] at hlt
          omega
      exact ⟨rfl, haccepts ▸ hroom, c, hc, hnew⟩
    · exact hkept.trans fun id e he => ⟨e, hold he, rfl, rfl⟩

/-! A whole call. -/

private theorem Settled.reset (h : Settled s) {c : UInt32 × UInt32} (hc : p.conv = some c)
    (hid : s.sessions.lookup p.addr = some id) (he : s.entries[id]? = some e)
    (hremote : e.remote = p.addr) (hlive : e.stage = .live) (hconv : c.1 ≠ e.conv) (hsn : c.2 = 0) :
    Settled (s.reset p id e).1 ∧ Routed s p (s.reset p id e).1 (s.reset p id e).2 := by
  obtain ⟨hsettled, hfree⟩ := h.close (hremote ▸ hid) he hlive
  have hentries := @close_entries s id e hlive
  refine ⟨hsettled.newSession (hremote ▸ hfree), Routed.new ?_ ?_ ?_ ?_ ?_⟩
  · unfold State.close
    rw [if_pos hlive]
    intro effect heffect
    exact ⟨id, List.mem_singleton.mp heffect⟩
  · rw [hentries]
    exact List.length_modify _ _ _
  · unfold State.close
    rw [if_pos hlive]
    rfl
  · intro j e' he'
    rw [hentries]
    rcases eq_or_ne j id with rfl | hne
    · obtain rfl := Option.some.inj (he.symm.trans he')
      exact ⟨_, State.entry_self he, rfl, rfl⟩
    · exact ⟨e', (State.entry_ne hne).trans he', rfl, rfl⟩
  · intro j e₁ e' he₁ hlive₁ he' hdead
    rw [hentries] at he'
    rcases State.entry_cases he he' with ⟨hne, he'⟩ | ⟨rfl, rfl⟩
    · obtain rfl := Option.some.inj (he₁.symm.trans he')
      exact absurd hlive₁ hdead
    · obtain rfl := Option.some.inj (he.symm.trans he₁)
      exact ⟨hremote, hid, c, hc, hconv, hsn⟩

private theorem Settled.demux (h : Settled s) (p : Inbound) :
    ∃ r, s.demux p = some r ∧ Settled r.1 ∧ Routed s p r.1 r.2 := by
  have hnew : s.sessions.lookup p.addr = none → Settled (s.newSession p).1 ∧
      Routed s p (s.newSession p).1 (s.newSession p).2 := by
    intro hfree
    refine ⟨h.newSession hfree, @Routed.new s p s [] (fun effect heffect => by cases heffect) rfl rfl
      (.refl s) (Routed.nothing s p).closed⟩
  unfold State.demux State.existing
  cases hid : s.sessions.lookup p.addr with
  | some id =>
    obtain ⟨e, he, hremote, hlive⟩ := h.of_lookup hid
    dsimp only
    rw [he]
    refine ⟨_, rfl, ?_⟩
    unfold State.deliver
    cases hc : p.conv with
    | none =>
      refine ⟨h, .feeds he hlive ?_ (.inl hid)⟩
      intro c hc'
      cases hc.symm.trans hc'
    | some c =>
      dsimp only
      split_ifs with hsame hsn
      · refine ⟨h, .feeds he hlive ?_ (.inl hid)⟩
        intro c' hc'
        obtain rfl := Option.some.inj (hc.symm.trans hc')
        exact hsame
      · exact ⟨h, .nothing s p⟩
      · exact h.reset hc hid he hremote hlive hsame (not_not.mp hsn)
  | none =>
    dsimp only
    cases halias : s.aliased p with
    | none => exact ⟨_, rfl, hnew hid⟩
    | some id =>
      unfold State.aliased at halias
      split_ifs at halias with hstrict
      obtain ⟨c, hc, hlookup⟩ := Option.bind_eq_some_iff.mp halias
      obtain ⟨e, he, hconv, hlive⟩ := h.of_alias hlookup
      dsimp only
      rw [he]
      refine ⟨_, rfl, ?_⟩
      unfold State.deliver
      rw [hc]
      dsimp only
      rw [if_pos hconv.symm]
      refine ⟨h, .feeds he hlive ?_ (.inr ⟨hid, Bool.eq_false_iff.mpr hstrict, c, hc, hlookup⟩)⟩
      intro c' hc'
      obtain rfl := Option.some.inj (hc.symm.trans hc')
      exact hconv.symm

private theorem Settled.packetInput (h : Settled s) (opens : Bytes → Option Bytes) (data : Bytes)
    (addr : SocketAddr) : ∃ r, s.packetInput opens data addr = some r ∧ Settled r.1 ∧
      (r = (s, []) ∨ ∃ packet conv, opens data = some packet ∧ conversation packet = some conv ∧
        Routed s ⟨canonical addr, conv, packet⟩ r.1 r.2) := by
  unfold State.packetInput
  cases hopens : opens data with
  | none => exact ⟨_, rfl, h, .inl rfl⟩
  | some packet =>
    dsimp only
    split_ifs with hshort
    · exact ⟨_, rfl, h, .inl rfl⟩
    · rw [conversationIn_eq (Nat.not_lt.mp hshort), Option.bind_some]
      cases hconv : conversation packet with
      | none => exact ⟨_, rfl, h, .inl rfl⟩
      | some conv =>
        obtain ⟨r, hr, hsettled, hrouted⟩ := h.demux ⟨canonical addr, conv, packet⟩
        exact ⟨r, hr, hsettled, .inr ⟨packet, conv, rfl, hconv, hrouted⟩⟩

end Calls

private theorem settled_start (strictSource : Bool) : Settled (start none strictSource) :=
  ⟨inv_start none strictSource, rfl, fun id e he => by cases he⟩

/-- A listener that takes its datagrams one after the other, with accepts in between: no access is
out of range, and each datagram is dropped or routed by its address, its conversation and its
sequence number. -/
theorem packets_demultiplexed (opens : Bytes → Option Bytes) (strictSource : Bool)
    (calls : List Call) :
    ∃ s, exec (State.call opens) (start none strictSource) calls = some s ∧
      ∀ data addr, ∃ s' effects, s.packetInput opens data addr = some (s', effects) ∧
        (s' = s ∧ effects = [] ∨ ∃ packet conv, opens data = some packet ∧
          conversation packet = some conv ∧
          Routed s ⟨canonical addr, conv, packet⟩ s' effects) := by
  have hstep : ∀ s c, Settled s → ∃ s', State.call opens s c = some s' ∧ Settled s' := by
    intro s c h
    cases c with
    | packet data addr =>
      obtain ⟨r, hr, hsettled, -⟩ := h.packetInput opens data addr
      exact ⟨r.1, Option.map_eq_some_iff.mpr ⟨r, hr, rfl⟩, hsettled⟩
    | accept =>
      exact ⟨_, rfl, ⟨h.inv.held, h.inv.table, h.inv.own, h.inv.aliases⟩, h.idle, h.stages⟩
  obtain ⟨s, hrun, hsettled⟩ := exec_total Settled hstep calls (settled_start strictSource)
  refine ⟨s, hrun, ?_⟩
  intro data addr
  obtain ⟨⟨s', effects⟩, hr, -, hcases⟩ := hsettled.packetInput opens data addr
  refine ⟨s', effects, hr, hcases.imp_left ?_⟩
  intro heq
  exact Prod.mk.inj heq

/-! A call of `packet_input` is a run of the listener's steps with nothing in between. -/

section Steps

variable {s s' : State} {p : Inbound} {id : ℕ} {e : Entry}

private theorem setStage_setStage (s : State) (id : ℕ) (stage stage' : Stage) :
    (s.setStage id stage).setStage id stage' = s.setStage id stage' := by
  unfold State.setStage
  dsimp only
  rw [List.modify_modify_eq]
  rfl

private theorem newSession_run (hidle : s.receive = .idle) (p : Inbound) :
    ∃ acts, exec State.step { s with receive := .creating p } acts = some (s.newSession p).1 := by
  obtain ⟨crypt, strictSource, entries, sessions, byConv, accepts, receive⟩ := s
  obtain rfl : receive = .idle := hidle
  unfold State.newSession
  split_ifs with hdrop
  · refine ⟨[.receive], ?_⟩
    have hcreate : State.create ⟨crypt, strictSource, entries, sessions, byConv, accepts,
        .creating p⟩ p = ⟨crypt, strictSource, entries, sessions, byConv, accepts, .idle⟩ := by
      unfold State.create
      cases hc : p.conv with
      | none => rfl
      | some c =>
        rcases hdrop with hnone | hfull
        · cases hc.symm.trans hnone
        · dsimp only
          rw [if_pos hfull]
    exact congrArg some hcreate
  · obtain ⟨hconv, hroom⟩ := not_or.mp hdrop
    obtain ⟨c, hc⟩ := Option.ne_none_iff_exists'.mp hconv
    refine ⟨[.receive, .receive, .receive], ?_⟩
    have hcreate : ∀ receive, State.create ⟨crypt, strictSource, entries, sessions, byConv, accepts,
        receive⟩ p = ⟨crypt, strictSource, entries ++ [⟨p.addr, c.1, .live⟩],
          sessions.insert p.addr entries.length, byConv, accepts, .inserted entries.length⟩ := by
      intro receive
      unfold State.create
      rw [hc]
      dsimp only
      rw [if_neg hroom]
    simp only [exec, State.step, State.next, Option.bind_some, hcreate]
    rfl

private theorem step_advance {t : State} (he : t.entries[id]? = some e) :
    t.step (.advance id) = t.advance id e := by
  unfold State.step
  dsimp only
  rw [he]
  rfl

private theorem close_run (he : s.entries[id]? = some e) (hlive : e.stage = .live) (p : Inbound) :
    exec State.step { s.swapFlag id e with receive := .closing p id }
      [.advance id, .advance id, .advance id, .advance id, .receive] =
        some { (s.close id e).1 with receive := .creating p } := by
  let standing (stage : Stage) : State := { s.setStage id stage with receive := .closing p id }
  have hentry : ∀ stage, (standing stage).entries[id]? = some { e with stage } :=
    fun stage => State.entry_self he
  have hset : ∀ stage stage', (standing stage).setStage id stage' = standing stage' := by
    intro stage stage'
    exact congrArg (fun t : State => { t with receive := .closing p id })
      (setStage_setStage s id stage stage')
  have hflush : (standing .flagged).step (.advance id) = some (standing .flushed) :=
    (step_advance (hentry .flagged)).trans (congrArg some (hset .flagged .flushed))
  have hcancel : (standing .flushed).step (.advance id) = some (standing .cancelled) :=
    (step_advance (hentry .flushed)).trans (congrArg some (hset .flushed .cancelled))
  have haddr : (standing .cancelled).step (.advance id) =
      some { s.removeAddr id e with receive := .closing p id } := by
    refine (step_advance (hentry .cancelled)).trans (congrArg some ?_)
    exact congrArg (fun t : State => { t with sessions := s.sessions.erase e.remote })
      (hset .cancelled (.removed (s.sessions.lookup e.remote)))
  have hremoved : (s.removeAddr id e).entries[id]? =
      some { e with stage := .removed (s.sessions.lookup e.remote) } := State.entry_self he
  have hconv : State.step { s.removeAddr id e with receive := .closing p id } (.advance id) =
      some { (s.close id e).1 with receive := .closing p id } := by
    refine (@step_advance id _ { s.removeAddr id e with receive := .closing p id } hremoved).trans
      (congrArg some ?_)
    unfold State.close
    rw [if_pos hlive]
    rfl
  have hreturned : (s.close id e).1.entries[id]? = some { e with stage := .returned } := by
    rw [close_entries hlive]
    exact State.entry_self he
  have hreceive : State.step { (s.close id e).1 with receive := .closing p id } .receive =
      some { (s.close id e).1 with receive := .creating p } := by
    unfold State.step State.next
    dsimp only
    rw [hreturned]
    rfl
  have hstart : ({ s.swapFlag id e with receive := .closing p id } : State) = standing .flagged := by
    unfold State.swapFlag
    rw [if_pos hlive]
  rw [hstart]
  simp only [exec, hflush, hcancel, haddr, hconv, hreceive, Option.bind_some]

private theorem route_reset {c : UInt32 × UInt32} (hc : p.conv = some c) (hlive : e.stage = .live)
    (hconv : c.1 ≠ e.conv) (hsn : ¬c.2 ≠ 0) :
    State.route { s with receive := .found p (some id) } p id e =
      { s.swapFlag id e with receive := .closing p id } := by
  unfold State.route
  rw [hc]
  dsimp only
  rw [if_neg hconv, if_neg hsn, if_pos hlive]
  unfold State.swapFlag
  rw [if_pos hlive, if_pos hlive]
  rfl

private theorem deliver_run (hidle : s.receive = .idle) (he : s.entries[id]? = some e)
    (hlive : e.stage = .live) (p : Inbound) :
    ∃ acts, exec State.step { s with receive := .found p (some id) } acts =
      some (s.deliver p id e).1 := by
  have hkept : ({ s with receive := .idle } : State) = s := by rw [← hidle]
  have hroute : State.step { s with receive := .found p (some id) } .receive =
      some (State.route { s with receive := .found p (some id) } p id e) := by
    unfold State.step State.next
    dsimp only
    rw [he]
    rfl
  have hends : State.route { s with receive := .found p (some id) } p id e =
      { s with receive := .idle } →
      ∃ acts, exec State.step { s with receive := .found p (some id) } acts = some s := by
    intro heq
    exact ⟨[.receive], exec_cons_iff.mpr ⟨_, hroute, congrArg some (heq.trans hkept)⟩⟩
  unfold State.deliver
  cases hc : p.conv with
  | none => exact hends (by unfold State.route; rw [hc])
  | some c =>
    dsimp only
    split_ifs with hsame hsn
    · exact hends (by unfold State.route; rw [hc]; exact if_pos hsame)
    · apply hends
      unfold State.route
      rw [hc]
      exact (if_neg hsame).trans (if_pos hsn)
    · have hclosed : (s.close id e).1.receive = .idle := by
        unfold State.close
        rw [if_pos hlive]
        exact hidle
      obtain ⟨acts, hacts⟩ := newSession_run hclosed p
      rw [route_reset hc hlive hsame hsn] at hroute
      exact ⟨_, exec_cons_iff.mpr ⟨_, hroute, exec_append_iff.mpr ⟨_, close_run he hlive p, hacts⟩⟩⟩

private theorem Settled.demux_run (h : Settled s) {p : Inbound} {effects : List Effect}
    (hcall : s.demux p = some (s', effects)) :
    ∃ acts, exec State.step { s with receive := .byAddr p (s.sessions.lookup p.addr) } acts =
      some s' := by
  have hfound : State.step { s with receive := .byAddr p (s.sessions.lookup p.addr) } .receive =
      some { s with receive := .found p (s.existing p) } := by
    unfold State.step State.next State.existing
    dsimp only
    cases s.sessions.lookup p.addr <;> rfl
  unfold State.demux at hcall
  cases hexisting : s.existing p with
  | none =>
    rw [hexisting] at hcall hfound
    obtain ⟨acts, hacts⟩ := newSession_run h.idle p
    obtain rfl : (s.newSession p).1 = s' := congrArg Prod.fst (Option.some.inj hcall)
    exact ⟨.receive :: .receive :: acts,
      exec_cons_iff.mpr ⟨_, hfound, exec_cons_iff.mpr ⟨_, rfl, hacts⟩⟩⟩
  | some id =>
    rw [hexisting] at hcall hfound
    obtain ⟨e, he, hdeliver⟩ := Option.map_eq_some_iff.mp hcall
    have hlive : e.stage = .live := by
      unfold State.existing at hexisting
      cases hid : s.sessions.lookup p.addr with
      | some j =>
        rw [hid] at hexisting
        obtain rfl := Option.some.inj hexisting
        obtain ⟨e', he', -, hlive⟩ := h.of_lookup hid
        obtain rfl := Option.some.inj (he.symm.trans he')
        exact hlive
      | none =>
        rw [hid] at hexisting
        unfold State.aliased at hexisting
        split_ifs at hexisting
        obtain ⟨c, -, hlookup⟩ := Option.bind_eq_some_iff.mp hexisting
        obtain ⟨e', he', -, hlive⟩ := h.of_alias hlookup
        obtain rfl := Option.some.inj (he.symm.trans he')
        exact hlive
    obtain ⟨acts, hacts⟩ := deliver_run h.idle he hlive p
    rw [hdeliver] at hacts
    exact ⟨.receive :: acts, exec_cons_iff.mpr ⟨_, hfound, hacts⟩⟩

theorem Settled.packetInput_run (h : Settled s) {data : Bytes} {addr : SocketAddr}
    {effects : List Effect}
    (hcall : s.packetInput (decrypt s.crypt) data addr = some (s', effects)) :
    ∃ acts, exec State.step s (.packet data addr :: acts) = some s' := by
  have hdropped : openPacket s.crypt data addr = none → s' = s →
      ∃ acts, exec State.step s (.packet data addr :: acts) = some s' := by
    rintro hopen rfl
    refine ⟨[], exec_cons_iff.mpr ⟨s', ?_, rfl⟩⟩
    unfold State.step
    dsimp only
    rw [if_pos h.idle, hopen]
  unfold State.packetInput at hcall
  cases hdata : decrypt s.crypt data with
  | none =>
    rw [hdata] at hcall
    refine hdropped ?_ (Prod.mk.inj (Option.some.inj hcall)).1.symm
    unfold openPacket
    rw [hdata]
    rfl
  | some packet =>
    rw [hdata] at hcall
    dsimp only at hcall
    split_ifs at hcall with hshort
    · refine hdropped ?_ (Prod.mk.inj (Option.some.inj hcall)).1.symm
      unfold openPacket
      rw [hdata, Option.bind_some, if_pos hshort]
    · rw [conversationIn_eq (Nat.not_lt.mp hshort), Option.bind_some] at hcall
      cases hconv : conversation packet with
      | none =>
        rw [hconv] at hcall
        refine hdropped ?_ (Prod.mk.inj (Option.some.inj hcall)).1.symm
        unfold openPacket
        rw [hdata, Option.bind_some, if_neg hshort, hconv]
        rfl
      | some conv =>
        rw [hconv] at hcall
        obtain ⟨acts, hacts⟩ := h.demux_run hcall
        refine ⟨acts, exec_cons_iff.mpr ⟨_, ?_, hacts⟩⟩
        unfold State.step openPacket
        dsimp only
        rw [if_pos h.idle, hdata, Option.bind_some, if_neg hshort, hconv]
        rfl

end Steps

end Listener

end Kcptun.Session
