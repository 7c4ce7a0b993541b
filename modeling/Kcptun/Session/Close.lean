/- Kcptun/Session/Close
   source: crates/kcp/src/session.rs (close), crates/kcp/src/tx.rs (send, run, transmit),
     crates/kcp/src/io/mod.rs (send_batch, check_open, close)
   digest: Closing a session while its tx task drains the channel: which schedules hand everything
     the final flush queued to an open connection. -/

import Kcptun.Session.SizeBound

set_option autoImplicit false
set_option relaxedAutoImplicit false

namespace Kcptun.Session

open Kcptun.Arq Kcptun.Lib Kcptun.Lib.LittleEndian

def MAX_BATCH_SIZE : ℕ := 64
def DEV_BACKLOG : ℕ := 2048

/-- Where `TxPipeline::run` stands: before either poll of its select, after a request, in a
`transmit` (the last one, or one of the loop), or out of the loop. -/
inductive TxStage where
  | select
  | polled
  | received
  | transmitting (last : Bool)
  | leaving
  | done
deriving DecidableEq, Repr

/-- Where `UdpSession::close` stands. -/
inductive CloseStage where
  | running
  | flushing
  | cancelled
  | returned
deriving DecidableEq, Repr

/-- What a closing session and its tx task share. The last four fields record the run: what the
channel took, how much of that until `close` returned, what each request was turned into, and what
`send_batch` was given while the connection was open, with whether the socket took it. -/
structure Shutdown where
  listener : Bool
  ownConn : Bool
  pipeline : TxPipeline
  channel : List SendRequest := []
  txqueue : List Bytes := []
  tx : TxStage := .select
  close : CloseStage := .running
  die : Bool := false
  closed : Bool := false
  handles : Bool := true
  queued : List SendRequest := []
  due : ℕ := 0
  produced : List (SendRequest × List Bytes) := []
  passed : List (Bytes × Bool) := []

namespace Shutdown

/-- The steps of both sides. Sending may happen at any time: the final flush, but also writers and
the update task. -/
inductive Act where
  | send (request : SendRequest)
  | close
  | cancel
  | detach
  | dropHandles
  | pollRx (now : Int) (dup : ℕ) (entropy : ℕ → ℕ → UInt8)
  | pollDie
  | checkEmpty
  | sendBatch (result : Option ℕ)
  | leave

/-- `TxHandle::send`: without a free slot, or without a receiver, the request is dropped. -/
def send (s : Shutdown) (request : SendRequest) : Shutdown :=
  if s.tx = .done ∨ s.channel.length ≥ DEV_BACKLOG then s
  else { s with
    channel := s.channel ++ [request]
    queued := s.queued ++ [request]
    due := if s.close = .returned then s.due else s.queued.length + 1 }

/-- A request off the channel goes through the encoder and the cipher into the batch. -/
def process (s : Shutdown) (request : SendRequest) (rest : List SendRequest) (now : Int) (dup : ℕ)
    (entropy : ℕ → ℕ → UInt8) : Shutdown :=
  let s := { s with channel := rest, tx := .received }
  match s.pipeline.process request now dup entropy with
  | (p, .ok datagrams) => { s with
      pipeline := p
      txqueue := s.txqueue ++ datagrams
      produced := s.produced ++ [(request, datagrams)] }
  | (p, .error _) => { s with pipeline := p }

/-- The head of the loop in `transmit`: back to the select, or out of the task, once the batch is
gone. -/
def transmit (s : Shutdown) (last : Bool) : Shutdown :=
  { s with tx := if s.txqueue ≠ [] then .transmitting last else if last then .done else .select }

/-- `send_batch` on what is left of the batch. A closed connection refuses it; an error or no
progress of the socket gives it up. -/
def sendBatch (s : Shutdown) (result : Option ℕ) : Shutdown :=
  if s.closed then { s with txqueue := [] }
  else match result with
    | some (n + 1) => { s with
        passed := s.passed ++ (s.txqueue.take (n + 1)).map (·, true)
        txqueue := s.txqueue.drop (n + 1) }
    | _ => { s with
        passed := s.passed ++ s.txqueue.map (·, false)
        txqueue := [] }

@[simp] theorem sendBatch_tx (s : Shutdown) (result : Option ℕ) : (s.sendBatch result).tx = s.tx := by
  unfold sendBatch
  split_ifs
  · rfl
  · split <;> rfl

/-- One step; nothing when it is not its turn. -/
def step (s : Shutdown) : Act → Option Shutdown
  | .send request => if s.handles then some (s.send request) else none
  | .close => if s.close = .running ∧ s.handles then some { s with close := .flushing } else none
  | .cancel =>
    if s.close = .flushing then some { s with close := .cancelled, die := true } else none
  | .detach =>
    -- an accepted session leaves the socket to its listener, a dialled one closes its own
    if s.close = .cancelled then
      some { s with close := .returned, closed := s.closed || !s.listener && s.ownConn }
    else none
  | .dropHandles =>
    if s.close = .running ∨ s.close = .returned then some { s with handles := false } else none
  | .pollRx now dup entropy =>
    if s.tx = .select then
      match s.channel with
      | request :: rest => some (s.process request rest now dup entropy)
      | [] => some { s with tx := if s.handles then .polled else .leaving }
    else none
  | .pollDie =>
    if s.tx = .polled then some { s with tx := if s.die then .leaving else .select } else none
  | .checkEmpty =>
    if s.tx = .received then
      some (if s.channel = [] ∨ s.txqueue.length ≥ MAX_BATCH_SIZE then s.transmit false
        else { s with tx := .select })
    else none
  | .sendBatch result =>
    match s.tx with
    | .transmitting last => some ((s.sendBatch result).transmit last)
    | _ => none
  | .leave => if s.tx = .leaving then some (s.transmit true) else none

/-- A session before `close`, and its tx task. -/
def start (listener ownConn : Bool) (p : TxPipeline) : Shutdown := { listener, ownConn, pipeline := p }

/-- Everything queued until `close` returned was encoded, and all of it was given to `send_batch`
while the connection was open, in order, before the tx task ended. -/
def FinalFlushSent (s : Shutdown) : Prop :=
  s.tx = .done →
    (s.produced.take s.due).map Prod.fst = s.queued.take s.due ∧
    (s.produced.take s.due).flatMap Prod.snd <+: s.passed.map Prod.fst

/-- The steps that lose nothing: the connection is closed when channel and batch are empty, the
select takes its `die` branch when the channel is empty, and nothing is queued between there and the
end of the task until `close` has returned. -/
def Allowed (s : Shutdown) : Act → Prop
  | .detach => s.listener = false → s.ownConn = true → s.channel = [] ∧ s.txqueue = []
  | .pollDie => s.die = true → s.channel = []
  | .send _ => s.tx = .leaving ∨ s.tx = .transmitting true → s.close = .returned
  | _ => True

def Left (s : Shutdown) : Prop := s.tx = .leaving ∨ s.tx = .transmitting true ∨ s.tx = .done

def Handed (s : Shutdown) : Prop :=
  s.due ≤ s.produced.length ∧
    (s.produced.take s.due).flatMap Prod.snd <+: s.passed.map Prod.fst

/-- What holds in every state that allowed steps lead to. -/
structure Inv (crypt : Option PacketCrypt) (fec : Bool) (s : Shutdown) : Prop where
  pipeline : s.pipeline.Ok crypt fec
  fits : ∀ request ∈ s.channel, Endpoint.Fits crypt fec request
  order : s.queued = s.produced.map Prod.fst ++ s.channel
  due_le : s.due ≤ s.queued.length
  due_eq : s.close ≠ .returned → s.due = s.queued.length
  opened : s.closed = false → s.passed.map Prod.fst ++ s.txqueue = s.produced.flatMap Prod.snd
  shut : s.closed = true → s.close = .returned ∧ s.Handed
  left : s.Left → s.due ≤ s.produced.length
  drained : s.tx = .done → s.txqueue = []

namespace Inv

variable {crypt : Option PacketCrypt} {fec : Bool} {s s' : Shutdown}

theorem start (listener ownConn : Bool) {p : TxPipeline} (hp : p.Ok crypt fec) :
    (Shutdown.start listener ownConn p).Inv crypt fec :=
  ⟨hp, by simp [Shutdown.start], rfl, le_rfl, fun _ => rfl, fun _ => rfl,
    (fun hc => by cases hc), fun _ => le_rfl, fun _ => rfl⟩

private theorem due_of_empty (h : s.Inv crypt fec) (hchannel : s.channel = []) :
    s.due ≤ s.produced.length := by
  have hdue := h.due_le
  rwa [h.order, hchannel, List.append_nil, List.length_map] at hdue

private theorem handed (h : s.Inv crypt fec) (hclosed : s.closed = false) (hbatch : s.txqueue = [])
    (hdue : s.due ≤ s.produced.length) : s.Handed := by
  have hopen := h.opened hclosed
  rw [hbatch, List.append_nil] at hopen
  refine ⟨hdue, ?_⟩
  rw [hopen]
  exact (List.take_prefix ..).flatMap _

private theorem sent (h : s.Inv crypt fec) : s.FinalFlushSent := by
  intro hdone
  have hleft := h.left (.inr (.inr hdone))
  constructor
  · rw [h.order, List.take_append_of_le_length (by rwa [List.length_map]), List.map_take]
  · cases hclosed : s.closed with
    | true => exact (h.shut hclosed).2.2
    | false => exact (h.handed hclosed (h.drained hdone) hleft).2

private theorem moveTx (h : s.Inv crypt fec) (stage : TxStage)
    (hleft : ({ s with tx := stage } : Shutdown).Left → s.due ≤ s.produced.length)
    (hdone : stage = .done → s.txqueue = []) : ({ s with tx := stage } : Shutdown).Inv crypt fec :=
  ⟨h.pipeline, h.fits, h.order, h.due_le, h.due_eq, h.opened, h.shut, hleft, hdone⟩

theorem transmit (h : s.Inv crypt fec) (last : Bool)
    (hleft : last = true → s.due ≤ s.produced.length) : (s.transmit last).Inv crypt fec := by
  refine h.moveTx _ ?_ ?_
  · intro hl
    cases last with
    | true => exact hleft rfl
    | false =>
      by_cases hbatch : s.txqueue ≠ [] <;> simp [Left, hbatch] at hl
  · intro hl
    split_ifs at hl with hne hlast
    exact not_not.mp hne

theorem send (h : s.Inv crypt fec) {request : SendRequest} (hfits : Endpoint.Fits crypt fec request)
    (hallowed : s.Allowed (.send request)) : (s.send request).Inv crypt fec := by
  unfold Shutdown.send
  split_ifs with hgone hreturned
  · exact h
  · refine ⟨h.pipeline, ?_, ?_, ?_, fun hne => absurd hreturned hne, h.opened, h.shut, h.left,
      h.drained⟩
    · exact List.forall_mem_append.mpr ⟨h.fits, List.forall_mem_singleton.mpr hfits⟩
    · show s.queued ++ [request] = s.produced.map Prod.fst ++ (s.channel ++ [request])
      rw [h.order, List.append_assoc]
    · have hdue := h.due_le
      show s.due ≤ (s.queued ++ [request]).length
      rw [List.length_append]
      omega
  · refine ⟨h.pipeline, ?_, ?_, ?_, ?_, h.opened, ?_, ?_, h.drained⟩
    · exact List.forall_mem_append.mpr ⟨h.fits, List.forall_mem_singleton.mpr hfits⟩
    · show s.queued ++ [request] = s.produced.map Prod.fst ++ (s.channel ++ [request])
      rw [h.order, List.append_assoc]
    · show s.queued.length + 1 ≤ (s.queued ++ [request]).length
      rw [List.length_append, List.length_singleton]
    · intro hne
      show s.queued.length + 1 = (s.queued ++ [request]).length
      rw [List.length_append, List.length_singleton]
    · intro hclosed
      exact absurd (h.shut hclosed).1 hreturned
    · rintro (hl | hl | hl)
      · exact absurd (hallowed (.inl hl)) hreturned
      · exact absurd (hallowed (.inr hl)) hreturned
      · exact absurd (.inl hl) hgone

theorem process (h : s.Inv crypt fec) {request : SendRequest} {rest : List SendRequest}
    (hchannel : s.channel = request :: rest) (now : Int) (dup : ℕ)
    (entropy : ℕ → ℕ → UInt8) : (s.process request rest now dup entropy).Inv crypt fec := by
  have hfits := h.fits
  rw [hchannel, List.forall_mem_cons] at hfits
  obtain ⟨p', packets, datagrams, hprocess, hok, -⟩ := h.pipeline.process hfits.1 now dup entropy
  unfold Shutdown.process
  dsimp only
  rw [hprocess]
  generalize TxPipeline.queueAll dup datagrams = made
  refine ⟨hok, hfits.2, ?_, h.due_le, h.due_eq, ?_, ?_, ?_, ?_⟩
  · show s.queued = (s.produced ++ [(request, made)]).map Prod.fst ++ rest
    rw [h.order, hchannel]
    simp
  · intro hclosed
    show s.passed.map Prod.fst ++ (s.txqueue ++ made) =
      (s.produced ++ [(request, made)]).flatMap Prod.snd
    rw [← List.append_assoc, h.opened hclosed]
    simp
  · intro hclosed
    obtain ⟨hreturned, hdue, hpassed⟩ := h.shut hclosed
    refine ⟨hreturned, ?_, ?_⟩
    · show s.due ≤ (s.produced ++ [(request, made)]).length
      rw [List.length_append]
      omega
    · show ((s.produced ++ [(request, made)]).take s.due).flatMap Prod.snd <+: _
      rw [List.take_append_of_le_length hdue]
      exact hpassed
  · rintro (hl | hl | hl) <;> cases hl
  · intro hl
    cases hl

theorem sendBatch (h : s.Inv crypt fec) (hdone : s.tx ≠ .done) (result : Option ℕ) :
    (s.sendBatch result).Inv crypt fec := by
  have hpassed (sent : List (Bytes × Bool)) (batch : List Bytes)
      (hsplit : s.txqueue = sent.map Prod.fst ++ batch) (hclosed : s.closed = false) :
      ({ s with passed := s.passed ++ sent, txqueue := batch } : Shutdown).Inv crypt fec := by
    refine ⟨h.pipeline, h.fits, h.order, h.due_le, h.due_eq, ?_, ?_, h.left,
      fun hd => absurd hd hdone⟩
    · intro _
      show (s.passed ++ sent).map Prod.fst ++ batch = s.produced.flatMap Prod.snd
      rw [List.map_append, List.append_assoc, ← hsplit, h.opened hclosed]
    · intro hc
      exact absurd hc (by rw [hclosed]; decide)
  unfold Shutdown.sendBatch
  split_ifs with hclosed
  · refine ⟨h.pipeline, h.fits, h.order, h.due_le, h.due_eq, ?_, h.shut, h.left, fun _ => rfl⟩
    intro hc
    exact absurd hclosed (by rw [hc]; decide)
  · rw [Bool.not_eq_true] at hclosed
    split
    next n =>
      refine hpassed _ _ ?_ hclosed
      simp [List.map_map, Function.comp_def]
    next =>
      refine hpassed _ _ ?_ hclosed
      simp [List.map_map, Function.comp_def]

theorem step (h : s.Inv crypt fec) {act : Act} (hallowed : s.Allowed act)
    (hfits : ∀ request, act = .send request → Endpoint.Fits crypt fec request)
    (hstep : s.step act = some s') : s'.Inv crypt fec := by
  cases act with
  | send request =>
    simp only [Shutdown.step] at hstep
    split_ifs at hstep
    cases hstep
    exact h.send (hfits request rfl) hallowed
  | close =>
    simp only [Shutdown.step] at hstep
    split_ifs at hstep with hturn
    cases hstep
    refine ⟨h.pipeline, h.fits, h.order, h.due_le, fun _ => h.due_eq ?_, h.opened, ?_, h.left,
      h.drained⟩
    · rw [hturn.1]
      decide
    · intro hclosed
      exact absurd (h.shut hclosed).1 (by rw [hturn.1]; decide)
  | cancel =>
    simp only [Shutdown.step] at hstep
    split_ifs at hstep with hturn
    cases hstep
    refine ⟨h.pipeline, h.fits, h.order, h.due_le, fun _ => h.due_eq ?_, h.opened, ?_, h.left,
      h.drained⟩
    · rw [hturn]
      decide
    · intro hclosed
      exact absurd (h.shut hclosed).1 (by rw [hturn]; decide)
  | detach =>
    simp only [Shutdown.step] at hstep
    split_ifs at hstep with hturn
    cases hstep
    have hopen : s.closed = false := by
      by_contra hc
      rw [Bool.not_eq_false] at hc
      exact absurd (h.shut hc).1 (by rw [hturn]; decide)
    refine ⟨h.pipeline, h.fits, h.order, h.due_le, fun hne => absurd rfl hne, fun _ => h.opened hopen,
      ?_, h.left, h.drained⟩
    intro hc
    rw [hopen, Bool.false_or, Bool.and_eq_true, Bool.not_eq_true'] at hc
    obtain ⟨hchannel, hbatch⟩ := hallowed hc.1 hc.2
    exact ⟨rfl, h.handed hopen hbatch (h.due_of_empty hchannel)⟩
  | dropHandles =>
    simp only [Shutdown.step] at hstep
    split_ifs at hstep
    cases hstep
    exact ⟨h.pipeline, h.fits, h.order, h.due_le, h.due_eq, h.opened, h.shut, h.left, h.drained⟩
  | pollRx now dup entropy =>
    simp only [Shutdown.step] at hstep
    split at hstep
    next hturn =>
      split at hstep
      next request rest hchannel =>
        cases hstep
        exact h.process hchannel now dup entropy
      next hchannel =>
        cases hstep
        refine h.moveTx _ (fun _ => h.due_of_empty hchannel) ?_
        cases s.handles <;> intro hd <;> cases hd
    next => cases hstep
  | pollDie =>
    simp only [Shutdown.step] at hstep
    split at hstep
    next hturn =>
      cases hstep
      refine h.moveTx _ (fun hl => h.due_of_empty (hallowed ?_)) ?_
      · by_contra hdie
        rw [if_neg hdie] at hl
        rcases hl with hl | hl | hl <;> cases hl
      · cases s.die <;> intro hd <;> cases hd
    next => cases hstep
  | checkEmpty =>
    simp only [Shutdown.step] at hstep
    split_ifs at hstep with hturn hempty
    · cases hstep
      exact h.transmit false (fun hc => by cases hc)
    · cases hstep
      refine h.moveTx _ ?_ (fun hc => by cases hc)
      rintro (hl | hl | hl) <;> cases hl
  | sendBatch result =>
    simp only [Shutdown.step] at hstep
    split at hstep
    next last hturn =>
      cases hstep
      have hsent := h.sendBatch (by rw [hturn]; exact TxStage.noConfusion) result
      refine hsent.transmit last fun hlast => hsent.left (.inr (.inl ?_))
      rw [sendBatch_tx, hturn, hlast]
    next => cases hstep
  | leave =>
    simp only [Shutdown.step] at hstep
    split_ifs at hstep with hturn
    cases hstep
    exact h.transmit true fun _ => h.left (.inl hturn)

end Inv

instance (s : Shutdown) : Decidable s.FinalFlushSent := inferInstanceAs (Decidable (_ → _ ∧ _))

instance (s : Shutdown) : ∀ act, Decidable (s.Allowed act)
  | .detach => inferInstanceAs (Decidable (_ → _ → _))
  | .pollDie => inferInstanceAs (Decidable (_ → _))
  | .send _ => inferInstanceAs (Decidable (_ → _))
  | .close | .cancel | .dropHandles | .pollRx .. | .checkEmpty | .sendBatch _ | .leave =>
    .isTrue trivial

def QueuedBy {O C : Type} [Output O] [Clock C] (e : Endpoint O C) (acts : List Act) : Prop :=
  ∀ request, Act.send request ∈ acts →
    ∃ ops before, exec Endpoint.step e ops = some before ∧ before.Requests request

/-- In every schedule of a closing session and its tx task, dialled or accepted, whose steps are all
allowed, everything queued until `close` returned is given to `send_batch` while the connection is
open, before the task ends. -/
theorem final_flush_sent {O C : Type} [Output O] [Clock C] {config : SessionConfig} {channel : O}
    {clock : C} {e : Endpoint O C} {p : TxPipeline}
    (hnew : Endpoint.new config channel clock = .ok (e, p)) (listener ownConn : Bool)
    {acts : List Act} {s : Shutdown} (hqueued : QueuedBy e acts)
    (hallowed : Along step Allowed (start listener ownConn p) acts)
    (hrun : exec step (start listener ownConn p) acts = some s) : s.FinalFlushSent := by
  obtain ⟨-, hcrypt, -, -, hencoder⟩ := Endpoint.new_spec hnew
  have hgood : ∀ act ∈ acts, ∀ request, act = .send request →
      Endpoint.Fits config.crypt p.fecEncoder.isSome request := by
    rintro _ hact request rfl
    obtain ⟨ops, before, hbefore, hrequest⟩ := hqueued request hact
    exact Endpoint.request_fits hnew hbefore hrequest
  have hinv := exec_invariant (Inv config.crypt p.fecEncoder.isSome)
    (fun s act s' h hok hstep => h.step hok.1 hok.2 hstep)
    (Inv.start listener ownConn (TxPipeline.ok_new hcrypt hencoder)) (hallowed.and_forall hgood) hrun
  exact hinv.sent

def plainConfig : SessionConfig := ⟨7, 0, 0, none⟩

/-- Three bytes; the congestion window lets them out with the final flush. -/
def lastWrite : List Endpoint.Op := [.write [[1, 2, 3]], .close]

def lastRequest : SendRequest :=
  ⟨[7, 0, 0, 0, 81, 0, 32, 0, 0, 0, 0, 0, 0, 0, 0, 0, 0, 0, 0, 0, 3, 0, 0, 0, 1, 2, 3], false⟩

def receive : Act := .pollRx 0 0 fun _ _ => 0

/-- The tx task finds the channel non-empty only after the connection was closed. -/
def closedFirst : List Act :=
  [.close, .send lastRequest, .cancel, .detach, receive, .checkEmpty, .sendBatch (some 1), receive,
    .pollDie, .leave]

def betweenPolls : List Act :=
  [receive, .close, .send lastRequest, .cancel, .pollDie, .leave, .detach]

def drainedFirst : List Act :=
  [.close, .send lastRequest, receive, .checkEmpty, .sendBatch (some 1), .cancel, .detach, receive,
    .pollDie, .leave]

private theorem queuedBy_lastRequest : ∃ (e : Endpoint Unbounded VirtualClock) (p : TxPipeline),
    Endpoint.new plainConfig ⟨⟩ ⟨0⟩ = .ok (e, p) ∧ p = ⟨none, none⟩ ∧
      ∀ acts, (∀ request, Act.send request ∈ acts → request = lastRequest) → QueuedBy e acts := by
  refine ⟨_, _, rfl, rfl, ?_⟩
  intro acts hacts request hmem
  rw [hacts request hmem]
  refine ⟨lastWrite, _, rfl, .inl ⟨lastRequest.buffer, ?_, fun _ => 0, ?_⟩⟩
  · decide +kernel
  · decide +kernel

/-- A dialled session whose connection is closed before the task looks, and an accepted one whose
flush falls between the two polls: the packet of the final flush is lost. -/
theorem final_flush_lost : ∃ (e : Endpoint Unbounded VirtualClock) (p : TxPipeline),
    Endpoint.new plainConfig ⟨⟩ ⟨0⟩ = .ok (e, p) ∧
      QueuedBy e closedFirst ∧ QueuedBy e betweenPolls ∧
      (∃ s, exec step (start false true p) closedFirst = some s ∧ ¬ s.FinalFlushSent) ∧
      ∃ s, exec step (start true false p) betweenPolls = some s ∧ ¬ s.FinalFlushSent := by
  obtain ⟨e, p, hnew, rfl, hqueued⟩ := queuedBy_lastRequest
  refine ⟨e, _, hnew, hqueued _ ?_, hqueued _ ?_, ⟨_, rfl, ?_⟩, ⟨_, rfl, ?_⟩⟩
  · simp [closedFirst, receive]
  · simp [betweenPolls, receive]
  · decide +kernel
  · decide +kernel

/-- A dialled session whose task drains the channel in time. -/
theorem final_flush_sent_drained : ∃ s, exec step (start false true ⟨none, none⟩) drainedFirst =
    some s ∧ s.tx = .done ∧ s.closed = true ∧ s.queued = [lastRequest] ∧ s.due = 1 ∧
      s.FinalFlushSent := by
  obtain ⟨e, p, hnew, rfl, hqueued⟩ := queuedBy_lastRequest
  have hacts : QueuedBy e drainedFirst := hqueued _ (by simp [drainedFirst, receive])
  obtain ⟨s, hrun, hend⟩ : ∃ s, exec step (start false true ⟨none, none⟩) drainedFirst = some s ∧
      s.tx = .done ∧ s.closed = true ∧ s.queued = [lastRequest] ∧ s.due = 1 :=
    ⟨_, rfl, by decide +kernel⟩
  obtain ⟨hdone, hclosed, hlist, hdue⟩ := hend
  exact ⟨s, hrun, hdone, hclosed, hlist, hdue,
    final_flush_sent hnew false true hacts (by decide +kernel) hrun⟩

end Shutdown

end Kcptun.Session
