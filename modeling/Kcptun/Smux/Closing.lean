/- Kcptun/Smux/Closing
   source: crates/smux/src/session.rs (close_shared, open_stream, accept_stream, recv_loop: SYN)
   digest: Closing a session while streams are being opened and accepted, and which of them are
     told. -/

import Kcptun.Lib.Interleaving
import Mathlib.Tactic.Common

set_option autoImplicit false
set_option relaxedAutoImplicit false

namespace Kcptun.Smux.Closing

open Kcptun.Lib

def DEFAULT_ACCEPT_BACKLOG : ℕ := 1024

/-- Where the call of `close_shared` that closes the session is; `marking` is what it took out of the
map and has not told yet. -/
inductive CloserPc where
  | idle | cancelDie | takeMap
  | marking (inners : List ℕ)
  | returned
deriving DecidableEq, Repr

/-- Where `recv_loop` is: reading a frame, handing a new stream to the accept channel, or gone. -/
inductive RecvPc where
  | frame
  | sending (inner : ℕ)
  | stopped
deriving DecidableEq, Repr

/-- A stream being opened: its id and its `StreamInner`. -/
structure Opening where
  sid : UInt32
  inner : ℕ
deriving DecidableEq, Repr

/-- A session. `dies` holds the `die` flag of each `StreamInner`, `streams` the session map,
`lock` the `open_stream` call that holds the map's lock between its flag tests and its insertion,
`starting` counts the calls that found the session open and have no id yet, `handles` the streams
that were returned to callers. -/
structure State where
  nextStreamId : UInt32
  goAway : Bool := false
  closed : Bool := false
  die : Bool := false
  failed : Bool := false
  dies : List Bool := []
  streams : List (UInt32 × ℕ) := []
  lock : Option Opening := none
  starting : ℕ := 0
  opening : List Opening := []
  accepts : List ℕ := []
  handles : List ℕ := []
  closer : CloserPc := .idle
  recv : RecvPc := .frame
deriving DecidableEq, Repr

/-- The choices of the scheduler. `close` and `closer` are the first call of `close_shared`; later
calls find `closed` set and do nothing. `synFrame` is a `cmdSYN` that `recv_loop` reads, which its
`select!` can still do when `die` is set. `connectionFails` stands for the two socket errors. -/
inductive Action where
  | close
  | closer
  | synFrame (sid : UInt32)
  | sendAccept
  | recvStops
  | openStream
  | allocate
  | openFails (o : Opening)
  | testFlags (o : Opening)
  | register
  | accept
  | connectionFails
deriving DecidableEq, Repr

def State.sessionClose (s : State) (inner : ℕ) : State := { s with dies := s.dies.set inner true }

def State.closerStep (s : State) : Option State :=
  match s.closer with
  | .idle | .returned => none
  | .cancelDie => some { s with die := true, closer := .takeMap }
  | .takeMap =>
    if s.lock = none then
      some { s with streams := [], closer := .marking (s.streams.map Prod.snd) }
    else none
  | .marking [] => some { s with closer := .returned }
  | .marking (inner :: rest) => some { s.sessionClose inner with closer := .marking rest }

def State.syn (s : State) (sid : UInt32) : State :=
  match s.streams.lookup sid with
  | some _ => s
  | none => { s with
      dies := s.dies ++ [false]
      streams := (sid, s.dies.length) :: s.streams
      recv := .sending s.dies.length }

/-- `streams.insert`: an entry of the same id is replaced. -/
def State.insert (s : State) (o : Opening) : State :=
  { s with
    streams := (o.sid, o.inner) :: s.streams.filter (·.1 ≠ o.sid)
    lock := none
    opening := s.opening.erase o
    handles := s.handles ++ [o.inner] }

def State.next (s : State) : Action → Option State
  | .close => some (if s.closed then s else { s with closed := true, closer := .cancelDie })
  | .closer => s.closerStep
  | .synFrame sid => if s.recv = .frame ∧ s.lock = none then some (s.syn sid) else none
  | .sendAccept =>
    match s.recv with
    | .sending inner =>
      if s.accepts.length < DEFAULT_ACCEPT_BACKLOG then
        some { s with accepts := s.accepts ++ [inner], recv := .frame }
      else none
    | _ => none
  | .recvStops =>
    match s.recv with
    | .frame => some { s with recv := .stopped }
    | .sending _ => if s.die then some { s with recv := .stopped } else none
    | .stopped => none
  | .openStream => some (if s.closed then s else { s with starting := s.starting + 1 })
  | .allocate =>
    if s.starting = 0 then none
    else if s.goAway then some { s with starting := s.starting - 1 }
    else if s.nextStreamId + 2 < s.nextStreamId then
      some { s with starting := s.starting - 1, goAway := true }
    else some { s with
      nextStreamId := s.nextStreamId + 2
      starting := s.starting - 1
      dies := s.dies ++ [false]
      opening := s.opening ++ [⟨s.nextStreamId + 2, s.dies.length⟩] }
  | .openFails o => if s.lock = some o then none else some { s with opening := s.opening.erase o }
  | .testFlags o =>
    if o ∈ s.opening ∧ s.lock = none then
      some (if s.failed ∨ s.die then { s with opening := s.opening.erase o }
        else { s with lock := some o })
    else none
  | .register => s.lock.map s.insert
  | .accept =>
    match s.accepts with
    | [] => none
    | inner :: rest => some { s with accepts := rest, handles := s.handles ++ [inner] }
  | .connectionFails => some { s with failed := true }

def State.new (client : Bool) : State := { nextStreamId := if client then 1 else 0 }

def CloserPc.drained : CloserPc → Bool
  | .marking _ | .returned => true
  | _ => false

def CloserPc.marks : CloserPc → List ℕ
  | .marking inners => inners
  | _ => []

def State.visible (s : State) : List ℕ :=
  s.handles ++ s.accepts ++ match s.recv with
    | .sending inner => [inner]
    | _ => []

/-- No stream is put into a map that has been taken, and none replaces another one. -/
def State.Orderly (s : State) : Action → Prop
  | .synFrame sid => s.streams.lookup sid = none → s.closer.drained = false
  | .register => (s.lock.bind fun o => s.streams.lookup o.sid) = none
  | _ => True

instance (s : State) (a : Action) : Decidable (s.Orderly a) := by
  cases a <;> unfold State.Orderly <;> infer_instance

/-- Every visible stream is marked, registered, or about to be marked. -/
structure State.Covered (s : State) : Prop where
  known : ∀ i ∈ s.visible, s.dies[i]? = some true ∨ i ∈ s.streams.map Prod.snd ∨ i ∈ s.closer.marks
  entries : ∀ i ∈ s.streams.map Prod.snd, i < s.dies.length
  marks_lt : ∀ i ∈ s.closer.marks, i < s.dies.length
  opening_lt : ∀ o ∈ s.opening, o.inner < s.dies.length
  lock_mem : ∀ o, s.lock = some o → o ∈ s.opening ∧ s.closer.drained = false
  drained_map : s.closer.drained = true → s.streams = []
  drained_die : s.closer.drained = true → s.die = true
  take_die : s.closer = .takeMap → s.die = true
  idle : s.closed = false → s.closer = .idle

variable {s s' : State} {a : Action}

private theorem State.Covered.of_eq (h : s.Covered) (hvisible : ∀ i ∈ s'.visible, i ∈ s.visible)
    (hdies : s'.dies = s.dies) (hstreams : s'.streams = s.streams) (hcloser : s'.closer = s.closer)
    (hopening : ∀ o ∈ s'.opening, o ∈ s.opening)
    (hlock : ∀ o, s'.lock = some o → o ∈ s'.opening ∧ s.closer.drained = false)
    (hdie : s'.die = s.die) (hclosed : s'.closed = s.closed) : s'.Covered where
  known i hi := by rw [hdies, hstreams, hcloser]; exact h.known i (hvisible i hi)
  entries := by rw [hdies, hstreams]; exact h.entries
  marks_lt := by rw [hdies, hcloser]; exact h.marks_lt
  opening_lt o ho := by rw [hdies]; exact h.opening_lt o (hopening o ho)
  lock_mem o ho := by rw [hcloser]; exact hlock o ho
  drained_map := by rw [hcloser, hstreams]; exact h.drained_map
  drained_die := by rw [hcloser, hdie]; exact h.drained_die
  take_die := by rw [hcloser, hdie]; exact h.take_die
  idle := by rw [hclosed, hcloser]; exact h.idle

private theorem State.getElem?_create {i : ℕ} (hi : s.dies[i]? = some true) :
    (s.dies ++ [false])[i]? = some true := by
  have hlt : i < s.dies.length := by
    by_contra hge
    rw [List.getElem?_eq_none (by omega)] at hi
    cases hi
  rwa [List.getElem?_append_left hlt]

private theorem State.allocate_covered (h : s.Covered) (sid : UInt32) (starting : ℕ) :
    ({ s with
      nextStreamId := sid
      starting := starting
      dies := s.dies ++ [false]
      opening := s.opening ++ [⟨sid, s.dies.length⟩] } : State).Covered where
  known i hi := (h.known i hi).imp_left State.getElem?_create
  entries i hi := by
    have := h.entries i hi
    simp only [List.length_append, List.length_singleton]
    omega
  marks_lt i hi := by
    have := h.marks_lt i hi
    simp only [List.length_append, List.length_singleton]
    omega
  opening_lt o ho := by
    simp only [List.length_append, List.length_singleton]
    rcases List.mem_append.mp ho with hold | hnew
    · exact Nat.lt_succ_of_lt (h.opening_lt o hold)
    · cases List.mem_singleton.mp hnew
      exact Nat.lt_succ_self _
  lock_mem o ho := ⟨List.mem_append_left _ (h.lock_mem o ho).1, (h.lock_mem o ho).2⟩
  drained_map := h.drained_map
  drained_die := h.drained_die
  take_die := h.take_die
  idle := h.idle

private theorem State.syn_covered (h : s.Covered) {sid : UInt32} (hframe : s.recv = .frame)
    (hlock : s.lock = none) (hvacant : s.streams.lookup sid = none → s.closer.drained = false) :
    (s.syn sid).Covered := by
  unfold State.syn
  split
  next => exact h
  next hnone =>
    have hdrained := hvacant hnone
    have hvisible : s.visible = s.handles ++ s.accepts := by
      rw [State.visible, hframe, List.append_nil]
    refine ⟨?_, ?_, ?_, ?_, ?_, ?_, ?_, h.take_die, h.idle⟩
    · intro i hi
      rcases List.mem_append.mp hi with hold | hnew
      · rw [← hvisible] at hold
        rcases h.known i hold with hdie | hmap | hmark
        · exact .inl (State.getElem?_create hdie)
        · exact .inr (.inl (List.mem_cons_of_mem _ hmap))
        · exact .inr (.inr hmark)
      · cases List.mem_singleton.mp hnew
        exact .inr (.inl List.mem_cons_self)
    · intro i hi
      simp only [List.map_cons, List.length_append, List.length_singleton] at hi ⊢
      rcases List.mem_cons.mp hi with rfl | hold
      · exact Nat.lt_succ_self _
      · exact Nat.lt_succ_of_lt (h.entries i hold)
    · intro i hi
      have := h.marks_lt i hi
      simp only [List.length_append, List.length_singleton]
      omega
    · intro o ho
      have := h.opening_lt o ho
      simp only [List.length_append, List.length_singleton]
      omega
    · intro o ho
      rw [hlock] at ho
      cases ho
    · intro hd
      rw [hdrained] at hd
      cases hd
    · intro hd
      rw [hdrained] at hd
      cases hd

private theorem State.insert_covered (h : s.Covered) {o : Opening} (hlock : s.lock = some o)
    (hfree : s.streams.lookup o.sid = none) : (s.insert o).Covered := by
  obtain ⟨hmem, hdrained⟩ := h.lock_mem o hlock
  have hfilter : s.streams.filter (·.1 ≠ o.sid) = s.streams := by
    rw [List.filter_eq_self]
    intro e he
    have hne : ¬o.sid = e.1 := by simpa using List.lookup_eq_none_iff.mp hfree e he
    simpa using fun heq => hne heq.symm
  refine ⟨?_, ?_, h.marks_lt, ?_, ?_, ?_, ?_, h.take_die, h.idle⟩
  · intro i hi
    have hi' : i ∈ s.visible ∨ i = o.inner := by
      simp only [State.visible, State.insert, List.mem_append, List.mem_singleton] at hi ⊢
      tauto
    rcases hi' with hold | rfl
    · rcases h.known i hold with hdie | hmap | hmark
      · exact .inl hdie
      · refine .inr (.inl ?_)
        simp only [State.insert, hfilter]
        exact List.mem_cons_of_mem _ hmap
      · exact .inr (.inr hmark)
    · exact .inr (.inl List.mem_cons_self)
  · intro i hi
    simp only [State.insert, hfilter] at hi ⊢
    rcases List.mem_cons.mp hi with rfl | hold
    · exact h.opening_lt o hmem
    · exact h.entries i hold
  · intro p hp
    exact h.opening_lt p (List.mem_of_mem_erase hp)
  · intro p hp
    cases hp
  · intro hd
    rw [show (s.insert o).closer = s.closer from rfl, hdrained] at hd
    cases hd
  · intro hd
    rw [show (s.insert o).closer = s.closer from rfl, hdrained] at hd
    cases hd

private theorem State.closerStep_covered (h : s.Covered) (hstep : s.closerStep = some s') :
    s'.Covered := by
  unfold State.closerStep at hstep
  split at hstep
  next => cases hstep
  next => cases hstep
  next hpc =>
    cases hstep
    refine ⟨?_, h.entries, by simp [CloserPc.marks], h.opening_lt, ?_,
      by simp [CloserPc.drained], by simp [CloserPc.drained], fun _ => rfl, ?_⟩
    · intro i hi
      have := h.known i hi
      rwa [hpc] at this
    · intro o ho
      exact ⟨(h.lock_mem o ho).1, rfl⟩
    · intro hc
      have := h.idle hc
      rw [hpc] at this
      cases this
  next hpc =>
    split_ifs at hstep with hlock
    cases hstep
    refine ⟨?_, by simp, h.entries, h.opening_lt, ?_, fun _ => rfl,
      fun _ => h.take_die hpc, (fun hc => by cases hc), ?_⟩
    · intro i hi
      rcases h.known i hi with hdie | hmap | hmark
      · exact .inl hdie
      · exact .inr (.inr hmap)
      · rw [hpc] at hmark
        cases hmark
    · intro o ho
      rw [hlock] at ho
      cases ho
    · intro hc
      have := h.idle hc
      rw [hpc] at this
      cases this
  next hpc =>
    cases hstep
    refine ⟨?_, h.entries, by simp [CloserPc.marks], h.opening_lt, ?_,
      fun _ => h.drained_map (by rw [hpc]; rfl), fun _ => h.drained_die (by rw [hpc]; rfl),
      (fun hc => by cases hc), ?_⟩
    · intro i hi
      have := h.known i hi
      rwa [hpc] at this
    · intro o ho
      have := (h.lock_mem o ho).2
      rw [hpc] at this
      cases this
    · intro hc
      have := h.idle hc
      rw [hpc] at this
      cases this
  next inner rest hpc =>
    cases hstep
    have hmarks : s.closer.marks = inner :: rest := by rw [hpc]; rfl
    refine ⟨?_, ?_, ?_, ?_, ?_, fun _ => h.drained_map (by rw [hpc]; rfl),
      fun _ => h.drained_die (by rw [hpc]; rfl), (fun hc => by cases hc), ?_⟩
    · intro i hi
      have hlt := h.marks_lt inner (by rw [hmarks]; exact List.mem_cons_self)
      simp only [State.sessionClose]
      by_cases hii : inner = i
      · subst hii
        exact .inl (by rw [List.getElem?_set_self hlt])
      · rw [List.getElem?_set_ne hii]
        rcases h.known i hi with hdie | hmap | hmark
        · exact .inl hdie
        · exact .inr (.inl hmap)
        · rw [hmarks] at hmark
          exact .inr (.inr ((List.mem_cons.mp hmark).resolve_left (Ne.symm hii)))
    · simpa [State.sessionClose] using h.entries
    · intro i hi
      simp only [State.sessionClose, List.length_set]
      exact h.marks_lt i (by rw [hmarks]; exact List.mem_cons_of_mem inner hi)
    · simpa [State.sessionClose] using h.opening_lt
    · intro o ho
      have := (h.lock_mem o ho).2
      rw [hpc] at this
      cases this
    · intro hc
      have := h.idle hc
      rw [hpc] at this
      cases this

private theorem State.Covered.next (h : s.Covered) (horderly : s.Orderly a)
    (hnext : s.next a = some s') : s'.Covered := by
  cases a with
  | close =>
    simp only [State.next] at hnext
    split_ifs at hnext with hclosed
    · cases hnext
      exact h
    · cases hnext
      have hidle := h.idle (by simpa using hclosed)
      refine ⟨?_, h.entries, by simp [CloserPc.marks], h.opening_lt,
        fun o ho => ⟨(h.lock_mem o ho).1, rfl⟩, by simp [CloserPc.drained],
        by simp [CloserPc.drained], by simp, by simp⟩
      intro i hi
      have := h.known i hi
      rwa [hidle] at this
  | closer => exact State.closerStep_covered h hnext
  | synFrame sid =>
    simp only [State.next] at hnext
    split_ifs at hnext with hfree
    cases hnext
    exact State.syn_covered h hfree.1 hfree.2 horderly
  | sendAccept =>
    simp only [State.next] at hnext
    split at hnext
    next inner hrecv =>
      split_ifs at hnext
      cases hnext
      refine h.of_eq ?_ rfl rfl rfl (fun o ho => ho) h.lock_mem rfl rfl
      intro i hi
      simp only [State.visible, hrecv, List.mem_append] at hi ⊢
      tauto
    next => cases hnext
  | recvStops =>
    simp only [State.next] at hnext
    split at hnext
    next hrecv =>
      cases hnext
      refine h.of_eq ?_ rfl rfl rfl (fun o ho => ho) h.lock_mem rfl rfl
      intro i hi
      simpa only [State.visible, hrecv] using hi
    next inner hrecv =>
      split_ifs at hnext
      cases hnext
      refine h.of_eq ?_ rfl rfl rfl (fun o ho => ho) h.lock_mem rfl rfl
      intro i hi
      rw [State.visible, hrecv]
      exact List.mem_append_left _ (by simpa [State.visible] using hi)
    next => cases hnext
  | allocate =>
    simp only [State.next] at hnext
    split_ifs at hnext
    · cases hnext
      exact h.of_eq (fun i hi => hi) rfl rfl rfl (fun o ho => ho) h.lock_mem rfl rfl
    · cases hnext
      exact h.of_eq (fun i hi => hi) rfl rfl rfl (fun o ho => ho) h.lock_mem rfl rfl
    · cases hnext
      exact State.allocate_covered h _ _
  | openStream =>
    simp only [State.next] at hnext
    split_ifs at hnext <;> cases hnext
    · exact h
    · exact h.of_eq (fun i hi => hi) rfl rfl rfl (fun o ho => ho) h.lock_mem rfl rfl
  | openFails o =>
    simp only [State.next] at hnext
    split_ifs at hnext with hlock
    cases hnext
    refine h.of_eq (fun i hi => hi) rfl rfl rfl (fun p hp => List.mem_of_mem_erase hp)
      (fun p hp => ⟨?_, (h.lock_mem p hp).2⟩) rfl rfl
    refine (List.mem_erase_of_ne fun hpo => hlock ?_).mpr (h.lock_mem p hp).1
    exact hpo ▸ hp
  | testFlags o =>
    simp only [State.next] at hnext
    split_ifs at hnext with hfree hbroken
    · cases hnext
      refine h.of_eq (fun i hi => hi) rfl rfl rfl (fun p hp => List.mem_of_mem_erase hp) ?_ rfl rfl
      intro p hp
      rw [hfree.2] at hp
      cases hp
    · cases hnext
      refine h.of_eq (fun i hi => hi) rfl rfl rfl (fun p hp => hp) ?_ rfl rfl
      intro p hp
      cases hp
      refine ⟨hfree.1, ?_⟩
      -- the flags were tested before the map could be taken
      by_contra hdrained
      exact hbroken (.inr (h.drained_die (Bool.of_not_eq_false hdrained)))
  | register =>
    simp only [State.next, Option.map_eq_some_iff] at hnext
    obtain ⟨o, hlock, rfl⟩ := hnext
    apply State.insert_covered h hlock
    have hfree : (s.lock.bind fun o => s.streams.lookup o.sid) = none := horderly
    rwa [hlock, Option.bind_some] at hfree
  | accept =>
    simp only [State.next] at hnext
    split at hnext
    next => cases hnext
    next inner rest haccepts =>
      cases hnext
      refine h.of_eq ?_ rfl rfl rfl (fun o ho => ho) h.lock_mem rfl rfl
      intro i hi
      simp only [State.visible, haccepts, List.mem_append, List.mem_cons] at hi ⊢
      tauto
  | connectionFails =>
    cases hnext
    exact h.of_eq (fun i hi => hi) rfl rfl rfl (fun o ho => ho) h.lock_mem rfl rfl

private theorem State.covered_new (client : Bool) : (State.new client).Covered :=
  ⟨by simp [State.new, State.visible], by simp [State.new], by simp [State.new, CloserPc.marks],
    by simp [State.new], by simp [State.new], by simp [State.new, CloserPc.drained],
    by simp [State.new, CloserPc.drained], by simp [State.new], by simp [State.new]⟩

/-- In every schedule in which no stream is put into the map after `close_shared` took it and
`open_stream` replaces no entry: once `close_shared` has returned and `recv_loop` has stopped, every
stream a caller holds or can still accept has its `die` flag set. -/
theorem close_reaches_every_stream (client : Bool) (as : List Action)
    (hrun : exec State.next (State.new client) as = some s)
    (horderly : Along State.next State.Orderly (State.new client) as)
    (hclosed : s.closer = .returned) (hstopped : s.recv = .stopped) :
    ∀ i ∈ s.handles ++ s.accepts, s.dies[i]? = some true := by
  have hinv := exec_invariant State.Covered (fun _ _ _ hi ho hn => hi.next ho hn)
    (State.covered_new client) horderly hrun
  intro i hi
  have hmap := hinv.drained_map (by rw [hclosed]; rfl)
  have hvisible : i ∈ s.visible := by rwa [State.visible, hstopped, List.append_nil]
  rcases hinv.known i hvisible with hdie | hin | hmark
  · exact hdie
  · rw [hmap] at hin
    cases hin
  · rw [hclosed] at hmark
    cases hmark

/-- A stream is accepted, another one is opened, then the session closes. -/
def quietClose : List Action :=
  [.synFrame 2, .sendAccept, .accept, .openStream, .allocate, .testFlags ⟨3, 1⟩, .register, .close,
    .closer, .closer, .closer, .closer, .closer, .recvStops]

theorem close_reaches_every_stream_quiet :
    ∃ s, exec State.next (State.new true) quietClose = some s ∧ s.handles = [0, 1] ∧
      ∀ i ∈ s.handles ++ s.accepts, s.dies[i]? = some true := by
  have hrun : ∃ s, exec State.next (State.new true) quietClose = some s ∧ s.handles = [0, 1] ∧
      s.closer = .returned ∧ s.recv = .stopped := by decide +kernel
  obtain ⟨s, hs, hhandles, hclosed, hstopped⟩ := hrun
  exact ⟨s, hs, hhandles,
    close_reaches_every_stream true quietClose hs (by decide +kernel) hclosed hstopped⟩

def lateSyn : List Action :=
  [.close, .closer, .closer, .closer, .synFrame 2, .sendAccept, .recvStops, .accept]

/-- The stream is accepted from the closed session, and nothing will ever set its `die` flag. -/
theorem late_syn_not_told :
    ∃ s, exec State.next (State.new true) lateSyn = some s ∧ s.closer = .returned ∧
      s.recv = .stopped ∧ s.handles = [0] ∧ s.dies[0]? = some false := by
  decide +kernel

end Kcptun.Smux.Closing
