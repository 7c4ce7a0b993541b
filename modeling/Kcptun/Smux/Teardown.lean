/- Kcptun/Smux/Teardown
   source: crates/smux/src/stream.rs (close_write, close, stream_closed, try_half_close_cleanup, fin,
     queue_window_update, Drop for Stream, Drop for StreamInner), crates/smux/src/session.rs
     (stream_closed, close_shared, recv_loop)
   digest: The handles of streams and the calls under way on them, over the session's tokens and map:
     when the drop of a handle releases everything the stream held. -/

import Mathlib.Data.Finset.Basic
import Kcptun.Smux.Bucket

set_option autoImplicit false
set_option relaxedAutoImplicit false

namespace Kcptun.Smux.Teardown

open Kcptun.Lib Kcptun.Lib.LittleEndian
open Kcptun.Smux.Bucket (Inner)

/-- What became of the handle of a stream: `open_stream` has not returned it, or never will; it is in
the accept channel; a caller has it; it is dropped. -/
inductive Handle where
  | unborn
  | opening
  | failed
  | queued
  | held
  | gone
deriving DecidableEq, Repr

/-- Calls under way: `close` and `close_write` at their await, `try_half_close_cleanup` before its
test and before it leaves the map (called by `recv_loop` or by `close_write`), and the task that sends
window updates. -/
inductive Task where
  | closing (inner : ℕ)
  | halfClosing (inner : ℕ)
  | cleaning (recv : Bool) (inner : ℕ)
  | removing (recv : Bool) (inner : ℕ)
  | sender (inner : ℕ)
deriving DecidableEq, Repr

def Task.ofRecv : Task → Bool
  | .cleaning recv _ | .removing recv _ => recv
  | _ => false

/-- The stream of a half-close under way, or of a cleanup. -/
def Task.half : Task → Option ℕ
  | .halfClosing i | .cleaning _ i => some i
  | _ => none

/-- A session with its streams. `marking` are the streams `close_shared` has taken out of the map and
not marked yet; `abandoned` records the streams one of whose closes was dropped at its await. -/
structure State where
  base : Bucket.State
  handle : ℕ → Handle := fun _ => .unborn
  tasks : Finset Task := ∅
  taken : Bool := false
  marking : List ℕ := []
  abandoned : List ℕ := []

/-- The choices of the scheduler. `session` is a step of the session that does not depend on handles;
`recycle` and `leave` are the two parts of `stream_closed`, after the await of a close or in the drop
of a handle. -/
inductive Action where
  | session (a : Bucket.Action)
  | syn (sid : UInt32)
  | fin (sid : UInt32)
  | create (sid : UInt32)
  | register (inner : ℕ)
  | failOpen (inner : ℕ)
  | accept (inner : ℕ)
  | read (inner size : ℕ)
  | readChunk (inner : ℕ)
  | startSender (inner : ℕ)
  | endSender (inner : ℕ)
  | close (inner : ℕ)
  | resumeClose (inner : ℕ)
  | abandonClose (inner : ℕ)
  | recycle (inner : ℕ)
  | leave (inner : ℕ)
  | closeWrite (inner : ℕ)
  | resumeWrite (inner : ℕ)
  | abandonWrite (inner : ℕ)
  | clean (recv : Bool) (inner : ℕ)
  | remove (recv : Bool) (inner : ℕ)
  | dropHandle (inner : ℕ)
  | takeMap
  | sessionClose (inner : ℕ)
  | dropInner (inner : ℕ)
deriving DecidableEq, Repr

namespace State

/-- `recv_loop` between two frames, and steps of the session as a whole. -/
def plain : Bucket.Action → Bool
  | .testTokens | .recvStops | .nop | .psh _ _ | .push | .charge => true
  | .returnTokens _ | .closeSession | .cancelDie => true
  | _ => false

def ofRecv : Bucket.Action → Bool
  | .testTokens | .recvStops | .nop | .psh _ _ | .push | .charge => true
  | _ => false

def recvBusy (s : State) : Prop := ∃ t ∈ s.tasks, t.ofRecv = true

def inUse (s : State) (i : ℕ) : Prop :=
  Task.closing i ∈ s.tasks ∨ Task.halfClosing i ∈ s.tasks ∨ Task.cleaning false i ∈ s.tasks ∨
    Task.removing false i ∈ s.tasks ∨ i ∈ s.base.closing ∨ i ∈ s.base.leaving

def referenced (s : State) (i : ℕ) : Prop :=
  s.handle i ≠ .gone ∧ s.handle i ≠ .failed ∨ i ∈ s.marking ∨ Task.sender i ∈ s.tasks ∨
    Task.cleaning true i ∈ s.tasks ∨ Task.removing true i ∈ s.tasks

instance (s : State) : Decidable s.recvBusy := inferInstanceAs (Decidable (∃ t ∈ s.tasks, _))

instance (s : State) (i : ℕ) : Decidable (s.inUse i) := inferInstanceAs (Decidable (_ ∨ _))

instance (s : State) (i : ℕ) : Decidable (s.referenced i) := inferInstanceAs (Decidable (_ ∨ _))

def setHandle (s : State) (i : ℕ) (handle : Handle) : State :=
  { s with handle := Function.update s.handle i handle }

def onBase (config : Config) (s : State) (a : Bucket.Action) (k : Bucket.State → State) :
    Option State :=
  (s.base.next config a).map k

/-- One step; nothing when it is not its turn. -/
def next (config : Config) (s : State) : Action → Option State
  | .session a =>
    if plain a = true ∧ ¬(ofRecv a = true ∧ s.recvBusy) then
      s.onBase config a fun base => { s with base }
    else none
  | .syn sid =>
    if s.recvBusy then none
    else s.onBase config (.syn sid) fun base => { s with
      base
      handle :=
        if s.base.map.lookup sid = none then Function.update s.handle s.base.inners.length .queued
        else s.handle }
  | .fin sid =>
    if s.recvBusy then none
    else s.onBase config (.fin sid) fun base => { s with
      base
      tasks :=
        match s.base.map.lookup sid with
        | some i => insert (.cleaning true i) s.tasks
        | none => s.tasks }
  | .create sid =>
    s.onBase config (.create sid) fun base =>
      { s with base, handle := Function.update s.handle s.base.inners.length .opening }
  | .register i =>
    -- under the stream lock, which `close_shared` takes after setting `die`
    if s.handle i = .opening ∧ s.base.die = false then
      s.onBase config (.register i) fun base => { s.setHandle i .held with base }
    else none
  | .failOpen i => if s.handle i = .opening then some (s.setHandle i .failed) else none
  | .accept i => if s.handle i = .queued then some (s.setHandle i .held) else none
  | .read i size =>
    if s.handle i = .held then s.onBase config (.read i size) fun base => { s with base } else none
  | .readChunk i =>
    if s.handle i = .held then s.onBase config (.readChunk i) fun base => { s with base } else none
  | .startSender i =>
    if s.handle i = .held then some { s with tasks := insert (.sender i) s.tasks } else none
  | .endSender i =>
    if Task.sender i ∈ s.tasks then some { s with tasks := s.tasks.erase (.sender i) } else none
  | .close i =>
    if s.handle i = .held then
      s.onBase config (.close i) fun base => { s with
        base
        -- the call that set `die` goes on to its await, any other one returns
        tasks :=
          if (s.base.inners[i]?).map Inner.die = some false then insert (.closing i) s.tasks
          else s.tasks }
    else none
  | .resumeClose i =>
    if Task.closing i ∈ s.tasks then some { s with tasks := s.tasks.erase (.closing i) } else none
  | .abandonClose i =>
    -- the future borrows the handle
    if s.handle i = .held ∧ Task.closing i ∈ s.tasks then some { s with
      tasks := s.tasks.erase (.closing i)
      base := { s.base with closing := s.base.closing.erase i }
      abandoned := i :: s.abandoned }
    else none
  | .recycle i =>
    if Task.closing i ∈ s.tasks then none
    else s.onBase config (.recycle i) fun base => { s with base }
  | .leave i => s.onBase config (.leave i) fun base => { s with base }
  | .closeWrite i =>
    if s.handle i = .held then
      s.onBase config (.closeWrite i) fun base => { s with
        base
        tasks :=
          if (s.base.inners[i]?).map Inner.writeClosed = some false then
            insert (.halfClosing i) s.tasks
          else s.tasks }
    else none
  | .resumeWrite i =>
    if Task.halfClosing i ∈ s.tasks then
      some { s with tasks := insert (.cleaning false i) (s.tasks.erase (.halfClosing i)) }
    else none
  | .abandonWrite i =>
    if Task.halfClosing i ∈ s.tasks then some { s with tasks := s.tasks.erase (.halfClosing i) }
    else none
  | .clean recv i =>
    if Task.cleaning recv i ∈ s.tasks then
      (s.base.live i).map fun inner =>
        if inner.finEvent ∧ inner.writeClosed then { s with
          base := s.base.setInner i { inner with die := true }
          tasks := insert (.removing recv i) (s.tasks.erase (.cleaning recv i)) }
        else { s with tasks := s.tasks.erase (.cleaning recv i) }
    else none
  | .remove recv i =>
    if Task.removing recv i ∈ s.tasks ∧ s.base.locked = false then
      s.base.inners[i]?.map fun inner => { s with
        base := s.base.streamClosed inner.sid
        tasks := s.tasks.erase (.removing recv i) }
    else none
  | .dropHandle i =>
    if s.handle i = .held ∧ ¬s.inUse i then
      s.onBase config (.close i) fun base => { s.setHandle i .gone with base }
    else none
  | .takeMap =>
    if s.taken then none
    else s.onBase config .takeMap fun base =>
      { s with base, taken := true, marking := s.base.map.map Prod.snd }
  | .sessionClose i =>
    if i ∈ s.marking then
      s.onBase config (.sessionClose i) fun base => { s with base, marking := s.marking.erase i }
    else none
  | .dropInner i =>
    if s.referenced i then none else s.onBase config (.dropInner i) fun base => { s with base }

def new (config : Config) : State := { base := Bucket.State.new config }

end State

namespace State

/-- A caller has or had the handle of the stream, or will get it from the accept channel. -/
def issued (s : State) (i : ℕ) : Prop :=
  s.handle i = .queued ∨ s.handle i = .held ∨ s.handle i = .gone

def Owned (s : State) (i : ℕ) : Prop :=
  i ∈ s.base.closing ∨ i ∈ s.base.leaving ∨ (∃ recv, Task.removing recv i ∈ s.tasks) ∨
    ∃ recv inner, Task.cleaning recv i ∈ s.tasks ∧ s.base.inners[i]? = some inner ∧
      inner.finEvent = true ∧ inner.writeClosed = true

/-- A stream in the map that is dead is owned by a call, unless a close of it has been abandoned and
its handle is still there; dropped handles are of dead streams. -/
structure Inv (config : Config) (s : State) : Prop where
  accounted : s.base.Accounted config
  mapped : ∀ p ∈ s.base.map, s.issued p.2 ∧ ∃ inner, s.base.inners[p.2]? = some inner ∧
    inner.sid = p.1
  marked : ∀ i ∈ s.marking, s.issued i ∧ i < s.base.inners.length ∧ ∀ p ∈ s.base.map, p.2 ≠ i
  halved : ∀ t i, Task.half t = some i → t ∈ s.tasks → s.issued i ∧ i < s.base.inners.length
  opening : ∀ i inner, s.handle i = .opening → s.base.inners[i]? = some inner → inner.die = false
  gone : ∀ i, s.handle i = .gone → ∃ inner, s.base.inners[i]? = some inner ∧ inner.die = true
  owner : ∀ p ∈ s.base.map, ∀ inner, s.base.inners[p.2]? = some inner → inner.die = true →
    s.Owned p.2 ∨ p.2 ∈ s.abandoned ∧ s.handle p.2 ≠ .gone

/-- The steps that release everything: when a handle is dropped whose stream has an abandoned close,
the stream has left the map, or some call is going to take it out. -/
def Allowed (s : State) : Action → Prop
  | .dropHandle i => i ∈ s.abandoned → s.Owned i ∨ ∀ p ∈ s.base.map, p.2 ≠ i
  | _ => True

/-- What a step may do to the streams: flags only rise, entries of the map come with a live stream,
and whoever kills a stream in the map owns it then. -/
structure Keeps (s s' : State) : Prop where
  inners : ∀ i inner, s.base.inners[i]? = some inner → ∃ inner', s'.base.inners[i]? = some inner' ∧
    inner'.sid = inner.sid ∧ (inner.die = true → inner'.die = true) ∧
    (inner'.die = true → inner.die = true ∨ s'.issued i ∧ (∀ p ∈ s'.base.map, p.2 = i → s'.Owned i))
  map : ∀ p ∈ s'.base.map, p ∈ s.base.map ∨ s'.issued p.2 ∧ p.2 ∉ s'.marking ∧
    ∃ inner, s'.base.inners[p.2]? = some inner ∧ inner.sid = p.1 ∧ inner.die = false := by
      intro _ hp
      exact .inl hp
  issued : ∀ i < s.base.inners.length, s.issued i → s'.issued i := by exact fun _ _ h => h
  marked : ∀ i ∈ s'.marking, i ∈ s.marking ∨ s'.issued i ∧ i < s'.base.inners.length ∧
    ∀ p ∈ s'.base.map, p.2 ≠ i := by exact fun _ hi => .inl hi
  halved : ∀ t i, Task.half t = some i → t ∈ s'.tasks → t ∈ s.tasks ∨
    s'.issued i ∧ i < s'.base.inners.length := by exact fun _ _ _ h => .inl h
  opening : ∀ i inner, s'.handle i = .opening → s'.base.inners[i]? = some inner →
    inner.die = true → ∃ old, s.handle i = .opening ∧ s.base.inners[i]? = some old := by
      intro _ inner h hinner _
      exact ⟨inner, h, hinner⟩
  gone : ∀ i, s'.handle i = .gone → s.handle i = .gone ∨
    ∃ inner, s'.base.inners[i]? = some inner ∧ inner.die = true := by exact fun _ h => .inl h
  owner : ∀ p ∈ s'.base.map, p ∈ s.base.map → s.Owned p.2 ∨ p.2 ∈ s.abandoned ∧
    s.handle p.2 ≠ .gone → s'.Owned p.2 ∨ p.2 ∈ s'.abandoned ∧ s'.handle p.2 ≠ .gone := by
      intro _ _ _ h
      exact h

section Invariant

variable {config : Config} {s s' : State}

private theorem Keeps.length_le (h : Keeps s s') :
    s.base.inners.length ≤ s'.base.inners.length := by
  by_contra hlt
  push Not at hlt
  obtain ⟨inner', hinner', -⟩ := h.inners _ _ (List.getElem?_eq_getElem hlt)
  rw [List.getElem?_eq_none le_rfl] at hinner'
  cases hinner'

private theorem Inv.keep (h : Inv config s) (hkeep : Keeps s s') (hacc : s'.base.Accounted config) :
    Inv config s' := by
  refine ⟨hacc, ?_, ?_, ?_, ?_, ?_, ?_⟩
  · intro p hp
    rcases hkeep.map p hp with hold | ⟨hissued, -, inner, hinner, hsid, -⟩
    · obtain ⟨hissued, inner, hinner, hsid⟩ := h.mapped p hold
      obtain ⟨hlt, -⟩ := List.getElem?_eq_some_iff.mp hinner
      obtain ⟨inner', hinner', hsid', -⟩ := hkeep.inners _ _ hinner
      exact ⟨hkeep.issued _ hlt hissued, inner', hinner', hsid'.trans hsid⟩
    · exact ⟨hissued, inner, hinner, hsid⟩
  · intro i hi
    rcases hkeep.marked i hi with hold | hnew
    · obtain ⟨hissued, hlt, hout⟩ := h.marked i hold
      refine ⟨hkeep.issued i hlt hissued, hlt.trans_le hkeep.length_le, ?_⟩
      intro p hp
      rcases hkeep.map p hp with hpold | ⟨-, hunmarked, -⟩
      · exact hout p hpold
      · intro heq
        exact hunmarked (heq ▸ hi)
    · exact hnew
  · intro t i ht hi
    rcases hkeep.halved t i ht hi with hold | hnew
    · obtain ⟨hissued, hlt⟩ := h.halved t i ht hold
      exact ⟨hkeep.issued i hlt hissued, hlt.trans_le hkeep.length_le⟩
    · exact hnew
  · intro i inner hopen hinner
    rw [← Bool.not_eq_true]
    intro hdie
    obtain ⟨old, hold, hinnerOld⟩ := hkeep.opening i inner hopen hinner hdie
    obtain ⟨inner', hinner', -, -, hkilled⟩ := hkeep.inners i old hinnerOld
    obtain rfl := Option.some.inj (hinner.symm.trans hinner')
    rcases hkilled hdie with hdead | ⟨hissued, -⟩
    · rw [h.opening i old hold hinnerOld] at hdead
      cases hdead
    · rcases hissued with hi | hi | hi <;> rw [hopen] at hi <;> cases hi
  · intro i hi
    rcases hkeep.gone i hi with hold | hnew
    · obtain ⟨inner, hinner, hdie⟩ := h.gone i hold
      obtain ⟨inner', hinner', -, hup, -⟩ := hkeep.inners i inner hinner
      exact ⟨inner', hinner', hup hdie⟩
    · exact hnew
  · intro p hp inner hinner hdie
    rcases hkeep.map p hp with hold | ⟨-, -, inner', hinner', -, halive⟩
    · obtain ⟨-, old, hinnerOld, -⟩ := h.mapped p hold
      obtain ⟨inner', hinner', -, -, hkilled⟩ := hkeep.inners _ old hinnerOld
      obtain rfl := Option.some.inj (hinner.symm.trans hinner')
      rcases hkilled hdie with hdead | ⟨-, howned⟩
      · exact hkeep.owner p hp hold (h.owner p hold old hinnerOld hdead)
      · exact .inl (howned p hp rfl)
    · obtain rfl := Option.some.inj (hinner.symm.trans hinner')
      rw [halive] at hdie
      cases hdie

/-- The same streams, whose flags only rise. -/
structure FlagsUp (inners inners' : List Inner) : Prop where
  length_eq : inners'.length = inners.length
  flags : ∀ (i : ℕ) (inner : Inner), inners[i]? = some inner → ∃ inner' : Inner,
    inners'[i]? = some inner' ∧ inner'.sid = inner.sid ∧
      (inner.finEvent = true → inner'.finEvent = true) ∧
      (inner.writeClosed = true → inner'.writeClosed = true) ∧
      (inner.die = true → inner'.die = true)

private theorem FlagsUp.refl (inners : List Inner) : FlagsUp inners inners :=
  ⟨rfl, fun _ inner h => ⟨inner, h, rfl, id, id, id⟩⟩

private theorem flagsUp_set {inners : List Inner} {i : ℕ} {old new : Inner}
    (hold : inners[i]? = some old)
    (hsid : new.sid = old.sid) (hfin : old.finEvent = true → new.finEvent = true)
    (hwrite : old.writeClosed = true → new.writeClosed = true)
    (hdie : old.die = true → new.die = true) : FlagsUp inners (inners.set i new) := by
  obtain ⟨hlt, -⟩ := List.getElem?_eq_some_iff.mp hold
  refine ⟨List.length_set, ?_⟩
  intro j inner hinner
  rcases eq_or_ne i j with rfl | hne
  · obtain rfl := Option.some.inj (hold.symm.trans hinner)
    exact ⟨new, List.getElem?_set_self hlt, hsid, hfin, hwrite, hdie⟩
  · exact ⟨inner, (List.getElem?_set_ne hne).trans hinner, rfl, id, id, id⟩

private theorem killed_set {inners : List Inner} {i j : ℕ} {new inner inner' : Inner}
    (hinner : inners[j]? = some inner) (hinner' : (inners.set i new)[j]? = some inner')
    (hdie : inner'.die = true) : inner.die = true ∨ j = i ∧ new.die = true := by
  rcases eq_or_ne i j with rfl | hne
  · obtain ⟨hlt, -⟩ := List.getElem?_eq_some_iff.mp hinner
    obtain rfl := Option.some.inj ((List.getElem?_set_self hlt).symm.trans hinner')
    exact .inr ⟨rfl, hdie⟩
  · rw [List.getElem?_set_ne hne] at hinner'
    obtain rfl := Option.some.inj (hinner.symm.trans hinner')
    exact .inl hdie

private theorem keeps_up (hup : FlagsUp s.base.inners s'.base.inners)
    (hkill : ∀ (i : ℕ) (inner inner' : Inner), s.base.inners[i]? = some inner →
      s'.base.inners[i]? = some inner' → inner'.die = true → inner.die = true ∨
      s'.issued i ∧ ∀ p ∈ s'.base.map, p.2 = i → s'.Owned i)
    (hmap : ∀ p ∈ s'.base.map, p ∈ s.base.map) (hissued : ∀ i, s.issued i → s'.issued i)
    (hopening : ∀ i, s'.handle i = .opening → s.handle i = .opening)
    (hgone : ∀ i, s'.handle i = .gone → s.handle i = .gone ∨
      ∃ inner, s'.base.inners[i]? = some inner ∧ inner.die = true)
    (hmarked : ∀ i ∈ s'.marking, i ∈ s.marking)
    (hhalved : ∀ t i, Task.half t = some i → t ∈ s'.tasks → t ∈ s.tasks ∨
      s'.issued i ∧ i < s'.base.inners.length)
    (howner : ∀ p ∈ s'.base.map, p ∈ s.base.map → s.Owned p.2 ∨ p.2 ∈ s.abandoned ∧
      s.handle p.2 ≠ .gone → s'.Owned p.2 ∨ p.2 ∈ s'.abandoned ∧ s'.handle p.2 ≠ .gone) :
    Keeps s s' := by
  refine ⟨?_, fun p hp => .inl (hmap p hp), fun i _ hi => hissued i hi,
    fun i hi => .inl (hmarked i hi), hhalved, ?_, hgone, howner⟩
  · intro i inner hinner
    obtain ⟨inner', hinner', hsid, -, -, hdie⟩ := hup.flags i inner hinner
    exact ⟨inner', hinner', hsid, hdie, hkill i inner inner' hinner hinner'⟩
  · intro i inner hopen hinner _
    obtain ⟨hlt, -⟩ := List.getElem?_eq_some_iff.mp hinner
    exact ⟨_, hopening i hopen, List.getElem?_eq_getElem (hup.length_eq ▸ hlt)⟩

private theorem Owned.up {i : ℕ} (h : s.Owned i) (hup : FlagsUp s.base.inners s'.base.inners)
    (hclosing : i ∈ s.base.closing → i ∈ s'.base.closing ∨ i ∈ s'.base.leaving)
    (hleaving : i ∈ s.base.leaving → i ∈ s'.base.leaving)
    (hremoving : ∀ recv, Task.removing recv i ∈ s.tasks → Task.removing recv i ∈ s'.tasks)
    (hcleaning : ∀ recv, Task.cleaning recv i ∈ s.tasks → Task.cleaning recv i ∈ s'.tasks ∨
      Task.removing recv i ∈ s'.tasks) : s'.Owned i := by
  rcases h with hi | hi | ⟨recv, hi⟩ | ⟨recv, inner, hi, hinner, hfin, hwrite⟩
  · rcases hclosing hi with hc | hl
    · exact .inl hc
    · exact .inr (.inl hl)
  · exact .inr (.inl (hleaving hi))
  · exact .inr (.inr (.inl ⟨recv, hremoving recv hi⟩))
  · obtain ⟨inner', hinner', -, hfin', hwrite', -⟩ := hup.flags i inner hinner
    rcases hcleaning recv hi with hc | hr
    · exact .inr (.inr (.inr ⟨recv, inner', hc, hinner', hfin' hfin, hwrite' hwrite⟩))
    · exact .inr (.inr (.inl ⟨recv, hr⟩))

private theorem keeps_base {b : Bucket.State} (hup : FlagsUp s.base.inners b.inners)
    (hkill : ∀ (i : ℕ) (inner inner' : Inner), s.base.inners[i]? = some inner →
      b.inners[i]? = some inner' → inner'.die = true → inner.die = true)
    (hmap : b.map = s.base.map) (hclosing : b.closing = s.base.closing)
    (hleaving : b.leaving = s.base.leaving) : Keeps s { s with base := b } := by
  refine keeps_up hup (fun i inner inner' h h' hd => .inl (hkill i inner inner' h h' hd))
    (fun p hp => hmap ▸ hp) (fun _ h => h) (fun _ h => h) (fun _ h => .inl h) (fun _ h => h)
    (fun _ _ _ h => .inl h) fun p _ _ => Or.imp_left ?_
  intro h
  exact h.up hup (fun hi => .inl (hclosing.symm ▸ hi)) (fun hi => hleaving.symm ▸ hi)
    (fun _ => id) fun _ => .inl

private theorem keeps_buf {b : Bucket.State} {i : ℕ} {inner : Inner} {buf : StreamBuf}
    (hlive : s.base.live i = some inner) (hinners : b.inners = s.base.inners.set i { inner with buf })
    (hmap : b.map = s.base.map) (hclosing : b.closing = s.base.closing)
    (hleaving : b.leaving = s.base.leaving) : Keeps s { s with base := b } := by
  have hold := (Bucket.State.live_eq_some_iff.mp hlive).1
  refine keeps_base (hinners ▸ flagsUp_set hold rfl id id id) ?_ hmap hclosing hleaving
  intro j old new hj hj' hdie
  rw [hinners] at hj'
  rcases killed_set hj hj' hdie with hdead | ⟨rfl, hdead⟩
  · exact hdead
  · obtain rfl := Option.some.inj (hold.symm.trans hj)
    exact hdead

private theorem keeps_plain {a : Bucket.Action} (ha : plain a = true) {b : Bucket.State}
    (hnext : s.base.next config a = some b) : Keeps s { s with base := b } := by
  have hsame : ∀ b : Bucket.State, b.inners = s.base.inners → b.map = s.base.map →
      b.closing = s.base.closing → b.leaving = s.base.leaving → Keeps s { s with base := b } :=
    fun b hinners hmap hclosing hleaving => by
      refine keeps_base (hinners ▸ FlagsUp.refl s.base.inners) ?_ hmap hclosing hleaving
      intro i inner inner' hi hi' hdie
      rw [hinners] at hi'
      exact Option.some.inj (hi.symm.trans hi') ▸ hdie
  cases a with
  | testTokens | nop | returnTokens | cancelDie | recvStops =>
    simp only [Bucket.State.next] at hnext
    split_ifs at hnext
    cases hnext
    exact hsame _ rfl rfl rfl rfl
  | psh =>
    simp only [Bucket.State.next] at hnext
    split_ifs at hnext <;> cases hnext <;> exact hsame _ rfl rfl rfl rfl
  | closeSession =>
    cases hnext
    exact hsame _ rfl rfl rfl rfl
  | charge =>
    simp only [Bucket.State.next] at hnext
    split at hnext <;> cases hnext
    exact hsame _ rfl rfl rfl rfl
  | push =>
    simp only [Bucket.State.next] at hnext
    split at hnext
    · split at hnext <;> cases hnext
      next i inner hfind =>
        have hlive := Bucket.State.find_eq_some hfind
        exact keeps_buf hlive rfl rfl rfl rfl
      next => exact hsame _ rfl rfl rfl rfl
    · cases hnext
  | _ => cases ha

private theorem keeps_took {i : ℕ} {inner : Inner} (hlive : s.base.live i = some inner)
    (taken : StreamBuf × Bytes × UInt32) : Keeps s { s with base := s.base.took i inner taken } := by
  unfold Bucket.State.took
  dsimp only
  split_ifs
  · exact keeps_buf hlive rfl rfl rfl rfl
  · exact keeps_buf hlive rfl rfl rfl rfl

private theorem keeps_create (h : Inv config s) (sid : UInt32) (fate : Handle)
    (hfate : fate ≠ .gone) {b : Bucket.State}
    (hinners : b.inners = s.base.inners ++ [({ sid } : Inner)])
    (hclosing : b.closing = s.base.closing) (hleaving : b.leaving = s.base.leaving)
    (hmap : ∀ p ∈ b.map, p ∈ s.base.map ∨
      p = (sid, s.base.inners.length) ∧ fate = .queued) :
    Keeps s { s with
      base := b, handle := Function.update s.handle s.base.inners.length fate } := by
  have hold : ∀ (i : ℕ) (inner : Inner), s.base.inners[i]? = some inner →
      b.inners[i]? = some inner := by
    intro i inner hinner
    obtain ⟨hlt, -⟩ := List.getElem?_eq_some_iff.mp hinner
    rw [hinners, List.getElem?_append_left hlt, hinner]
  have hnew : b.inners[s.base.inners.length]? = some ({ sid } : Inner) := by
    rw [hinners]
    exact List.getElem?_concat_length
  have hkept : ∀ i < s.base.inners.length,
      Function.update s.handle s.base.inners.length fate i = s.handle i :=
    fun i hlt => Function.update_of_ne hlt.ne _ _
  refine ⟨fun i inner hinner => ⟨inner, hold i inner hinner, rfl, id, .inl⟩, ?_, ?_,
    fun i hi => .inl hi, fun _ _ _ hi => .inl hi, ?_, ?_, ?_⟩
  · intro p hp
    refine (hmap p hp).imp_right ?_
    rintro ⟨rfl, rfl⟩
    refine ⟨.inl (Function.update_self _ _ _), ?_, _, hnew, rfl, rfl⟩
    intro hmarked
    exact (h.marked _ hmarked).2.1.ne rfl
  · intro i hlt hissued
    unfold issued
    dsimp only
    rwa [hkept i hlt]
  · intro i inner hopen hinner hdie
    rcases eq_or_ne i s.base.inners.length with rfl | hne
    · obtain rfl := Option.some.inj (hnew.symm.trans hinner)
      cases hdie
    · have hlt : i < s.base.inners.length := by
        obtain ⟨hlt, -⟩ := List.getElem?_eq_some_iff.mp hinner
        have hlen : b.inners.length = s.base.inners.length + 1 := by rw [hinners]; simp
        change i < b.inners.length at hlt
        omega
      exact ⟨_, (hkept i hlt) ▸ hopen, List.getElem?_eq_getElem hlt⟩
  · intro i hi
    rcases eq_or_ne i s.base.inners.length with rfl | hne
    · exact absurd ((Function.update_self _ _ _).symm.trans hi) hfate
    · exact .inl ((Function.update_of_ne hne _ _).symm.trans hi)
  · intro p hp hpold howner
    obtain ⟨-, inner, hinner, -⟩ := h.mapped p hpold
    obtain ⟨hlt, -⟩ := List.getElem?_eq_some_iff.mp hinner
    rcases howner with (hi | hi | hi | ⟨recv, old, hi, hinnerOld, hflags⟩) | ⟨habandoned, hgone⟩
    · exact .inl (.inl (hclosing ▸ hi))
    · exact .inl (.inr (.inl (hleaving ▸ hi)))
    · exact .inl (.inr (.inr (.inl hi)))
    · exact .inl (.inr (.inr (.inr ⟨recv, old, hi, hold _ _ hinnerOld, hflags⟩)))
    · exact .inr ⟨habandoned, fun hi => hgone ((hkept p.2 hlt).symm.trans hi)⟩

private theorem keeps_tasks {tasks : Finset Task}
    (hhalved : ∀ t i, Task.half t = some i → t ∈ tasks → t ∈ s.tasks ∨
      s.issued i ∧ i < s.base.inners.length)
    (hremoving : ∀ recv i, Task.removing recv i ∈ s.tasks → Task.removing recv i ∈ tasks)
    (hcleaning : ∀ recv i, Task.cleaning recv i ∈ s.tasks → Task.cleaning recv i ∈ tasks) :
    Keeps s { s with tasks } := by
  refine keeps_up (FlagsUp.refl _) ?_ (fun _ h => h)
    (fun _ h => h) (fun _ h => h) (fun _ h => .inl h) (fun _ h => h) hhalved
    fun p _ _ => Or.imp_left ?_
  · intro i inner inner' hi hi' hdie
    exact .inl (Option.some.inj (hi.symm.trans hi') ▸ hdie)
  · intro h
    exact h.up (FlagsUp.refl _) .inl id (hremoving · p.2) fun recv hi => .inl (hcleaning recv p.2 hi)

private theorem keeps_erase {t : Task} (hremoving : ∀ recv i, Task.removing recv i ≠ t)
    (hcleaning : ∀ recv i, Task.cleaning recv i ≠ t) : Keeps s { s with tasks := s.tasks.erase t } :=
  keeps_tasks (fun _ _ _ hc => .inl (Finset.mem_of_mem_erase hc))
    (fun recv i => Finset.mem_erase_of_ne_of_mem (hremoving recv i))
    fun recv i => Finset.mem_erase_of_ne_of_mem (hcleaning recv i)

private theorem keeps_handle {i : ℕ} {fate : Handle} (hgone : fate ≠ .gone)
    (hopening : fate ≠ .opening)
    (hissued : s.issued i → fate = .held) : Keeps s (s.setHandle i fate) := by
  have hself : (s.setHandle i fate).handle i = fate := Function.update_self _ _ _
  have hother : ∀ j ≠ i, (s.setHandle i fate).handle j = s.handle j :=
    fun j hne => Function.update_of_ne hne _ _
  refine keeps_up (FlagsUp.refl _) ?_ (fun _ h => h)
    ?_ ?_ ?_ (fun _ h => h) (fun _ _ _ h => .inl h)
    ?_
  · intro i inner inner' hi hi' hdie
    exact .inl (Option.some.inj (hi.symm.trans hi') ▸ hdie)
  · intro j hj
    rcases eq_or_ne j i with rfl | hne
    · exact .inr (.inl (hself.trans (hissued hj)))
    · rwa [issued, hother j hne]
  · intro j hj
    rcases eq_or_ne j i with rfl | hne
    · exact absurd (hself.symm.trans hj) hopening
    · exact (hother j hne).symm.trans hj
  · intro j hj
    rcases eq_or_ne j i with rfl | hne
    · exact absurd (hself.symm.trans hj) hgone
    · exact .inl ((hother j hne).symm.trans hj)
  · intro p _ _ howner
    refine howner.imp_right fun h => ⟨h.1, ?_⟩
    rcases eq_or_ne p.2 i with heq | hne
    · intro hp
      exact hgone (hself.symm.trans (heq ▸ hp))
    · intro hp
      exact h.2 ((hother _ hne).symm.trans hp)

private theorem keeps_kill {i : ℕ} {old new : Inner} (hlive : s.base.live i = some old)
    (hinners : s'.base.inners = s.base.inners.set i new) (hsid : new.sid = old.sid)
    (hfin : old.finEvent = true → new.finEvent = true)
    (hwrite : old.writeClosed = true → new.writeClosed = true)
    (hdie : old.die = true → new.die = true) (hmap : s'.base.map = s.base.map)
    (hclosing : ∀ j ∈ s.base.closing, j ∈ s'.base.closing) (hleaving : s'.base.leaving = s.base.leaving)
    (hhandle : s'.handle = s.handle) (hmarked : ∀ j ∈ s'.marking, j ∈ s.marking)
    (habandoned : s'.abandoned = s.abandoned)
    (hhalved : ∀ t j, Task.half t = some j → t ∈ s'.tasks → t ∈ s.tasks ∨
      s'.issued j ∧ j < s'.base.inners.length)
    (hremoving : ∀ recv j, Task.removing recv j ∈ s.tasks → Task.removing recv j ∈ s'.tasks)
    (hcleaning : ∀ recv j, Task.cleaning recv j ∈ s.tasks → Task.cleaning recv j ∈ s'.tasks ∨
      Task.removing recv j ∈ s'.tasks)
    (hkill : new.die = true → old.die = true ∨
      s.issued i ∧ ∀ p ∈ s'.base.map, p.2 = i → s'.Owned i) : Keeps s s' := by
  have hold := (Bucket.State.live_eq_some_iff.mp hlive).1
  have hup : FlagsUp s.base.inners s'.base.inners :=
    hinners ▸ flagsUp_set hold hsid hfin hwrite hdie
  refine keeps_up hup ?_ (fun p hp => hmap ▸ hp)
    (fun j hj => by rwa [issued, hhandle]) (fun j hj => hhandle ▸ hj) (fun j hj => .inl (hhandle ▸ hj))
    hmarked hhalved ?_
  · intro j inner inner' hj hj' hd
    rw [hinners] at hj'
    rcases killed_set hj hj' hd with hdead | ⟨rfl, hdead⟩
    · exact .inl hdead
    · obtain rfl := Option.some.inj (hold.symm.trans hj)
      exact (hkill hdead).imp_right fun h => ⟨by rw [issued, hhandle]; exact h.1, h.2⟩
  · intro p _ _ howner
    rcases howner with hi | ⟨hi, hgone⟩
    · exact .inl (hi.up hup (fun h => .inl (hclosing _ h)) (hleaving ▸ ·) (hremoving · p.2)
        fun recv h => hcleaning recv p.2 h)
    · exact .inr ⟨habandoned ▸ hi, hhandle ▸ hgone⟩

private theorem keeps_leave (h : Inv config s) {i : ℕ} {inner : Inner}
    (hinner : s.base.inners[i]? = some inner) (hinners : s'.base.inners = s.base.inners)
    (hmap : s'.base.map = s.base.map.filter (·.1 ≠ inner.sid))
    (hclosing : s'.base.closing = s.base.closing)
    (hleaving : ∀ j ∈ s.base.leaving, j ≠ i → j ∈ s'.base.leaving) (hhandle : s'.handle = s.handle)
    (hmarked : s'.marking = s.marking) (habandoned : s'.abandoned = s.abandoned)
    (hremoving : ∀ recv j, Task.removing recv j ∈ s.tasks → j ≠ i → Task.removing recv j ∈ s'.tasks)
    (hhalf : ∀ t j, Task.half t = some j → (t ∈ s'.tasks ↔ t ∈ s.tasks)) : Keeps s s' := by
  have hup : FlagsUp s.base.inners s'.base.inners := hinners ▸ FlagsUp.refl _
  refine keeps_up hup ?_ ?_
    (fun j hj => by rwa [issued, hhandle]) (fun j hj => hhandle ▸ hj) (fun j hj => .inl (hhandle ▸ hj))
    (fun j hj => hmarked ▸ hj) (fun t j ht hj => .inl ((hhalf t j ht).mp hj))
    ?_
  · intro j old new hj hj' hd
    rw [hinners] at hj'
    exact .inl (Option.some.inj (hj.symm.trans hj') ▸ hd)
  · intro p hp
    rw [hmap] at hp
    exact List.mem_of_mem_filter hp
  · intro p hp hpold howner
    -- an entry that stays is of another stream
    have hne : p.2 ≠ i := by
      intro heq
      obtain ⟨-, inner', hinner', hsid⟩ := h.mapped p hpold
      rw [heq] at hinner'
      obtain rfl := Option.some.inj (hinner.symm.trans hinner')
      rw [hmap, List.mem_filter] at hp
      simp [hsid] at hp
    rcases howner with hi | ⟨hi, hgone⟩
    · refine .inl ?_
      rcases hi with hi | hi | ⟨recv, hi⟩ | ⟨recv, old, hi, hold⟩
      · exact .inl (hclosing ▸ hi)
      · exact .inr (.inl (hleaving _ hi hne))
      · exact .inr (.inr (.inl ⟨recv, hremoving recv _ hi hne⟩))
      · exact .inr (.inr (.inr ⟨recv, old, (hhalf _ p.2 rfl).mpr hi, hinners ▸ hold⟩))
    · exact .inr ⟨habandoned ▸ hi, hhandle ▸ hgone⟩

/-- `close_die` and `close_write_side`, by a close or by the drop of the handle: the first one owns the
stream from then on. -/
theorem close_cases {i : ℕ} {b : Bucket.State} (hnext : s.base.next config (.close i) = some b) :
    ∃ inner, s.base.live i = some inner ∧
      (inner.die = true ∧ b = s.base ∨ inner.die = false ∧
        b = { s.base.setInner i { inner with die := true, writeClosed := true } with
          closing := i :: s.base.closing }) := by
  obtain ⟨inner, hlive, hb⟩ := Option.map_eq_some_iff.mp hnext
  refine ⟨inner, hlive, ?_⟩
  split_ifs at hb with hdie
  · exact .inl ⟨hdie, hb.symm⟩
  · exact .inr ⟨Bool.eq_false_iff.mpr hdie, hb.symm⟩

private theorem keeps_close {i : ℕ} {b : Bucket.State} {tasks : Finset Task}
    (hheld : s.handle i = .held) (hnext : s.base.next config (.close i) = some b)
    (htasks : tasks = s.tasks ∨ tasks = insert (.closing i) s.tasks) :
    Keeps s { s with base := b, tasks } := by
  have hsame : ∀ t : Task, t ≠ .closing i → (t ∈ tasks ↔ t ∈ s.tasks) := by
    intro t hne
    rcases htasks with rfl | rfl
    · exact Iff.rfl
    · rw [Finset.mem_insert, or_iff_right hne]
  have hhalved : ∀ t j, Task.half t = some j → t ∈ tasks → t ∈ s.tasks := by
    intro t j ht htask
    refine (hsame t ?_).mp htask
    rintro rfl
    cases ht
  obtain ⟨inner, hlive, ⟨-, rfl⟩ | ⟨hdie, rfl⟩⟩ := close_cases hnext
  · exact keeps_tasks (fun t j ht h => .inl (hhalved t j ht h))
      (fun _ _ => (hsame _ (by simp)).mpr) fun _ _ => (hsame _ (by simp)).mpr
  · refine keeps_kill hlive rfl rfl id (fun _ => rfl) (fun _ => rfl) rfl
      (fun j hj => List.mem_cons_of_mem i hj) rfl rfl (fun _ h => h) rfl
      (fun t j ht h => .inl (hhalved t j ht h)) (fun _ _ => (hsame _ (by simp)).mpr)
      (fun _ _ h => .inl ((hsame _ (by simp)).mpr h)) fun _ => .inr ⟨.inr (.inl hheld), ?_⟩
    intro _ _ _
    exact .inl List.mem_cons_self

private theorem keeps_gone {i : ℕ} {inner : Inner} (hinner : s.base.inners[i]? = some inner)
    (hdie : inner.die = true) (howned : ∀ p ∈ s.base.map, p.2 = i → s.Owned i) :
    Keeps s (s.setHandle i .gone) := by
  have hself : (s.setHandle i .gone).handle i = .gone := Function.update_self _ _ _
  have hother : ∀ j ≠ i, (s.setHandle i .gone).handle j = s.handle j :=
    fun j hne => Function.update_of_ne hne _ _
  refine keeps_up (FlagsUp.refl _) ?_ (fun _ h => h)
    ?_ ?_ ?_ (fun _ h => h) (fun _ _ _ h => .inl h)
    ?_
  · intro i inner inner' hi hi' hdie
    exact .inl (Option.some.inj (hi.symm.trans hi') ▸ hdie)
  · intro j hj
    rcases eq_or_ne j i with rfl | hne
    · exact .inr (.inr hself)
    · rwa [issued, hother j hne]
  · intro j hj
    rcases eq_or_ne j i with rfl | hne
    · cases hself.symm.trans hj
    · exact (hother j hne).symm.trans hj
  · intro j hj
    rcases eq_or_ne j i with rfl | hne
    · exact .inr ⟨inner, hinner, hdie⟩
    · exact .inl ((hother j hne).symm.trans hj)
  · intro p hp _ howner
    rcases eq_or_ne p.2 i with heq | hne
    · exact .inl (heq ▸ howned p hp heq)
    · exact howner.imp_right fun h => ⟨h.1, fun hp => h.2 ((hother _ hne).symm.trans hp)⟩

private theorem onBase_eq_some {a : Bucket.Action} {k : Bucket.State → State}
    (hnext : s.onBase config a k = some s') :
    ∃ b, s.base.next config a = some b ∧ k b = s' := Option.map_eq_some_iff.mp hnext

private theorem Inv.dropHandle (h : Inv config s) {i : ℕ} {b : Bucket.State}
    (hheld : s.handle i = .held)
    (hok : Allowed s (.dropHandle i)) (hnext : s.base.next config (.close i) = some b) :
    Inv config { s.setHandle i .gone with base := b } := by
  have hclosed : Inv config { s with base := b } :=
    h.keep (keeps_close hheld hnext (.inl rfl)) (h.accounted.next hnext)
  have hdead : ∃ inner : Inner, b.inners[i]? = some inner ∧ inner.die = true := by
    obtain ⟨inner, hlive, ⟨hdie, rfl⟩ | ⟨-, rfl⟩⟩ := close_cases hnext
    · exact ⟨inner, (Bucket.State.live_eq_some_iff.mp hlive).1, hdie⟩
    · obtain ⟨hlt, -⟩ := List.getElem?_eq_some_iff.mp (Bucket.State.live_eq_some_iff.mp hlive).1
      exact ⟨_, List.getElem?_set_self hlt, rfl⟩
  obtain ⟨inner, hinner, hdie⟩ := hdead
  refine hclosed.keep (keeps_gone (s := { s with base := b }) hinner hdie ?_) hclosed.accounted
  intro p hp heq
  subst heq
  rcases hclosed.owner p hp inner hinner hdie with howned | ⟨habandoned, -⟩
  · exact howned
  · obtain ⟨old, hlive, ⟨-, rfl⟩ | ⟨-, rfl⟩⟩ := close_cases hnext
    · rcases hok habandoned with howned | hout
      · exact howned
      · exact absurd rfl (hout p hp)
    · exact .inl List.mem_cons_self

private theorem same_die {i : ℕ} {inners : List Inner} {inner inner' : Inner}
    (hinner : inners[i]? = some inner) (hinner' : inners[i]? = some inner')
    (hdie : inner'.die = true) : inner.die = true :=
  Option.some.inj (hinner.symm.trans hinner') ▸ hdie

private theorem keeps_syn (h : Inv config s) {sid : UInt32} {b : Bucket.State}
    (hnext : s.base.next config (.syn sid) = some b) :
    Keeps s { s with
      base := b
      handle :=
        if s.base.map.lookup sid = none then Function.update s.handle s.base.inners.length .queued
        else s.handle } := by
  simp only [Bucket.State.next] at hnext
  obtain ⟨-, hnext⟩ := Option.ite_none_right_eq_some.mp hnext
  cases hlookup : s.base.map.lookup sid with
  | some i =>
    rw [hlookup] at hnext
    cases hnext
    rw [if_neg (Option.some_ne_none i)]
    exact keeps_base (FlagsUp.refl _) (fun _ _ _ => same_die) rfl rfl rfl
  | none =>
    rw [hlookup] at hnext
    cases hnext
    rw [if_pos rfl]
    refine keeps_create h sid .queued (by decide) rfl rfl rfl ?_
    intro p hp
    rcases List.mem_cons.mp hp with rfl | hp
    · exact .inr ⟨rfl, rfl⟩
    · exact .inl hp

private theorem keeps_fin (h : Inv config s) {sid : UInt32} {b : Bucket.State}
    (hnext : s.base.next config (.fin sid) = some b) :
    Keeps s { s with
      base := b
      tasks :=
        match s.base.map.lookup sid with
        | some i => insert (.cleaning true i) s.tasks
        | none => s.tasks } := by
  simp only [Bucket.State.next] at hnext
  obtain ⟨-, hnext⟩ := Option.ite_none_right_eq_some.mp hnext
  cases hlookup : s.base.map.lookup sid with
  | none =>
    rw [hlookup] at hnext
    cases hnext
    exact keeps_base (FlagsUp.refl _) (fun _ _ _ => same_die) rfl rfl rfl
  | some i =>
    rw [hlookup, Option.bind_some] at hnext
    have hmem : (sid, i) ∈ s.base.map := by
      obtain ⟨front, back, hmap, -⟩ := List.lookup_eq_some_iff.mp hlookup
      rw [hmap]
      exact List.mem_append_right _ List.mem_cons_self
    obtain ⟨hissued, inner, hinner, -⟩ := h.mapped _ hmem
    obtain ⟨hlt, -⟩ := List.getElem?_eq_some_iff.mp hinner
    have hhalved : ∀ t j, Task.half t = some j → t ∈ insert (Task.cleaning true i) s.tasks →
        t ∈ s.tasks ∨ s.issued j ∧ j < s.base.inners.length := by
      intro t j ht hj
      rcases Finset.mem_insert.mp hj with rfl | hj
      · cases ht
        exact .inr ⟨hissued, hlt⟩
      · exact .inl hj
    cases hlive : s.base.live i with
    | none =>
      have hlive' : ({ s.base with recv := .tokens } : Bucket.State).live i = none := hlive
      rw [hlive'] at hnext
      cases hnext
      refine keeps_up (FlagsUp.refl _) (fun _ _ _ hi hi' hd => .inl (same_die hi hi' hd))
        (fun _ h => h) (fun _ h => h) (fun _ h => h) (fun _ h => .inl h) (fun _ h => h) hhalved
        fun p _ _ => Or.imp_left ?_
      intro howned
      exact howned.up (FlagsUp.refl _) .inl id (fun _ => Finset.mem_insert_of_mem)
        fun _ hc => .inl (Finset.mem_insert_of_mem hc)
    | some inner' =>
      have hlive' : ({ s.base with recv := .tokens } : Bucket.State).live i = some inner' := hlive
      rw [hlive'] at hnext
      cases hnext
      refine keeps_kill hlive rfl rfl (fun _ => rfl) id id rfl (fun _ h => h) rfl rfl (fun _ h => h)
        rfl (fun t j ht hj => (hhalved t j ht hj).imp_right ?_)
        (fun _ _ => Finset.mem_insert_of_mem) (fun _ _ hc => .inl (Finset.mem_insert_of_mem hc)) .inl
      rintro ⟨hi, hj⟩
      exact ⟨hi, hj.trans_eq List.length_set.symm⟩

private theorem keeps_register (h : Inv config s) {i : ℕ} {b : Bucket.State}
    (hopening : s.handle i = .opening) (hnext : s.base.next config (.register i) = some b) :
    Keeps s { s.setHandle i .held with base := b } := by
  simp only [Bucket.State.next] at hnext
  obtain ⟨-, hnext⟩ := Option.ite_none_left_eq_some.mp hnext
  obtain ⟨inner, hlive, rfl⟩ := Option.map_eq_some_iff.mp hnext
  have hinner := (Bucket.State.live_eq_some_iff.mp hlive).1
  have hunissued : ¬s.issued i := by
    rintro (hi | hi | hi) <;> rw [hopening] at hi <;> cases hi
  have hkeep := @keeps_handle s i .held (by decide) (by decide) fun _ => rfl
  refine ⟨fun j old hold => ⟨old, hold, rfl, id, .inl⟩, ?_, hkeep.issued, fun j hj => .inl hj,
    fun _ _ _ hj => .inl hj, hkeep.opening, hkeep.gone, ?_⟩
  · intro p hp
    rcases List.mem_cons.mp hp with rfl | hp
    · refine .inr ⟨.inr (.inl (Function.update_self _ _ _)), ?_, inner, hinner, rfl, ?_⟩
      · intro hmarked
        exact hunissued (h.marked i hmarked).1
      · exact h.opening i inner hopening hinner
    · exact .inl (List.mem_of_mem_filter hp)
  · intro p hp hpold howner
    exact hkeep.owner p hpold hpold howner

private theorem keeps_abandon {i : ℕ} (hheld : s.handle i = .held) :
    Keeps s { s with
      tasks := s.tasks.erase (.closing i)
      base := { s.base with closing := s.base.closing.erase i }
      abandoned := i :: s.abandoned } := by
  refine keeps_up (FlagsUp.refl _) (fun _ _ _ hi hi' hd => .inl (same_die hi hi' hd)) (fun _ h => h)
    (fun _ h => h) (fun _ h => h) (fun _ h => .inl h) (fun _ h => h)
    (fun _ _ _ hc => .inl (Finset.mem_of_mem_erase hc)) ?_
  intro p _ _ howner
  rcases eq_or_ne p.2 i with heq | hne
  · refine .inr ⟨heq ▸ List.mem_cons_self, ?_⟩
    intro hgone
    cases hheld.symm.trans (heq ▸ hgone)
  · rcases howner with howned | ⟨habandoned, hgone⟩
    · refine .inl (howned.up (FlagsUp.refl _) (fun hc => .inl ?_) id ?_ fun _ hc => .inl ?_)
      · exact (List.mem_erase_of_ne hne).mpr hc
      · intro _ hr
        exact Finset.mem_erase_of_ne_of_mem (by simp) hr
      · exact Finset.mem_erase_of_ne_of_mem (by simp) hc
    · exact .inr ⟨List.mem_cons_of_mem i habandoned, hgone⟩

private theorem keeps_recycle {i : ℕ} {b : Bucket.State}
    (hnext : s.base.next config (.recycle i) = some b) : Keeps s { s with base := b } := by
  simp only [Bucket.State.next] at hnext
  obtain ⟨-, hnext⟩ := Option.ite_none_right_eq_some.mp hnext
  obtain ⟨inner, hlive, rfl⟩ := Option.map_eq_some_iff.mp hnext
  have hold := (Bucket.State.live_eq_some_iff.mp hlive).1
  have hup : FlagsUp s.base.inners
      (s.base.inners.set i { inner with buf := inner.buf.recycleTokens.1 }) :=
    flagsUp_set hold rfl id id id
  refine keeps_up hup (fun j old new hj hj' hd => .inl ?_) (fun _ h => h) (fun _ h => h)
    (fun _ h => h) (fun _ h => .inl h) (fun _ h => h) (fun _ _ _ hc => .inl hc)
    fun p _ _ => Or.imp_left ?_
  · rcases killed_set hj hj' hd with hdead | ⟨rfl, hdead⟩
    · exact hdead
    · exact same_die hj hold hdead
  · intro howned
    refine howned.up hup ?_ (List.mem_cons_of_mem i) (fun _ => id) fun _ => .inl
    intro hc
    rcases eq_or_ne p.2 i with heq | hne
    · exact .inr (heq ▸ List.mem_cons_self)
    · exact .inl ((List.mem_erase_of_ne hne).mpr hc)

private theorem keeps_leaving (h : Inv config s) {i : ℕ} {b : Bucket.State}
    (hnext : s.base.next config (.leave i) = some b) : Keeps s { s with base := b } := by
  simp only [Bucket.State.next] at hnext
  obtain ⟨-, hnext⟩ := Option.ite_none_right_eq_some.mp hnext
  obtain ⟨inner, hinner, rfl⟩ := Option.map_eq_some_iff.mp hnext
  exact keeps_leave h hinner rfl rfl rfl (fun j hj hne => (List.mem_erase_of_ne hne).mpr hj) rfl rfl
    rfl (fun _ _ hj _ => hj) fun _ _ _ => Iff.rfl

private theorem keeps_closeWrite {i : ℕ} {b : Bucket.State} {tasks : Finset Task}
    (hheld : s.handle i = .held) (hnext : s.base.next config (.closeWrite i) = some b)
    (htasks : tasks = s.tasks ∨ tasks = insert (.halfClosing i) s.tasks) :
    Keeps s { s with base := b, tasks } := by
  obtain ⟨inner, hlive, rfl⟩ := Option.map_eq_some_iff.mp hnext
  have hsame : ∀ t : Task, t ≠ .halfClosing i → (t ∈ tasks ↔ t ∈ s.tasks) := by
    intro t hne
    rcases htasks with rfl | rfl
    · exact Iff.rfl
    · rw [Finset.mem_insert, or_iff_right hne]
  refine keeps_kill hlive rfl rfl id (fun _ => rfl) id rfl (fun _ h => h) rfl rfl (fun _ h => h) rfl
    ?_ ?_ (fun recv j hc => .inl ?_) .inl
  · intro t j ht hc
    by_cases hne : t = .halfClosing i
    · subst hne
      cases ht
      obtain ⟨hlt, -⟩ := List.getElem?_eq_some_iff.mp (Bucket.State.live_eq_some_iff.mp hlive).1
      exact .inr ⟨.inr (.inl hheld), hlt.trans_eq List.length_set.symm⟩
    · exact .inl ((hsame t hne).mp hc)
  · intro recv j hr
    exact (hsame _ (by simp)).mpr hr
  · exact (hsame _ (by simp)).mpr hc

private theorem keeps_resumeWrite (h : Inv config s) {i : ℕ}
    (htask : Task.halfClosing i ∈ s.tasks) :
    Keeps s { s with tasks := insert (.cleaning false i) (s.tasks.erase (.halfClosing i)) } := by
  refine keeps_tasks ?_ ?_ ?_
  · intro t j ht hc
    rcases Finset.mem_insert.mp hc with rfl | hc
    · cases ht
      exact .inr (h.halved _ i rfl htask)
    · exact .inl (Finset.mem_of_mem_erase hc)
  · intro recv j hr
    exact Finset.mem_insert_of_mem (Finset.mem_erase_of_ne_of_mem (by simp) hr)
  · intro recv j hc
    exact Finset.mem_insert_of_mem (Finset.mem_erase_of_ne_of_mem (by simp) hc)

private theorem Inv.clean (h : Inv config s) {recv : Bool} {i : ℕ} {inner : Inner}
    (htask : Task.cleaning recv i ∈ s.tasks) (hlive : s.base.live i = some inner) :
    Inv config (if inner.finEvent ∧ inner.writeClosed then { s with
        base := s.base.setInner i { inner with die := true }
        tasks := insert (.removing recv i) (s.tasks.erase (.cleaning recv i)) }
      else { s with tasks := s.tasks.erase (.cleaning recv i) }) := by
  obtain ⟨hinner, hdropped⟩ := Bucket.State.live_eq_some_iff.mp hlive
  split_ifs with hflags
  · refine h.keep ?_ (h.accounted.setFlags hlive _ rfl hdropped)
    have hremoving : Task.removing recv i ∈
        insert (Task.removing recv i) (s.tasks.erase (.cleaning recv i)) := Finset.mem_insert_self _ _
    refine keeps_kill hlive rfl rfl id id (fun _ => rfl) rfl (fun _ h => h) rfl rfl (fun _ h => h) rfl
      (fun t j ht hc => .inl ?_) ?_ ?_
      fun _ => .inr ⟨(h.halved _ i rfl htask).1, fun _ _ _ => .inr (.inr (.inl ⟨recv, hremoving⟩))⟩
    · rcases Finset.mem_insert.mp hc with rfl | hc
      · cases ht
      · exact Finset.mem_of_mem_erase hc
    · intro r j hr
      exact Finset.mem_insert_of_mem (Finset.mem_erase_of_ne_of_mem (by simp) hr)
    · intro r j hc
      by_cases hsame : Task.cleaning r j = .cleaning recv i
      · cases hsame
        exact .inr hremoving
      · exact .inl (Finset.mem_insert_of_mem (Finset.mem_erase_of_ne_of_mem hsame hc))
  · -- the call ends without a cleanup: it owned nothing
    refine h.keep (keeps_up (FlagsUp.refl _) (fun _ _ _ hi hi' hd => .inl (same_die hi hi' hd))
      (fun _ h => h) (fun _ h => h) (fun _ h => h) (fun _ h => .inl h) (fun _ h => h)
      (fun _ _ _ hc => .inl (Finset.mem_of_mem_erase hc)) fun p _ _ => Or.imp_left ?_)
      h.accounted
    intro howned
    rcases howned with hi | hi | ⟨r, hi⟩ | ⟨r, old, hi, hold, hfin, hwrite⟩
    · exact .inl hi
    · exact .inr (.inl hi)
    · exact .inr (.inr (.inl ⟨r, Finset.mem_erase_of_ne_of_mem (by simp) hi⟩))
    · refine .inr (.inr (.inr ⟨r, old, Finset.mem_erase_of_ne_of_mem ?_ hi, hold, hfin, hwrite⟩))
      intro heq
      obtain ⟨-, heq⟩ := Task.cleaning.inj heq
      rw [heq] at hold
      obtain rfl := Option.some.inj (hinner.symm.trans hold)
      exact hflags ⟨hfin, hwrite⟩

private theorem Inv.remove (h : Inv config s) {recv : Bool} {i : ℕ} {inner : Inner}
    (hinner : s.base.inners[i]? = some inner) :
    Inv config { s with
      base := s.base.streamClosed inner.sid
      tasks := s.tasks.erase (.removing recv i) } := by
  refine h.keep ?_ (h.accounted.neutral rfl rfl rfl id (.inl rfl))
  refine keeps_leave h hinner rfl rfl rfl (fun _ hj _ => hj) rfl rfl rfl ?_
    fun t j ht => ⟨Finset.mem_of_mem_erase, Finset.mem_erase_of_ne_of_mem ?_⟩
  · intro r j hj hne
    exact Finset.mem_erase_of_ne_of_mem (fun heq => hne (Task.removing.inj heq).2) hj
  · rintro rfl
    cases ht

private theorem keeps_takeMap (h : Inv config s) {b : Bucket.State}
    (hnext : s.base.next config .takeMap = some b) :
    Keeps s { s with base := b, taken := true, marking := s.base.map.map Prod.snd } := by
  simp only [Bucket.State.next] at hnext
  obtain ⟨-, hnext⟩ := Option.ite_none_right_eq_some.mp hnext
  cases hnext
  refine ⟨fun i inner hi => ⟨inner, hi, rfl, id, .inl⟩, fun p hp => absurd hp List.not_mem_nil,
    fun _ _ hi => hi, ?_, fun _ _ _ hc => .inl hc,
    fun i inner hopen hinner _ => ⟨inner, hopen, hinner⟩, fun _ hi => .inl hi,
    fun p hp => absurd hp List.not_mem_nil⟩
  intro i hi
  obtain ⟨p, hp, rfl⟩ := List.mem_map.mp hi
  obtain ⟨hissued, inner, hinner, -⟩ := h.mapped p hp
  obtain ⟨hlt, -⟩ := List.getElem?_eq_some_iff.mp hinner
  exact .inr ⟨hissued, hlt, fun p hp => absurd hp List.not_mem_nil⟩

private theorem keeps_sessionClose (h : Inv config s) {i : ℕ} {b : Bucket.State}
    (hmarking : i ∈ s.marking) (hnext : s.base.next config (.sessionClose i) = some b) :
    Keeps s { s with base := b, marking := s.marking.erase i } := by
  simp only [Bucket.State.next] at hnext
  obtain ⟨-, hnext⟩ := Option.ite_none_right_eq_some.mp hnext
  obtain ⟨inner, hlive, rfl⟩ := Option.map_eq_some_iff.mp hnext
  obtain ⟨hissued, -, hout⟩ := h.marked i hmarking
  exact keeps_kill hlive rfl rfl id id (fun _ => rfl) rfl (fun _ h => h) rfl rfl
    (fun _ => List.mem_of_mem_erase) rfl (fun _ _ _ => .inl) (fun _ _ => id) (fun _ _ => .inl)
    fun _ => .inr ⟨hissued, fun p hp heq => absurd heq (hout p hp)⟩

private theorem keeps_dropInner {i : ℕ} {b : Bucket.State}
    (hnext : s.base.next config (.dropInner i) = some b) : Keeps s { s with base := b } := by
  simp only [Bucket.State.next] at hnext
  obtain ⟨-, hnext⟩ := Option.ite_none_left_eq_some.mp hnext
  obtain ⟨inner, hlive, rfl⟩ := Option.map_eq_some_iff.mp hnext
  exact keeps_kill hlive rfl rfl id id id rfl (fun _ h => h) rfl rfl (fun _ h => h) rfl
    (fun _ _ _ => .inl) (fun _ _ => id) (fun _ _ => .inl) .inl

private theorem Inv.next (h : Inv config s) {a : Action} (hok : Allowed s a)
    (hnext : s.next config a = some s') : Inv config s' := by
  cases a with
  | session a =>
    obtain ⟨hplain, hnext⟩ := Option.ite_none_right_eq_some.mp hnext
    obtain ⟨b, hb, rfl⟩ := onBase_eq_some hnext
    exact h.keep (keeps_plain hplain.1 hb) (h.accounted.next hb)
  | syn sid =>
    obtain ⟨-, hnext⟩ := Option.ite_none_left_eq_some.mp hnext
    obtain ⟨b, hb, rfl⟩ := onBase_eq_some hnext
    exact h.keep (keeps_syn h hb) (h.accounted.next hb)
  | fin sid =>
    obtain ⟨-, hnext⟩ := Option.ite_none_left_eq_some.mp hnext
    obtain ⟨b, hb, rfl⟩ := onBase_eq_some hnext
    exact h.keep (keeps_fin h hb) (h.accounted.next hb)
  | create sid =>
    obtain ⟨b, hb, rfl⟩ := onBase_eq_some hnext
    refine h.keep ?_ (h.accounted.next hb)
    cases hb
    exact keeps_create h sid .opening (by decide) rfl rfl rfl fun p hp => .inl hp
  | register i =>
    obtain ⟨hguard, hnext⟩ := Option.ite_none_right_eq_some.mp hnext
    obtain ⟨b, hb, rfl⟩ := onBase_eq_some hnext
    exact h.keep (keeps_register h hguard.1 hb) (h.accounted.next hb)
  | failOpen i =>
    obtain ⟨hopening, hnext⟩ := Option.ite_none_right_eq_some.mp hnext
    cases hnext
    refine h.keep (keeps_handle (by decide) (by decide) ?_) h.accounted
    intro hissued
    rcases hissued with hi | hi | hi <;> rw [hopening] at hi <;> cases hi
  | accept i =>
    obtain ⟨-, hnext⟩ := Option.ite_none_right_eq_some.mp hnext
    cases hnext
    exact h.keep (keeps_handle (by decide) (by decide) fun _ => rfl) h.accounted
  | read i size =>
    obtain ⟨-, hnext⟩ := Option.ite_none_right_eq_some.mp hnext
    obtain ⟨b, hb, rfl⟩ := onBase_eq_some hnext
    obtain ⟨inner, hlive, rfl⟩ := Option.map_eq_some_iff.mp hb
    exact h.keep (keeps_took hlive _) (h.accounted.next hb)
  | readChunk i =>
    obtain ⟨-, hnext⟩ := Option.ite_none_right_eq_some.mp hnext
    obtain ⟨b, hb, rfl⟩ := onBase_eq_some hnext
    obtain ⟨inner, hlive, rfl⟩ := Option.map_eq_some_iff.mp hb
    exact h.keep (keeps_took hlive _) (h.accounted.next hb)
  | startSender i =>
    obtain ⟨-, hnext⟩ := Option.ite_none_right_eq_some.mp hnext
    cases hnext
    refine h.keep (keeps_tasks (fun t j ht hc => .inl ?_) (fun _ _ => Finset.mem_insert_of_mem)
      fun _ _ => Finset.mem_insert_of_mem) h.accounted
    rcases Finset.mem_insert.mp hc with rfl | hc
    · cases ht
    · exact hc
  | endSender i =>
    obtain ⟨-, hnext⟩ := Option.ite_none_right_eq_some.mp hnext
    cases hnext
    exact h.keep (keeps_erase (by simp) (by simp)) h.accounted
  | close i =>
    obtain ⟨hheld, hnext⟩ := Option.ite_none_right_eq_some.mp hnext
    obtain ⟨b, hb, rfl⟩ := onBase_eq_some hnext
    refine h.keep (keeps_close hheld hb ?_) (h.accounted.next hb)
    split_ifs
    · exact .inr rfl
    · exact .inl rfl
  | resumeClose i =>
    obtain ⟨-, hnext⟩ := Option.ite_none_right_eq_some.mp hnext
    cases hnext
    exact h.keep (keeps_erase (by simp) (by simp)) h.accounted
  | abandonClose i =>
    obtain ⟨hguard, hnext⟩ := Option.ite_none_right_eq_some.mp hnext
    cases hnext
    exact h.keep (keeps_abandon hguard.1) (h.accounted.neutral rfl rfl rfl id (.inl rfl))
  | recycle i =>
    obtain ⟨-, hnext⟩ := Option.ite_none_left_eq_some.mp hnext
    obtain ⟨b, hb, rfl⟩ := onBase_eq_some hnext
    exact h.keep (keeps_recycle hb) (h.accounted.next hb)
  | leave i =>
    obtain ⟨b, hb, rfl⟩ := onBase_eq_some hnext
    exact h.keep (keeps_leaving h hb) (h.accounted.next hb)
  | closeWrite i =>
    obtain ⟨hheld, hnext⟩ := Option.ite_none_right_eq_some.mp hnext
    obtain ⟨b, hb, rfl⟩ := onBase_eq_some hnext
    refine h.keep (keeps_closeWrite hheld hb ?_) (h.accounted.next hb)
    split_ifs
    · exact .inr rfl
    · exact .inl rfl
  | resumeWrite i =>
    obtain ⟨htask, hnext⟩ := Option.ite_none_right_eq_some.mp hnext
    cases hnext
    exact h.keep (keeps_resumeWrite h htask) h.accounted
  | abandonWrite i =>
    obtain ⟨-, hnext⟩ := Option.ite_none_right_eq_some.mp hnext
    cases hnext
    exact h.keep (keeps_erase (by simp) (by simp)) h.accounted
  | clean recv i =>
    obtain ⟨htask, hnext⟩ := Option.ite_none_right_eq_some.mp hnext
    obtain ⟨inner, hlive, rfl⟩ := Option.map_eq_some_iff.mp hnext
    exact h.clean htask hlive
  | remove recv i =>
    obtain ⟨-, hnext⟩ := Option.ite_none_right_eq_some.mp hnext
    obtain ⟨inner, hinner, rfl⟩ := Option.map_eq_some_iff.mp hnext
    exact h.remove hinner
  | dropHandle i =>
    obtain ⟨hguard, hnext⟩ := Option.ite_none_right_eq_some.mp hnext
    obtain ⟨b, hb, rfl⟩ := onBase_eq_some hnext
    exact h.dropHandle hguard.1 hok hb
  | takeMap =>
    obtain ⟨-, hnext⟩ := Option.ite_none_left_eq_some.mp hnext
    obtain ⟨b, hb, rfl⟩ := onBase_eq_some hnext
    exact h.keep (keeps_takeMap h hb) (h.accounted.next hb)
  | sessionClose i =>
    obtain ⟨hmarking, hnext⟩ := Option.ite_none_right_eq_some.mp hnext
    obtain ⟨b, hb, rfl⟩ := onBase_eq_some hnext
    exact h.keep (keeps_sessionClose h hmarking hb) (h.accounted.next hb)
  | dropInner i =>
    obtain ⟨-, hnext⟩ := Option.ite_none_left_eq_some.mp hnext
    obtain ⟨b, hb, rfl⟩ := onBase_eq_some hnext
    exact h.keep (keeps_dropInner hb) (h.accounted.next hb)

private theorem next_abandoned {a : Action} (ha : ∀ i, a ≠ .abandonClose i)
    (hnext : s.next config a = some s') : s'.abandoned = s.abandoned := by
  cases a with
  | abandonClose i => exact absurd rfl (ha i)
  | clean recv i =>
    obtain ⟨-, hnext⟩ := Option.ite_none_right_eq_some.mp hnext
    obtain ⟨inner, -, rfl⟩ := Option.map_eq_some_iff.mp hnext
    split_ifs <;> rfl
  | _ =>
    simp only [State.next, onBase, setHandle, Option.ite_none_right_eq_some,
      Option.ite_none_left_eq_some, Option.map_eq_some_iff, Option.some.injEq] at hnext
    obtain ⟨-, b, -, rfl⟩ := hnext
    rfl

private theorem along_of_not_abandoned {as : List Action} (has : ∀ i, .abandonClose i ∉ as)
    (hs : s.abandoned = []) : Along (State.next config) Allowed s as := by
  induction as generalizing s with
  | nil => trivial
  | cons a as ih =>
    refine ⟨?_, fun s' hs' => ih (fun i hi => has i (List.mem_cons_of_mem a hi)) ?_⟩
    · cases a with
      | dropHandle i =>
        intro hi
        rw [hs] at hi
        exact absurd hi List.not_mem_nil
      | _ => trivial
    · rw [next_abandoned (fun i heq => has i (heq ▸ List.mem_cons_self)) hs', hs]

/-- The handle of the stream is dropped, every call on it and every cleanup of it has ended, and when
nothing holds it any more its destructor has run. -/
structure Done (s : State) (i : ℕ) : Prop where
  gone : s.handle i = .gone
  unused : ¬s.inUse i
  cleaned : Task.cleaning true i ∉ s.tasks ∧ Task.removing true i ∉ s.tasks ∧ i ∉ s.marking
  destroyed : (∀ p ∈ s.base.map, p.2 ≠ i) →
    ∃ inner, s.base.inners[i]? = some inner ∧ inner.dropped = true

/-- The map has no entry of the stream, and none of its bytes holds a token back. -/
structure Released (config : Config) (s : State) (i : ℕ) : Prop where
  unmapped : ∀ p ∈ s.base.map, p.2 ≠ i
  weightless : ∃ inner, s.base.inners[i]? = some inner ∧ Bucket.State.weight inner = 0
  tokens : s.base.Quiet → s.base.bucket = i32 (config.maxReceiveBuffer - s.base.unread)

private theorem Inv.released (h : Inv config s) {i : ℕ} (hdone : s.Done i) :
    s.Released config i := by
  have hout : ∀ p ∈ s.base.map, p.2 ≠ i := by
    rintro p hp rfl
    obtain ⟨inner, hinner, hdie⟩ := h.gone p.2 hdone.gone
    rcases h.owner p hp inner hinner hdie with howned | ⟨-, hheld⟩
    · rcases howned with hi | hi | ⟨recv, hi⟩ | ⟨recv, -, hi, -⟩
      · exact hdone.unused (.inr (.inr (.inr (.inr (.inl hi)))))
      · exact hdone.unused (.inr (.inr (.inr (.inr (.inr hi)))))
      · cases recv with
        | false => exact hdone.unused (.inr (.inr (.inr (.inl hi))))
        | true => exact hdone.cleaned.2.1 hi
      · cases recv with
        | false => exact hdone.unused (.inr (.inr (.inl hi)))
        | true => exact hdone.cleaned.1 hi
    · exact hheld hdone.gone
  obtain ⟨inner, hinner, hdropped⟩ := hdone.destroyed hout
  refine ⟨hout, ⟨inner, hinner, if_pos hdropped⟩, ?_⟩
  intro hquiet
  have hbucket := h.accounted.bucket_eq
  have htransit : s.base.inTransit = 0 := by rw [Bucket.State.inTransit, hquiet.1]; rfl
  rw [Bucket.State.uncharged_of_not_locked hquiet.2, htransit, Nat.add_zero, Nat.cast_zero,
    Int.add_zero] at hbucket
  exact hbucket

private theorem inv_new (hconfig : verifyConfig config = .ok ()) : Inv config (new config) := by
  refine ⟨Bucket.State.accounted_new hconfig, ?_, ?_, ?_, ?_, ?_, ?_⟩
  · intro p hp
    exact absurd hp List.not_mem_nil
  · intro i hi
    exact absurd hi List.not_mem_nil
  · intro t i _ ht
    exact absurd ht (Finset.notMem_empty t)
  · intro i inner _ hinner
    cases hinner
  · intro i hi
    cases hi
  · intro p hp
    exact absurd hp List.not_mem_nil

end Invariant

end State

/-- In every run in which no handle is dropped while a close of its stream, dropped at its await, has
left the stream in the map and to nobody: once a handle is dropped and all calls have ended, the
stream is in the map no more and its tokens are back. -/
theorem teardown_releases {config : Config} (hconfig : verifyConfig config = .ok ())
    {as : List Action} {s : State}
    (hok : Along (State.next config) State.Allowed (State.new config) as)
    (hrun : exec (State.next config) (State.new config) as = some s) {i : ℕ} (hdone : s.Done i) :
    s.Released config i :=
  (exec_invariant (State.Inv config) (fun _ _ _ h hok hnext => h.next hok hnext)
    (State.inv_new hconfig) hok hrun).released hdone

def unreadStream : List Action :=
  [.session .testTokens, .syn 2, .accept 0, .session .testTokens, .session (.psh 2 [1, 2, 3]),
    .session .push, .session .charge]

/-- A close that runs to its end, then the drop of the handle. -/
theorem teardown_releases_close :
    ∃ s, exec (State.next defaultConfig) (State.new defaultConfig) (unreadStream ++
        [.close 0, .resumeClose 0, .recycle 0, .leave 0, .dropHandle 0,
          .session (.returnTokens 3), .dropInner 0]) = some s ∧ s.Released defaultConfig 0 := by
  have hrun : ∃ s, exec (State.next defaultConfig) (State.new defaultConfig) (unreadStream ++
      [.close 0, .resumeClose 0, .recycle 0, .leave 0, .dropHandle 0,
        .session (.returnTokens 3), .dropInner 0]) = some s ∧ s.handle 0 = .gone ∧ ¬s.inUse 0 ∧
      (Task.cleaning true 0 ∉ s.tasks ∧ Task.removing true 0 ∉ s.tasks ∧ 0 ∉ s.marking) ∧
      (s.base.inners[0]?).map Inner.dropped = some true := ⟨_, rfl, by decide⟩
  obtain ⟨s, hs, hgone, hunused, hcleaned, hdropped⟩ := hrun
  refine ⟨s, hs, teardown_releases (by decide) ?_ hs ⟨hgone, hunused, hcleaned, ?_⟩⟩
  · exact State.along_of_not_abandoned (by simp [unreadStream]) rfl
  · intro _
    exact Option.map_eq_some_iff.mp hdropped

/-- A close is dropped at its await, then the handle: every call has ended, and the stream stays in
the map with its three tokens. -/
theorem abandoned_close_leaks :
    ∃ s, exec (State.next defaultConfig) (State.new defaultConfig)
        (unreadStream ++ [.close 0, .abandonClose 0, .dropHandle 0]) = some s ∧ s.Done 0 ∧
      (2, 0) ∈ s.base.map ∧ s.base.bucket + 3 = defaultConfig.maxReceiveBuffer ∧
      ¬s.Released defaultConfig 0 := by
  have hrun : ∃ s, exec (State.next defaultConfig) (State.new defaultConfig)
      (unreadStream ++ [.close 0, .abandonClose 0, .dropHandle 0]) = some s ∧
      s.handle 0 = .gone ∧ ¬s.inUse 0 ∧
      (Task.cleaning true 0 ∉ s.tasks ∧ Task.removing true 0 ∉ s.tasks ∧ 0 ∉ s.marking) ∧
      (2, 0) ∈ s.base.map ∧ s.base.bucket + 3 = defaultConfig.maxReceiveBuffer :=
    ⟨_, rfl, by decide⟩
  obtain ⟨s, hs, hgone, hunused, hcleaned, hmem, hbucket⟩ := hrun
  have hin : ¬∀ p ∈ s.base.map, p.2 ≠ 0 := fun hout => hout _ hmem rfl
  exact ⟨s, hs, ⟨hgone, hunused, hcleaned, fun hout => absurd hout hin⟩, hmem, hbucket,
    fun hreleased => hin hreleased.unmapped⟩

end Kcptun.Smux.Teardown
