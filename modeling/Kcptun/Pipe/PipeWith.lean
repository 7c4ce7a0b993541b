/- Kcptun/Pipe/PipeWith
   source: crates/std/src/pipe.rs (pipe_with)
   digest: The pipe as one task: it polls both directions and the lifetime in turn, and on its end
     makes the close of an end abortive when data for its reader is thrown away. -/

import Kcptun.Lib.Interleaving
import Kcptun.Pipe.Lifetime
import Kcptun.Pipe.SmuxEnd

set_option autoImplicit false
set_option relaxedAutoImplicit false

namespace Kcptun.Pipe

open Kcptun.Lib Kcptun.Lib.LittleEndian

/-- A smux stream, or any other connection; `frameSource` is its `FRAME_SOURCE`. -/
inductive PipeEnd where
  | smux (s : SmuxStream)
  | other (frameSource : Bool)
  deriving DecidableEq, Repr

namespace PipeEnd

variable {ε : Type}

def frameSource : PipeEnd → Bool
  | .smux _ => true
  | .other frameSource => frameSource

def answers (src : PipeEnd) (idle : Poll (Except ε Unit)) (a : Answers ε) : Answers ε :=
  match src with
  | .smux s => { a with readFrame := (s.pollReadFrame idle).2 }
  | .other _ => a

def afterRead (src : PipeEnd) (idle : Poll (Except ε Unit)) : PipeEnd :=
  match src with
  | .smux s => .smux (s.pollReadFrame idle).1
  | .other frameSource => .other frameSource

def receive (e : PipeEnd) (ev : StreamEvent) : PipeEnd :=
  match e with
  | .smux s => .smux (s.receive ev)
  | .other frameSource => .other frameSource

/-- `undelivered`; what an end that is no smux stream answers is given. -/
def undelivered (e : PipeEnd) (answer : Bool) : Bool :=
  match e with
  | .smux s => s.undelivered
  | .other _ => answer

def held : PipeEnd → Bytes
  | .smux s => s.held
  | .other _ => []

end PipeEnd

inductive Pc where
  | transfer (dir : Dir)
  | life
  | watch
  | teardown
  | ended
  deriving DecidableEq, Repr

/-- What can be seen of a run from outside: bytes a destination took, a poll of the lifetime with the
directions it found parked, and a probe with the end signals and whether a send queue shrank. -/
inductive Seen where
  | wrote (now : ℕ)
  | polled (parked : Dir → Bool)
  | probed (now : ℕ) (signalled : Dir → Bool) (shrank : Bool)

/-- The state of the task. The last seven fields are the history of the run: the clock, what each
source delivered and each destination accepted, what the session put into a smux stream, what was
seen, the direction the stall rule ended, and which ends were asked to abort. -/
structure Task (ε : Type) where
  ends : End → PipeEnd
  transfer : Dir → Transfer ε
  life : Lifetime
  pc : Pc := .transfer .ab
  clock : ℕ
  delivered : Dir → Bytes := fun _ => []
  accepted : Dir → Bytes := fun _ => []
  received : End → Bytes
  seen : List Seen := []
  stalled : Option Dir := none
  undelivered : End → Bool := fun _ => false
  aborted : End → Bool := fun _ => false

inductive Label (ε : Type) where
  | transfer (a : Answers ε) (idle : Poll (Except ε Unit))
  | life (a : LifeAnswers ε)
  | receive (e : End) (ev : StreamEvent)
  | teardown (undelivered : End → Bool)

def Dir.next : Dir → Pc
  | .ab => .transfer .ba
  | .ba => .life

def End.into : End → Dir
  | .alice => .ba
  | .bob => .ab

namespace Task

variable {ε : Type}

def start (ends : End → PipeEnd) (closeWait : Int) (timing : Timing) (now : ℕ) : Task ε where
  ends := ends
  transfer := fun _ => { movedAt := now }
  life := .new closeWait timing
  clock := now
  received := fun e => (ends e).held

def frames (p : Task ε) (dir : Dir) : Bool := (p.ends dir.src).frameSource

def answersOf (p : Task ε) (dir : Dir) (a : Answers ε) (idle : Poll (Except ε Unit)) : Answers ε :=
  (p.ends dir.src).answers idle a

def turnTransfer (p : Task ε) (dir : Dir) (a : Answers ε) (idle : Poll (Except ε Unit)) : Task ε :=
  let t := p.transfer dir
  let a := p.answersOf dir a idle
  let r := t.turn (p.frames dir) a
  { p with
    ends := if t.reads (p.frames dir) then
      Function.update p.ends dir.src ((p.ends dir.src).afterRead idle) else p.ends
    transfer := Function.update p.transfer dir r.1
    pc := if r.2 = .again then .transfer dir else dir.next
    clock := a.now
    delivered := Function.update p.delivered dir (p.delivered dir ++ t.delivers (p.frames dir) a)
    accepted := Function.update p.accepted dir (p.accepted dir ++ t.accepts (p.frames dir) a)
    seen := p.seen ++ if t.takes (p.frames dir) a = 0 then [] else [.wrote a.now] }

def probed (p : Task ε) (l : Lifetime) (a : LifeAnswers ε) : List Seen :=
  if l.probes p.transfer a then
    [.probed a.now (fun dir => signal (p.transfer dir) (a.probe dir.src)) (l.drained a.probe)]
  else []

def turnLife (p : Task ε) (l : Lifetime) (polled : List Seen) (a : LifeAnswers ε) : Task ε :=
  let r := l.turn p.transfer a
  { p with
    transfer := r.1.transfer
    life := r.1.life
    pc := match r.2 with
      | .again => .watch
      | .pending => .transfer .ab
      | .ready => .teardown
    clock := a.now
    seen := p.seen ++ polled ++ p.probed l a
    stalled := r.1.stalled }

def finish (p : Task ε) (answer : End → Bool) : Task ε :=
  let undelivered := fun e => (p.ends e).undelivered (answer e)
  { p with
    pc := .ended
    undelivered := undelivered
    aborted := fun e => (p.transfer e.into).holdsData || undelivered e.into.src }

/-- A step of the task, or of the session of one of its ends. The clock does not go back, and a
destination takes no more than it is offered. -/
def next (p : Task ε) : Label ε → Option (Task ε)
  | .transfer a idle =>
    match p.pc with
    | .transfer dir =>
      if p.clock ≤ a.now ∧ (p.transfer dir).takes (p.frames dir) (p.answersOf dir a idle) ≤
          (p.transfer dir).unwritten.length then
        some (p.turnTransfer dir a idle)
      else none
    | _ => none
  | .life a =>
    if p.clock ≤ a.now then
      match p.pc with
      | .life =>
        match p.life.begin p.transfer with
        | none => some { p with pc := .teardown }
        | some l => some (p.turnLife l [.polled fun dir => (p.transfer dir).parked] a)
      | .watch => some (p.turnLife p.life [] a)
      | _ => none
    else none
  | .receive e ev =>
    if p.pc = .ended then none
    else some { p with
      ends := Function.update p.ends e ((p.ends e).receive ev)
      received := Function.update p.received e (p.received e ++ ev.bytes) }
  | .teardown answer => if p.pc = .teardown then some (p.finish answer) else none

theorem next_cases {p p' : Task ε} {lb : Label ε} (h : p.next lb = some p') :
    (∃ dir a idle, p.pc = .transfer dir ∧ p.clock ≤ a.now ∧
      (p.transfer dir).takes (p.frames dir) (p.answersOf dir a idle) ≤
        (p.transfer dir).unwritten.length ∧ p' = p.turnTransfer dir a idle) ∨
    (p.pc = .life ∧ p.life.begin p.transfer = none ∧ p' = { p with pc := .teardown }) ∨
    (∃ a l, lb = .life a ∧ p.pc = .life ∧ p.clock ≤ a.now ∧ p.life.begin p.transfer = some l ∧
      p' = p.turnLife l [.polled fun dir => (p.transfer dir).parked] a) ∨
    (∃ a, p.pc = .watch ∧ p.clock ≤ a.now ∧ p' = p.turnLife p.life [] a) ∨
    (∃ e ev, p.pc ≠ .ended ∧ p' = { p with
      ends := Function.update p.ends e ((p.ends e).receive ev)
      received := Function.update p.received e (p.received e ++ ev.bytes) }) ∨
    ∃ answer, p.pc = .teardown ∧ p' = p.finish answer := by
  cases lb with
  | transfer a idle =>
    left
    cases hpc : p.pc with
    | transfer dir =>
      simp only [next, hpc] at h
      obtain ⟨⟨hclock, hfit⟩, hp'⟩ := Option.ite_none_right_eq_some.mp h
      exact ⟨dir, a, idle, rfl, hclock, hfit, (Option.some.inj hp').symm⟩
    | _ =>
      simp only [next, hpc] at h
      cases h
  | life a =>
    obtain ⟨hclock, h⟩ := Option.ite_none_right_eq_some.mp h
    cases hpc : p.pc with
    | life =>
      simp only [hpc] at h
      cases hbegin : p.life.begin p.transfer with
      | none =>
        simp only [hbegin] at h
        exact .inr (.inl ⟨rfl, rfl, (Option.some.inj h).symm⟩)
      | some l =>
        simp only [hbegin] at h
        exact .inr (.inr (.inl ⟨a, l, rfl, rfl, hclock, rfl, (Option.some.inj h).symm⟩))
    | watch =>
      simp only [hpc] at h
      exact .inr (.inr (.inr (.inl ⟨a, rfl, hclock, (Option.some.inj h).symm⟩)))
    | _ =>
      simp only [hpc] at h
      cases h
  | receive e ev =>
    obtain ⟨hpc, hp'⟩ := Option.ite_none_left_eq_some.mp h
    exact .inr (.inr (.inr (.inr (.inl ⟨e, ev, hpc, (Option.some.inj hp').symm⟩))))
  | teardown answer =>
    obtain ⟨hpc, hp'⟩ := Option.ite_none_right_eq_some.mp h
    exact .inr (.inr (.inr (.inr (.inr ⟨answer, hpc, (Option.some.inj hp').symm⟩))))

end Task

end Kcptun.Pipe
