/- Kcptun/Pipe/CopyExact
   source: crates/std/src/pipe.rs (pipe_with, Transfer), crates/std/src/smuxio.rs (PipeEnd for
     SmuxStream)
   digest: Whatever the ends answer, what a destination accepted is a front of what its source
     delivered, and a pipe that ends on less resets the destination or reports an error. -/

import Kcptun.Pipe.PipeWith

set_option autoImplicit false
set_option relaxedAutoImplicit false

namespace Kcptun.Pipe

open Kcptun.Lib Kcptun.Lib.LittleEndian

variable {ε : Type}

private theorem Dir.src_ne {dir dir' : Dir} (h : dir ≠ dir') : dir.src ≠ dir'.src := by
  cases dir <;> cases dir' <;> first | exact absurd rfl h | exact End.noConfusion

private theorem Dir.into_dst (dir : Dir) : dir.dst.into = dir := by
  cases dir <;> rfl

@[simp] theorem PipeEnd.frameSource_afterRead (e : PipeEnd) (idle : Poll (Except ε Unit)) :
    (e.afterRead idle).frameSource = e.frameSource := by
  cases e <;> rfl

@[simp] theorem PipeEnd.frameSource_receive (e : PipeEnd) (ev : StreamEvent) :
    (e.receive ev).frameSource = e.frameSource := by
  cases e <;> rfl

namespace Transfer

/-- What a direction has copied: all of what was delivered but what it holds, unless it failed. -/
def Copied (t : Transfer ε) (delivered accepted : Bytes) : Prop :=
  accepted ++ t.unwritten = delivered ∨
    (t.phase ≠ .copying ∧ t.result ≠ none ∧ accepted <+: delivered)

variable {t t' : Transfer ε} {frameSource : Bool} {a : Answers ε} {flow : Flow}
  {delivered accepted : Bytes}

private theorem Copied.accepted_le (h : t.Copied delivered accepted) : accepted <+: delivered := by
  rcases h with hall | ⟨-, -, hfront⟩
  · exact ⟨t.unwritten, hall⟩
  · exact hfront

private theorem Copied.turned (h : t.Copied delivered accepted) (hshape : t.Shape frameSource)
    (ht : Turned frameSource t a t' flow) :
    t'.Copied (delivered ++ t.delivers frameSource a) (accepted ++ t.accepts frameSource a) := by
  rcases h with hall | ⟨hphase, hresult, hfront⟩
  · rcases hshape.kept ht with hkept | ⟨hphase, hresult⟩
    · left
      rw [List.append_assoc, hkept, ← List.append_assoc, hall]
    · refine .inr ⟨hphase, hresult, ?_⟩
      have htaken : t.accepts frameSource a <+: t.unwritten := List.take_prefix _ _
      obtain ⟨rest, hrest⟩ := htaken
      exact ⟨rest ++ t.delivers frameSource a, by rw [← hall, ← hrest]; simp only [List.append_assoc]⟩
  · obtain ⟨htakes, hdelivers⟩ := @idle_of_over _ frameSource t hphase a
    obtain ⟨hphase', hresult'⟩ := ht.sticks
    rw [accepts_of_none htakes, hdelivers, List.append_nil, List.append_nil]
    exact .inr ⟨hphase' hphase, hresult' hresult, hfront⟩

private theorem Copied.reported (h : t.Copied delivered accepted) (hr : Lifetime.Reported t t') :
    t'.Copied delivered accepted := by
  obtain ⟨result, rfl, hsticks⟩ := hr
  exact h.imp id fun ⟨hphase, hresult, hfront⟩ => ⟨hphase, hsticks hresult, hfront⟩

private theorem Shape.reported (h : t.Shape frameSource) (hr : Lifetime.Reported t t') :
    t'.Shape frameSource := by
  obtain ⟨result, rfl, -⟩ := hr
  exact ⟨h.frames, h.buffered, h.frame_ne, h.pos_le, h.room, h.stopped⟩

private theorem Copied.all_of_done (h : t.Copied delivered accepted) (hshape : t.Shape frameSource)
    (hdone : t.phase = .done) (hok : t.result = none) : accepted = delivered := by
  rcases h with hall | ⟨-, hresult, -⟩
  · rwa [hshape.unwritten_of_over (by rw [hdone]; exact Phase.noConfusion), List.append_nil] at hall
  · exact absurd hok hresult

private theorem holdsData_of_unwritten (h : t.unwritten ≠ []) : t.holdsData = true := by
  by_contra hno
  obtain ⟨hframe, hpos⟩ : t.frame.isSome = false ∧ ¬ t.pos < t.cap := by
    simpa [holdsData] using hno
  apply h
  rw [unwritten_of_buffered (Option.isSome_eq_false_iff.mp hframe |> Option.isNone_iff_eq_none.mp)]
  apply List.drop_eq_nil_of_le
  rw [List.length_take]
  omega

end Transfer

namespace Task

variable {p p' : Task ε}

structure Exact (p : Task ε) : Prop where
  shape : ∀ dir, (p.transfer dir).Shape (p.frames dir)
  copied : ∀ dir, (p.transfer dir).Copied (p.delivered dir) (p.accepted dir)
  resting : ∀ dir, p.pc ≠ .transfer dir → (p.transfer dir).unwritten = [] →
    (p.transfer dir).buf = none
  source : ∀ dir s, p.ends dir.src = .smux s → p.delivered dir ++ s.held = p.received dir.src
  closed : p.pc = .ended → ∀ dir, p.aborted dir.dst =
    ((p.transfer dir).holdsData || p.undelivered dir.src)
  answered : p.pc = .ended → ∀ e s, p.ends e = .smux s → p.undelivered e = s.undelivered

private theorem exact_start (ends : End → PipeEnd) (closeWait : Int) (timing : Timing) (now : ℕ) :
    (start ends closeWait timing now : Task ε).Exact := by
  refine ⟨?_, fun dir => .inl rfl, fun dir _ _ => rfl, ?_,
    fun hpc => absurd hpc Pc.noConfusion, fun hpc => absurd hpc Pc.noConfusion⟩
  · intro dir
    exact ⟨fun _ => ⟨rfl, rfl, rfl⟩, fun _ => rfl, (Option.some_ne_none _).symm, Nat.le_refl 0,
      fun hlt => absurd hlt (Nat.lt_irrefl 0), fun hp => absurd rfl hp⟩
  · intro dir s hs
    have hends : ends dir.src = .smux s := hs
    change [] ++ s.held = (ends dir.src).held
    rw [hends]
    rfl

private theorem ends_turnTransfer (p : Task ε) (dir : Dir) (a : Answers ε)
    (idle : Poll (Except ε Unit)) : (p.turnTransfer dir a idle).ends dir.src =
      if (p.transfer dir).reads (p.frames dir) then (p.ends dir.src).afterRead idle
      else p.ends dir.src := by
  change (if (p.transfer dir).reads (p.frames dir) then
    Function.update p.ends dir.src ((p.ends dir.src).afterRead idle) else p.ends) dir.src = _
  split_ifs
  · exact Function.update_self _ _ _
  · rfl

private theorem ends_turnTransfer_of_ne (p : Task ε) {dir dir' : Dir} (hne : dir' ≠ dir)
    (a : Answers ε) (idle : Poll (Except ε Unit)) :
    (p.turnTransfer dir a idle).ends dir'.src = p.ends dir'.src := by
  change (if (p.transfer dir).reads (p.frames dir) then
    Function.update p.ends dir.src ((p.ends dir.src).afterRead idle) else p.ends) dir'.src = _
  split_ifs
  · exact Function.update_of_ne (Dir.src_ne hne) _ _
  · rfl

private theorem frames_turnTransfer (p : Task ε) (dir dir' : Dir) (a : Answers ε)
    (idle : Poll (Except ε Unit)) : (p.turnTransfer dir a idle).frames dir' = p.frames dir' := by
  unfold frames
  by_cases hne : dir' = dir
  · rw [hne, ends_turnTransfer]
    split_ifs
    · exact PipeEnd.frameSource_afterRead _ _
    · rfl
  · rw [ends_turnTransfer_of_ne p hne]

private theorem Exact.turnTransfer (h : p.Exact) {dir : Dir} (hpc : p.pc = .transfer dir)
    (a : Answers ε) (idle : Poll (Except ε Unit))
    (hfit : (p.transfer dir).takes (p.frames dir) (p.answersOf dir a idle) ≤
      (p.transfer dir).unwritten.length) : (p.turnTransfer dir a idle).Exact := by
  set ans := p.answersOf dir a idle with hans
  have hturned := (p.transfer dir).turn_turned (p.frames dir) ans
  -- a direction after the turn of this one
  have hself : (p.turnTransfer dir a idle).transfer dir =
      ((p.transfer dir).turn (p.frames dir) ans).1 :=
    Function.update_self _ _ _
  have hother : ∀ dir', dir' ≠ dir →
      (p.turnTransfer dir a idle).transfer dir' = p.transfer dir' ∧
      (p.turnTransfer dir a idle).delivered dir' = p.delivered dir' ∧
      (p.turnTransfer dir a idle).accepted dir' = p.accepted dir' := fun dir' hne =>
    ⟨Function.update_of_ne hne _ _, Function.update_of_ne hne _ _, Function.update_of_ne hne _ _⟩
  have hdelivered : (p.turnTransfer dir a idle).delivered dir =
      p.delivered dir ++ (p.transfer dir).delivers (p.frames dir) ans := Function.update_self _ _ _
  have haccepted : (p.turnTransfer dir a idle).accepted dir =
      p.accepted dir ++ (p.transfer dir).accepts (p.frames dir) ans := Function.update_self _ _ _
  have hgo : (p.turnTransfer dir a idle).pc =
      if ((p.transfer dir).turn (p.frames dir) ans).2 = .again then .transfer dir else dir.next := rfl
  have hover : (p.turnTransfer dir a idle).pc ≠ .ended := by
    rw [hgo]
    split_ifs
    · exact Pc.noConfusion
    · cases dir <;> exact Pc.noConfusion
  refine ⟨?_, ?_, ?_, ?_, fun hc => absurd hc hover, fun hc => absurd hc hover⟩
  · intro dir'
    rw [frames_turnTransfer]
    by_cases hne : dir' = dir
    · rw [hne, hself]
      exact (h.shape dir).turned hfit hturned
    · rw [(hother dir' hne).1]
      exact h.shape dir'
  · intro dir'
    by_cases hne : dir' = dir
    · rw [hne, hself, hdelivered, haccepted]
      exact (h.copied dir).turned (h.shape dir) hturned
    · obtain ⟨h1, h2, h3⟩ := hother dir' hne
      rw [h1, h2, h3]
      exact h.copied dir'
  · intro dir' hrest hempty
    by_cases hne : dir' = dir
    · rw [hne] at hrest hempty ⊢
      rw [hself] at hempty ⊢
      refine (h.shape dir).resting hturned (fun hagain => hrest ?_) hempty
      rw [hgo, if_pos hagain]
    · rw [(hother dir' hne).1] at hempty ⊢
      exact h.resting dir' (fun hc => hne (Pc.transfer.inj (hc.symm.trans hpc))) hempty
  · intro dir' s hs
    change (p.turnTransfer dir a idle).delivered dir' ++ s.held = p.received dir'.src
    by_cases hne : dir' = dir
    · rw [hne] at hs ⊢
      rw [ends_turnTransfer] at hs
      rw [hdelivered]
      cases hsrc : p.ends dir.src with
      | other frameSource =>
        rw [hsrc] at hs
        split_ifs at hs
        cases hs
      | smux s₀ =>
        have hframes : p.frames dir = true := by
          unfold frames
          rw [hsrc]
          rfl
        have hread : ans.readFrame = (s₀.pollReadFrame idle).2 := by
          rw [hans, answersOf, hsrc]
          rfl
        rw [hsrc] at hs
        rw [← h.source dir s₀ hsrc, List.append_assoc]
        apply congrArg (p.delivered dir ++ ·)
        unfold Transfer.delivers
        split_ifs at hs ⊢ with hreads
        · obtain rfl := PipeEnd.smux.inj hs
          rw [hread]
          exact s₀.frameBytes_pollReadFrame idle
        · obtain rfl := PipeEnd.smux.inj hs
          rfl
    · rw [ends_turnTransfer_of_ne p hne] at hs
      rw [(hother dir' hne).2.1]
      exact h.source dir' s hs

private theorem Exact.turnLife (h : p.Exact) (hpc : p.pc = .life ∨ p.pc = .watch) (l : Lifetime)
    (polled : List Seen) (a : LifeAnswers ε) : (p.turnLife l polled a).Exact := by
  have hreported : ∀ dir, Lifetime.Reported (p.transfer dir) ((p.turnLife l polled a).transfer dir) :=
    l.reported_turn p.transfer a
  have hover : (p.turnLife l polled a).pc ≠ .ended := by
    unfold Task.turnLife
    dsimp only
    cases (l.turn p.transfer a).2 <;> exact Pc.noConfusion
  have hidle : ∀ dir, p.pc ≠ .transfer dir := by
    intro dir
    rcases hpc with hpc | hpc <;> rw [hpc] <;> exact Pc.noConfusion
  refine ⟨fun dir => (h.shape dir).reported (hreported dir),
    fun dir => (h.copied dir).reported (hreported dir), ?_, h.source,
    fun hc => absurd hc hover, fun hc => absurd hc hover⟩
  intro dir _ hempty
  obtain ⟨result, heq, -⟩ := hreported dir
  rw [heq] at hempty ⊢
  exact h.resting dir (hidle dir) hempty

private theorem Exact.receive (h : p.Exact) (hpc : p.pc ≠ .ended) (e : End) (ev : StreamEvent) :
    ({ p with
      ends := Function.update p.ends e ((p.ends e).receive ev)
      received := Function.update p.received e (p.received e ++ ev.bytes) } : Task ε).Exact := by
  have hframes : ∀ dir : Dir, (Function.update p.ends e ((p.ends e).receive ev) dir.src).frameSource =
      p.frames dir := by
    intro dir
    rw [Function.update_apply]
    split_ifs with he
    · rw [PipeEnd.frameSource_receive, ← he]
      rfl
    · rfl
  refine ⟨?_, h.copied, h.resting, ?_, fun hc => absurd hc hpc, fun hc => absurd hc hpc⟩
  · intro dir
    have hshape := h.shape dir
    rw [← hframes dir] at hshape
    exact hshape
  · intro dir s hs
    change Function.update p.ends e ((p.ends e).receive ev) dir.src = .smux s at hs
    change p.delivered dir ++ s.held =
      Function.update p.received e (p.received e ++ ev.bytes) dir.src
    rw [Function.update_apply] at hs ⊢
    split_ifs at hs ⊢ with he
    · cases hsrc : p.ends e with
      | other frameSource =>
        rw [hsrc] at hs
        cases hs
      | smux s₀ =>
        rw [hsrc] at hs
        obtain rfl := PipeEnd.smux.inj hs
        rw [s₀.held_receive, ← List.append_assoc, h.source dir s₀ (he ▸ hsrc), he]
    · exact h.source dir s hs

private theorem Exact.finish (h : p.Exact) (hpc : p.pc = .teardown) (answer : End → Bool) :
    (p.finish answer).Exact := by
  refine ⟨h.shape, h.copied, fun dir _ => h.resting dir (by rw [hpc]; exact Pc.noConfusion), h.source,
    ?_, ?_⟩
  · intro _ dir
    change ((p.transfer dir.dst.into).holdsData ||
      (p.ends dir.dst.into.src).undelivered (answer dir.dst.into.src)) = _
    rw [Dir.into_dst]
    rfl
  · intro _ e s hs
    have hends : p.ends e = .smux s := hs
    change (p.ends e).undelivered (answer e) = s.undelivered
    rw [hends]
    rfl

private theorem Exact.next (h : p.Exact) {lb : Label ε} (hnext : p.next lb = some p') :
    p'.Exact := by
  rcases next_cases hnext with ⟨dir, a, idle, hpc, -, hfit, rfl⟩ | ⟨hpc, -, rfl⟩ |
    ⟨a, l, -, hpc, -, -, rfl⟩ | ⟨a, hpc, -, rfl⟩ | ⟨e, ev, hpc, rfl⟩ | ⟨answer, hpc, rfl⟩
  · exact h.turnTransfer hpc a idle hfit
  · exact ⟨h.shape, h.copied, fun dir _ => h.resting dir (by rw [hpc]; exact Pc.noConfusion),
      h.source, fun hc => absurd hc Pc.noConfusion, fun hc => absurd hc Pc.noConfusion⟩
  · exact h.turnLife (.inl hpc) l _ a
  · exact h.turnLife (.inr hpc) p.life _ a
  · exact h.receive hpc e ev
  · exact h.finish hpc answer

end Task

/-- Every run of the pipe, in each direction. What the destination accepted is a front of what the
source delivered, and all of it once the direction is done without an error. A direction that is not
being polled and has nothing to write holds no buffer. A smux stream still holds what it received and
did not deliver. And when the pipe ends with delivered bytes that were not accepted, with bytes left
in a smux source or with a smux source that was cut off, the destination was asked to abort, or the
direction reports an error. -/
theorem pipe_copies_exactly (ends : End → PipeEnd) (closeWait : Int) (timing : Timing) (now : ℕ)
    (ls : List (Label ε)) (p : Task ε)
    (hrun : exec Task.next (Task.start ends closeWait timing now) ls = some p) (dir : Dir) :
    p.accepted dir <+: p.delivered dir ∧
      ((p.transfer dir).phase = .done → (p.transfer dir).result = none →
        p.accepted dir = p.delivered dir) ∧
      (p.pc ≠ .transfer dir → (p.transfer dir).unwritten = [] → (p.transfer dir).buf = none) ∧
      (∀ s, p.ends dir.src = .smux s → p.delivered dir ++ s.held = p.received dir.src) ∧
      (p.pc = .ended → (p.accepted dir ≠ p.delivered dir ∨
          ∃ s, p.ends dir.src = .smux s ∧ (s.held ≠ [] ∨ s.CutOff)) →
        p.aborted dir.dst = true ∨ (p.transfer dir).result ≠ none) := by
  have h : p.Exact := exec_invariant_all Task.Exact (fun _ _ _ h hnext => h.next hnext)
    (Task.exact_start ends closeWait timing now) hrun
  refine ⟨(h.copied dir).accepted_le, fun hdone hok =>
    (h.copied dir).all_of_done (h.shape dir) hdone hok,
    h.resting dir, h.source dir, ?_⟩
  intro hover hlost
  rw [h.closed hover dir]
  rcases hlost with hlost | ⟨s, hs, hleft⟩
  · rcases h.copied dir with hall | ⟨-, hresult, -⟩
    · left
      rw [Transfer.holdsData_of_unwritten, Bool.true_or]
      intro hempty
      rw [hempty, List.append_nil] at hall
      exact hlost hall
    · exact .inr hresult
  · left
    have hund : s.undelivered = true := hleft.elim SmuxStream.undelivered_of_held
      SmuxStream.undelivered_of_cutOff
    rw [h.answered hover dir.src s hs, hund, Bool.or_true]

/-- A smux stream and a socket that takes one byte of three, while the other direction ends. -/
def cutShort : List (Label Unit) :=
  [.receive .alice (.push [1, 2, 3]),
    .transfer { now := 1 } .pending,
    .transfer { write := .ready (.ok 1), now := 2 } .pending,
    .transfer { now := 3 } .pending,
    .transfer { read := .ready (.ok ()), now := 3 } .pending,
    .transfer { now := 3 } .pending,
    .transfer { now := 3 } .pending,
    .life { now := 4, probe := fun _ => {} },
    .teardown fun _ => false]

theorem pipe_copies_exactly_cutShort : ∃ p : Task Unit,
    exec Task.next (Task.start (fun e => if e = .alice then .smux {} else .other false) 0
      Timing.default 0) cutShort = some p ∧
    p.delivered .ab = [1, 2, 3] ∧ p.accepted .ab = [1] ∧
    (p.aborted .bob = true ∨ (p.transfer .ab).result ≠ none) := by
  obtain ⟨p, hrun, hdelivered, haccepted, hover⟩ : ∃ p : Task Unit,
      exec Task.next (Task.start (fun e => if e = .alice then .smux {} else .other false) 0
        Timing.default 0) cutShort = some p ∧
      p.delivered .ab = [1, 2, 3] ∧ p.accepted .ab = [1] ∧ p.pc = .ended :=
    ⟨_, rfl, rfl, rfl, rfl⟩
  refine ⟨p, hrun, hdelivered, haccepted, ?_⟩
  refine (pipe_copies_exactly _ 0 Timing.default 0 cutShort p hrun .ab).2.2.2.2 hover (.inl ?_)
  rw [hdelivered, haccepted]
  decide

end Kcptun.Pipe
