/- Kcptun/Pipe/StallRule
   source: crates/std/src/pipe.rs (Lifetime::poll, Lifetime::check, rule 6 of the module doc)
   digest: What must have been seen when a stalled direction ends the pipe, and that it has been seen
     in every run in which no end signal stays recorded of a direction that is found unparked. -/

import Kcptun.Pipe.PipeWith

set_option autoImplicit false
set_option relaxedAutoImplicit false

namespace Kcptun.Pipe

open Kcptun.Lib

variable {ε : Type}

namespace Seen

def Keeps (dir : Dir) : Seen → Prop
  | .wrote _ => True
  | .polled parked => parked dir = true
  | .probed _ signalled _ => signalled dir = true

def Settled (limit now : ℕ) : Seen → Prop
  | .wrote t => t + limit ≤ now
  | .polled _ => True
  | .probed t _ shrank => shrank = true → t + limit ≤ now

instance (dir : Dir) : DecidablePred (Keeps dir)
  | .wrote _ => inferInstanceAs (Decidable True)
  | .polled _ => inferInstanceAs (Decidable (_ = true))
  | .probed _ _ _ => inferInstanceAs (Decidable (_ = true))

instance (limit now : ℕ) : DecidablePred (Settled limit now)
  | .wrote _ => inferInstanceAs (Decidable (_ ≤ _))
  | .polled _ => inferInstanceAs (Decidable True)
  | .probed _ _ _ => inferInstanceAs (Decidable (_ → _))

end Seen

/-- A probe that is `limit` old, and from it on every probe found the direction parked with its end
signal, and no poll found it unparked. -/
def Streak (dir : Dir) (limit now : ℕ) : List Seen → Prop
  | .probed since signalled _ :: after =>
    since + limit ≤ now ∧ signalled dir = true ∧ ∀ o ∈ after, o.Keeps dir
  | _ => False

instance (dir : Dir) (limit now : ℕ) : DecidablePred (Streak dir limit now)
  | [] => .isFalse id
  | .wrote _ :: _ => .isFalse id
  | .polled _ :: _ => .isFalse id
  | .probed _ _ _ :: _ => inferInstanceAs (Decidable (_ ∧ _ ∧ _))

/-- When a direction may end the pipe: its streak is as old as the limit, and nothing has moved
since. -/
def Justified (seen : List Seen) (limit now : ℕ) (dir : Dir) : Prop :=
  (∃ l ∈ seen.tails, Streak dir limit now l) ∧ ∀ o ∈ seen, o.Settled limit now

instance (seen : List Seen) (limit now : ℕ) (dir : Dir) : Decidable (Justified seen limit now dir) :=
  inferInstanceAs (Decidable (_ ∧ _))

def limitOf (closeWait : Int) (timing : Timing) : ℕ :=
  max timing.socketStall (closeWaitDuration closeWait)

instance (P : Dir → Prop) [DecidablePred P] : Decidable (∀ dir, P dir) :=
  decidable_of_iff (P .ab ∧ P .ba)
    ⟨fun h dir => by cases dir; exacts [h.1, h.2], fun h => ⟨h .ab, h .ba⟩⟩

/-- A poll that finds a direction unparked finds no end signal recorded of it, or probes at once; a
poll that ends the pipe or starts its grace may find what it likes. -/
def Task.Clears (p : Task ε) : Label ε → Prop
  | .life a => p.pc = .life → p.life.life = .opened →
      (∀ dir, (p.transfer dir).isDone = false) → ∀ dir, (p.transfer dir).parked = false →
        p.life.signalledAt dir = none ∨ p.life.probes p.transfer a = true
  | _ => True

instance (p : Task ε) : DecidablePred p.Clears
  | .transfer _ _ => inferInstanceAs (Decidable True)
  | .life _ => inferInstanceAs (Decidable (_ → _))
  | .receive _ _ => inferInstanceAs (Decidable True)
  | .teardown _ => inferInstanceAs (Decidable True)

def Stamped (seen : List Seen) (dir : Dir) (since : ℕ) : Prop :=
  ∃ l, l <:+ seen ∧ Streak dir 0 since l

private theorem Stamped.append {seen more : List Seen} {dir : Dir} {since : ℕ}
    (h : Stamped seen dir since)
    (hmore : ∀ o ∈ more, o.Keeps dir) : Stamped (seen ++ more) dir since := by
  obtain ⟨l, ⟨front, rfl⟩, hstreak⟩ := h
  refine ⟨l ++ more, ⟨front, (List.append_assoc _ _ _).symm⟩, ?_⟩
  match l, hstreak with
  | .probed t signalled shrank :: after, hstreak =>
    obtain ⟨hold, hsignal, hafter⟩ := hstreak
    exact ⟨hold, hsignal, List.forall_mem_append.mpr ⟨hafter, hmore⟩⟩

private theorem stamped_new (seen : List Seen) {dir : Dir} {now : ℕ} {signalled : Dir → Bool}
    (shrank : Bool)
    (h : signalled dir = true) : Stamped (seen ++ [.probed now signalled shrank]) dir now :=
  ⟨[.probed now signalled shrank], List.suffix_append _ _, Nat.le_refl _, h,
    fun _ ho => absurd ho List.not_mem_nil⟩

private theorem Stamped.justified {seen : List Seen} {dir : Dir} {since limit now : ℕ}
    (h : Stamped seen dir since) (hold : since + limit ≤ now)
    (hsettled : ∀ o ∈ seen, o.Settled limit now) : Justified seen limit now dir := by
  obtain ⟨l, hl, hstreak⟩ := h
  refine ⟨⟨l, (List.mem_tails _ _).mpr hl, ?_⟩, hsettled⟩
  match l, hstreak with
  | .probed t signalled shrank :: after, hstreak =>
    obtain ⟨hsince, hrest⟩ := hstreak
    exact ⟨by omega, hrest⟩

namespace Lifetime

variable {l : Lifetime} {transfer : Dir → Transfer ε} {a : LifeAnswers ε}

private theorem turn_cases (l : Lifetime) (transfer : Dir → Transfer ε) (a : LifeAnswers ε) :
    (l.life ≠ .opened ∧ l.probes transfer a = false ∧
      ∃ flow, l.turn transfer a = (⟨l, transfer, none⟩, flow)) ∨
    (l.life = .opened ∧ l.probes transfer a = false ∧
      ∃ watch watching, l.turn transfer a =
        (⟨{ l with watch := watch, watching := watching }, transfer, none⟩, .pending)) ∨
    (l.life = .opened ∧ l.probes transfer a = true ∧ ∃ watch watching checked,
      Lifetime.Probed { l with watch := watch, watching := watching } transfer a checked ∧
      l.turn transfer a = (checked, if checked.stalled.isSome then .ready else .again)) := by
  have hlife : l.life = .opened ∨ ∃ grace, l.life = .closing grace := by
    cases l.life with
    | opened => exact .inl rfl
    | closing grace => exact .inr ⟨grace, rfl⟩
  rcases hlife with hlife | ⟨grace, hlife⟩
  · right
    have hprobes : l.probes transfer a =
        (((transfer .ab).parked || (transfer .ba).parked) && a.tick) := by
      unfold probes
      rw [hlife]
      rfl
    by_cases hquiet : (!(transfer .ab).parked && !(transfer .ba).parked) = true
    · obtain ⟨hab, hba⟩ : (transfer .ab).parked = false ∧ (transfer .ba).parked = false := by
        simpa using hquiet
      refine .inl ⟨hlife, ?_, l.watch, false, ?_⟩
      · rw [hprobes, hab, hba, Bool.or_self, Bool.false_and]
      · simp only [turn, hlife]
        rw [if_pos hquiet]
    have hparked : ((transfer .ab).parked || (transfer .ba).parked) = true := by
      rwa [← Bool.not_or, Bool.not_eq_true', Bool.not_eq_false] at hquiet
    by_cases htick : (!a.tick) = true
    · have hno : a.tick = false := by simpa using htick
      refine .inl ⟨hlife, ?_, (l.arm a.now).watch, true, ?_⟩
      · rw [hprobes, hno, Bool.and_false]
      · simp only [turn, hlife]
        rw [if_neg hquiet, if_pos htick]
        simp only [arm, hlife]
    · refine .inr ⟨hlife, ?_, some (a.now + l.timing.watch), true, _, check_probed _ transfer a, ?_⟩
      · rw [hprobes, hparked, Bool.true_and]
        simpa using htick
      · simp only [turn, hlife]
        rw [if_neg hquiet, if_neg htick]
        simp only [arm, hlife]
  · left
    refine ⟨by rw [hlife]; exact Life.noConfusion, ?_, ?_⟩
    · unfold probes
      rw [hlife]
      rfl
    · simp only [turn, hlife]
      exact ⟨_, rfl⟩

end Lifetime

namespace Task

variable {p p' : Task ε} {closeWait : Int} {timing : Timing}

/-- What the lifetime of an open pipe goes by has been seen. -/
structure Recorded (closeWait : Int) (timing : Timing) (l : Lifetime) (seen : List Seen)
    (clock : ℕ) : Prop where
  closeWait_eq : l.closeWait = closeWait
  stall_eq : l.timing.socketStall = timing.socketStall
  drained_le : ∀ t, l.drainedAt = some t → t ≤ clock
  shrank : ∀ t signalled, .probed t signalled true ∈ seen → ∃ d, l.drainedAt = some d ∧ t ≤ d
  stamps : ∀ dir since, l.signalledAt dir = some since → since ≤ clock ∧ Stamped seen dir since

/-- What holds of the pipe in every state, up to its end by a stall. -/
structure Timed (closeWait : Int) (timing : Timing) (p : Task ε) : Prop where
  moved : ∀ dir, (p.transfer dir).movedAt ≤ p.clock
  wrote : ∀ t, .wrote t ∈ p.seen → t ≤ max (p.transfer .ab).movedAt (p.transfer .ba).movedAt
  recorded : p.life.life = .opened → p.stalled = none →
    Recorded closeWait timing p.life p.seen p.clock
  ended : ∀ dir, p.stalled = some dir → (p.pc = .teardown ∨ p.pc = .ended) ∧
    Justified p.seen (limitOf closeWait timing) p.clock dir

private theorem timed_start (ends : End → PipeEnd) (closeWait : Int) (timing : Timing) (now : ℕ) :
    (start ends closeWait timing now : Task ε).Timed closeWait timing := by
  refine ⟨fun _ => Nat.le_refl now, fun t ht => absurd ht List.not_mem_nil, ?_,
    fun dir hdir => absurd hdir.symm (Option.some_ne_none dir)⟩
  intro _ _
  exact ⟨rfl, rfl, fun t ht => absurd ht.symm (Option.some_ne_none t),
    fun t _ ht => absurd ht List.not_mem_nil,
    fun dir since hs => absurd hs.symm (Option.some_ne_none since)⟩

private theorem Timed.not_stalled (h : p.Timed closeWait timing) (hpc : p.pc ≠ .teardown)
    (hpc' : p.pc ≠ .ended) : p.stalled = none := by
  cases hs : p.stalled with
  | none => rfl
  | some dir => exact absurd (h.ended dir hs).1 (by simp [hpc, hpc'])

private theorem Timed.turnTransfer (h : p.Timed closeWait timing) {dir : Dir}
    (hpc : p.pc = .transfer dir)
    {a : Answers ε} (hclock : p.clock ≤ a.now) (idle : Poll (Except ε Unit)) :
    (p.turnTransfer dir a idle).Timed closeWait timing := by
  have hstalled := h.not_stalled (by rw [hpc]; exact Pc.noConfusion) (by rw [hpc]; exact Pc.noConfusion)
  set ans := p.answersOf dir a idle with hans
  have hnow : ans.now = a.now := by
    rw [hans, answersOf]
    cases p.ends dir.src <;> rfl
  have hturned := ((p.transfer dir).turn_turned (p.frames dir) ans).movedAt
  rw [hnow] at hturned
  set more : List Seen := if (p.transfer dir).takes (p.frames dir) ans = 0 then []
    else [.wrote a.now] with hmore
  have hseen : (p.turnTransfer dir a idle).seen = p.seen ++ more := by
    rw [hmore, ← hnow]
    rfl
  have hclock' : (p.turnTransfer dir a idle).clock = a.now := hnow
  have hself : ((p.turnTransfer dir a idle).transfer dir).movedAt =
      if (p.transfer dir).takes (p.frames dir) ans = 0 then (p.transfer dir).movedAt else a.now := by
    rw [← hturned]
    exact congrArg Transfer.movedAt (Function.update_self _ _ _)
  have hother : ∀ dir', dir' ≠ dir →
      ((p.turnTransfer dir a idle).transfer dir').movedAt = (p.transfer dir').movedAt := fun dir' hne =>
    congrArg Transfer.movedAt (Function.update_of_ne hne _ _)
  have hgrows : ∀ dir', (p.transfer dir').movedAt ≤
      ((p.turnTransfer dir a idle).transfer dir').movedAt := by
    intro dir'
    by_cases hne : dir' = dir
    · rw [hne, hself]
      have := h.moved dir
      split_ifs <;> omega
    · rw [hother dir' hne]
  have hkeeps : ∀ dir', ∀ o ∈ more, o.Keeps dir' := by
    intro dir' o ho
    rw [hmore] at ho
    split_ifs at ho
    · exact absurd ho List.not_mem_nil
    · obtain rfl := List.mem_singleton.mp ho
      trivial
  refine ⟨?_, ?_, ?_, ?_⟩
  · intro dir'
    rw [hclock']
    by_cases hne : dir' = dir
    · rw [hne, hself]
      have := h.moved dir
      split_ifs <;> omega
    · rw [hother dir' hne]
      exact Nat.le_trans (h.moved dir') hclock
  · intro t ht
    rw [hseen] at ht
    have hab := hgrows .ab
    have hba := hgrows .ba
    rcases List.mem_append.mp ht with ht | ht
    · have := h.wrote t ht
      omega
    · rw [hmore] at ht
      split_ifs at ht with htakes
      · exact absurd ht List.not_mem_nil
      · obtain rfl := Seen.wrote.inj (List.mem_singleton.mp ht)
        rw [if_neg htakes] at hself
        cases dir <;> omega
  · intro hopen _
    obtain ⟨h1, h2, h3, h4, h5⟩ := h.recorded hopen hstalled
    rw [hseen, hclock']
    refine ⟨h1, h2, fun t ht => Nat.le_trans (h3 t ht) hclock, ?_, ?_⟩
    · intro t signalled ht
      rcases List.mem_append.mp ht with ht | ht
      · exact h4 t signalled ht
      · rw [hmore] at ht
        split_ifs at ht
        · exact absurd ht List.not_mem_nil
        · cases List.mem_singleton.mp ht
    · intro dir' since hs
      obtain ⟨hle, hstamped⟩ := h5 dir' since hs
      exact ⟨Nat.le_trans hle hclock, hstamped.append (hkeeps dir')⟩
  · intro dir' hdir'
    have hs : p.stalled = some dir' := hdir'
    rw [hstalled] at hs
    cases hs

/-- What the front of a poll hands to the turn of the lifetime: the record still holds, and a stamp
has its streak unless the direction is unparked and the turn probes. -/
structure Begun (closeWait : Int) (timing : Timing) (p : Task ε) (l : Lifetime) (polled : List Seen)
    (a : LifeAnswers ε) : Prop where
  recorded : Recorded closeWait timing { l with signalledAt := fun _ => none } (p.seen ++ polled) p.clock
  stamps : ∀ dir since, l.signalledAt dir = some since → since ≤ p.clock ∧
    (Stamped (p.seen ++ polled) dir since ∨
      ((p.transfer dir).parked = false ∧ l.probes p.transfer a = true))

section Turn

variable {a : LifeAnswers ε} {l : Lifetime} {polled : List Seen} {checked : Checked ε}

private theorem movedAt_turnLife (p : Task ε) (l : Lifetime) (polled : List Seen)
    (a : LifeAnswers ε)
    (dir : Dir) : ((p.turnLife l polled a).transfer dir).movedAt = (p.transfer dir).movedAt := by
  obtain ⟨result, heq, -⟩ := l.reported_turn p.transfer a dir
  exact (congrArg Transfer.movedAt heq).trans rfl

private theorem Timed.moved_turnLife (h : p.Timed closeWait timing) (hclock : p.clock ≤ a.now)
    (dir : Dir) : ((p.turnLife l polled a).transfer dir).movedAt ≤ a.now := by
  rw [movedAt_turnLife]
  exact Nat.le_trans (h.moved dir) hclock

private theorem Timed.wrote_turnLife (h : p.Timed closeWait timing)
    (hpolled : ∀ o ∈ polled, ∃ parked, o = .polled parked) :
    ∀ t, .wrote t ∈ p.seen ++ polled ++ p.probed l a →
      t ≤ max (p.transfer .ab).movedAt (p.transfer .ba).movedAt := by
  intro t ht
  rcases List.mem_append.mp ht with ht | ht
  · rcases List.mem_append.mp ht with ht | ht
    · exact h.wrote t ht
    · obtain ⟨parked, hpar⟩ := hpolled _ ht
      cases hpar
  · unfold probed at ht
    split_ifs at ht
    · cases List.mem_singleton.mp ht
    · exact absurd ht List.not_mem_nil

private theorem Timed.of_turnLife (h : p.Timed closeWait timing) (hclock : p.clock ≤ a.now)
    (hpolled : ∀ o ∈ polled, ∃ parked, o = .polled parked)
    (hrecorded : (p.turnLife l polled a).life.life = .opened →
      (p.turnLife l polled a).stalled = none → Recorded closeWait timing (p.turnLife l polled a).life
        (p.seen ++ polled ++ p.probed l a) a.now)
    (hended : ∀ dir, (p.turnLife l polled a).stalled = some dir →
      ((p.turnLife l polled a).pc = .teardown ∨ (p.turnLife l polled a).pc = .ended) ∧
        Justified (p.seen ++ polled ++ p.probed l a) (limitOf closeWait timing) a.now dir) :
    (p.turnLife l polled a).Timed closeWait timing := by
  refine ⟨h.moved_turnLife hclock, ?_, hrecorded, hended⟩
  intro t ht
  rw [movedAt_turnLife, movedAt_turnLife]
  exact h.wrote_turnLife hpolled t ht

private theorem probed_of_probes (hprobes : l.probes p.transfer a = true) :
    p.probed l a = [.probed a.now (fun dir => signal (p.transfer dir) (a.probe dir.src))
      (l.drained a.probe)] := by
  unfold probed
  rw [if_pos hprobes]

private theorem probed_of_not_probes (hprobes : l.probes p.transfer a = false) :
    p.probed l a = [] := by
  unfold probed
  rw [if_neg (by rw [hprobes]; exact Bool.false_ne_true)]

private theorem Begun.quiet (hb : Begun closeWait timing p l polled a) (hclock : p.clock ≤ a.now)
    (hprobes : l.probes p.transfer a = false) (watch : Option ℕ) (watching : Bool) :
    Recorded closeWait timing { l with watch := watch, watching := watching }
      (p.seen ++ polled ++ p.probed l a) a.now := by
  obtain ⟨h1, h2, h3, h4, -⟩ := hb.recorded
  rw [probed_of_not_probes hprobes, List.append_nil]
  refine ⟨h1, h2, fun t ht => Nat.le_trans (h3 t ht) hclock, h4, ?_⟩
  intro dir since hs
  obtain ⟨hle, hstamped | ⟨-, hprobes'⟩⟩ := hb.stamps dir since hs
  · exact ⟨Nat.le_trans hle hclock, hstamped⟩
  · rw [hprobes] at hprobes'
    cases hprobes'

private theorem Begun.streak (hb : Begun closeWait timing p l polled a) (hclock : p.clock ≤ a.now)
    (hprobes : l.probes p.transfer a = true) {dir : Dir}
    (hsig : signal (p.transfer dir) (a.probe dir.src) = true) :
    (l.signalledAt dir).getD a.now ≤ a.now ∧
      Stamped (p.seen ++ polled ++ p.probed l a) dir ((l.signalledAt dir).getD a.now) := by
  rw [probed_of_probes hprobes]
  cases hs : l.signalledAt dir with
  | none => exact ⟨Nat.le_refl _, stamped_new _ _ hsig⟩
  | some since =>
    have hparked : (p.transfer dir).parked = true := (Bool.and_eq_true_iff.mp hsig).1
    obtain ⟨hle, hstamped | ⟨hunparked, -⟩⟩ := hb.stamps dir since hs
    · refine ⟨Nat.le_trans hle hclock, hstamped.append ?_⟩
      intro o ho
      obtain rfl := List.mem_singleton.mp ho
      exact hsig
    · rw [hparked] at hunparked
      cases hunparked

private theorem Begun.drained (hb : Begun closeWait timing p l polled a) (hclock : p.clock ≤ a.now)
    (hprobes : l.probes p.transfer a = true) :
    ∀ t sig, .probed t sig true ∈ p.seen ++ polled ++ p.probed l a →
      ∃ d, (l.noteUnsent a).drainedAt = some d ∧ t ≤ d := by
  intro t sig ht
  obtain ⟨-, -, hle, hshrank, -⟩ := hb.recorded
  change ∃ d, (if l.drained a.probe then some a.now else l.drainedAt) = some d ∧ t ≤ d
  rcases List.mem_append.mp ht with ht | ht
  · obtain ⟨d, hd, hlater⟩ := hshrank t sig ht
    split_ifs with hdr
    · exact ⟨a.now, rfl, Nat.le_trans hlater (Nat.le_trans (hle d hd) hclock)⟩
    · exact ⟨d, hd, hlater⟩
  · rw [probed_of_probes hprobes] at ht
    obtain ⟨hnow, -, hdr⟩ := Seen.probed.inj (List.mem_singleton.mp ht)
    rw [if_pos hdr.symm]
    exact ⟨a.now, rfl, Nat.le_of_eq hnow⟩

private theorem Begun.drainedAt_le (hb : Begun closeWait timing p l polled a)
    (hclock : p.clock ≤ a.now) : ∀ d, (l.noteUnsent a).drainedAt = some d → d ≤ a.now := by
  intro d hd
  change (if l.drained a.probe then some a.now else l.drainedAt) = some d at hd
  split_ifs at hd
  · exact Nat.le_of_eq (Option.some.inj hd).symm
  · exact Nat.le_trans (hb.recorded.drained_le d hd) hclock

private theorem Begun.limit_eq (hb : Begun closeWait timing p l polled a) {progress : Progress}
    {limit : ℕ} (h : l.timing.stallLimit progress l.closeWait = some limit) :
    limit = limitOf closeWait timing := by
  have hclose : l.closeWait = closeWait := hb.recorded.closeWait_eq
  have hstall : l.timing.socketStall = timing.socketStall := hb.recorded.stall_eq
  unfold Timing.stallLimit at h
  cases progress with
  | fine =>
    rw [hclose, hstall] at h
    exact (Option.some.inj h).symm
  | credit => cases h

private theorem Begun.justified (hb : Begun closeWait timing p l polled a)
    (h : p.Timed closeWait timing) (hclock : p.clock ≤ a.now)
    (hpolled : ∀ o ∈ polled, ∃ parked, o = .polled parked) (hprobes : l.probes p.transfer a = true)
    {dir : Dir} (hexpired : l.Expired p.transfer a dir) :
    Justified (p.seen ++ polled ++ p.probed l a) (limitOf closeWait timing) a.now dir := by
  obtain ⟨hsig, limit, hlimit, hlong⟩ := hexpired
  obtain ⟨hle, hstamped⟩ := hb.streak hclock hprobes hsig
  have hab := Nat.le_trans (h.moved .ab) hclock
  have hba := Nat.le_trans (h.moved .ba) hclock
  have hdr : ((l.noteUnsent a).drainedAt).getD 0 ≤ a.now := by
    cases hd : (l.noteUnsent a).drainedAt with
    | none => exact Nat.zero_le _
    | some d => exact hb.drainedAt_le hclock d hd
  rw [← hb.limit_eq hlimit]
  unfold Lifetime.movedAt at hlong
  refine hstamped.justified (by omega) ?_
  intro o ho
  cases o with
  | wrote t =>
    have := h.wrote_turnLife hpolled t ho
    change t + limit ≤ a.now
    omega
  | polled parked => trivial
  | probed t sig shrank =>
    rintro rfl
    obtain ⟨d, hd, hle⟩ := hb.drained hclock hprobes t sig ho
    rw [hd, Option.getD_some] at hlong hdr
    omega

private theorem Timed.turnLife_probe (h : p.Timed closeWait timing) (hclock : p.clock ≤ a.now)
    (hpolled : ∀ o ∈ polled, ∃ parked, o = .polled parked)
    (hb : Begun closeWait timing p l polled a) (hopen : l.life = .opened)
    (hprobes : l.probes p.transfer a = true) {watch : Option ℕ} {watching : Bool}
    (hchecked : Lifetime.Probed { l with watch := watch, watching := watching } p.transfer a checked)
    (hturn : l.turn p.transfer a = (checked, if checked.stalled.isSome then .ready else .again)) :
    (p.turnLife l polled a).Timed closeWait timing := by
  have hlife : (p.turnLife l polled a).life = checked.life := by
    change (l.turn p.transfer a).1.life = _
    rw [hturn]
  have hstalled : (p.turnLife l polled a).stalled = checked.stalled := by
    change (l.turn p.transfer a).1.stalled = _
    rw [hturn]
  obtain ⟨h1, h2, -⟩ := hb.recorded
  refine h.of_turnLife hclock hpolled ?_ ?_
  · intro hc hnone
    rw [hlife] at hc ⊢
    rw [hstalled] at hnone
    cases hchecked with
    | failed =>
      simp only [Lifetime.beginClosing, hopen] at hc
      cases hc
    | stalled l' transfer' dir hexpired => cases hnone
    | passed stamps hrestamped =>
      refine ⟨h1, h2, hb.drainedAt_le hclock, hb.drained hclock hprobes, ?_⟩
      intro dir since hs
      rcases hrestamped dir with hnone | ⟨hsig, hstamp⟩
      · exact absurd (hnone.symm.trans hs).symm (Option.some_ne_none since)
      · obtain rfl := Option.some.inj (hstamp.symm.trans hs)
        exact hb.streak hclock hprobes hsig
  · intro dir hdir
    rw [hstalled] at hdir
    cases hchecked with
    | failed => cases hdir
    | stalled l' transfer' dir' hexpired =>
      obtain rfl := Option.some.inj hdir
      refine ⟨.inl ?_, hb.justified h hclock hpolled hprobes hexpired⟩
      unfold Task.turnLife
      rw [hturn]
      rfl
    | passed stamps hrestamped => cases hdir

private theorem Timed.turnLife (h : p.Timed closeWait timing) (hclock : p.clock ≤ a.now)
    (hpolled : ∀ o ∈ polled, ∃ parked, o = .polled parked)
    (hbegun : l.life = .opened → Begun closeWait timing p l polled a) :
    (p.turnLife l polled a).Timed closeWait timing := by
  have hno {dir : Dir} {r : Checked ε} {flow : Flow}
      (hturn : l.turn p.transfer a = (r, flow)) (hnone : r.stalled = none)
      (hdir : (p.turnLife l polled a).stalled = some dir) : False := by
    change (l.turn p.transfer a).1.stalled = some dir at hdir
    rw [hturn, hnone] at hdir
    cases hdir
  rcases l.turn_cases p.transfer a with ⟨hclosed, -, flow, hturn⟩ |
    ⟨hopen, hprobes, watch, watching, hturn⟩ |
    ⟨hopen, hprobes, watch, watching, checked, hchecked, hturn⟩
  · -- the grace
    refine h.of_turnLife hclock hpolled (fun hc => absurd ?_ hclosed) fun dir hdir =>
      (hno hturn rfl hdir).elim
    change (l.turn p.transfer a).1.life.life = .opened at hc
    rwa [hturn] at hc
  · -- no probe
    refine h.of_turnLife hclock hpolled ?_ fun dir hdir => (hno hturn rfl hdir).elim
    intro _ _
    have hlife : (p.turnLife l polled a).life = { l with watch := watch, watching := watching } := by
      change (l.turn p.transfer a).1.life = _
      rw [hturn]
    rw [hlife]
    exact (hbegun hopen).quiet hclock hprobes watch watching
  · exact h.turnLife_probe hclock hpolled (hbegun hopen) hopen hprobes hchecked hturn

end Turn

/-- The front of a poll of an open pipe, with every stamp of a direction it finds unparked cleared or
about to be. -/
private theorem Timed.beginPoll (h : p.Timed closeWait timing) (hpc : p.pc = .life)
    {a : LifeAnswers ε}
    (hclears : p.Clears (.life a)) {l : Lifetime} (hbegin : p.life.begin p.transfer = some l)
    (hopen : l.life = .opened) :
    Begun closeWait timing p l [.polled fun dir => (p.transfer dir).parked] a := by
  have hstalled := h.not_stalled (by rw [hpc]; exact Pc.noConfusion) (by rw [hpc]; exact Pc.noConfusion)
  unfold Lifetime.begin at hbegin
  by_cases hboth : ((p.transfer .ab).isDone && (p.transfer .ba).isDone) = true
  · rw [if_pos hboth] at hbegin
    cases hbegin
  rw [if_neg hboth] at hbegin
  by_cases hone : ((p.transfer .ab).isDone || (p.transfer .ba).isDone) = true
  · rw [if_pos hone] at hbegin
    obtain rfl := Option.some.inj hbegin
    have hclosing : p.life.beginClosing.life ≠ .opened := by
      cases hlife : p.life.life <;> simp [Lifetime.beginClosing, hlife]
    exact absurd hopen hclosing
  rw [if_neg hone] at hbegin
  obtain rfl := Option.some.inj hbegin
  obtain ⟨hab, hba⟩ : (p.transfer .ab).isDone = false ∧ (p.transfer .ba).isDone = false := by
    simpa using hone
  have hclear := hclears hpc hopen fun dir => by cases dir; exacts [hab, hba]
  obtain ⟨h1, h2, h3, h4, h5⟩ := h.recorded hopen hstalled
  refine ⟨⟨h1, h2, h3, ?_, ?_⟩, ?_⟩
  · intro t signalled ht
    rcases List.mem_append.mp ht with ht | ht
    · exact h4 t signalled ht
    · cases List.mem_singleton.mp ht
  · intro dir since hs
    exact absurd hs.symm (Option.some_ne_none since)
  · intro dir since hs
    obtain ⟨hle, hstamped⟩ := h5 dir since hs
    refine ⟨hle, ?_⟩
    by_cases hparked : (p.transfer dir).parked = true
    · left
      apply hstamped.append
      intro o ho
      obtain rfl := List.mem_singleton.mp ho
      exact hparked
    · right
      have hunparked : (p.transfer dir).parked = false := by simpa using hparked
      refine ⟨hunparked, (hclear dir hunparked).resolve_left ?_⟩
      rw [hs]
      exact Option.some_ne_none since

private theorem Timed.next (h : p.Timed closeWait timing) {lb : Label ε} (hclears : p.Clears lb)
    (hnext : p.next lb = some p') : p'.Timed closeWait timing := by
  rcases next_cases hnext with ⟨dir, a, idle, hpc, hclock, -, rfl⟩ | ⟨hpc, -, rfl⟩ |
    ⟨a, l, rfl, hpc, hclock, hbegin, rfl⟩ | ⟨a, hpc, hclock, rfl⟩ | ⟨e, ev, -, rfl⟩ |
    ⟨answer, hpc, rfl⟩
  · exact h.turnTransfer hpc hclock idle
  · refine ⟨h.moved, h.wrote, h.recorded, fun dir hdir => ⟨.inl rfl, (h.ended dir hdir).2⟩⟩
  · refine h.turnLife hclock ?_ fun hopen => h.beginPoll hpc hclears hbegin hopen
    intro o ho
    exact ⟨_, List.mem_singleton.mp ho⟩
  · refine h.turnLife hclock (fun o ho => absurd ho List.not_mem_nil) ?_
    intro hopen
    have hstalled := h.not_stalled (by rw [hpc]; exact Pc.noConfusion)
      (by rw [hpc]; exact Pc.noConfusion)
    obtain ⟨h1, h2, h3, h4, h5⟩ := h.recorded hopen hstalled
    constructor
    · rw [List.append_nil]
      exact ⟨h1, h2, h3, h4, fun dir since hs => absurd hs.symm (Option.some_ne_none since)⟩
    · intro dir since hs
      rw [List.append_nil]
      exact ⟨(h5 dir since hs).1, .inl (h5 dir since hs).2⟩
  · exact ⟨h.moved, h.wrote, h.recorded, h.ended⟩
  · exact ⟨h.moved, h.wrote, h.recorded, fun dir hdir => ⟨.inr rfl, (h.ended dir hdir).2⟩⟩

end Task

/-- Where every poll of the lifetime finds no end signal recorded of a direction that is not parked,
or probes at once, a pipe that ends by a stalled direction had reason to. -/
theorem stall_justified (ends : End → PipeEnd) (closeWait : Int) (timing : Timing) (now : ℕ)
    (ls : List (Label ε)) (p : Task ε)
    (hclears : Along Task.next Task.Clears (Task.start ends closeWait timing now) ls)
    (hrun : exec Task.next (Task.start ends closeWait timing now) ls = some p) (dir : Dir)
    (hstalled : p.stalled = some dir) :
    Justified p.seen (limitOf closeWait timing) p.clock dir := by
  have h : p.Timed closeWait timing := exec_invariant (Task.Timed closeWait timing)
    (fun _ _ _ h hclears hnext => h.next hclears hnext) (Task.timed_start ends closeWait timing now)
    hclears hrun
  exact (h.ended dir hstalled).2

def finishedRun : List (Label Unit) :=
  [.transfer { readFrame := .ready (.ok (some [1, 2])), now := SECOND } .pending,
    .transfer { now := SECOND } .pending, .transfer { now := SECOND } .pending,
    .life { now := SECOND, probe := fun _ => {} },
    .transfer { now := 2 * SECOND } .pending, .transfer { now := 2 * SECOND } .pending,
    .life { now := 2 * SECOND, tick := true, probe := fun e => { finished := e = .alice } },
    .life { now := 2 * SECOND, probe := fun _ => {} },
    .transfer { now := 32 * SECOND } .pending, .transfer { now := 32 * SECOND } .pending,
    .life { now := 32 * SECOND, tick := true, probe := fun e => { finished := e = .alice } }]

theorem stall_justified_finished : ∃ p : Task Unit,
    exec Task.next (Task.start (fun e => .other (e = .alice)) 0 Timing.default 0) finishedRun = some p ∧
    Justified p.seen (limitOf 0 Timing.default) p.clock .ab := by
  obtain ⟨p, hrun, hstalled⟩ : ∃ p : Task Unit,
      exec Task.next (Task.start (fun e => .other (e = .alice)) 0 Timing.default 0) finishedRun =
        some p ∧ p.stalled = some .ab := ⟨_, rfl, rfl⟩
  exact ⟨p, hrun, stall_justified _ 0 Timing.default 0 finishedRun p (by decide) hrun .ab hstalled⟩

/-- A probe sees the source starve; the write completes at 2.5 s and nobody is parked for a minute;
the last frame, at 60 s, finds the socket full. -/
def starvedOnce : List (Label Unit) :=
  [.transfer { readFrame := .ready (.ok (some [1, 2])), now := SECOND } .pending,
    .transfer { now := SECOND } .pending, .transfer { now := SECOND } .pending,
    .life { now := SECOND, probe := fun _ => {} },
    .transfer { now := 2 * SECOND } .pending, .transfer { now := 2 * SECOND } .pending,
    .life { now := 2 * SECOND, tick := true, probe := fun e => { starving := e = .alice } },
    .life { now := 2 * SECOND, probe := fun _ => {} },
    .transfer { write := .ready (.ok 2), now := 2500000000 } .pending,
    .transfer { now := 2500000000 } .pending, .transfer { now := 2500000000 } .pending,
    .life { now := 2500000000, probe := fun _ => {} },
    .transfer { readFrame := .ready (.ok (some [3])), now := 60 * SECOND } .pending,
    .transfer { now := 60 * SECOND } .pending, .transfer { now := 60 * SECOND } .pending,
    .life { now := 60 * SECOND, probe := fun _ => {} },
    .transfer { now := 61 * SECOND } .pending, .transfer { now := 61 * SECOND } .pending,
    .life { now := 61 * SECOND, tick := true, probe := fun e => { finished := e = .alice } }]

/-- The first probe after the quiet minute ends the pipe, by the stamp from before it. -/
theorem stale_stamp_stalls : ∃ p : Task Unit,
    exec Task.next (Task.start (fun e => .other (e = .alice)) 0 Timing.default 0) starvedOnce = some p ∧
    p.stalled = some .ab ∧ ¬Justified p.seen (limitOf 0 Timing.default) p.clock .ab :=
  ⟨_, rfl, rfl, by decide⟩

end Kcptun.Pipe
