/- Kcptun/Tcpraw/Reset
   source: crates/tcpraw/src/conn.rs (push_conn, remove_from_conn_list, iptables_reset, begin_close,
     delete_rules, store_rules)
   digest: What the reset at exit has deleted when it returns: every rule appended before, unless
     another task has it in its hands. -/

import Kcptun.Tcpraw.Balance

set_option autoImplicit false
set_option relaxedAutoImplicit false

namespace Kcptun.Tcpraw

open Kcptun.Lib

/-- In the list, or closed. -/
def Shared.Listed (sh : Shared) (c : ℕ) : Prop := c ∈ sh.connList ∨ (sh.conns c).closed

namespace Task

/-- A dial or an installer of `c`, which has joined the list. -/
def Pushed (c : ℕ) : Task → Prop
  | .dial c' _ stage => c' = c ∧ stage ≠ .push
  | .install c' _ _ => c' = c
  | _ => False

/-- The rules from before the reset are really from before, and after the snapshot their connections
are closed or still to be closed. -/
def Known (sh : Shared) : Task → Prop
  | .reset before .snapshot => ∀ p ∈ before, .appended p.1 p.2 ∈ sh.log
  | .reset before (.visit todo _) => ∀ p ∈ before, .appended p.1 p.2 ∈ sh.log ∧
      ((sh.conns p.1).closed ∨ p.1 ∈ todo)
  | _ => True

end Task

/-- What every reachable state keeps besides: who appends rules is listed, and what a reset passes
is closed. -/
structure State.Covered (s : State) : Prop where
  pushed : ∀ t ∈ s.tasks, ∀ c, t.Pushed c → s.Listed c
  logged : ∀ c r, .appended c r ∈ s.log → s.Listed c
  known : ∀ t ∈ s.tasks, t.Known s.toShared

/-- What a step of a task keeps of the list, the flags and the log. -/
structure Keeps (sh sh' : Shared) : Prop where
  listed : ∀ c, sh.Listed c → sh'.Listed c
  closed : ∀ c, (sh.conns c).closed → (sh'.conns c).closed
  log : ∀ e ∈ sh.log, e ∈ sh'.log

private theorem keeps_refl (sh : Shared) : Keeps sh sh := ⟨fun _ h => h, fun _ h => h, fun _ h => h⟩

private theorem keeps_record (sh : Shared) (e : Event) : Keeps sh (sh.record e) :=
  ⟨fun _ h => h, fun _ h => h, fun _ h => List.mem_append_left _ h⟩

private theorem keeps_setConn (sh : Shared) (c : ℕ) {v : Conn}
    (hclosed : (sh.conns c).closed → v.closed) : Keeps sh (sh.setConn c v) := by
  have hmono : ∀ x, (sh.conns x).closed → ((sh.setConn c v).conns x).closed := by
    intro x hx
    rcases eq_or_ne x c with rfl | hne
    · rw [setConn_self]
      exact hclosed hx
    · rwa [setConn_ne sh v hne]
  exact ⟨fun x hx => hx.imp id (hmono x), hmono, fun _ h => h⟩

private theorem Task.Known.keeps {sh sh' : Shared} (h : Keeps sh sh') {t : Task} (ht : t.Known sh) :
    t.Known sh' := by
  cases t with
  | reset before stage =>
    cases stage with
    | snapshot => exact fun p hp => h.log _ (ht p hp)
    | visit todo stage =>
      intro p hp
      obtain ⟨hlog, hclosed⟩ := ht p hp
      exact ⟨h.log _ hlog, hclosed.imp (h.closed p.1) id⟩
  | _ => trivial

/-- What a step of a task may do to the list, the flags and the log. -/
structure Covers (sh : Shared) (t : Task) (sh' : Shared) (t' : Task) (more : List Task) : Prop where
  keeps : Keeps sh sh'
  pushed : ∀ u, u = t' ∨ u ∈ more → ∀ c, u.Pushed c → t.Pushed c ∨ sh'.Listed c
  logged : ∀ c r, .appended c r ∈ sh'.log → .appended c r ∈ sh.log ∨ t.Pushed c
  known : ∀ u, u = t' ∨ u ∈ more → u.Known sh'

section Steps

variable {s s' : State} {sh sh' : Shared} {c : ℕ} {t t' : Task} {more tasks : List Task}
variable {answer : Option Bool}

private theorem State.Covered.covers (h : s.Covered) {i : ℕ} (ht : s.tasks[i]? = some t)
    (hc : Covers s.toShared t sh' t' more) :
    State.Covered { toShared := sh', tasks := s.tasks.set i t' ++ more } := by
  have hmem := List.mem_of_getElem? ht
  have htasks : ∀ u ∈ s.tasks.set i t' ++ more, u ∈ s.tasks ∨ u = t' ∨ u ∈ more := by
    intro u hu
    rcases List.mem_append.mp hu with hu | hu
    · exact (List.mem_or_eq_of_mem_set hu).imp id .inl
    · exact .inr (.inr hu)
  constructor
  · intro u hu c hpushed
    rcases htasks u hu with hu | hu
    · exact hc.keeps.listed c (h.pushed u hu c hpushed)
    · rcases hc.pushed u hu c hpushed with hp | hl
      · exact hc.keeps.listed c (h.pushed t hmem c hp)
      · exact hl
  · intro c r hlog
    rcases hc.logged c r hlog with hlog | hp
    · exact hc.keeps.listed c (h.logged c r hlog)
    · exact hc.keeps.listed c (h.pushed t hmem c hp)
  · intro u hu
    rcases htasks u hu with hu | hu
    · exact (h.known u hu).keeps hc.keeps
    · exact hc.known u hu

private theorem keeps_closeStep {stage stage' : CloseStage}
    (h : sh.closeStep c stage = some (sh', stage'))
    (hclosed : stage ≠ .swap → (sh.conns c).closed) :
    Keeps sh sh' ∧ (sh'.conns c).closed ∧ ∀ x r, .appended x r ∈ sh'.log → .appended x r ∈ sh.log := by
  rcases closeStep_cases h with ⟨rfl, hc, rfl, rfl⟩ | ⟨rfl, hc, rfl, rfl⟩ | ⟨rfl, rfl, rfl⟩ |
    ⟨rfl, hc, rfl, rfl⟩ | ⟨r, rest, rfl, rfl, rfl⟩
  · exact ⟨keeps_refl sh', hc, fun x r hx => hx⟩
  · refine ⟨keeps_setConn sh c fun _ => rfl, ?_, fun x r hx => hx⟩
    rw [setConn_self]
  · have hc := hclosed (by simp)
    refine ⟨⟨?_, fun x hx => hx, fun e he => he⟩, hc, fun x r hx => hx⟩
    intro x hx
    rcases hx with hx | hx
    · rcases eq_or_ne x c with rfl | hne
      · exact .inr hc
      · exact .inl (List.mem_filter.mpr ⟨hx, decide_eq_true hne⟩)
    · exact .inr hx
  · refine ⟨keeps_setConn sh c fun hx => hx, ?_, fun x r hx => hx⟩
    rw [setConn_self]
    exact hclosed (by simp)
  · refine ⟨keeps_record sh _, hclosed (by simp), ?_⟩
    intro x r' hx
    rcases List.mem_append.mp hx with hx | hx
    · exact hx
    · cases List.mem_singleton.mp hx

private theorem keeps_installStep {setup : Setup} {stage stage' : InstallStage}
    (h : sh.installStep c setup stage answer = some (sh', stage')) :
    Keeps sh sh' ∧ ∀ x r, .appended x r ∈ sh'.log → .appended x r ∈ sh.log ∨ c = x := by
  have hskip : Keeps sh sh ∧ ∀ x r, .appended x r ∈ sh.log → .appended x r ∈ sh.log ∨ c = x :=
    ⟨keeps_refl sh, fun x r hx => .inl hx⟩
  have hset : ∀ v : Conn, ((sh.conns c).closed → v.closed) → Keeps sh (sh.setConn c v) ∧
      ∀ x r, .appended x r ∈ (sh.setConn c v).log → .appended x r ∈ sh.log ∨ c = x :=
    fun v hv => ⟨keeps_setConn sh c hv, fun x r hx => .inl hx⟩
  have hrecord : ∀ e : Event, e.conn = c → Keeps sh (sh.record e) ∧
      ∀ x r, .appended x r ∈ (sh.record e).log → .appended x r ∈ sh.log ∨ c = x := by
    intro e he
    refine ⟨keeps_record sh e, ?_⟩
    intro x r hx
    rcases List.mem_append.mp hx with hx | hx
    · exact .inl hx
    · rw [← List.mem_singleton.mp hx] at he
      exact .inr he.symm
  cases stage with
  | probe todo l =>
    cases todo with
    | nil =>
      simp only [Shared.installStep] at h
      split_ifs at h
      · cases h
        exact hskip
      · cases h
        exact hset _ fun hc => hc
    | cons proto todo =>
      cases answer <;> cases h <;> exact hskip
  | check proto todo l =>
    cases answer with
    | none =>
      cases h
      exact hskip
    | some b =>
      cases b with
      | false =>
        cases h
        exact hskip
      | true =>
        cases h
        exact hrecord _ rfl
  | append proto todo l =>
    cases answer with
    | none =>
      cases h
      exact hskip
    | some b =>
      cases h
      exact hrecord _ rfl
  | write l =>
    cases h
    exact hset _ fun hc => hc
  | delete rest =>
    cases rest with
    | nil => cases h
    | cons r rest =>
      cases h
      exact hrecord _ rfl

private theorem covers_of_step (h : t.step sh tasks answer = some (sh', t', more))
    (hclosed : ∀ c stage, t.current = some (c, stage) → stage ≠ .swap → (sh.conns c).closed)
    (hlogged : ∀ c r, .appended c r ∈ sh.log → sh.Listed c) (hknown : t.Known sh) :
    Covers sh t sh' t' more := by
  have honly : ∀ {t' : Task} {P : Task → Prop}, P t' → ∀ u, u = t' ∨ u ∈ ([] : List Task) → P u := by
    intro t' P ht' u hu
    rcases hu with rfl | hu
    · exact ht'
    · exact absurd hu List.not_mem_nil
  cases t with
  | dial c setup stage =>
    cases stage with
    | push =>
      cases h
      refine ⟨⟨fun x hx => hx.imp (List.mem_append_left _) id, fun x hx => hx, fun e he => he⟩,
        honly fun x hx => .inr (.inl ?_), fun x r hx => .inl hx, honly trivial⟩
      rw [← hx.1]
      exact List.mem_append_right _ (List.mem_singleton_self c)
    | setTtl =>
      cases answer with
      | some b =>
        cases h
        exact ⟨keeps_refl sh, honly fun x hx => .inl ⟨hx.1, by simp⟩, fun x r hx => .inl hx,
          honly trivial⟩
      | none =>
        cases h
        exact ⟨keeps_refl sh, honly fun x hx => hx.elim, fun x r hx => .inl hx, honly trivial⟩
    | spawn =>
      cases h
      refine ⟨keeps_refl sh, fun u hu x hx => .inl ?_, fun x r hx => .inl hx, ?_⟩
      · rcases hu with rfl | hu
        · exact ⟨hx.1, by simp⟩
        · rw [List.mem_singleton.mp hu] at hx
          exact ⟨hx, by simp⟩
      · intro u hu
        rcases hu with rfl | hu
        · trivial
        · rw [List.mem_singleton.mp hu]
          trivial
    | await installer =>
      simp only [Task.step] at h
      split_ifs at h with hdone
      cases h
      exact ⟨keeps_setConn sh c fun hc => hc, honly fun x hx => .inl ⟨hx.1, by simp⟩,
        fun x r hx => .inl hx, honly trivial⟩
    | returned => cases h
  | install c setup stage =>
    obtain ⟨⟨sh', stage'⟩, hstep, heq⟩ := Option.map_eq_some_iff.mp h
    cases heq
    obtain ⟨hkeeps, hlog⟩ := keeps_installStep hstep
    exact ⟨hkeeps, honly fun x hx => .inl hx, hlog, honly trivial⟩
  | close c caller stage =>
    obtain ⟨⟨sh', stage'⟩, hstep, heq⟩ := Option.map_eq_some_iff.mp h
    cases heq
    obtain ⟨hkeeps, -, hlog⟩ := keeps_closeStep hstep (hclosed c stage rfl)
    exact ⟨hkeeps, honly fun x hx => hx.elim, fun x r hx => .inl (hlog x r hx), honly trivial⟩
  | reset before stage =>
    cases stage with
    | snapshot =>
      cases h
      refine ⟨keeps_refl sh, honly fun x hx => hx.elim, fun x r hx => .inl hx, honly ?_⟩
      intro p hp
      have hlog := hknown p hp
      exact ⟨hlog, (hlogged p.1 p.2 hlog).symm⟩
    | visit todo stage =>
      cases todo with
      | nil => cases h
      | cons c todo =>
        obtain ⟨⟨sh', stage'⟩, hstep, heq⟩ := Option.map_eq_some_iff.mp h
        cases heq
        obtain ⟨hkeeps, hdone, hlog⟩ := keeps_closeStep hstep (hclosed c stage rfl)
        refine ⟨hkeeps, honly fun x hx => hx.elim, fun x r hx => .inl (hlog x r hx), honly ?_⟩
        have hkept : (Task.reset before (.visit (c :: todo) stage)).Known sh' := hknown.keeps hkeeps
        split_ifs
        · intro p hp
          obtain ⟨hp, hahead⟩ := hkept p hp
          refine ⟨hp, ?_⟩
          rcases hahead with hc | hmem
          · exact .inl hc
          · rcases List.mem_cons.mp hmem with heq | hmem
            · exact .inl (heq ▸ hdone)
            · exact .inr hmem
        · exact hkept

private theorem State.Covered.replace (h : s.Covered) {i : ℕ} (ht : s.tasks[i]? = some t)
    (hpushed : ∀ c, ¬ t'.Pushed c) (hknown : t'.Known s.toShared) :
    State.Covered { s with tasks := s.tasks.set i t' } := by
  have hcovers : Covers s.toShared t s.toShared t' [] := by
    refine ⟨keeps_refl _, ?_, fun x r hx => .inl hx, ?_⟩
    · intro u hu x hx
      rcases hu with rfl | hu
      · exact absurd hx (hpushed x)
      · exact absurd hu List.not_mem_nil
    · intro u hu
      rcases hu with rfl | hu
      · exact hknown
      · exact absurd hu List.not_mem_nil
  have := h.covers ht hcovers
  rwa [List.append_nil] at this

private theorem State.Covered.spawn (h : s.Covered) (hkeeps : Keeps s.toShared sh')
    (hlog : sh'.log = s.log) (hpushed : ∀ c, ¬ t.Pushed c) (hknown : t.Known sh') :
    State.Covered { toShared := sh', tasks := s.tasks ++ [t] } := by
  constructor
  · intro u hu c hp
    rcases List.mem_append.mp hu with hu | hu
    · exact hkeeps.listed c (h.pushed u hu c hp)
    · rw [List.mem_singleton.mp hu] at hp
      exact absurd hp (hpushed c)
  · intro c r hr
    rw [hlog] at hr
    exact hkeeps.listed c (h.logged c r hr)
  · intro u hu
    rcases List.mem_append.mp hu with hu | hu
    · exact (h.known u hu).keeps hkeeps
    · rw [List.mem_singleton.mp hu]
      exact hknown

private theorem mem_appendedRules {log : List Event} {p : ℕ × InstalledRule}
    (h : p ∈ appendedRules log) : .appended p.1 p.2 ∈ log := by
  obtain ⟨e, he, hp⟩ := List.mem_filterMap.mp h
  cases e with
  | appended c r =>
    cases hp
    exact he
  | _ => cases hp

private theorem State.Covered.next (h : s.Covered) (hinv : s.Inv) (a : Act)
    (hnext : s.next a = some s') : s'.Covered := by
  cases a with
  | start setup =>
    cases hnext
    exact h.spawn ⟨fun _ hc => hc, fun _ hc => hc, fun _ he => he⟩ rfl
      (fun c hp => hp.2 rfl) trivial
  | step i answer =>
    obtain ⟨t, ht, hmap⟩ := Option.bind_eq_some_iff.mp hnext
    obtain ⟨⟨sh', t', more⟩, hstep, heq⟩ := Option.map_eq_some_iff.mp hmap
    cases heq
    have hmem := List.mem_of_getElem? ht
    exact h.covers ht (covers_of_step hstep (hinv.closed t hmem) h.logged (h.known t hmem))
  | dropDial i =>
    simp only [State.next] at hnext
    split at hnext
    next c setup installer ht =>
      cases hnext
      exact h.replace ht (fun c hp => hp.elim) trivial
    next => cases hnext
  | close c =>
    simp only [State.next] at hnext
    split_ifs at hnext
    cases hnext
    exact h.spawn (keeps_refl s.toShared) rfl (fun c hp => hp.elim) trivial
  | closeAsync c =>
    simp only [State.next] at hnext
    split_ifs at hnext
    cases hnext
    exact h.spawn (keeps_refl s.toShared) rfl (fun c hp => hp.elim) trivial
  | dropAsync i =>
    simp only [State.next] at hnext
    split at hnext
    next c ht =>
      cases hnext
      exact h.replace ht (fun c hp => hp.elim) trivial
    next c rest ht =>
      cases hnext
      exact h.replace ht (fun c hp => hp.elim) trivial
    next => cases hnext
  | dropConn c =>
    simp only [State.next] at hnext
    split_ifs at hnext
    cases hnext
    exact h.spawn (keeps_setConn s.toShared c fun hc => hc) rfl (fun c hp => hp.elim) trivial
  | reset =>
    cases hnext
    exact h.spawn (keeps_refl s.toShared) rfl (fun c hp => hp.elim) fun p hp => mem_appendedRules hp

private theorem covered_initial : State.Covered {} := by
  constructor
  · intro t ht
    exact absurd ht List.not_mem_nil
  · intro c r hr
    exact absurd hr List.not_mem_nil
  · intro t ht
    exact absurd ht List.not_mem_nil

private theorem covered_run {acts : List Act} (hrun : exec State.next {} acts = some s) :
    s.Covered :=
  (exec_invariant_all (fun s => s.Inv ∧ s.Covered)
    (fun _ a _ h hnext => ⟨h.1.next a hnext, h.2.next h.1 a hnext⟩) ⟨inv_initial, covered_initial⟩
    hrun).2

end Steps

instance (c : ℕ) (t : Task) : Decidable (t.Draining c) := inferInstanceAs (Decidable (_ ∨ _))

/-- Some task has the rule in its hands: an installer between the append and the store, a close that
has drained it and not deleted it yet, or one that won the swap and will drain it. -/
def State.InHand (s : State) (c : ℕ) (r : InstalledRule) : Prop :=
  ∃ t ∈ s.tasks, 0 < t.held c r ∨ t.Draining c ∧ r ∈ (s.conns c).rules

instance (s : State) (c : ℕ) (r : InstalledRule) : Decidable (s.InHand c r) :=
  inferInstanceAs (Decidable (∃ t ∈ s.tasks, _))

/-- When the reset returns, the rules appended before it was called are deleted if and only if no
task has one of them in its hands. -/
theorem reset_deletes_iff (acts : List Act) (s : State) (hrun : exec State.next {} acts = some s)
    (i : ℕ) (before : List (ℕ × InstalledRule)) (stage : CloseStage)
    (hreturned : s.tasks[i]? = some (.reset before (.visit [] stage))) :
    (∀ p ∈ before, .deleted p.1 p.2 ∈ s.log) ↔ ∀ p ∈ before, ¬ s.InHand p.1 p.2 := by
  have h := inv_run hrun
  have hknown := (covered_run hrun).known _ (List.mem_of_getElem? hreturned)
  apply forall₂_congr
  intro p hp
  obtain ⟨happ, hclosed⟩ := hknown p hp
  have hclosed : (s.conns p.1).closed := hclosed.resolve_right List.not_mem_nil
  have hpos := List.count_pos_iff.mpr happ
  have honce := h.once p.1 p.2
  have hbal := h.balance p.1 p.2
  constructor
  · rintro hdel ⟨t, ht, hhand⟩
    have hdel := List.count_pos_iff.mpr hdel
    have hone : s.log.count (.appended p.1 p.2) ≤ 1 := by
      split_ifs at honce <;> omega
    rcases hhand with hheld | ⟨-, hrule⟩
    · have := le_tally (f := Task.held p.1 p.2) ht
      omega
    · have := List.count_pos_iff.mpr hrule
      omega
  · intro hnone
    have hheld : tally (Task.held p.1 p.2) s.tasks = 0 := by
      refine tally_eq_zero_iff.mpr fun t ht => Nat.eq_zero_of_not_pos fun hpos => hnone ?_
      exact ⟨t, ht, .inl hpos⟩
    have hrules : (s.conns p.1).rules.count p.2 = 0 := by
      refine List.count_eq_zero.mpr fun hrule => hnone ?_
      obtain ⟨t, ht, hd⟩ := h.drained p.1 hclosed (.inl (List.ne_nil_of_mem hrule))
      exact ⟨t, ht, .inr ⟨hd, hrule⟩⟩
    exact List.count_pos_iff.mp (by omega)

/-- A dial of `peer` up to the append of its first rule; the second one is there already. -/
def installing : List Act :=
  [.start peer, .step 0 none, .step 0 (some true), .step 0 none, .step 1 (some true),
    .step 1 (some false), .step 1 (some true), .step 1 (some true), .step 1 (some true)]

/-- The installer stores the rule, and the dial returns. -/
def stored : List Act := installing ++ [.step 1 none, .step 1 none, .step 0 none]

theorem reset_deletes_stored : ∃ s, exec State.next {}
      (stored ++ [.reset, .step 2 none, .step 2 none, .step 2 none, .step 2 none, .step 2 none]) =
        some s ∧ .deleted 0 (peer.installed .IPv4) ∈ s.log := by
  refine ⟨_, rfl, ?_⟩
  have hiff := reset_deletes_iff
    (stored ++ [.reset, .step 2 none, .step 2 none, .step 2 none, .step 2 none, .step 2 none]) _ rfl 2
    [(0, peer.installed .IPv4)] .swap rfl
  refine hiff.mpr ?_ (0, peer.installed .IPv4) (List.mem_singleton_self _)
  decide

/-- The reset returns while the installer has not stored the rule yet; and it returns while the
blocking part of a `close_async` has not deleted it yet. -/
theorem reset_leaves_rule :
    (∃ s, exec State.next {} (installing ++ [.reset, .step 2 none, .step 2 none, .step 2 none,
        .step 2 none]) = some s ∧
      s.tasks[2]? = some (.reset [(0, peer.installed .IPv4)] (.visit [] .swap)) ∧
      .deleted 0 (peer.installed .IPv4) ∉ s.log) ∧
    ∃ s, exec State.next {} (stored ++ [.closeAsync 0, .step 2 none, .step 2 none, .reset,
        .step 3 none]) = some s ∧
      s.tasks[3]? = some (.reset [(0, peer.installed .IPv4)] (.visit [] .swap)) ∧
      .deleted 0 (peer.installed .IPv4) ∉ s.log := by
  refine ⟨⟨_, rfl, rfl, ?_⟩, _, rfl, rfl, ?_⟩
  · decide
  · decide

end Kcptun.Tcpraw
