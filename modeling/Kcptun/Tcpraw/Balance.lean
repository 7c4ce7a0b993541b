/- Kcptun/Tcpraw/Balance
   source: crates/tcpraw/src/conn.rs (begin_close, delete_rules, store_rules, setup_dial_rules,
     setup_listen_rules, CloseOnCancel, close_async)
   digest: Every rule a connection appends is stored, in the hands of one task, or deleted once; when
     all is done it is deleted. -/

import Kcptun.Lib.Interleaving
import Kcptun.Tcpraw.Moves
import Mathlib.Data.List.Nodup

set_option autoImplicit false
set_option relaxedAutoImplicit false

namespace Kcptun.Tcpraw

open Kcptun.Lib

/-- What every reachable state keeps: where the appended rules are, that a rule is looked for at most
once and the rules are stored at most once, who has the locks, and that what is left in a closed
connection, or about to be, is going to be drained. -/
structure State.Inv (s : State) : Prop where
  balance : ∀ c r, s.log.count (.appended c r) =
    s.log.count (.deleted c r) + (s.conns c).rules.count r + tally (Task.held c r) s.tasks
  once : ∀ c r, s.log.count (.appended c r) + s.log.count (.found c r) +
    tally (Task.ahead c r) s.tasks ≤ if c < s.nextConnId then 1 else 0
  stored : ∀ c, tally (Task.unstored c) s.tasks + (s.conns c).stock ≤
    if c < s.nextConnId then 1 else 0
  locked : ∀ c, tally (Task.writing c) s.tasks = (s.conns c).locked.toNat
  drained : ∀ c, (s.conns c).closed → (s.conns c).rules ≠ [] ∨ (s.conns c).locked →
    ∃ t ∈ s.tasks, t.Draining c
  closed : ∀ t ∈ s.tasks, ∀ c stage, t.current = some (c, stage) → stage ≠ .swap →
    (s.conns c).closed
  order : ∀ k c r, s.log[k]? = some (.deleted c r) → .appended c r ∈ s.log.take k

section Runs

variable {s s' : State} {sh' : Shared} {t t' : Task} {more : List Task} {i : ℕ}

private theorem State.Inv.rules_eq_nil (h : s.Inv) (ht : t ∈ s.tasks) {c : ℕ}
    (hc : t.unstored c ≠ 0) : (s.conns c).rules = [] := by
  have hle := le_tally (f := Task.unstored c) ht
  have hstored := h.stored c
  unfold Conn.stock at hstored
  by_contra hne
  rw [if_neg hne] at hstored
  split_ifs at hstored <;> omega

private theorem State.Inv.locked_of_writing (h : s.Inv) (ht : t ∈ s.tasks) {c : ℕ}
    (hc : t.writing c ≠ 0) : (s.conns c).locked = true := by
  have hle := le_tally (f := Task.writing c) ht
  have hlocked := h.locked c
  cases hl : (s.conns c).locked with
  | true => rfl
  | false =>
    rw [hl, Bool.toNat_false] at hlocked
    omega

private theorem order_append {log : List Event} {e : Event}
    (h : ∀ k c r, log[k]? = some (.deleted c r) → .appended c r ∈ log.take k)
    (he : ∀ c r, e = .deleted c r → .appended c r ∈ log) :
    ∀ k c r, (log ++ [e])[k]? = some (.deleted c r) → .appended c r ∈ (log ++ [e]).take k := by
  intro k c r hk
  rcases Nat.lt_or_ge k log.length with hlt | hge
  · rw [List.getElem?_append_left hlt] at hk
    rw [List.take_append_of_le_length (Nat.le_of_lt hlt)]
    exact h k c r hk
  · rw [List.getElem?_append_right hge, List.getElem?_singleton] at hk
    split_ifs at hk with hzero
    rw [List.take_append]
    refine List.mem_append_left _ ?_
    rw [List.take_of_length_le hge]
    exact he c r (Option.some.inj hk)

private theorem State.Inv.moves (h : s.Inv) (ht : s.tasks[i]? = some t)
    (hm : Moves s.toShared t sh' t' more) :
    State.Inv { toShared := sh', tasks := s.tasks.set i t' ++ more } := by
  have hmem : t ∈ s.tasks := List.mem_of_getElem? ht
  have hset : ∀ f : Task → ℕ, tally f (s.tasks.set i t' ++ more) + f t =
      tally f s.tasks + (f t' + tally f more) := by
    intro f
    have := tally_set (f := f) ht t'
    rw [tally_append]
    omega
  have hin : ∀ u, u ∈ s.tasks → u = t ∨ u ∈ s.tasks.set i t' := by
    intro u hu
    obtain ⟨j, hj⟩ := List.mem_iff_getElem?.mp hu
    rcases eq_or_ne i j with rfl | hne
    · exact .inl (Option.some.inj (hj.symm.trans ht))
    · refine .inr (List.mem_iff_getElem?.mpr ⟨j, ?_⟩)
      rw [List.getElem?_set_ne hne]
      exact hj
  have hi : i < s.tasks.length := (List.getElem?_eq_some_iff.mp ht).1
  have ht' : t' ∈ s.tasks.set i t' :=
    List.mem_iff_getElem?.mpr ⟨i, List.getElem?_set_self hi⟩
  constructor
  · intro c r
    have hold := h.balance c r
    have hstep := hm.balance c r
    have hsum := hset (Task.held c r)
    dsimp only
    omega
  · intro c r
    have hold := h.once c r
    have hstep := hm.once c r
    have hsum := hset (Task.ahead c r)
    dsimp only
    rw [hm.nextConnId]
    omega
  · intro c
    have hold := h.stored c
    have hstep := hm.stored c
    have hsum := hset (Task.unstored c)
    dsimp only
    rw [hm.nextConnId]
    omega
  · intro c
    have hold := h.locked c
    have hstep := hm.locked c
    have hsum := hset (Task.writing c)
    dsimp only
    omega
  · intro c hclosed hleft
    rcases hm.drained c hclosed hleft with hd | ⟨hclosed, hleft, hnot⟩
    · exact ⟨t', List.mem_append_left _ ht', hd⟩
    · obtain ⟨u, hu, hd⟩ := h.drained c hclosed hleft
      rcases hin u hu with rfl | hu
      · exact absurd hd hnot
      · exact ⟨u, List.mem_append_left _ hu, hd⟩
  · intro u hu c stage hcur hstage
    rcases List.mem_append.mp hu with hu | hu
    · rcases List.mem_or_eq_of_mem_set hu with hu | rfl
      · exact hm.closed c (h.closed u hu c stage hcur hstage)
      · exact hm.current u (.inl rfl) c stage hcur hstage
    · exact hm.current u (.inr hu) c stage hcur hstage
  · rcases hm.log with hlog | ⟨e, hlog, he⟩
    · dsimp only
      rw [hlog]
      exact h.order
    · dsimp only
      rw [hlog]
      apply order_append h.order
      intro c r heq
      have hheld := he c r heq
      have hle := le_tally (f := Task.held c r) hmem
      have hbal := h.balance c r
      exact List.count_pos_iff.mp (by omega)

private theorem State.Inv.spawn (h : s.Inv) (hquiet : Quiet s.toShared sh' [])
    (hheld : ∀ c r, t.held c r = 0) (hahead : ∀ c r, t.ahead c r = 0)
    (hunstored : ∀ c, t.unstored c = 0) (hwriting : ∀ c, t.writing c = 0)
    (hcurrent : ∀ c stage, t.current = some (c, stage) → stage = .swap) :
    State.Inv { toShared := sh', tasks := s.tasks ++ [t] } := by
  have hsum : ∀ f : Task → ℕ, f t = 0 → tally f (s.tasks ++ [t]) = tally f s.tasks := by
    intro f hf
    rw [tally_append, tally_cons, tally_nil, hf]
    rfl
  have hlog : sh'.log = s.log := hquiet.log.trans (List.append_nil _)
  constructor
  · intro c r
    dsimp only
    rw [hsum _ (hheld c r), hlog, hquiet.rules]
    exact h.balance c r
  · intro c r
    dsimp only
    rw [hsum _ (hahead c r), hlog, hquiet.nextConnId]
    exact h.once c r
  · intro c
    dsimp only
    rw [hsum _ (hunstored c), Conn.stock, hquiet.rules, hquiet.nextConnId]
    exact h.stored c
  · intro c
    dsimp only
    rw [hsum _ (hwriting c), hquiet.locked]
    exact h.locked c
  · intro c hclosed hleft
    dsimp only at hclosed hleft
    rw [hquiet.closed] at hclosed
    rw [hquiet.rules, hquiet.locked] at hleft
    obtain ⟨u, hu, hd⟩ := h.drained c hclosed hleft
    exact ⟨u, List.mem_append_left _ hu, hd⟩
  · intro u hu c stage hcur hstage
    dsimp only
    rw [hquiet.closed]
    rcases List.mem_append.mp hu with hu | hu
    · exact h.closed u hu c stage hcur hstage
    · rw [List.mem_singleton.mp hu] at hcur
      exact absurd (hcurrent c stage hcur) hstage
  · dsimp only
    rw [hlog]
    exact h.order

private theorem count_both_le_one (setup : Setup) (r : InstalledRule) :
    ([.IPv4, .IPv6].map setup.installed).count r ≤ 1 := by
  refine List.nodup_iff_count_le_one.mp ?_ r
  rw [List.map_cons, List.map_cons, List.map_nil, List.nodup_cons, List.mem_singleton]
  refine ⟨?_, List.nodup_singleton _⟩
  intro heq
  have hproto := congrArg InstalledRule.proto heq
  cases hproto

private theorem State.Inv.start (h : s.Inv) (setup : Setup) :
    ({ s with nextConnId := s.nextConnId + 1 } |>.spawn (.dial s.nextConnId setup .push)).Inv := by
  have hsum : ∀ f : Task → ℕ, tally f (s.tasks ++ [.dial s.nextConnId setup .push]) =
      tally f s.tasks + f (.dial s.nextConnId setup .push) := by
    intro f
    rw [tally_append, tally_cons, tally_nil]
    rfl
  have hbound : ∀ (n m : ℕ) (c : ℕ), n ≤ (if c < s.nextConnId then 1 else 0) → m ≤ 1 →
      (c ≠ s.nextConnId → m = 0) → n + m ≤ if c < s.nextConnId + 1 then 1 else 0 := by
    intro n m c hn hm hne
    by_cases hc : c = s.nextConnId
    · rw [hc, if_neg (Nat.lt_irrefl _)] at hn
      rw [hc, if_pos (Nat.lt_succ_self _)]
      omega
    · rw [hne hc]
      split_ifs at hn ⊢ <;> omega
  constructor
  · intro c r
    change _ = _ + _ + tally _ (s.tasks ++ _)
    rw [hsum]
    exact h.balance c r
  · intro c r
    change s.log.count _ + s.log.count _ + tally _ (s.tasks ++ _) ≤ _
    rw [hsum, ← Nat.add_assoc]
    refine hbound _ _ c (h.once c r) ?_ fun hc => if_neg fun hand => hc hand.1.symm
    rw [Task.ahead]
    split_ifs
    · exact count_both_le_one setup r
    · exact Nat.zero_le 1
  · intro c
    change tally _ (s.tasks ++ _) + (s.conns c).stock ≤ _
    rw [hsum, Nat.add_right_comm]
    refine hbound _ _ c (h.stored c) ?_ fun hc => if_neg fun hand => hc hand.1.symm
    rw [Task.unstored]
    split_ifs
    · exact Nat.le_refl 1
    · exact Nat.zero_le 1
  · intro c
    change tally _ (s.tasks ++ _) = _
    rw [hsum]
    exact h.locked c
  · intro c hclosed hleft
    obtain ⟨u, hu, hd⟩ := h.drained c hclosed hleft
    exact ⟨u, List.mem_append_left _ hu, hd⟩
  · intro u hu c stage hcur hstage
    rcases List.mem_append.mp hu with hu | hu
    · exact h.closed u hu c stage hcur hstage
    · rw [List.mem_singleton.mp hu] at hcur
      cases hcur
  · exact h.order

private theorem State.Inv.spawnClose (h : s.Inv) (hquiet : Quiet s.toShared sh' []) (c : ℕ)
    (caller : Caller) :
    State.Inv { toShared := sh', tasks := s.tasks ++ [.close c caller .swap] } := by
  have hcloses := closes_close c caller .swap
  refine h.spawn hquiet ?_ hcloses.ahead hcloses.unstored hcloses.writing ?_
  · intro x r
    rw [hcloses.held]
    split_ifs <;> rfl
  · intro x stage hcur
    cases hcur
    rfl

theorem State.Inv.next (h : s.Inv) (a : Act) (hnext : s.next a = some s') : s'.Inv := by
  cases a with
  | start setup =>
    cases hnext
    exact h.start setup
  | step i answer =>
    obtain ⟨t, ht, hmap⟩ := Option.bind_eq_some_iff.mp hnext
    obtain ⟨⟨sh', t', more⟩, hstep, heq⟩ := Option.map_eq_some_iff.mp hmap
    cases heq
    have hmem := List.mem_of_getElem? ht
    exact h.moves ht (moves_of_step hstep (h.closed t hmem) (fun c => h.rules_eq_nil hmem)
      fun c => h.locked_of_writing hmem)
  | dropDial i =>
    simp only [State.next] at hnext
    split at hnext
    next c setup installer ht =>
      cases hnext
      have hmoves := h.moves ht (moves_of_cancel s.toShared c setup (.await installer))
      rwa [List.append_nil] at hmoves
    next => cases hnext
  | close c =>
    simp only [State.next] at hnext
    split_ifs at hnext
    cases hnext
    exact h.spawnClose (quiet_refl s.toShared) c .blocking
  | closeAsync c =>
    simp only [State.next] at hnext
    split_ifs at hnext
    cases hnext
    exact h.spawnClose (quiet_refl s.toShared) c (.async true)
  | dropAsync i =>
    simp only [State.next] at hnext
    split at hnext
    next c ht =>
      cases hnext
      have hclosed := h.closed _ (List.mem_of_getElem? ht) c .drain rfl
      have hmoves := h.moves ht (moves_of_caller s.toShared c _ (.async false) hclosed)
      rwa [List.append_nil] at hmoves
    next c rest ht =>
      cases hnext
      have hclosed := h.closed _ (List.mem_of_getElem? ht) c (.delete rest) rfl
      have hmoves := h.moves ht (moves_of_caller s.toShared c _ (.async false) hclosed)
      rwa [List.append_nil] at hmoves
    next => cases hnext
  | dropConn c =>
    simp only [State.next] at hnext
    split_ifs at hnext
    cases hnext
    refine h.spawnClose (quiet_setConn s.toShared c ?_ ?_ ?_) c .blocking <;> rfl
  | reset =>
    cases hnext
    refine h.spawn (quiet_refl s.toShared) (fun _ _ => rfl) (fun _ _ => rfl) (fun _ => rfl)
      (fun _ => rfl) ?_
    intro c stage hcur
    cases hcur

theorem inv_initial : State.Inv {} := by
  constructor
  · intro c r
    rfl
  · intro c r
    exact Nat.zero_le _
  · intro c
    exact Nat.zero_le _
  · intro c
    rfl
  · intro c hclosed
    exact absurd hclosed Bool.false_ne_true
  · intro t ht
    exact absurd ht List.not_mem_nil
  · intro k c r hk
    cases hk

theorem inv_run {acts : List Act} (hrun : exec State.next {} acts = some s) : s.Inv :=
  exec_invariant_all State.Inv (fun _ a _ h hnext => h.next a hnext) inv_initial hrun

end Runs

/-- Whether a task can still touch the rules of `c`; a reset may reach every connection. -/
def Task.about (c : ℕ) : Task → Bool
  | .dial c' _ _ => c' = c
  | .install c' _ _ => c' = c
  | .close c' _ _ => c' = c
  | .reset _ _ => true

def State.Settled (s : State) (c : ℕ) : Prop :=
  (s.conns c).closed ∧ ∀ t ∈ s.tasks, t.about c → t.finished

private theorem Task.idle_of_finished {c : ℕ} {t : Task} (h : t.about c → t.finished) :
    (∀ r, t.held c r = 0) ∧ ¬ t.Draining c := by
  have hstage : ∀ (c' : ℕ) (stage : CloseStage),
      (c' = c → stage = .delete []) → (∀ r, (if c' = c then stage.held r else 0) = 0) ∧
        ¬ (some (c', stage) = some (c, .unregister) ∨ some (c', stage) = some (c, .drain)) := by
    intro c' stage hdone
    constructor
    · intro r
      split_ifs with hc
      · rw [hdone hc]
        rfl
      · rfl
    · rintro (heq | heq)
      · cases heq
        cases hdone rfl
      · cases heq
        cases hdone rfl
  cases t with
  | dial c' setup stage => exact ⟨fun r => rfl, not_draining_dial c' setup stage c⟩
  | install c' setup stage =>
    refine ⟨?_, not_draining_install c⟩
    intro r
    rw [Task.held]
    split_ifs with hc
    · have hfin := h (decide_eq_true hc)
      cases stage with
      | delete rest =>
        cases rest with
        | nil => rfl
        | cons r rest => cases hfin
      | _ => cases hfin
    · rfl
  | close c' caller stage =>
    apply hstage c' stage
    intro hc
    have hfin := h (decide_eq_true hc)
    cases stage with
    | delete rest =>
      cases rest with
      | nil => rfl
      | cons r rest => cases hfin
    | _ => cases hfin
  | reset before stage =>
    have hfin := h rfl
    cases stage with
    | snapshot => cases hfin
    | visit todo stage =>
      cases todo with
      | nil =>
        refine ⟨fun r => rfl, ?_⟩
        rintro (heq | heq) <;> cases heq
      | cons c' todo => cases hfin

/-- In every interleaving, no rule is deleted before its append, none that was found there is
deleted, and once the connection is closed and every task has finished, each rule it appended has
been deleted exactly once. -/
theorem rule_balance (acts : List Act) (s : State) (hrun : exec State.next {} acts = some s) (c : ℕ) :
    (∀ k r, s.log[k]? = some (.deleted c r) → .appended c r ∈ s.log.take k) ∧
      (∀ r, .found c r ∈ s.log → .deleted c r ∉ s.log) ∧
      (s.Settled c → ∀ r,
        s.log.count (.deleted c r) = if .appended c r ∈ s.log then 1 else 0) := by
  have h := inv_run hrun
  have honce : ∀ r, s.log.count (.appended c r) + s.log.count (.found c r) ≤ 1 := by
    intro r
    have := h.once c r
    split_ifs at this <;> omega
  refine ⟨fun k => h.order k c, ?_, ?_⟩
  · intro r hfound hdeleted
    have hpos := List.count_pos_iff.mpr hfound
    have hpos' := List.count_pos_iff.mpr hdeleted
    have hbal := h.balance c r
    have := honce r
    omega
  · intro hsettled r
    have hheld : tally (Task.held c r) s.tasks = 0 := tally_eq_zero_iff.mpr fun t ht =>
      (Task.idle_of_finished (hsettled.2 t ht)).1 r
    have hrules : (s.conns c).rules = [] := by
      by_contra hne
      obtain ⟨t, ht, hd⟩ := h.drained c hsettled.1 (.inl hne)
      exact (Task.idle_of_finished (hsettled.2 t ht)).2 hd
    have hbal := h.balance c r
    rw [hheld, hrules, List.count_nil, Nat.add_zero] at hbal
    rw [← hbal]
    split_ifs with happ
    · have hpos := List.count_pos_iff.mpr happ
      have := honce r
      omega
    · exact List.count_eq_zero.mpr happ

def peer : Setup := .dial "10.0.0.2" "50000" "10.0.0.1" 29900

/-- A dial that is dropped while its installer runs: the first rule is appended, the second is
there already. -/
def droppedDial : List Act :=
  [.start peer, .step 0 none, .step 0 (some true), .step 0 none, .step 1 (some true),
  .step 1 (some false),
    .step 1 (some true), .dropDial 0, .step 0 none, .step 0 none, .step 0 none, .step 1 (some true),
    .step 1 (some true), .step 1 none, .step 1 none]

theorem rule_balance_dropped : ∃ s, exec State.next {} droppedDial = some s ∧
    s.log.count (.deleted 0 (peer.installed .IPv4)) = 1 ∧
    .deleted 0 (peer.installed .IPv6) ∉ s.log := by
  refine ⟨_, rfl, ?_, ?_⟩
  · refine ((rule_balance droppedDial _ rfl 0).2.2 ⟨rfl, ?_⟩ _).trans (if_pos ?_)
    · decide
    · exact List.mem_cons_self
  · exact (rule_balance droppedDial _ rfl 0).2.1 _ (List.mem_cons_of_mem _ List.mem_cons_self)

end Kcptun.Tcpraw
