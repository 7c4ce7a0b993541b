/- Kcptun/Smux/StreamDelivery
   source: crates/smux/src/session.rs (open_stream, recv_loop, send_loop),
     crates/smux/src/stream.rs (write_frame, push_bytes, read, read_chunk)
   digest: Two sessions over a connection: whatever their tasks do and in whatever pieces the bytes
     arrive, the reader of a stream gets what was written to it, from the first byte and in order. -/

import Kcptun.Smux.Multiplex

set_option autoImplicit false
set_option relaxedAutoImplicit false

namespace Kcptun.Smux.Multiplex

open Kcptun.Lib Kcptun.Lib.LittleEndian Kcptun.Smux.Frames Kcptun.Smux.RecvLoop Kcptun.Smux.Sending

def synIds (fs : List Frame) : List UInt32 := (fs.filter fun f => f.cmd = CMD_SYN).map Frame.sid

section Lists

variable {fs gs : List Frame} {f : Frame} {sid : UInt32}

private theorem synIds_append (fs gs : List Frame) :
    synIds (fs ++ gs) = synIds fs ++ synIds gs := by
  unfold synIds
  rw [List.filter_append, List.map_append]

private theorem synIds_cons_of (h : f.cmd = CMD_SYN) : synIds (f :: fs) = f.sid :: synIds fs := by
  unfold synIds
  rw [List.filter_cons_of_pos (by rw [decide_eq_true_iff]; exact h), List.map_cons]

private theorem synIds_cons_not (h : f.cmd ≠ CMD_SYN) : synIds (f :: fs) = synIds fs := by
  unfold synIds
  rw [List.filter_cons_of_neg (by rw [decide_eq_true_iff]; exact h)]

private theorem mem_synIds : sid ∈ synIds fs ↔ ∃ f ∈ fs, f.cmd = CMD_SYN ∧ f.sid = sid := by
  unfold synIds
  simp only [List.mem_map, List.mem_filter, decide_eq_true_iff, and_assoc]

private theorem pushedTo_append (fs gs : List Frame) :
    pushedTo sid (fs ++ gs) = pushedTo sid fs ++ pushedTo sid gs := by
  unfold pushedTo
  rw [List.filter_append, List.flatMap_append]

private theorem pushedTo_singleton_of (hcmd : f.cmd = CMD_PSH) (hsid : f.sid = sid) :
    pushedTo sid [f] = f.data := by
  unfold pushedTo
  rw [List.filter_cons_of_pos (by rw [decide_eq_true_iff]; exact ⟨hsid, hcmd⟩)]
  exact List.append_nil _

private theorem pushedTo_singleton_not (h : ¬(f.sid = sid ∧ f.cmd = CMD_PSH)) :
    pushedTo sid [f] = [] := by
  unfold pushedTo
  rw [List.filter_cons_of_neg (by rw [decide_eq_true_iff]; exact h)]
  rfl

private theorem pushedTo_mono (h : fs <+: gs) : pushedTo sid fs <+: pushedTo sid gs := by
  obtain ⟨rest, rfl⟩ := h
  rw [pushedTo_append]
  exact List.prefix_append _ _

private theorem pushedTo_ne_nil (h : pushedTo sid fs ≠ []) :
    ∃ f ∈ fs, f.sid = sid ∧ f.cmd = CMD_PSH := by
  by_contra hnone
  apply h
  unfold pushedTo
  rw [List.filter_eq_nil_iff.mpr, List.flatMap_nil]
  intro f hf hpsh
  exact hnone ⟨f, hf, of_decide_eq_true hpsh⟩

end Lists

/-! What becomes of the requests. -/

section Moves

variable {o o' : Outgoing} {op : Op} {req : Request}

private theorem open_cases (h : Outgoing.Moves o o' op) (hreq : req ∈ o'.open_) :
    req ∈ o.open_ ∨ ∃ frame class_, op = .number frame class_ ∧ req.body.frame = frame := by
  cases h with
  | numbered hnumber =>
    rename_i frame class_
    subst hnumber
    rcases List.mem_append.mp hreq with hreq | hreq
    · rcases List.mem_append.mp hreq with hreq | hreq
      · exact .inl (List.mem_append_left _ hreq)
      · rw [List.mem_singleton.mp hreq]
        exact .inr ⟨frame, class_, rfl, rfl⟩
    · exact .inl (List.mem_append_right _ hreq)
  | admitted hwaiting hqueued hpushed hpopped =>
    refine .inl ?_
    rcases List.mem_append.mp hreq with hreq | hreq
    · exact List.mem_append_left _ (hwaiting.mem_iff.mpr (List.mem_cons_of_mem _ hreq))
    · rcases List.mem_cons.mp (hqueued.mem_iff.mp hreq) with rfl | hreq
      · exact List.mem_append_left _ (hwaiting.mem_iff.mpr List.mem_cons_self)
      · exact List.mem_append_right _ hreq
  | abandoned hwaiting hshaper =>
    refine .inl ?_
    unfold Outgoing.open_ at hreq
    rw [hshaper] at hreq
    exact (hwaiting.append_right _).mem hreq
  | left hop hwaiting hqueued hpushed hpopped =>
    refine .inl ?_
    unfold Outgoing.open_ at hreq
    rw [hwaiting] at hreq
    rcases List.mem_append.mp hreq with hreq | hreq
    · exact List.mem_append_left _ hreq
    · exact List.mem_append_right _ (hqueued.mem_iff.mpr (List.mem_cons_of_mem _ hreq))

private theorem popped_cases (h : Outgoing.Moves o o' op) : o'.shaper.popped = o.shaper.popped ∨
    ∃ req ∈ o.open_, o'.shaper.popped = o.shaper.popped ++ [req] := by
  cases h with
  | numbered hnumber =>
    rw [hnumber]
    exact .inl rfl
  | admitted _ _ _ hpopped => exact .inl hpopped
  | abandoned _ hshaper =>
    rw [hshaper]
    exact .inl rfl
  | left hop hwaiting hqueued hpushed hpopped =>
    refine .inr ⟨_, ?_, hpopped⟩
    exact List.mem_append_right _ (hqueued.mem_iff.mpr List.mem_cons_self)

private theorem synIds_perm {xs ys : List Request} (h : xs.Perm ys) :
    (synIds (framesOf xs)).Perm (synIds (framesOf ys)) := ((h.map _).filter _).map _

private theorem synIds_number (frame : Frame) (class_ : ClassId) :
    (synIds (framesOf (o.number frame class_).all)).Perm (synIds (frame :: framesOf o.all)) := by
  generalize hreq : (⟨class_, frame.sid, o.requestId + 1, ⟨frame, o.numbered + 1⟩⟩ : Request) = req
  have hall : (o.number frame class_).all.Perm (req :: o.all) := by
    unfold Outgoing.all Outgoing.open_ Outgoing.number
    rw [hreq, List.append_assoc]
    exact (List.perm_middle.append_left _).trans List.perm_middle
  have hframe : req.body.frame = frame := by rw [← hreq]
  have hperm := synIds_perm hall
  rwa [show framesOf (req :: o.all) = req.body.frame :: framesOf o.all from rfl, hframe] at hperm

private theorem syns_cases (h : Outgoing.Moves o o' op) :
    (∃ frame class_, op = .number frame class_ ∧
      (synIds (framesOf o'.all)).Perm (synIds (frame :: framesOf o.all))) ∨
      ∃ ids, ids.Sublist (synIds (framesOf o.all)) ∧ (synIds (framesOf o'.all)).Perm ids := by
  rcases h.all_cases with ⟨frame, class_, rfl, -, hall⟩ | ⟨all, hsub, hall⟩
  · exact .inl ⟨frame, class_, rfl, synIds_perm hall⟩
  · exact .inr ⟨synIds (framesOf all), ((hsub.map _).filter _).map _, synIds_perm hall⟩

end Moves

/-! The streams that a session opens. -/

/-- A session opens streams under ids of its own, each with one frame, and data for a stream is not
queued before the frame that opened it was written or has arrived. -/
structure Session.Announces (client : Bool) (s : Session) : Prop where
  parity : s.nextStreamId.toNat % 2 = client.toNat
  own : ∀ (i : ℕ) (inner : StreamInner), s.inners[i]? = some inner → inner.phase.own = true →
    inner.id.toNat % 2 = client.toNat ∧ inner.id.toNat ≤ s.nextStreamId.toNat
  unique : ∀ (i j : ℕ) (a b : StreamInner), s.inners[i]? = some a → s.inners[j]? = some b →
    a.phase.own = true → b.phase.own = true → a.id = b.id → i = j
  syns : ∀ sid ∈ synIds (framesOf s.out.all), ∃ (i : ℕ) (inner : StreamInner),
    s.inners[i]? = some inner ∧ inner.phase.own = true ∧ inner.phase ≠ .allocated ∧ inner.id = sid
  once : (synIds (framesOf s.out.all)).Nodup
  opened : ∀ (i : ℕ) (inner : StreamInner), s.inners[i]? = some inner → inner.phase = .opened →
    inner.id ∈ synIds (framesOf s.out.shaper.popped)
  accepted : ∀ (i : ℕ) (inner : StreamInner), s.inners[i]? = some inner →
    inner.phase = .accepted → inner.id ∈ synIds s.inc.dispatched
  known : ∀ req ∈ s.out.open_, req.body.frame.cmd = CMD_PSH →
    req.body.frame.sid ∈ synIds (framesOf s.out.shaper.popped) ++ synIds s.inc.dispatched
  first : ∀ (pre : List Request) (req : Request) (post : List Request),
    s.out.shaper.popped = pre ++ req :: post → req.body.frame.cmd = CMD_PSH →
    req.body.frame.sid ∈ synIds (framesOf pre) ++ synIds s.inc.dispatched

section Announcing

variable {config : Config} {client : Bool} {s s' : Session} {op : Op}

private theorem Session.announces_new (client : Bool) (size : ℕ) :
    (Session.new client size).Announces client where
  parity := by cases client <;> rfl
  own := fun i inner h => by cases h
  unique := fun i j a b h => by cases h
  syns := fun sid h => by cases h
  once := List.nodup_nil
  opened := fun i inner h => by cases h
  accepted := fun i inner h => by cases h
  known := fun req h => by cases h
  first := fun pre req post h => by cases pre <;> cases h

/-- Under which id a stream was opened, and by which side. -/
def StreamInner.opening (inner : StreamInner) : UInt32 × Phase := (inner.id, inner.phase)

private theorem map_back {β : Type} {g : StreamInner → β}
    (hkeys : ∀ j : ℕ, s'.inners[j]?.map g = s.inners[j]?.map g)
    {j : ℕ} {inner : StreamInner} (h : s'.inners[j]? = some inner) :
    ∃ old, s.inners[j]? = some old ∧ g old = g inner := by
  have hj := hkeys j
  rw [h, Option.map_some] at hj
  exact Option.map_eq_some_iff.mp hj.symm

private theorem Session.Same.openings (h : s.Same s') (j : ℕ) :
    s'.inners[j]?.map StreamInner.opening = s.inners[j]?.map StreamInner.opening := by
  have hkeys := congrArg (Option.map fun key : Key => (key.id, key.phase)) (h.keys j)
  rwa [Option.map_map, Option.map_map] at hkeys

private theorem Session.Announces.of (h : s.Announces client)
    (hnext : s'.nextStreamId = s.nextStreamId)
    (hkeys : ∀ j : ℕ, s'.inners[j]?.map StreamInner.opening =
      s.inners[j]?.map StreamInner.opening)
    (hsyns : synIds (framesOf s'.out.all) ⊆ synIds (framesOf s.out.all))
    (honce : (synIds (framesOf s'.out.all)).Nodup)
    (hpopped : synIds (framesOf s.out.shaper.popped) ⊆ synIds (framesOf s'.out.shaper.popped))
    (hmore : synIds s.inc.dispatched ⊆ synIds s'.inc.dispatched)
    (hknown : ∀ req ∈ s'.out.open_, req.body.frame.cmd = CMD_PSH →
      req.body.frame.sid ∈ synIds (framesOf s'.out.shaper.popped) ++ synIds s'.inc.dispatched)
    (hfirst : ∀ (pre : List Request) (req : Request) (post : List Request),
      s'.out.shaper.popped = pre ++ req :: post → req.body.frame.cmd = CMD_PSH →
      req.body.frame.sid ∈ synIds (framesOf pre) ++ synIds s'.inc.dispatched) :
    s'.Announces client := by
  have hback : ∀ {j : ℕ} {inner : StreamInner}, s'.inners[j]? = some inner →
      ∃ old, s.inners[j]? = some old ∧ old.id = inner.id ∧ old.phase = inner.phase := by
    intro j inner hinner
    obtain ⟨old, hold, hkey⟩ := map_back hkeys hinner
    exact ⟨old, hold, congrArg Prod.fst hkey, congrArg Prod.snd hkey⟩
  constructor
  · rw [hnext]
    exact h.parity
  · intro j inner hinner hown
    obtain ⟨old, hold, hid, hphase⟩ := hback hinner
    rw [hnext, ← hid]
    exact h.own j old hold (hphase ▸ hown)
  · intro i j a b ha hb howna hownb hsame
    obtain ⟨olda, holda, hida, hphasea⟩ := hback ha
    obtain ⟨oldb, holdb, hidb, hphaseb⟩ := hback hb
    exact h.unique i j olda oldb holda holdb (hphasea ▸ howna) (hphaseb ▸ hownb)
      (hida.trans (hsame.trans hidb.symm))
  · intro sid hsid
    obtain ⟨i, old, hold, hown, hphase, hid⟩ := h.syns sid (hsyns hsid)
    obtain ⟨inner, hinner, hkey⟩ := map_back (fun j => (hkeys j).symm) hold
    have hkeyid : inner.id = old.id := congrArg Prod.fst hkey
    have hkeyphase : inner.phase = old.phase := congrArg Prod.snd hkey
    exact ⟨i, inner, hinner, hkeyphase ▸ hown, hkeyphase ▸ hphase, hkeyid.trans hid⟩
  · exact honce
  · intro j inner hinner hphase
    obtain ⟨old, hold, hid, hphase'⟩ := hback hinner
    rw [← hid]
    exact hpopped (h.opened j old hold (hphase'.trans hphase))
  · intro j inner hinner hphase
    obtain ⟨old, hold, hid, hphase'⟩ := hback hinner
    rw [← hid]
    exact hmore (h.accepted j old hold (hphase'.trans hphase))
  · exact hknown
  · exact hfirst

private theorem Session.Announces.keep (h : s.Announces client)
    (hnext : s'.nextStreamId = s.nextStreamId)
    (hkeys : ∀ j : ℕ, s'.inners[j]?.map StreamInner.opening =
      s.inners[j]?.map StreamInner.opening)
    (hout : s'.out = s.out) (hmore : synIds s.inc.dispatched ⊆ synIds s'.inc.dispatched) :
    s'.Announces client := by
  have hwiden : ∀ {xs : List UInt32} {sid : UInt32}, sid ∈ xs ++ synIds s.inc.dispatched →
      sid ∈ xs ++ synIds s'.inc.dispatched := fun h =>
    (List.mem_append.mp h).elim (List.mem_append_left _) fun h => List.mem_append_right _ (hmore h)
  refine h.of hnext hkeys ?_ ?_ ?_ hmore ?_ ?_
  · rw [hout]
    exact List.Subset.refl _
  · rw [hout]
    exact h.once
  · rw [hout]
    exact List.Subset.refl _
  · rw [hout]
    intro req hreq hcmd
    exact hwiden (h.known req hreq hcmd)
  · rw [hout]
    intro pre req post hsplit hcmd
    exact hwiden (h.first pre req post hsplit hcmd)

private theorem split_concat {α : Type} {xs pre post : List α} {x y : α}
    (h : xs ++ [x] = pre ++ y :: post) :
    (∃ post', xs = pre ++ y :: post') ∨ xs = pre ∧ x = y := by
  rcases List.eq_nil_or_concat post with rfl | ⟨post', z, rfl⟩
  · have hpair := List.append_inj' h rfl
    exact .inr ⟨hpair.1, (List.cons.inj hpair.2).1⟩
  · rw [List.concat_eq_append, ← List.cons_append, ← List.append_assoc] at h
    exact .inl ⟨post', (List.append_inj' h rfl).1⟩

private theorem Session.Announces.moves (h : s.Announces client) (hsame : s.Same s')
    (hmoves : Outgoing.Moves s.out s'.out op)
    (hop : ∀ frame class_, op = .number frame class_ → frame.cmd ≠ CMD_SYN ∧ (frame.cmd = CMD_PSH →
      ∃ inner ∈ s.inners, inner.phase.usable = true ∧ inner.id = frame.sid)) :
    s'.Announces client := by
  have hids : ∃ ids, ids.Sublist (synIds (framesOf s.out.all)) ∧
      (synIds (framesOf s'.out.all)).Perm ids := by
    rcases syns_cases hmoves with ⟨frame, class_, hnumber, hperm⟩ | hids
    · rw [synIds_cons_not (hop frame class_ hnumber).1] at hperm
      exact ⟨_, .refl _, hperm⟩
    · exact hids
  obtain ⟨ids, hsub, hperm⟩ := hids
  have hgrown : synIds (framesOf s.out.shaper.popped) ⊆ synIds (framesOf s'.out.shaper.popped) := by
    rcases popped_cases hmoves with hpopped | ⟨req, -, hpopped⟩
    · rw [hpopped]
      exact List.Subset.refl _
    · rw [hpopped, framesOf_append, synIds_append]
      exact List.subset_append_left _ _
  have hwiden : ∀ {sid : UInt32},
      sid ∈ synIds (framesOf s.out.shaper.popped) ++ synIds s.inc.dispatched →
      sid ∈ synIds (framesOf s'.out.shaper.popped) ++ synIds s.inc.dispatched := fun h =>
    (List.mem_append.mp h).elim (fun h => List.mem_append_left _ (hgrown h)) (List.mem_append_right _)
  refine h.of hsame.next hsame.openings (fun sid hsid => hsub.mem (hperm.mem_iff.mp hsid))
    (hperm.nodup_iff.mpr (h.once.sublist hsub)) hgrown ?_ ?_ ?_
  · rw [hsame.inc]
    exact List.Subset.refl _
  · rw [hsame.inc]
    intro req hreq hcmd
    rcases open_cases hmoves hreq with hreq | ⟨frame, class_, hnumber, hframe⟩
    · exact hwiden (h.known req hreq hcmd)
    · rw [hframe] at hcmd ⊢
      obtain ⟨inner, hinner, husable, hid⟩ := (hop frame class_ hnumber).2 hcmd
      obtain ⟨i, hi⟩ := List.getElem?_of_mem hinner
      rw [← hid]
      cases hphase : inner.phase with
      | opened => exact hwiden (List.mem_append_left _ (h.opened i inner hi hphase))
      | accepted => exact List.mem_append_right _ (h.accepted i inner hi hphase)
      | allocated | requested | failed =>
        rw [hphase] at husable
        cases husable
  · rw [hsame.inc]
    intro pre req post hsplit hcmd
    rcases popped_cases hmoves with hpopped | ⟨last, hlast, hpopped⟩
    · exact h.first pre req post (hpopped.symm.trans hsplit) hcmd
    · rcases split_concat (hpopped.symm.trans hsplit) with ⟨post', hsplit⟩ | ⟨hpre, rfl⟩
      · exact h.first pre req post' hsplit hcmd
      · rw [← hpre]
        exact h.known last hlast hcmd

private theorem Session.Announces.phase (h : s.Announces client) {i : ℕ} {inner : StreamInner}
    (hinner : s.inners[i]? = some inner) (hown : inner.phase.own = true)
    {f : StreamInner → StreamInner} (hid : (f inner).id = inner.id)
    (hphase : (f inner).phase.own = true ∧ (f inner).phase ≠ .allocated)
    (hopened : (f inner).phase = .opened → inner.id ∈ synIds (framesOf s.out.shaper.popped)) :
    (s.modify i f).Announces client := by
  have hcases : ∀ {j : ℕ} {a : StreamInner}, (s.modify i f).inners[j]? = some a →
      (j = i ∧ a = f inner) ∨ (j ≠ i ∧ s.inners[j]? = some a) := by
    intro j a ha
    rw [Session.getElem?_modify] at ha
    obtain ⟨old, hold, rfl⟩ := Option.map_eq_some_iff.mp ha
    split_ifs with hij
    · subst hij
      obtain rfl := Option.some.inj (hinner.symm.trans hold)
      exact .inl ⟨rfl, rfl⟩
    · exact .inr ⟨Ne.symm hij, hold⟩
  -- the stream at each place is of this side exactly when the one before was, under the same id
  have hback : ∀ {j : ℕ} {a : StreamInner}, (s.modify i f).inners[j]? = some a →
      a.phase.own = true → ∃ old, s.inners[j]? = some old ∧ old.phase.own = true ∧ old.id = a.id := by
    intro j a ha howna
    rcases hcases ha with ⟨rfl, rfl⟩ | ⟨-, hold⟩
    · exact ⟨inner, hinner, hown, hid.symm⟩
    · exact ⟨a, hold, howna, rfl⟩
  constructor
  · exact h.parity
  · intro j a ha howna
    obtain ⟨old, hold, hownold, hidold⟩ := hback ha howna
    rw [← hidold]
    exact h.own j old hold hownold
  · intro j k a b ha hb howna hownb hsame
    obtain ⟨olda, hola, hownolda, hida⟩ := hback ha howna
    obtain ⟨oldb, holb, hownoldb, hidb⟩ := hback hb hownb
    exact h.unique j k olda oldb hola holb hownolda hownoldb (hida.trans (hsame.trans hidb.symm))
  · intro sid hsid
    obtain ⟨j, a, ha, howna, hphasea, hida⟩ := h.syns sid hsid
    by_cases hij : i = j
    · subst hij
      obtain rfl := Option.some.inj (hinner.symm.trans ha)
      refine ⟨i, f inner, ?_, hphase.1, hphase.2, hid.trans hida⟩
      rw [Session.getElem?_modify, hinner, Option.map_some, if_pos rfl]
    · refine ⟨j, a, ?_, howna, hphasea, hida⟩
      rw [Session.getElem?_modify, ha, Option.map_some, if_neg hij]
  · exact h.once
  · intro j a ha hphasea
    rcases hcases ha with ⟨rfl, rfl⟩ | ⟨-, hold⟩
    · rw [hid]
      exact hopened hphasea
    · exact h.opened j a hold hphasea
  · intro j a ha hphasea
    rcases hcases ha with ⟨rfl, rfl⟩ | ⟨-, hold⟩
    · rw [hphasea] at hphase
      cases hphase.1
    · exact h.accepted j a hold hphasea
  · exact h.known
  · exact h.first

private theorem Session.Announces.syn (h : s.Announces client) {i : ℕ} {inner : StreamInner}
    (hinner : s.inners[i]? = some inner) (hown : inner.phase.own = true)
    (hphase : inner.phase ≠ .allocated) (hfresh : inner.id ∉ synIds (framesOf s.out.all))
    {frame : Frame} {class_ : ClassId} (hcmd : frame.cmd = CMD_SYN) (hsid : frame.sid = inner.id) :
    (s.number frame class_).Announces client := by
  have hmoves : Outgoing.Moves s.out (s.out.number frame class_) (.number frame class_) :=
    .numbered rfl
  have hperm : (synIds (framesOf (s.out.number frame class_).all)).Perm
      (inner.id :: synIds (framesOf s.out.all)) := by
    rw [← hsid, ← synIds_cons_of hcmd]
    exact synIds_number frame class_
  constructor
  · exact h.parity
  · exact h.own
  · exact h.unique
  · intro sid hmem
    rcases List.mem_cons.mp (hperm.mem_iff.mp hmem) with rfl | hmem
    · exact ⟨i, inner, hinner, hown, hphase, rfl⟩
    · exact h.syns sid hmem
  · exact hperm.nodup_iff.mpr (List.nodup_cons.mpr ⟨hfresh, h.once⟩)
  · exact h.opened
  · exact h.accepted
  · intro req hreq hpsh
    rcases open_cases hmoves hreq with hreq | ⟨frame', class', hnumber, hframe⟩
    · exact h.known req hreq hpsh
    · cases hnumber
      rw [hframe, hcmd] at hpsh
      cases hpsh
  · exact h.first

private theorem Session.Announces.allocated (h : s.Announces client)
    (hwrap : ¬s.nextStreamId + 2 < s.nextStreamId) :
    ({ s with
      nextStreamId := s.nextStreamId + 2
      inners := s.inners ++ [{ id := s.nextStreamId + 2, phase := .allocated }] } :
      Session).Announces client := by
  have hnext : (s.nextStreamId + 2).toNat = s.nextStreamId.toNat + 2 := by
    rw [UInt32.lt_iff_toNat_lt, UInt32.toNat_add] at hwrap
    rw [UInt32.toNat_add]
    have hbound := s.nextStreamId.toNat_lt
    have htwo : (2 : UInt32).toNat = 2 := rfl
    rw [htwo] at hwrap ⊢
    omega
  generalize hnew : ({ id := s.nextStreamId + 2, phase := .allocated } : StreamInner) = new
  have hid : new.id.toNat = s.nextStreamId.toNat + 2 := by
    rw [← hnew]
    exact hnext
  have hphase : new.phase = .allocated := by rw [← hnew]
  have hcases : ∀ {j : ℕ} {a : StreamInner}, (s.inners ++ [new])[j]? = some a →
      s.inners[j]? = some a ∨ (j = s.inners.length ∧ a = new) := by
    intro j a ha
    rw [List.getElem?_append] at ha
    split_ifs at ha with hj
    · exact .inl ha
    · rw [List.getElem?_singleton] at ha
      split_ifs at ha with hzero
      exact .inr ⟨by omega, (Option.some.inj ha).symm⟩
  constructor
  · dsimp only
    rw [hnext, Nat.add_mod_right]
    exact h.parity
  · intro j a ha howna
    dsimp only
    rw [hnext]
    rcases hcases ha with hold | ⟨-, rfl⟩
    · obtain ⟨hparity, hle⟩ := h.own j a hold howna
      exact ⟨hparity, hle.trans (Nat.le_add_right _ _)⟩
    · rw [hid, Nat.add_mod_right]
      exact ⟨h.parity, Nat.le_refl _⟩
  · intro j k a b ha hb howna hownb hsame
    rcases hcases ha with holda | ⟨rfl, rfl⟩ <;> rcases hcases hb with holdb | ⟨rfl, rfl⟩
    · exact h.unique j k a b holda holdb howna hownb hsame
    · have hle := (h.own j a holda howna).2
      rw [hsame, hid] at hle
      omega
    · have hle := (h.own k b holdb hownb).2
      rw [← hsame, hid] at hle
      omega
    · rfl
  · intro sid hsid
    obtain ⟨j, a, ha, hrest⟩ := h.syns sid hsid
    refine ⟨j, a, ?_, hrest⟩
    exact (List.getElem?_append_left (List.getElem?_eq_some_iff.mp ha).1).trans ha
  · exact h.once
  · intro j a ha hopened
    rcases hcases ha with hold | ⟨-, rfl⟩
    · exact h.opened j a hold hopened
    · rw [hphase] at hopened
      cases hopened
  · intro j a ha haccepted
    rcases hcases ha with hold | ⟨-, rfl⟩
    · exact h.accepted j a hold haccepted
    · rw [hphase] at haccepted
      cases haccepted
  · exact h.known
  · exact h.first

private theorem Session.Announces.accept (h : s.Announces client) {new : StreamInner} {f : Frame}
    (hcmd : f.cmd = CMD_SYN) (hid : new.id = f.sid) (hphase : new.phase = .accepted)
    {streams : List (UInt32 × ℕ)} {rx : Receiver Unit} :
    ({ s with
      inners := s.inners ++ [new]
      streams := streams
      inc := { s.inc with rx, dispatched := s.inc.dispatched ++ [f] } } :
        Session).Announces client := by
  have hcases : ∀ {j : ℕ} {a : StreamInner}, (s.inners ++ [new])[j]? = some a →
      s.inners[j]? = some a ∨ a = new := by
    intro j a ha
    rcases List.mem_append.mp (List.mem_of_getElem? ha) with hmem | hmem
    · rw [List.getElem?_append] at ha
      split_ifs at ha with hj
      · exact .inl ha
      · rw [List.getElem?_singleton] at ha
        split_ifs at ha
        exact .inr (Option.some.inj ha).symm
    · exact .inr (List.mem_singleton.mp hmem)
  have hmore : synIds (s.inc.dispatched ++ [f]) = synIds s.inc.dispatched ++ [new.id] := by
    rw [synIds_append, synIds_cons_of hcmd, hid]
    rfl
  have hwiden : ∀ {xs : List UInt32} {sid : UInt32}, sid ∈ xs ++ synIds s.inc.dispatched →
      sid ∈ xs ++ synIds (s.inc.dispatched ++ [f]) := by
    intro xs sid hsid
    rw [hmore, ← List.append_assoc]
    exact List.mem_append_left _ hsid
  have hnotown : ¬new.phase.own = true := by
    rw [hphase]
    exact Bool.false_ne_true
  constructor
  · exact h.parity
  · intro j a ha howna
    rcases hcases ha with hold | rfl
    · exact h.own j a hold howna
    · exact absurd howna hnotown
  · intro j k a b ha hb howna hownb hsame
    rcases hcases ha with holda | rfl
    · rcases hcases hb with holdb | rfl
      · exact h.unique j k a b holda holdb howna hownb hsame
      · exact absurd hownb hnotown
    · exact absurd howna hnotown
  · intro sid hsid
    obtain ⟨j, a, ha, hrest⟩ := h.syns sid hsid
    refine ⟨j, a, ?_, hrest⟩
    exact (List.getElem?_append_left (List.getElem?_eq_some_iff.mp ha).1).trans ha
  · exact h.once
  · intro j a ha hopened
    rcases hcases ha with hold | rfl
    · exact h.opened j a hold hopened
    · rw [hphase] at hopened
      cases hopened
  · intro j a ha haccepted
    dsimp only
    rw [hmore]
    rcases hcases ha with hold | rfl
    · exact List.mem_append_left _ (h.accepted j a hold haccepted)
    · exact List.mem_append_right _ List.mem_cons_self
  · intro req hreq hpsh
    exact hwiden (h.known req hreq hpsh)
  · intro pre req post hsplit hpsh
    exact hwiden (h.first pre req post hsplit hpsh)

end Announcing

/-! What arrives. -/

/-- The frames that were taken are the front of what has arrived, and all of it while the loop
runs. -/
structure Incoming.Ok (version : UInt8) (size : ℕ) (inc : Incoming) : Prop where
  rx : inc.rx.Ok size
  valid : ∀ f ∈ inc.dispatched, f.Valid version
  framed : inc.dispatched.flatMap Frame.encode <+: inc.arrived
  whole : inc.recvDone = false → ∃ rest, inc.rx.ahead = elems rest ∧
    inc.arrived = inc.dispatched.flatMap Frame.encode ++ rest

section Arriving

variable {version : UInt8} {size : ℕ} {inc : Incoming} {xs ys : Bytes} {rx : Receiver Unit} {f : Frame}

private theorem incoming_ok_new (version : UInt8) (size : ℕ) :
    ({ rx := .new size [] } : Incoming).Ok version size where
  rx := Receiver.ok_new []
  valid := fun f hf => by cases hf
  framed := List.nil_prefix
  whole := fun _ => ⟨[], Receiver.ahead_new [], rfl⟩

private theorem elems_eq_append {items : List (Item UInt8 Unit)}
    (h : elems xs = elems ys ++ items) : ∃ zs, xs = ys ++ zs ∧ items = elems zs := by
  obtain ⟨front, zs, rfl, hfront, hzs⟩ := List.map_eq_append_iff.mp h
  have hinj : Function.Injective (Item.elem : UInt8 → Item UInt8 Unit) := by
    intro a b hab
    cases hab
    rfl
  obtain rfl := List.map_injective_iff.mpr hinj hfront
  exact ⟨zs, rfl, hzs.symm⟩

private theorem Incoming.Ok.arrive (h : inc.Ok version size) (hxs : xs ≠ []) :
    ({ inc with
      rx := { inc.rx with conn := inc.rx.conn ++ [.data xs] }
      arrived := inc.arrived ++ xs } : Incoming).Ok version size where
  rx := ⟨h.rx.reader, h.rx.hdr, h.rx.upd⟩
  valid := h.valid
  framed := h.framed.trans (List.prefix_append _ _)
  whole := by
    intro hdone
    obtain ⟨rest, hahead, harrived⟩ := h.whole hdone
    refine ⟨rest ++ xs, ?_, by rw [harrived, List.append_assoc]⟩
    rw [elems_append, ← hahead]
    unfold Receiver.ahead stream
    rw [List.flatMap_append, ← List.append_assoc, List.flatMap_singleton, items_data hxs]

private theorem Incoming.Ok.take (h : inc.Ok version size) (hsize : size ≠ 0)
    (hdone : inc.recvDone = false) (hturn : inc.rx.turn version = some (.ok f, rx)) :
    ({ inc with rx, dispatched := inc.dispatched ++ [f] } : Incoming).Ok version size := by
  obtain ⟨rest, hahead, harrived⟩ := h.whole hdone
  obtain ⟨rx', hturn', hok, hahead'⟩ := h.rx.turn hsize version
  obtain ⟨hf, rfl⟩ := Prod.mk.inj (Option.some.inj (hturn.symm.trans hturn'))
  have hdecoded := decoded version inc.rx.ahead
  generalize decode version inc.rx.ahead = d at hdecoded hf hahead'
  cases hdecoded with
  | stops hstops => cases hf
  | frame hvalid hitems =>
    cases hf
    obtain ⟨zs, rfl, hrest⟩ := elems_eq_append (hahead.symm.trans hitems)
    have hflat : (inc.dispatched ++ [f]).flatMap Frame.encode =
        inc.dispatched.flatMap Frame.encode ++ f.encode := by
      rw [List.flatMap_append, List.flatMap_singleton]
    have hall : inc.arrived = (inc.dispatched ++ [f]).flatMap Frame.encode ++ zs := by
      rw [harrived, hflat, List.append_assoc]
    refine ⟨hok, ?_, ⟨zs, hall.symm⟩, fun _ => ⟨zs, hahead'.trans hrest, hall⟩⟩
    intro g hg
    rcases List.mem_append.mp hg with hg | hg
    · exact h.valid g hg
    · rw [List.mem_singleton.mp hg]
      exact hvalid

private theorem Incoming.Ok.stop (h : inc.Ok version size) (hrx : rx.Ok size) :
    ({ inc with rx, recvDone := true } : Incoming).Ok version size :=
  ⟨hrx, h.valid, h.framed, fun hdone => (nomatch hdone)⟩

end Arriving

/-! What the streams have received. -/

/-- A stream has received what was pushed to it while it was in the session map, and nothing was
pushed to it before unless this side opened it. -/
structure Session.Tracks (s : Session) (dispatched : List Frame) : Prop where
  map : ∀ sid i, s.streams.lookup sid = some i → ∃ inner, s.inners[i]? = some inner ∧
    inner.id = sid ∧ inner.phase.usable = true
  fresh : ∀ (i : ℕ) (inner : StreamInner), s.inners[i]? = some inner →
    inner.phase.usable = false → inner.early = [] ∧ inner.received = []
  block : ∀ (i : ℕ) (inner : StreamInner), s.inners[i]? = some inner → inner.phase.usable = true →
    ∃ late, pushedTo inner.id dispatched = inner.early ++ inner.received ++ late ∧
      (s.streams.lookup inner.id = some i → late = [])
  accepted : ∀ (i : ℕ) (inner : StreamInner), s.inners[i]? = some inner → inner.phase = .accepted →
    ∃ pre f post, dispatched = pre ++ f :: post ∧ f.cmd = CMD_SYN ∧ f.sid = inner.id ∧
      inner.early = pushedTo inner.id pre

section Tracking

variable {s s' : Session} {ds : List Frame} {f : Frame}

private theorem Session.tracks_new (client : Bool) (size : ℕ) :
    (Session.new client size).Tracks [] where
  map := fun sid i h => by cases h
  fresh := fun i inner h => by cases h
  block := fun i inner h => by cases h
  accepted := fun i inner h => by cases h

private theorem Session.Tracks.idle (h : s.Tracks ds) {more : List Frame}
    (hidle : ∀ sid, pushedTo sid more = [])
    (hkeys : ∀ j : ℕ, s'.inners[j]?.map StreamInner.key = s.inners[j]?.map StreamInner.key)
    (hstreams : ∀ sid i, s'.streams.lookup sid = some i → s.streams.lookup sid = some i) :
    s'.Tracks (ds ++ more) := by
  have hpushed : ∀ sid, pushedTo sid (ds ++ more) = pushedTo sid ds := by
    intro sid
    rw [pushedTo_append, hidle, List.append_nil]
  have hback : ∀ {j : ℕ} {inner : StreamInner}, s'.inners[j]? = some inner → ∃ old,
      s.inners[j]? = some old ∧ old.id = inner.id ∧ old.phase = inner.phase ∧
        old.early = inner.early ∧ old.received = inner.received := by
    intro j inner hinner
    obtain ⟨old, hold, hkey⟩ := map_back hkeys hinner
    exact ⟨old, hold, congrArg Key.id hkey, congrArg Key.phase hkey, congrArg Key.early hkey,
      congrArg Key.received hkey⟩
  constructor
  · intro sid i hl
    obtain ⟨old, hold, hid, husable⟩ := h.map sid i (hstreams sid i hl)
    obtain ⟨inner, hinner, hkey⟩ := map_back (fun j => (hkeys j).symm) hold
    have hkeyid : inner.id = old.id := congrArg Key.id hkey
    have hkeyphase : inner.phase = old.phase := congrArg Key.phase hkey
    exact ⟨inner, hinner, hkeyid.trans hid, hkeyphase ▸ husable⟩
  · intro j inner hinner husable
    obtain ⟨old, hold, -, hphase, hearly, hreceived⟩ := hback hinner
    rw [← hearly, ← hreceived]
    exact h.fresh j old hold (hphase ▸ husable)
  · intro j inner hinner husable
    obtain ⟨old, hold, hid, hphase, hearly, hreceived⟩ := hback hinner
    obtain ⟨late, hlate, hin⟩ := h.block j old hold (hphase ▸ husable)
    rw [hid, hearly, hreceived] at hlate
    refine ⟨late, by rw [hpushed]; exact hlate, fun hl => hin ?_⟩
    rw [hid]
    exact hstreams _ _ hl
  · intro j inner hinner hphase
    obtain ⟨old, hold, hid, hphase', hearly, -⟩ := hback hinner
    obtain ⟨pre, g, post, hsplit, hg⟩ := h.accepted j old hold (hphase'.trans hphase)
    rw [hid, hearly] at hg
    exact ⟨pre, g, post ++ more, by rw [hsplit, List.append_assoc]; rfl, hg⟩

private theorem pushedTo_nil (sid : UInt32) : pushedTo sid [] = [] := rfl

private theorem Session.Tracks.same (h : s.Tracks ds)
    (hkeys : ∀ j : ℕ, s'.inners[j]?.map StreamInner.key = s.inners[j]?.map StreamInner.key)
    (hstreams : ∀ sid i, s'.streams.lookup sid = some i → s.streams.lookup sid = some i) :
    s'.Tracks ds := by
  have hmore : s'.Tracks (ds ++ []) := h.idle pushedTo_nil hkeys hstreams
  rwa [List.append_nil] at hmore

private theorem getElem?_concat_cases {α : Type} {xs : List α} {x y : α} {j : ℕ}
    (h : (xs ++ [x])[j]? = some y) : xs[j]? = some y ∨ (j = xs.length ∧ y = x) := by
  rw [List.getElem?_append] at h
  split_ifs at h with hj
  · exact .inl h
  · rw [List.getElem?_singleton] at h
    split_ifs at h with hzero
    exact .inr ⟨by omega, (Option.some.inj h).symm⟩

private theorem getElem?_concat_of {α : Type} {xs : List α} {x y : α} {j : ℕ}
    (h : xs[j]? = some y) : (xs ++ [x])[j]? = some y :=
  (List.getElem?_append_left (List.getElem?_eq_some_iff.mp h).1).trans h

private theorem Session.Tracks.allocated (h : s.Tracks ds) {new : StreamInner}
    (husable : new.phase.usable = false) (hnew : new.early = [] ∧ new.received = []) (next : UInt32) :
    ({ s with nextStreamId := next, inners := s.inners ++ [new] } : Session).Tracks ds := by
  constructor
  · intro sid i hl
    obtain ⟨inner, hinner, hrest⟩ := h.map sid i hl
    exact ⟨inner, getElem?_concat_of hinner, hrest⟩
  · intro j inner hinner hnot
    rcases getElem?_concat_cases hinner with hold | ⟨-, rfl⟩
    · exact h.fresh j inner hold hnot
    · exact hnew
  · intro j inner hinner hu
    rcases getElem?_concat_cases hinner with hold | ⟨-, rfl⟩
    · exact h.block j inner hold hu
    · rw [husable] at hu
      cases hu
  · intro j inner hinner hphase
    rcases getElem?_concat_cases hinner with hold | ⟨-, rfl⟩
    · exact h.accepted j inner hold hphase
    · rw [hphase] at husable
      cases husable

private theorem Session.Tracks.accept (h : s.Tracks ds) (hcmd : f.cmd = CMD_SYN) {new : StreamInner}
    (hid : new.id = f.sid) (hphase : new.phase = .accepted) (hearly : new.early = pushedTo f.sid ds)
    (hreceived : new.received = []) :
    ({ s with
      inners := s.inners ++ [new]
      streams := (f.sid, s.inners.length) :: s.streams } : Session).Tracks (ds ++ [f]) := by
  have hpushed : ∀ sid, pushedTo sid (ds ++ [f]) = pushedTo sid ds := by
    intro sid
    have hnot : ¬(f.sid = sid ∧ f.cmd = CMD_PSH) := by
      rw [hcmd]
      intro h
      exact absurd h.2 (by decide)
    rw [pushedTo_append, pushedTo_singleton_not hnot, List.append_nil]
  have husable : new.phase.usable = true := by rw [hphase]; rfl
  have hlast : (s.inners ++ [new])[s.inners.length]? = some new := List.getElem?_concat_length
  constructor
  · intro sid i hl
    rw [List.lookup_cons] at hl
    split at hl
    · rename_i heq
      cases hl
      exact ⟨new, hlast, hid.trans (beq_iff_eq.mp heq).symm, husable⟩
    · obtain ⟨inner, hinner, hrest⟩ := h.map sid i hl
      exact ⟨inner, getElem?_concat_of hinner, hrest⟩
  · intro j inner hinner hnot
    rcases getElem?_concat_cases hinner with hold | ⟨-, rfl⟩
    · exact h.fresh j inner hold hnot
    · rw [husable] at hnot
      cases hnot
  · intro j inner hinner hu
    rw [hpushed]
    rcases getElem?_concat_cases hinner with hold | ⟨-, rfl⟩
    · obtain ⟨late, hlate, hin⟩ := h.block j inner hold hu
      refine ⟨late, hlate, fun hl => hin ?_⟩
      rw [List.lookup_cons] at hl
      split at hl
      · cases hl
        have hj := (List.getElem?_eq_some_iff.mp hold).1
        exact absurd hj (Nat.lt_irrefl _)
      · exact hl
    · exact ⟨[], by rw [hreceived, hid, hearly, List.append_nil, List.append_nil], fun _ => rfl⟩
  · intro j inner hinner haccepted
    rcases getElem?_concat_cases hinner with hold | ⟨-, rfl⟩
    · obtain ⟨pre, g, post, hsplit, hg⟩ := h.accepted j inner hold haccepted
      exact ⟨pre, g, post ++ [f], by rw [hsplit, List.append_assoc]; rfl, hg⟩
    · exact ⟨ds, f, [], rfl, hcmd, hid.symm, by rw [hid, hearly]⟩

private theorem Session.Tracks.drop (h : s.Tracks ds) (hcmd : f.cmd = CMD_PSH)
    (hfree : s.streams.lookup f.sid = none) : s.Tracks (ds ++ [f]) := by
  refine ⟨h.map, h.fresh, ?_, ?_⟩
  · intro j inner hinner husable
    obtain ⟨late, hlate, hin⟩ := h.block j inner hinner husable
    rw [pushedTo_append, hlate]
    by_cases hsid : f.sid = inner.id
    · refine ⟨late ++ f.data, ?_, ?_⟩
      · rw [pushedTo_singleton_of hcmd hsid, List.append_assoc]
      · intro hl
        rw [← hsid, hfree] at hl
        cases hl
    · rw [pushedTo_singleton_not (fun h => hsid h.1), List.append_nil]
      exact ⟨late, rfl, hin⟩
  · intro j inner hinner hphase
    obtain ⟨pre, g, post, hsplit, hg⟩ := h.accepted j inner hinner hphase
    exact ⟨pre, g, post ++ [f], by rw [hsplit, List.append_assoc]; rfl, hg⟩

private theorem Session.Tracks.push (h : s.Tracks ds) (hcmd : f.cmd = CMD_PSH) {i : ℕ}
    (hl : s.streams.lookup f.sid = some i) :
    (s.modify i fun inner => { inner with
      buf := inner.buf.pushBytes f.data
      received := inner.received ++ f.data }).Tracks (ds ++ [f]) := by
  obtain ⟨target, htarget, hid, htused⟩ := h.map f.sid i hl
  have hback : ∀ {j : ℕ} {inner : StreamInner}, (s.modify i fun inner => { inner with
      buf := inner.buf.pushBytes f.data
      received := inner.received ++ f.data }).inners[j]? = some inner →
        ∃ old, s.inners[j]? = some old ∧
        inner.id = old.id ∧ inner.phase = old.phase ∧ inner.early = old.early ∧
        inner.received = if i = j then old.received ++ f.data else old.received := by
    intro j inner hinner
    rw [Session.getElem?_modify] at hinner
    obtain ⟨old, hold, rfl⟩ := Option.map_eq_some_iff.mp hinner
    refine ⟨old, hold, ?_⟩
    split_ifs <;> exact ⟨rfl, rfl, rfl, rfl⟩
  constructor
  · intro sid j hlookup
    obtain ⟨inner, hinner, hsid, husable⟩ := h.map sid j hlookup
    refine ⟨_, by rw [Session.getElem?_modify, hinner]; rfl, ?_⟩
    dsimp only
    split_ifs <;> exact ⟨hsid, husable⟩
  · intro j inner hinner hnot
    obtain ⟨old, hold, -, hphase, hearly, hreceived⟩ := hback hinner
    rw [hphase] at hnot
    have hij : i ≠ j := by
      rintro rfl
      obtain rfl := Option.some.inj (htarget.symm.trans hold)
      rw [htused] at hnot
      cases hnot
    rw [hearly, hreceived, if_neg hij]
    exact h.fresh j old hold hnot
  · intro j inner hinner husable
    obtain ⟨old, hold, hinnerid, hphase, hearly, hreceived⟩ := hback hinner
    rw [hphase] at husable
    obtain ⟨late, hlate, hin⟩ := h.block j old hold husable
    rw [pushedTo_append, hinnerid, hearly, hreceived, hlate]
    by_cases hij : i = j
    · subst hij
      obtain rfl := Option.some.inj (htarget.symm.trans hold)
      have hnone : late = [] := hin (by rw [hid]; exact hl)
      rw [if_pos rfl, pushedTo_singleton_of hcmd hid.symm, hnone]
      exact ⟨[], by simp only [List.append_assoc, List.append_nil], fun _ => rfl⟩
    · rw [if_neg hij]
      by_cases hsid : f.sid = old.id
      · refine ⟨late ++ f.data, ?_, ?_⟩
        · rw [pushedTo_singleton_of hcmd hsid, List.append_assoc]
        · intro hlookup
          have hlookup : s.streams.lookup old.id = some j := hlookup
          rw [← hsid, hl] at hlookup
          exact absurd (Option.some.inj hlookup) hij
      · rw [pushedTo_singleton_not (fun h => hsid h.1), List.append_nil]
        exact ⟨late, rfl, hin⟩
  · intro j inner hinner haccepted
    obtain ⟨old, hold, hinnerid, hphase, hearly, -⟩ := hback hinner
    obtain ⟨pre, g, post, hsplit, hg⟩ := h.accepted j old hold (hphase.symm.trans haccepted)
    rw [hinnerid, hearly]
    exact ⟨pre, g, post ++ [f], by rw [hsplit, List.append_assoc]; rfl, hg⟩

private theorem Session.Tracks.phase (h : s.Tracks ds) {i : ℕ} {inner : StreamInner}
    (hinner : s.inners[i]? = some inner) (hnot : inner.phase.usable = false) {phase : Phase}
    (hnot' : phase.usable = false) : (s.modify i fun inner => { inner with phase }).Tracks ds := by
  have hcases : ∀ {j : ℕ} {a : StreamInner},
      (s.modify i fun inner => { inner with phase }).inners[j]? = some a →
      (j = i ∧ a = { inner with phase }) ∨ s.inners[j]? = some a := by
    intro j a ha
    rw [Session.getElem?_modify] at ha
    obtain ⟨old, hold, rfl⟩ := Option.map_eq_some_iff.mp ha
    split_ifs with hij
    · subst hij
      obtain rfl := Option.some.inj (hinner.symm.trans hold)
      exact .inl ⟨rfl, rfl⟩
    · exact .inr hold
  constructor
  · intro sid j hl
    obtain ⟨a, ha, hid, husable⟩ := h.map sid j hl
    have hij : i ≠ j := by
      rintro rfl
      obtain rfl := Option.some.inj (hinner.symm.trans ha)
      rw [husable] at hnot
      cases hnot
    refine ⟨a, ?_, hid, husable⟩
    rw [Session.getElem?_modify, ha, Option.map_some, if_neg hij]
  · intro j a ha hnota
    rcases hcases ha with ⟨rfl, rfl⟩ | hold
    · exact h.fresh j inner hinner hnot
    · exact h.fresh j a hold hnota
  · intro j a ha husable
    rcases hcases ha with ⟨rfl, rfl⟩ | hold
    · rw [hnot'] at husable
      cases husable
    · exact h.block j a hold husable
  · intro j a ha haccepted
    rcases hcases ha with ⟨rfl, rfl⟩ | hold
    · rw [show phase = .accepted from haccepted] at hnot'
      cases hnot'
    · exact h.accepted j a hold haccepted

private theorem Session.Tracks.opened (h : s.Tracks ds) {i : ℕ} {inner : StreamInner}
    (hinner : s.inners[i]? = some inner) (hnot : inner.phase.usable = false) :
    ({ s.modify i fun a => { a with phase := .opened, early := pushedTo a.id ds } with
      streams := (inner.id, i) :: s.streams } : Session).Tracks ds := by
  have hget : ∀ j : ℕ, ({ s.modify i fun a =>
      { a with phase := .opened, early := pushedTo a.id ds } with
      streams := (inner.id, i) :: s.streams } : Session).inners[j]? =
      s.inners[j]?.map fun a =>
        if i = j then { a with phase := .opened, early := pushedTo a.id ds } else a :=
    fun j => Session.getElem?_modify j
  have hcases : ∀ {j : ℕ} {a : StreamInner}, ({ s.modify i fun a =>
      { a with phase := .opened, early := pushedTo a.id ds } with
      streams := (inner.id, i) :: s.streams } : Session).inners[j]? = some a →
      (j = i ∧ a = { inner with phase := .opened, early := pushedTo inner.id ds }) ∨
        (j ≠ i ∧ s.inners[j]? = some a) := by
    intro j a ha
    rw [hget] at ha
    obtain ⟨old, hold, rfl⟩ := Option.map_eq_some_iff.mp ha
    split_ifs with hij
    · subst hij
      obtain rfl := Option.some.inj (hinner.symm.trans hold)
      exact .inl ⟨rfl, rfl⟩
    · exact .inr ⟨Ne.symm hij, hold⟩
  have hfresh := h.fresh i inner hinner hnot
  constructor
  · intro sid j hl
    rw [List.lookup_cons] at hl
    split at hl
    · rename_i heq
      cases hl
      refine ⟨{ inner with phase := .opened, early := pushedTo inner.id ds }, ?_,
        (beq_iff_eq.mp heq).symm, rfl⟩
      rw [hget, hinner, Option.map_some, if_pos rfl]
    · obtain ⟨a, ha, hid, husable⟩ := h.map sid j hl
      have hij : i ≠ j := by
        rintro rfl
        obtain rfl := Option.some.inj (hinner.symm.trans ha)
        rw [husable] at hnot
        cases hnot
      exact ⟨a, by rw [hget, ha, Option.map_some, if_neg hij], hid, husable⟩
  · intro j a ha hnota
    rcases hcases ha with ⟨rfl, rfl⟩ | ⟨-, hold⟩
    · cases hnota
    · exact h.fresh j a hold hnota
  · intro j a ha husable
    rcases hcases ha with ⟨rfl, rfl⟩ | ⟨hij, hold⟩
    · exact ⟨[], by simp only [hfresh.2, List.append_nil], fun _ => rfl⟩
    · obtain ⟨late, hlate, hin⟩ := h.block j a hold husable
      refine ⟨late, hlate, fun hl => hin ?_⟩
      rw [List.lookup_cons] at hl
      split at hl
      · exact absurd (Option.some.inj hl).symm hij
      · exact hl
  · intro j a ha haccepted
    rcases hcases ha with ⟨rfl, rfl⟩ | ⟨-, hold⟩
    · cases haccepted
    · exact h.accepted j a hold haccepted

private theorem Session.Tracks.dispatch (h : s.Tracks ds) (hds : s.inc.dispatched = ds)
    (f : Frame) : (s.dispatch f).Tracks (ds ++ [f]) := by
  have hidle : f.cmd ≠ CMD_PSH → ∀ sid, pushedTo sid [f] = [] := fun hcmd sid =>
    pushedTo_singleton_not fun h => hcmd h.2
  unfold Session.dispatch
  split_ifs with hsyn hfin hpsh hempty
  · have hother : f.cmd ≠ CMD_PSH := by
      rw [hsyn]
      decide
    split
    · exact h.idle (hidle hother) (fun _ => rfl) fun _ _ hl => hl
    · exact h.accept hsyn rfl rfl (by rw [hds]) rfl
  · have hother : f.cmd ≠ CMD_PSH := by
      rw [hfin]
      decide
    have hsame : ∀ {s' : Session}, s.Same s' → s'.Tracks (ds ++ [f]) := fun hsame =>
      h.idle (hidle hother) hsame.keys hsame.streams
    split
    · split
      · refine hsame (Same.trans ?_ (same_cleanup _ _))
        exact same_modify fun _ => rfl
      · exact hsame (.refl s)
    · exact hsame (.refl s)
  · refine h.idle ?_ (fun _ => rfl) fun _ _ hl => hl
    intro sid
    by_cases hsid : f.sid = sid
    · rw [pushedTo_singleton_of hpsh hsid, hempty]
    · exact pushedTo_singleton_not fun h => hsid h.1
  · split
    · rename_i i hl
      exact h.push hpsh hl
    · rename_i hfree
      exact h.drop hpsh hfree
  · exact h.idle (hidle hpsh) (fun _ => rfl) fun _ _ hl => hl

end Tracking

/-! Whole runs of a session. -/

structure Session.Inv (config : Config) (client : Bool) (size : ℕ) (s : Session) : Prop where
  out : s.out.Ok (Session.version config)
  prompt : s.out.Prompt
  reads : s.Reads config
  incoming : s.inc.Ok (Session.version config) size
  announces : s.Announces client
  tracks : s.Tracks s.inc.dispatched

section Runs

variable {config : Config} {client : Bool} {size : ℕ} {s s' : Session}

private theorem Session.inv_new (config : Config) (client : Bool) (size : ℕ) :
    (Session.new client size).Inv config client size where
  out := Outgoing.ok_new _
  prompt := fun req hreq => by cases hreq
  reads := fun j inner h => by cases h
  incoming := incoming_ok_new _ size
  announces := Session.announces_new client size
  tracks := Session.tracks_new client size

private theorem dispatch_out (s : Session) (f : Frame) :
    (s.dispatch f).out = s.out ∧ (s.dispatch f).nextStreamId = s.nextStreamId := by
  unfold Session.dispatch Session.tryHalfCloseCleanup
  split_ifs <;> (try split) <;> (try split) <;> (try split_ifs) <;> exact ⟨rfl, rfl⟩

private theorem Session.Announces.dispatch (h : s.Announces client) (f : Frame)
    (rx : Receiver Unit) : ({ s.dispatch f with
      inc := { s.inc with rx, dispatched := s.inc.dispatched ++ [f] } } :
        Session).Announces client := by
  have hmore : synIds s.inc.dispatched ⊆ synIds (s.inc.dispatched ++ [f]) := by
    rw [synIds_append]
    exact List.subset_append_left _ _
  have hsame : ∀ {s1 : Session}, s.Same s1 → s1.out = s.out →
      ({ s1 with inc := { s.inc with rx, dispatched := s.inc.dispatched ++ [f] } } :
        Session).Announces client := fun hsame hout =>
    h.keep hsame.next hsame.openings hout hmore
  unfold Session.dispatch
  split_ifs with hsyn hfin hpsh hempty
  · split
    · exact hsame (.refl s) rfl
    · exact h.accept hsyn rfl rfl
  · split
    · split
      · refine hsame (Session.Same.trans ?_ (Session.same_cleanup _ _)) ?_
        · exact Session.same_modify fun _ => rfl
        · unfold Session.tryHalfCloseCleanup
          split_ifs <;> rfl
      · exact hsame (.refl s) rfl
    · exact hsame (.refl s) rfl
  · exact hsame (.refl s) rfl
  · split
    · refine h.keep rfl ?_ rfl hmore
      intro j
      rw [Session.getElem?_modify, Option.map_map]
      congr 1
      funext inner
      rw [Function.comp_apply]
      split_ifs <;> rfl
    · exact hsame (.refl s) rfl
  · exact hsame (.refl s) rfl

private theorem Session.Inv.step (hconfig : config.Verified) (hsize : size ≠ 0)
    (h : s.Inv config client size)
    {e : Event} (hstep : s.step config e = some s') (hprompt : s'.out.Prompt) :
    s'.Inv config client size := by
  obtain ⟨heffect, hreads⟩ := Session.step_effect hconfig h.reads hstep
  have hmoves : ∀ {op : Op}, s.Same s' → op.Allowed (Session.version config) s.out →
      s.out.next op = some s'.out → (∀ frame class_, op = .number frame class_ →
        frame.cmd ≠ CMD_SYN ∧ (frame.cmd = CMD_PSH →
          ∃ inner ∈ s.inners, inner.phase.usable = true ∧ inner.id = frame.sid)) →
      s'.Inv config client size := by
    intro op hsame hallowed hnext hop
    obtain ⟨hout, hmoves⟩ := h.out.next h.prompt hallowed hnext hprompt
    refine ⟨hout, hprompt, hreads, ?_, h.announces.moves hsame hmoves hop, ?_⟩
    · rw [hsame.inc]
      exact h.incoming
    · rw [hsame.inc]
      exact h.tracks.same hsame.keys hsame.streams
  cases heffect with
  | quiet hsame hout =>
    refine ⟨hout ▸ h.out, hprompt, hreads, ?_, ?_, ?_⟩
    · rw [hsame.inc]
      exact h.incoming
    · apply h.announces.keep hsame.next hsame.openings hout
      rw [hsame.inc]
      exact List.Subset.refl _
    · rw [hsame.inc]
      exact h.tracks.same hsame.keys hsame.streams
  | request hsame hreq hout =>
    refine hmoves hsame (show Op.Allowed _ _ (.number _ _) from hreq.fits) (by rw [hout]; rfl) ?_
    intro frame class_ hnumber
    cases hnumber
    exact ⟨hreq.plain, hreq.known⟩
  | queue hop hsame hout =>
    rename_i op
    refine hmoves hsame ?_ hout fun frame class_ hnumber => absurd hnumber (hop frame class_)
    cases op with
    | number frame class_ => exact absurd rfl (hop frame class_)
    | enqueue _ | abandon _ | send | cut _ => trivial
  | allocated hwrap hs =>
    subst hs
    exact ⟨h.out, h.prompt, hreads, h.incoming, h.announces.allocated hwrap,
      h.tracks.allocated rfl ⟨rfl, rfl⟩ _⟩
  | requested hinner hphase hs =>
    rename_i i inner
    subst hs
    have hown : inner.phase.own = true := by rw [hphase]; rfl
    have hfresh : inner.id ∉ synIds (framesOf s.out.all) := by
      intro hmem
      obtain ⟨j, a, ha, howna, hphasea, hida⟩ := h.announces.syns _ hmem
      obtain rfl := h.announces.unique j i a inner ha hinner howna hown hida
      obtain rfl := Option.some.inj (hinner.symm.trans ha)
      exact hphasea hphase
    have hready : ((s.modify i fun inner => { inner with phase := .requested }).inners)[i]? =
        some { inner with phase := .requested } := by
      rw [Session.getElem?_modify, hinner, Option.map_some, if_pos rfl]
    refine ⟨h.out.number ⟨Session.valid_plain _ (.inr (.inl rfl)), fun h => nomatch h⟩, hprompt,
      hreads,
      h.incoming, ?_, ?_⟩
    · have hphased := h.announces.phase
        (f := fun inner => { inner with phase := .requested }) hinner hown
        rfl ⟨rfl, fun h => nomatch h⟩ fun h => nomatch h
      exact hphased.syn hready rfl (fun h => nomatch h) hfresh rfl rfl
    · have hphased := h.tracks.phase hinner (by rw [hphase]; rfl)
        (show Phase.usable .requested = false from rfl)
      exact hphased.same (fun _ => rfl) fun _ _ hl => hl
  | failed hinner hphase hs =>
    subst hs
    have hown : Phase.own .requested = true := rfl
    refine ⟨h.out, h.prompt, hreads, h.incoming, ?_, ?_⟩
    · exact h.announces.phase hinner (hphase ▸ hown) rfl ⟨rfl, fun h => nomatch h⟩ fun h => nomatch h
    · exact h.tracks.phase hinner (by rw [hphase]; rfl) rfl
  | opened hinner hphase hsent hs =>
    rename_i i inner
    subst hs
    refine ⟨h.out, h.prompt, hreads, h.incoming, ?_, ?_⟩
    · have hsyn : inner.id ∈ synIds (framesOf s.out.shaper.popped) :=
        mem_synIds.mpr ⟨_, hsent, rfl, rfl⟩
      have hphased := h.announces.phase
        (f := fun a => { a with phase := .opened, early := pushedTo a.id s.inc.dispatched }) hinner
        (by rw [hphase]; rfl) rfl ⟨rfl, fun h => nomatch h⟩ fun _ => hsyn
      exact hphased.keep rfl (fun _ => rfl) rfl (List.Subset.refl _)
    · exact h.tracks.opened hinner (by rw [hphase]; rfl)
  | arrived hxs hs =>
    subst hs
    exact ⟨h.out, h.prompt, hreads, h.incoming.arrive hxs,
      h.announces.keep rfl (fun _ => rfl) rfl (List.Subset.refl _),
      h.tracks.same (fun _ => rfl) fun _ _ hl => hl⟩
  | received hdone hturn hs =>
    rename_i f rx
    subst hs
    refine ⟨?_, hprompt, hreads, h.incoming.take hsize hdone hturn, h.announces.dispatch f rx, ?_⟩
    · dsimp only
      rw [(dispatch_out s f).1]
      exact h.out
    · exact (h.tracks.dispatch rfl f).same (fun _ => rfl) fun _ _ hl => hl
  | rejected hturn hs =>
    rename_i rx e
    subst hs
    obtain ⟨rx', hturn', hok, -⟩ := h.incoming.rx.turn hsize (Session.version config)
    obtain rfl := (Prod.mk.inj (Option.some.inj (hturn.symm.trans hturn'))).2
    exact ⟨h.out, h.prompt, hreads, h.incoming.stop hok,
      h.announces.keep rfl (fun _ => rfl) rfl (List.Subset.refl _),
      h.tracks.same (fun _ => rfl) fun _ _ hl => hl⟩
  | stopped hs =>
    subst hs
    exact ⟨h.out, h.prompt, hreads, h.incoming.stop h.incoming.rx,
      h.announces.keep rfl (fun _ => rfl) rfl (List.Subset.refl _),
      h.tracks.same (fun _ => rfl) fun _ _ hl => hl⟩

def Session.Paced (config : Config) (s : Session) (e : Event) : Prop :=
  ∀ s', s.step config e = some s' → s'.out.Prompt

theorem Session.inv_run (hconfig : config.Verified) (hsize : size ≠ 0) {events : List Event}
    (hrun : exec (Session.step config) (Session.new client size) events = some s)
    (hpaced : Along (Session.step config) (Session.Paced config) (Session.new client size) events) :
    s.Inv config client size :=
  exec_invariant (Session.Inv config client size)
    (fun _ _ _ h hok hstep => h.step hconfig hsize hstep (hok _ hstep))
    (Session.inv_new config client size) hpaced hrun

end Runs

/-! Two sessions. -/

section Sessions

variable {configA configB : Config} {client : Bool} {sizeA sizeB : ℕ} {a b : Session}

private theorem pushedTo_framesOf (sid : UInt32) (reqs : List Request) :
    pushedTo sid (framesOf reqs) = (pshOf sid reqs).flatMap fun req => req.body.frame.data := by
  unfold pushedTo framesOf pshOf isPsh
  rw [List.filter_map, List.flatMap_map]
  rfl

private theorem Session.Inv.popped_prefix (h : a.Inv configA client sizeA) (sid : UInt32) :
    pushedTo sid (framesOf a.out.shaper.popped) <+: a.queued sid := by
  obtain ⟨rest, hsplit, -⟩ := h.out.inOrder sid
  unfold Session.queued
  rw [pushedTo_framesOf, pushedTo_framesOf, hsplit, List.flatMap_append]
  exact List.prefix_append _ _

private theorem Session.Inv.fits (h : a.Inv configA client sizeA) :
    ∀ f ∈ framesOf a.out.shaper.popped, f.data.length ≤ 65535 := by
  intro f hf
  obtain ⟨req, hreq, rfl⟩ := List.mem_map.mp hf
  have hpushed : req ∈ a.out.shaper.pushed :=
    h.out.accounted.2.mem_iff.mpr (List.mem_append_left _ hreq)
  exact (h.out.valid req (List.mem_append_right _ hpushed)).fits

private theorem Session.Inv.dispatched_prefix (ha : a.Inv configA client sizeA)
    (hb : b.Inv configB (!client) sizeB) (hab : b.inc.arrived <+: a.out.wire) :
    b.inc.dispatched <+: framesOf a.out.shaper.popped :=
  Frame.prefix_of_encode ha.fits (fun f hf => (hb.incoming.valid f hf).fits)
    ((hb.incoming.framed.trans hab).trans ha.out.framed)

/-- The frames that open streams are written once, before the data of the stream, and never for a
stream that the other side opens. -/
theorem Session.Inv.early_nil (ha : a.Inv configA client sizeA) (hb : b.Inv configB (!client) sizeB)
    (hab : b.inc.arrived <+: a.out.wire) (hba : a.inc.arrived <+: b.out.wire) {j : ℕ}
    {inner : StreamInner} (hinner : b.inners[j]? = some inner) (hphase : inner.phase = .accepted) :
    inner.early = [] := by
  obtain ⟨pre, f, post, hsplit, hcmd, hsid, hearly⟩ := hb.tracks.accepted j inner hinner hphase
  rw [hearly]
  by_contra hne
  obtain ⟨g, hg, hgsid, hgcmd⟩ := pushedTo_ne_nil hne
  obtain ⟨front, back, rfl⟩ := List.append_of_mem hg
  -- the data frame was written before the frame that opened the stream
  obtain ⟨rest, hpopped⟩ := ha.dispatched_prefix hb hab
  rw [hsplit] at hpopped
  have hwritten : framesOf a.out.shaper.popped = front ++ g :: (back ++ f :: post ++ rest) := by
    rw [← hpopped]
    simp only [List.append_assoc, List.cons_append]
  obtain ⟨reqs, tail, hreqs, hfront, htail⟩ := List.map_eq_append_iff.mp hwritten
  obtain ⟨req, later, rfl, hreq, hlater⟩ := List.map_eq_cons_iff.mp htail
  have hsyns : synIds (framesOf a.out.shaper.popped) =
      synIds front ++ synIds (g :: back) ++ f.sid :: synIds (post ++ rest) := by
    rw [hwritten, ← synIds_cons_of hcmd, ← synIds_append, ← synIds_append]
    simp only [List.append_assoc, List.cons_append]
  have hsub : (synIds (framesOf a.out.shaper.popped)).Sublist (synIds (framesOf a.out.all)) := by
    unfold Outgoing.all
    rw [framesOf_append, synIds_append]
    exact List.sublist_append_left _ _
  have honce := ha.announces.once.sublist hsub
  have hmem : f.sid ∈ synIds (framesOf a.out.all) := by
    apply hsub.mem
    rw [hsyns]
    exact List.mem_append_right _ List.mem_cons_self
  have hknown := ha.announces.first reqs req later hreqs (by rw [hreq]; exact hgcmd)
  rw [hreq, hgsid, ← hsid] at hknown
  rcases List.mem_append.mp hknown with hearlier | hother
  · rw [hsyns, List.append_assoc] at honce
    have hfirst : f.sid ∈ synIds front := by
      rw [← hfront]
      exact hearlier
    refine (List.disjoint_of_nodup_append honce hfirst ?_).elim
    exact List.mem_append_right _ List.mem_cons_self
  · have ha' : a.Inv configA (!!client) sizeA := by rwa [Bool.not_not]
    obtain ⟨rest', hback⟩ := hb.dispatched_prefix ha' hba
    have hmemB : f.sid ∈ synIds (framesOf b.out.all) := by
      unfold Outgoing.all
      rw [framesOf_append, synIds_append, ← hback, synIds_append]
      exact List.mem_append_left _ (List.mem_append_left _ hother)
    obtain ⟨i, innerA, hinnerA, hownA, -, hidA⟩ := ha.announces.syns _ hmem
    obtain ⟨k, innerB, hinnerB, hownB, -, hidB⟩ := hb.announces.syns _ hmemB
    have hparityA := (ha.announces.own i innerA hinnerA hownA).1
    have hparityB := (hb.announces.own k innerB hinnerB hownB).1
    rw [hidA] at hparityA
    rw [hidB, hparityA] at hparityB
    cases client <;> cases hparityB

private theorem Session.Inv.deliver (ha : a.Inv configA client sizeA)
    (hb : b.Inv configB (!client) sizeB)
    (hab : b.inc.arrived <+: a.out.wire) {j : ℕ} {inner : StreamInner}
    (hinner : b.inners[j]? = some inner) (hkept : inner.recycled = false) :
    inner.early ++ inner.returned <+: a.queued inner.id := by
  have hread := (hb.reads j inner hinner).read hkept
  have hall : inner.early ++ inner.received <+: pushedTo inner.id b.inc.dispatched := by
    cases husable : inner.phase.usable with
    | false =>
      obtain ⟨hearly, hreceived⟩ := hb.tracks.fresh j inner hinner husable
      rw [hearly, hreceived]
      exact List.nil_prefix
    | true =>
      obtain ⟨late, hlate, -⟩ := hb.tracks.block j inner hinner husable
      exact ⟨late, hlate.symm⟩
  have hfront : inner.early ++ inner.returned <+: inner.early ++ inner.received := by
    rw [hread, ← List.append_assoc]
    exact List.prefix_append _ _
  exact (hfront.trans hall).trans
    ((pushedTo_mono (ha.dispatched_prefix hb hab)).trans (ha.popped_prefix inner.id))

/-- What the streams of `b` got from `a`: what arrived before a stream was registered and what was
read from it are the first of the bytes that were queued for it, and nothing arrives too early for a
stream that the other side opened. -/
def Session.Gets (b a : Session) : Prop := ∀ inner ∈ b.inners,
  (inner.recycled = false → inner.early ++ inner.returned <+: a.queued inner.id) ∧
    (inner.phase = .accepted → inner.early = [])

theorem Session.gets_of_inv (ha : a.Inv configA client sizeA) (hb : b.Inv configB (!client) sizeB)
    (hab : b.inc.arrived <+: a.out.wire) (hba : a.inc.arrived <+: b.out.wire) :
    b.Gets a ∧ a.Gets b := by
  have ha' : a.Inv configA (!!client) sizeA := by rwa [Bool.not_not]
  constructor
  · intro inner hinner
    obtain ⟨j, hj⟩ := List.getElem?_of_mem hinner
    exact ⟨ha.deliver hb hab hj, ha.early_nil hb hab hba hj⟩
  · intro inner hinner
    obtain ⟨j, hj⟩ := List.getElem?_of_mem hinner
    exact ⟨hb.deliver ha' hba hj, hb.early_nil ha' hba hab hj⟩

end Sessions

/-- Two sessions over a connection that brings each the first bytes of what the other wrote, in any
pieces and at any time, with no request queued while half the number space is used up. Whatever
streams are opened, written, read and closed meanwhile, until a stream's own side throws its buffer
away what is read from a stream that the other side opened are the first bytes that were queued for
it there, in order; for a stream opened on this side they come after those that arrived before it was
registered. -/
theorem streams_deliver {configA configB : Config} (hconfigA : verifyConfig configA = .ok ())
    (hconfigB : verifyConfig configB = .ok ()) {sizeA sizeB : ℕ} (hsizeA : 1 ≤ sizeA)
    (hsizeB : 1 ≤ sizeB) {eventsA eventsB : List Event} {a b : Session}
    (hrunA : exec (Session.step configA) (Session.new true sizeA) eventsA = some a)
    (hrunB : exec (Session.step configB) (Session.new false sizeB) eventsB = some b)
    (hpacedA : Along (Session.step configA) (Session.Paced configA) (Session.new true sizeA) eventsA)
    (hpacedB : Along (Session.step configB) (Session.Paced configB) (Session.new false sizeB) eventsB)
    (hab : b.inc.arrived <+: a.out.wire) (hba : a.inc.arrived <+: b.out.wire) :
    b.Gets a ∧ a.Gets b := by
  have ha := Session.inv_run (verified_of_verifyConfig hconfigA) (Nat.ne_of_gt hsizeA) hrunA hpacedA
  have hb := Session.inv_run (verified_of_verifyConfig hconfigB) (Nat.ne_of_gt hsizeB) hrunB hpacedB
  exact Session.gets_of_inv ha hb hab hba

/-- The client opens a stream, writes to it twice and reads the answer. -/
def clientEvents : List Event :=
  [.openStream, .syn 0, .enqueue 0, .send, .register 0, .write 0, .psh 0 [1, 2, 3], .enqueue 0, .psh 0 [4],
    .nop, .enqueue 1, .enqueue 0, .send, .send, .send, .arrive [1, 2, 1, 0, 3], .arrive [0, 0, 0, 9], .recv,
    .readChunk 0]

/-- The server takes what arrives in other pieces than those that were written. -/
def serverEvents : List Event :=
  [.arrive [1, 0, 0, 0, 3, 0], .arrive [0, 0, 1], .recv, .arrive [2, 3, 0, 3, 0, 0, 0, 1, 2], .write 0,
    .psh 0 [9], .enqueue 0, .arrive [3, 1, 3, 0], .recv, .read 0 2, .send,
    .arrive [0, 0, 0, 0, 0, 1, 2, 1, 0], .recv, .arrive [3, 0, 0, 0, 4], .recv, .read 0 2, .read 0 2]

instance (o : Outgoing) : Decidable o.Prompt :=
  inferInstanceAs (Decidable (∀ req ∈ o.shaper.queue.queued, _))

instance (s : Session) (e : Event) : Decidable (s.Paced defaultConfig e) :=
  decidable_of_iff (∀ s' ∈ s.step defaultConfig e, s'.out.Prompt) Iff.rfl

theorem client_run : ∃ a : Session,
    exec (Session.step defaultConfig) (Session.new true 16) clientEvents = some a ∧
      a.inc.arrived = [1, 2, 1, 0, 3, 0, 0, 0, 9] ∧
      a.out.wire = [1, 0, 0, 0, 3, 0, 0, 0, 1, 2, 3, 0, 3, 0, 0, 0, 1, 2, 3, 1, 3, 0, 0, 0, 0, 0, 0, 1,
        2, 1, 0, 3, 0, 0, 0, 4] ∧
      (a.inners.map fun inner => (inner.id, inner.returned)) = [(3, [9])] := by
  have hout : ((exec (Session.step defaultConfig) (Session.new true 16) clientEvents).map fun a =>
      (a.inc.arrived, a.out.wire, a.inners.map fun inner => (inner.id, inner.returned))) =
      some ([1, 2, 1, 0, 3, 0, 0, 0, 9], [1, 0, 0, 0, 3, 0, 0, 0, 1, 2, 3, 0, 3, 0, 0, 0, 1, 2, 3, 1,
        3, 0, 0, 0, 0, 0, 0, 1, 2, 1, 0, 3, 0, 0, 0, 4], [(3, [9])]) := by
    decide +kernel
  obtain ⟨a, hrun, hout⟩ := Option.map_eq_some_iff.mp hout
  simp only [Prod.mk.injEq] at hout
  exact ⟨a, hrun, hout⟩

theorem server_run : ∃ b : Session,
    exec (Session.step defaultConfig) (Session.new false 5) serverEvents = some b ∧
      b.inc.arrived = [1, 0, 0, 0, 3, 0, 0, 0, 1, 2, 3, 0, 3, 0, 0, 0, 1, 2, 3, 1, 3, 0, 0, 0, 0, 0, 0,
        1, 2, 1, 0, 3, 0, 0, 0, 4] ∧ b.out.wire = [1, 2, 1, 0, 3, 0, 0, 0, 9] ∧
      (b.inners.map fun inner => (inner.id, inner.returned)) = [(3, [1, 2, 3, 4])] := by
  have hout : ((exec (Session.step defaultConfig) (Session.new false 5) serverEvents).map fun b =>
      (b.inc.arrived, b.out.wire, b.inners.map fun inner => (inner.id, inner.returned))) =
      some ([1, 0, 0, 0, 3, 0, 0, 0, 1, 2, 3, 0, 3, 0, 0, 0, 1, 2, 3, 1, 3, 0, 0, 0, 0, 0, 0, 1, 2, 1,
        0, 3, 0, 0, 0, 4], [1, 2, 1, 0, 3, 0, 0, 0, 9], [(3, [1, 2, 3, 4])]) := by
    decide +kernel
  obtain ⟨b, hrun, hout⟩ := Option.map_eq_some_iff.mp hout
  simp only [Prod.mk.injEq] at hout
  exact ⟨b, hrun, hout⟩

theorem client_paced : Along (Session.step defaultConfig) (Session.Paced defaultConfig)
    (Session.new true 16) clientEvents := by
  decide +kernel

theorem server_paced : Along (Session.step defaultConfig) (Session.Paced defaultConfig)
    (Session.new false 5) serverEvents := by
  decide +kernel

theorem streams_deliver_pieces : ∃ a b : Session,
    exec (Session.step defaultConfig) (Session.new true 16) clientEvents = some a ∧
      exec (Session.step defaultConfig) (Session.new false 5) serverEvents = some b ∧
      (b.inners.map fun inner => (inner.id, inner.returned)) = [(3, [1, 2, 3, 4])] ∧
      (a.inners.map fun inner => (inner.id, inner.returned)) = [(3, [9])] ∧ b.Gets a ∧ a.Gets b := by
  obtain ⟨a, hrunA, harrivedA, hwireA, hinnersA⟩ := client_run
  obtain ⟨b, hrunB, harrivedB, hwireB, hinnersB⟩ := server_run
  refine ⟨a, b, hrunA, hrunB, hinnersB, hinnersA, ?_⟩
  apply streams_deliver rfl rfl (show 1 ≤ 16 by decide) (show 1 ≤ 5 by decide) hrunA hrunB
    client_paced server_paced
  · rw [harrivedB, hwireA]
  · rw [harrivedA, hwireB]

end Kcptun.Smux.Multiplex
