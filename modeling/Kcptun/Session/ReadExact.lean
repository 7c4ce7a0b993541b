/- Kcptun/Session/ReadExact
   source: crates/kcp/src/session.rs (try_read, shrink_idle), crates/kcp/src/kcp.rs (recv, peek_size)
   digest: What reads return over every order of packets, reads and idle shrinking: the payloads of
     the receive queue once and in order, with every slice of both read paths in range. -/

import Kcptun.Lib.Splice
import Kcptun.Session.Reader

set_option autoImplicit false
set_option relaxedAutoImplicit false

namespace Kcptun.Session

open Kcptun.Arq Kcptun.Lib Kcptun.Lib.LittleEndian

section Recv

variable {O C : Type}

/-- The merge loop of `recv`: each payload is copied behind the ones before it, from `n` on. -/
def mergeFragments : List Segment → Bytes → ℕ → Option (Bytes × ℕ × List Segment)
  | [], buffer, n => some (buffer, n, [])
  | seg :: rest, buffer, n =>
    (splice buffer n seg.data).bind fun buffer =>
      if seg.frg = 0 then some (buffer, n + seg.data.length, rest)
      else mergeFragments rest buffer (n + seg.data.length)

/-- `recv` into the caller's buffer; nothing when a slice is out of range. -/
def recvChecked (k : Kcp O C) (buffer : Bytes) : Option (Kcp O C × Int × Bytes) :=
  if k.peekSize < 0 then some (k, -1, buffer)
  else if k.peekSize > buffer.length then some (k, -2, buffer)
  else
    let fastRecover := k.rcvQueue.length ≥ k.rcvWnd.toNat
    (mergeFragments k.rcvQueue.items buffer 0).map fun merged =>
      let k := Kcp.moveReady { k with rcvQueue := k.rcvQueue.setItems merged.2.2 }
      let probe :=
        if k.rcvQueue.length < k.rcvWnd.toNat ∧ fastRecover then k.probe ||| IKCP_ASK_TELL
        else k.probe
      ({ k with probe := probe }, merged.2.1, merged.1)

private theorem popRun_eq (items : List Segment) :
    popRun items =
      ((Reader.firstRun items).flatMap Segment.data, items.drop (Reader.firstRun items).length) := by
  induction items with
  | nil => rfl
  | cons seg rest ih =>
    rw [popRun, Reader.firstRun]
    split_ifs
    · simp
    · rw [ih]
      rfl

private theorem firstRun_initial (items : List Segment) : Reader.firstRun items <+: items := by
  induction items with
  | nil => exact List.prefix_rfl
  | cons seg rest ih =>
    rw [Reader.firstRun]
    split_ifs
    · exact ⟨rest, rfl⟩
    · exact List.cons_prefix_cons.mpr ⟨rfl, ih⟩

private theorem mergeFragments_eq (items : List Segment) {front back : Bytes} {n : ℕ}
    (hfront : front.length = n) (hroom : runBytes items ≤ back.length) :
    mergeFragments items (front ++ back) n =
      some (front ++ (popRun items).1 ++ back.drop (popRun items).1.length,
        n + (popRun items).1.length, (popRun items).2) := by
  induction items generalizing front back n with
  | nil => simp [mergeFragments, popRun]
  | cons seg rest ih =>
    rw [runBytes] at hroom
    have hlen : seg.data.length ≤ back.length := by omega
    rw [mergeFragments, splice_append hfront hlen, Option.bind_some, popRun]
    split_ifs with hlast
    · rw [List.append_assoc]
    · rw [if_neg hlast] at hroom
      have hfront' : (front ++ seg.data).length = n + seg.data.length := by
        rw [List.length_append, hfront]
      rw [← List.append_assoc, ih hfront' (by rw [List.length_drop]; omega)]
      simp only [List.length_append, List.drop_drop, List.append_assoc, Nat.add_assoc]

private theorem recvChecked_eq (k : Kcp O C) (buffer : Bytes) :
    recvChecked k buffer = some ((k.recv buffer.length).1, (k.recv buffer.length).2.1,
      (k.recv buffer.length).2.2 ++ buffer.drop (k.recv buffer.length).2.2.length) := by
  unfold recvChecked Kcp.recv
  split_ifs with hnone hshort
  · rfl
  · rfl
  · have hrun := Reader.peekSize_eq_runBytes (not_lt.mp hnone)
    have hmerge := @mergeFragments_eq k.rcvQueue.items [] buffer 0 rfl (by omega)
    rw [List.nil_append, List.nil_append, Nat.zero_add] at hmerge
    rw [hmerge]
    rfl

/-- What one call of `recv` does: nothing but return a code, or move the first run of the queue to
the front of the buffer, `peek_size` bytes. -/
structure RecvExact (k k' : Kcp O C) (buffer out : Bytes) (code : Int) : Prop where
  refused : k.peekSize < 0 ∨ k.peekSize > buffer.length →
    k' = k ∧ out = buffer ∧ code = if k.peekSize < 0 then -1 else -2
  served : 0 ≤ k.peekSize → k.peekSize ≤ buffer.length →
    code = k.peekSize ∧ ∃ run rest, k.rcvQueue.items = run ++ rest ∧
      ((run.flatMap Segment.data).length : Int) = k.peekSize ∧
      out = run.flatMap Segment.data ++ buffer.drop k.peekSize.toNat ∧
      rest <+: k'.rcvQueue.items

private theorem recv_exact (k : Kcp O C) (buffer : Bytes) :
    ∃ k' code out, recvChecked k buffer = some (k', code, out) ∧
      RecvExact k k' buffer out code := by
  refine ⟨_, _, _, recvChecked_eq k buffer, ?_, ?_⟩
  · rintro (hnone | hshort)
    · unfold Kcp.recv
      rw [if_pos hnone, if_pos hnone]
      exact ⟨rfl, rfl, rfl⟩
    · have hsome : ¬k.peekSize < 0 := by omega
      unfold Kcp.recv
      rw [if_neg hsome, if_neg hsome, if_pos hshort]
      exact ⟨rfl, rfl, rfl⟩
  · intro hsome hroom
    have hrun := Reader.peekSize_eq_runBytes hsome
    have hlen := Reader.length_popRun k.rcvQueue.items
    have hrecv : (k.recv buffer.length).2 =
        (((popRun k.rcvQueue.items).1.length : Int), (popRun k.rcvQueue.items).1) := by
      unfold Kcp.recv
      rw [if_neg (by omega), if_neg (by omega)]
    rw [hrecv]
    have hpop := popRun_eq k.rcvQueue.items
    have hpre := firstRun_initial k.rcvQueue.items
    refine ⟨by rw [hlen, hrun], Reader.firstRun k.rcvQueue.items,
      k.rcvQueue.items.drop (Reader.firstRun k.rcvQueue.items).length, ?_, ?_, ?_, ?_⟩
    · conv_lhs => rw [← List.take_append_drop (Reader.firstRun k.rcvQueue.items).length
        k.rcvQueue.items, ← List.prefix_iff_eq_take.mp hpre]
    · rw [hpop] at hlen
      rw [hrun, hlen]
    · rw [hpop] at hlen ⊢
      rw [hlen, hrun, Int.toNat_natCast]
    · unfold Kcp.recv
      rw [if_neg (by omega), if_neg (by omega), hpop]
      obtain ⟨tail, hitems, -⟩ := (Reader.grows_moveReady
        { k with rcvQueue := k.rcvQueue.setItems
                  (k.rcvQueue.items.drop (Reader.firstRun k.rcvQueue.items).length) }).queue
      exact ⟨tail, hitems.symm⟩

end Recv

/-- `copy`: as many bytes as fit, at the front of `dst`. -/
def copyChecked (dst src : Bytes) : Option (ℕ × Bytes) :=
  let n := min dst.length src.length
  (slice src 0 n).bind fun bytes => (splice dst 0 bytes).map fun dst => (n, dst)

private theorem copyChecked_eq (dst src : Bytes) :
    copyChecked dst src = some (min dst.length src.length,
      src.take (min dst.length src.length) ++ dst.drop (min dst.length src.length)) := by
  have hlen : (src.take (min dst.length src.length)).length = min dst.length src.length :=
    List.length_take_of_le (min_le_right _ _)
  have hslice := @slice_mid _ [] (src.drop (min dst.length src.length))
    (src.take (min dst.length src.length)) 0 _ rfl ((Nat.zero_add _).trans hlen)
  rw [List.nil_append, List.take_append_drop] at hslice
  have hsplice := @splice_zero _ dst (src.take (min dst.length src.length))
    (hlen.le.trans (min_le_left _ _))
  rw [hlen] at hsplice
  simp only [copyChecked, hslice, Option.bind_some, hsplice, Option.map_some]

def readBytes (result : Option (ℕ × Bytes)) : Bytes := result.elim [] Prod.snd

namespace Reader

variable {O C : Type}

/-- `try_read` into the caller's buffer `b`; nothing when a slice is out of range. `roomy` tells
whether `recvbuf` has the capacity for the message. -/
def tryReadChecked (r : Reader O C) (b : Bytes) (roomy : Bool) :
    Option (Reader O C × Option ℕ × Bytes) :=
  if r.bufptrLen > 0 then
    (slice r.recvbuf r.bufptr r.recvbuf.length).bind fun left =>
    (copyChecked b left).map fun copied =>
      ({ r with bufptr := r.bufptr + copied.1 }, some copied.1, copied.2)
  else if r.kcp.peekSize > 0 then
    let size := r.kcp.peekSize.toNat
    if b.length ≥ size then
      (recvChecked r.kcp b).map fun received => ({ r with kcp := received.1 }, some size, received.2.2)
    else
      let recvbuf := if roomy then r.recvbuf else List.replicate size 0
      let recvbuf := recvbuf.take size ++ List.replicate (size - recvbuf.length) 0
      (recvChecked r.kcp recvbuf).bind fun received =>
      (copyChecked b received.2.2).map fun copied =>
        (⟨received.1, received.2.2, copied.1⟩, some copied.1, copied.2)
  else some (r, none, b)

/-- Gives back the empty queues of the connection, and a consumed `recvbuf` that grew beyond a
packet. -/
def shrinkIdle (r : Reader O C) (heapReleased ackReleased recvbufGrown : Bool) : Reader O C :=
  let r := { r with kcp := (r.kcp.shrinkIdleBuffers heapReleased ackReleased).1 }
  if r.bufptr ≥ r.recvbuf.length ∧ recvbufGrown then { r with recvbuf := [], bufptr := 0 } else r

/-- Neither read path slices out of range, and what a read returns is at the front of the caller's
buffer, which is otherwise as it was. -/
theorem tryReadChecked_eq {r : Reader O C} (h : r.bufptr ≤ r.recvbuf.length) (b : Bytes)
    (roomy : Bool) :
    r.tryReadChecked b roomy = some ((r.tryRead b.length).1, (r.tryRead b.length).2.map Prod.fst,
      readBytes (r.tryRead b.length).2 ++ b.drop (readBytes (r.tryRead b.length).2).length) := by
  unfold tryReadChecked tryRead
  by_cases hleft : r.bufptrLen > 0
  · rw [if_pos hleft, if_pos hleft]
    have hslice : slice r.recvbuf r.bufptr r.recvbuf.length = some (r.recvbuf.drop r.bufptr) := by
      rw [slice, if_pos ⟨h, le_rfl⟩, List.take_length]
    have hlen : (r.recvbuf.drop r.bufptr).length = r.bufptrLen := List.length_drop
    rw [hslice, Option.bind_some, copyChecked_eq, hlen]
    have hread : ((r.recvbuf.drop r.bufptr).take (min b.length r.bufptrLen)).length =
        min b.length r.bufptrLen := List.length_take_of_le (hlen ▸ min_le_right _ _)
    simp only [Option.map_some, readBytes, Option.elim_some, hread]
  rw [if_neg hleft, if_neg hleft]
  by_cases hsome : r.kcp.peekSize > 0
  swap
  · rw [if_neg hsome, if_neg hsome]
    rfl
  rw [if_pos hsome, if_pos hsome]
  dsimp only
  by_cases hdirect : b.length ≥ r.kcp.peekSize.toNat
  · rw [if_pos hdirect, if_pos hdirect, recvChecked_eq]
    rfl
  · rw [if_neg hdirect, if_neg hdirect]
    have hfits : r.kcp.peekSize ≤ (r.kcp.peekSize.toNat : ℤ) := Int.self_le_toNat _
    have hreceived := length_recv hsome hfits
    have hresized : ∀ old : Bytes, (old.take r.kcp.peekSize.toNat ++
        List.replicate (r.kcp.peekSize.toNat - old.length) 0).length = r.kcp.peekSize.toNat := by
      intro old
      rw [List.length_append, List.length_take, List.length_replicate]
      omega
    rw [recvChecked_eq, hresized, Option.bind_some, copyChecked_eq]
    have hall : ((r.kcp.recv r.kcp.peekSize.toNat).2.2 ++ List.drop
        (r.kcp.recv r.kcp.peekSize.toNat).2.2.length
          ((if roomy then r.recvbuf else List.replicate r.kcp.peekSize.toNat 0).take
            r.kcp.peekSize.toNat ++ List.replicate (r.kcp.peekSize.toNat -
              (if roomy then r.recvbuf else List.replicate r.kcp.peekSize.toNat 0).length) 0)) =
        (r.kcp.recv r.kcp.peekSize.toNat).2.2 := by
      rw [List.drop_eq_nil_of_le (by rw [hreceived, hresized]), List.append_nil]
    rw [hall]
    simp only [Option.map_some, readBytes, Option.elim_some, List.length_take, hreceived,
      Nat.min_assoc, Nat.min_self]

inductive Access where
  | input (data : Bytes) (pktType : PacketType) (ackNoDelay : Bool)
  | tryRead (size : ℕ)
  | shrinkIdle (heapReleased ackReleased recvbufGrown : Bool)
  deriving DecidableEq

def access [Output O] [Clock C] (r : Reader O C) : Access → Reader O C × Option (ℕ × Bytes)
  | .input data pktType ackNoDelay =>
    ({ r with kcp := (r.kcp.input data pktType ackNoDelay).1 }, none)
  | .tryRead size => r.tryRead size
  | .shrinkIdle heapReleased ackReleased recvbufGrown =>
    (r.shrinkIdle heapReleased ackReleased recvbufGrown, none)

def popped (r : Reader O C) : Access → List Segment
  | .tryRead _ =>
    if r.bufptrLen = 0 ∧ r.kcp.peekSize > 0 then firstRun r.kcp.rcvQueue.items else []
  | _ => []

def gained [Output O] [Clock C] (r : Reader O C) (a : Access) : List Segment :=
  (r.access a).1.kcp.rcvQueue.items.drop (r.kcp.rcvQueue.length - (r.popped a).length)

/-- Every segment that came to the receive queue in a run, in order. -/
def history [Output O] [Clock C] : Reader O C → List Access → List Segment
  | _, [] => []
  | r, a :: as => r.gained a ++ history (r.access a).1 as

def leftover (r : Reader O C) : Bytes := r.recvbuf.drop r.bufptr

/-- One access in terms of the queue: it takes `popped` off the head and adds `gained` at the end,
and the bytes it returns come from what was left over and from what it popped. -/
structure Moves (r r' : Reader O C) (popped gained : List Segment) (out : Bytes) : Prop where
  bounds : r'.bufptr ≤ r'.recvbuf.length
  queue : ∃ rest, r.kcp.rcvQueue.items = popped ++ rest ∧
    r'.kcp.rcvQueue.items = rest ++ gained
  bytes : r.leftover ++ popped.flatMap Segment.data = out ++ r'.leftover

theorem leftover_eq_nil {r : Reader O C} (h : r.bufptrLen = 0) : r.leftover = [] :=
  List.drop_eq_nil_of_le (Nat.sub_eq_zero_iff_le.mp h)

private theorem recv_queue {k : Kcp O C} (hsome : k.peekSize > 0) {buflen : ℕ}
    (hfits : k.peekSize ≤ buflen) :
    (k.recv buflen).2.2 = (firstRun k.rcvQueue.items).flatMap Segment.data ∧
      ∃ tail, (k.recv buflen).1.rcvQueue.items =
        k.rcvQueue.items.drop (firstRun k.rcvQueue.items).length ++ tail := by
  have hpop := popRun_eq k.rcvQueue.items
  unfold Kcp.recv
  rw [if_neg (by omega), if_neg (by omega), hpop]
  obtain ⟨tail, hitems, -⟩ := (grows_moveReady
    { k with rcvQueue := k.rcvQueue.setItems
              (k.rcvQueue.items.drop (firstRun k.rcvQueue.items).length) }).queue
  exact ⟨rfl, tail, hitems⟩

private theorem items_eq_firstRun (items : List Segment) :
    firstRun items ++ items.drop (firstRun items).length = items := by
  have hpre := List.prefix_iff_eq_take.mp (firstRun_initial items)
  conv_lhs => enter [1]; rw [hpre]
  exact List.take_append_drop _ _

private theorem moves_tryRead {r : Reader O C} (h : r.bufptr ≤ r.recvbuf.length) (size : ℕ) :
    ∃ gained, Moves r (r.tryRead size).1
      (if r.bufptrLen = 0 ∧ r.kcp.peekSize > 0 then firstRun r.kcp.rcvQueue.items else []) gained
      (readBytes (r.tryRead size).2) := by
  by_cases hleft : r.bufptrLen > 0
  · rw [tryRead, if_pos hleft, if_neg fun hempty => hleft.ne' hempty.1]
    refine ⟨[], ?_, ⟨_, rfl, (List.append_nil _).symm⟩, ?_⟩
    · have hle : min size r.bufptrLen ≤ r.recvbuf.length - r.bufptr := min_le_right _ _
      show r.bufptr + min size r.bufptrLen ≤ r.recvbuf.length
      omega
    · show r.leftover ++ [] = (r.recvbuf.drop r.bufptr).take (min size r.bufptrLen) ++
        r.recvbuf.drop (r.bufptr + min size r.bufptrLen)
      rw [List.append_nil, ← List.drop_drop, List.take_append_drop]
      rfl
  have hnil := leftover_eq_nil (r := r) (by omega)
  have hzero : r.bufptrLen = 0 := by omega
  by_cases hsome : r.kcp.peekSize > 0
  · rw [if_pos ⟨hzero, hsome⟩, tryRead, if_neg hleft, if_pos hsome]
    dsimp only
    split_ifs with hdirect
    · obtain ⟨hbytes, tail, htail⟩ := recv_queue hsome
        (show r.kcp.peekSize ≤ (size : ℤ) by omega)
      refine ⟨tail, h, ⟨_, (items_eq_firstRun _).symm, htail⟩, ?_⟩
      have hkeep : ({ r with kcp := (r.kcp.recv size).1 } : Reader O C).leftover = [] := hnil
      rw [hnil, hkeep, List.nil_append, List.append_nil]
      exact hbytes.symm
    · obtain ⟨hbytes, tail, htail⟩ := recv_queue hsome
        (show r.kcp.peekSize ≤ (r.kcp.peekSize.toNat : ℤ) from Int.self_le_toNat _)
      refine ⟨tail, min_le_right _ _, ⟨_, (items_eq_firstRun _).symm, htail⟩, ?_⟩
      rw [hnil, List.nil_append, ← hbytes]
      exact (List.take_append_drop _ _).symm
  · rw [if_neg fun hboth => hsome hboth.2, tryRead, if_neg hleft, if_neg hsome]
    exact ⟨[], h, ⟨_, rfl, (List.append_nil _).symm⟩, List.append_nil _⟩

private theorem count_tryRead {r : Reader O C} {size n : ℕ} {bytes : Bytes}
    (hread : (r.tryRead size).2 = some (n, bytes)) : bytes.length = n ∧ n ≤ size := by
  unfold tryRead at hread
  dsimp only at hread
  split_ifs at hread with hleft hsome hdirect
  · cases hread
    refine ⟨List.length_take_of_le ?_, min_le_left _ _⟩
    rw [List.length_drop]
    exact min_le_right _ _
  · cases hread
    exact ⟨length_recv hsome (by omega), hdirect⟩
  · cases hread
    exact ⟨List.length_take_of_le (min_le_right _ _), min_le_left _ _⟩

section Run

variable [Output O] [Clock C]

omit [Output O] [Clock C] in
private theorem items_shrinkIdle (r : Reader O C) (heapReleased ackReleased recvbufGrown : Bool) :
    (r.shrinkIdle heapReleased ackReleased recvbufGrown).kcp.rcvQueue.items =
      r.kcp.rcvQueue.items := by
  have hkcp : (r.kcp.shrinkIdleBuffers heapReleased ackReleased).1.rcvQueue.items =
      r.kcp.rcvQueue.items := by
    simp only [Kcp.shrinkIdleBuffers]
    split_ifs <;> simp
  unfold shrinkIdle
  dsimp only
  split_ifs <;> exact hkcp

private theorem moves_access {r : Reader O C} (h : r.bufptr ≤ r.recvbuf.length) (a : Access) :
    Moves r (r.access a).1 (r.popped a) (r.gained a) (readBytes (r.access a).2) := by
  have hgained : ∀ gained, Moves r (r.access a).1 (r.popped a) gained (readBytes (r.access a).2) →
      r.gained a = gained := by
    rintro gained ⟨-, ⟨rest, hbefore, hafter⟩, -⟩
    have hlen : r.kcp.rcvQueue.length - (r.popped a).length = rest.length := by
      rw [Fifo.length, hbefore, List.length_append]
      omega
    rw [Reader.gained, hlen, hafter, List.drop_left]
  obtain ⟨gained, hmoves⟩ : ∃ gained,
      Moves r (r.access a).1 (r.popped a) gained (readBytes (r.access a).2) := by
    cases a with
    | input data pktType ackNoDelay =>
      obtain ⟨tail, hitems, -⟩ := (grows_input r.kcp data pktType ackNoDelay).queue
      exact ⟨tail, h, ⟨_, rfl, hitems⟩, List.append_nil _⟩
    | tryRead size => exact moves_tryRead h size
    | shrinkIdle heapReleased ackReleased recvbufGrown =>
      have hitems := r.items_shrinkIdle heapReleased ackReleased recvbufGrown
      refine ⟨[], ?_, ⟨_, rfl, hitems.trans (List.append_nil _).symm⟩, ?_⟩
      · simp only [access, shrinkIdle]
        split_ifs
        · exact le_rfl
        · exact h
      · simp only [access, shrinkIdle, popped]
        split_ifs with hdrop
        · rw [leftover_eq_nil (Nat.sub_eq_zero_of_le hdrop.1)]
          rfl
        · exact List.append_nil _
  rw [hgained gained hmoves]
  exact hmoves

private theorem bounds_run {r : Reader O C} (h : r.bufptr ≤ r.recvbuf.length) (as : List Access) :
    (run access r as).1.bufptr ≤ (run access r as).1.recvbuf.length :=
  run_invariant (fun r : Reader O C => r.bufptr ≤ r.recvbuf.length) (fun _ => True)
    (fun _ a _ hr => (moves_access hr a).bounds) (fun _ _ => trivial) h

/-- Over a whole run nothing is lost or repeated: what was left over and queued at the start and
what came to the queue since is what was returned, is left over and is still queued. -/
theorem bytes_run {r : Reader O C} (h : r.bufptr ≤ r.recvbuf.length) (as : List Access) :
    r.leftover ++ (r.kcp.rcvQueue.items ++ history r as).flatMap Segment.data =
      (run access r as).2.flatMap readBytes ++ (run access r as).1.leftover ++
        (run access r as).1.kcp.rcvQueue.items.flatMap Segment.data := by
  induction as generalizing r with
  | nil => simp [history]
  | cons a as ih =>
    obtain ⟨hbounds, ⟨rest, hbefore, hafter⟩, hbytes⟩ := moves_access h a
    have hrest := ih hbounds
    rw [hafter] at hrest
    rw [run_cons, history, hbefore]
    simp only [List.flatMap_cons, List.flatMap_append, ← List.append_assoc] at hrest ⊢
    rw [hbytes]
    simp only [List.append_assoc] at hrest ⊢
    rw [hrest]

/-- From a new session, over every order of packets, reads and idle shrinking: what the reads return
is a prefix of the payloads that came to the receive queue, followed by what is left over and what
is still queued; `bufptr` stays within `recvbuf`, no slice of either read path is out of range, and
`recv` moves exactly `peek_size` bytes whatever is queued. -/
theorem reads_exact {O C : Type} [Output O] [Clock C] (k : Kcp O C) (as : List Access) :
    (k.rcvQueue.items ++ history (new k) as).flatMap Segment.data =
        (run access (new k) as).2.flatMap readBytes ++ (run access (new k) as).1.leftover ++
          (run access (new k) as).1.kcp.rcvQueue.items.flatMap Segment.data ∧
      (run access (new k) as).1.bufptr ≤ (run access (new k) as).1.recvbuf.length ∧
      (∀ size n bytes, ((run access (new k) as).1.tryRead size).2 = some (n, bytes) →
        bytes.length = n ∧ n ≤ size) ∧
      (∀ (b : Bytes) (roomy : Bool), (run access (new k) as).1.tryReadChecked b roomy =
        some (((run access (new k) as).1.tryRead b.length).1,
          ((run access (new k) as).1.tryRead b.length).2.map Prod.fst,
          readBytes ((run access (new k) as).1.tryRead b.length).2 ++
            b.drop (readBytes ((run access (new k) as).1.tryRead b.length).2).length)) ∧
      ∀ (k : Kcp O C) (buffer : Bytes), ∃ k' code out,
        recvChecked k buffer = some (k', code, out) ∧ RecvExact k k' buffer out code := by
  have hstart : (new k).bufptr ≤ (new k).recvbuf.length := by
    rw [new, List.length_replicate]
  have hbytes := bytes_run hstart as
  have hbounds := bounds_run hstart as
  have hnil : (new k).leftover = [] :=
    leftover_eq_nil (Nat.sub_eq_zero_of_le (by rw [new, List.length_replicate]))
  rw [hnil, List.nil_append] at hbytes
  exact ⟨hbytes, hbounds, fun _ _ _ => count_tryRead, tryReadChecked_eq hbounds, recv_exact⟩

end Run

end Reader

end Kcptun.Session
