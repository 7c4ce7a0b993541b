/- Kcptun/Arq/Grammar
   source: crates/kcp/src/kcp.rs (input, ikcp_decode*), segment.rs (SegmentHeader::decode)
   digest: What a byte string reads as to a connection, and that `input` answers and acts by it on
     every byte string, with every slice in range. -/

import Kcptun.Arq.PacketSize

set_option autoImplicit false
set_option relaxedAutoImplicit false

namespace Kcptun.Arq

open Kcptun.Lib Kcptun.Lib.LittleEndian

/-- A header and the payload it announces. -/
abbrev Piece := SegmentHeader × Bytes

/-- How a packet reads to a receiver of conversation `conv`: its well-formed segments up to the
first malformed position, and the status of that position. The three checks of a segment are made
in this order; fewer than 24 bytes end the packet. -/
inductive Reads (conv : UInt32) : Bytes → List Piece → Int → Prop
  | done {data : Bytes} (hshort : data.length < IKCP_OVERHEAD) : Reads conv data [] 0
  | badConv {data rest : Bytes} {h : SegmentHeader}
      (hdecode : SegmentHeader.decode data = some (h, rest)) (hconv : h.conv ≠ conv) :
      Reads conv data [] (-1)
  | badLen {data rest : Bytes} {h : SegmentHeader}
      (hdecode : SegmentHeader.decode data = some (h, rest)) (hconv : h.conv = conv)
      (hlen : rest.length < h.len.toNat) : Reads conv data [] (-2)
  | badCmd {data rest : Bytes} {h : SegmentHeader}
      (hdecode : SegmentHeader.decode data = some (h, rest)) (hconv : h.conv = conv)
      (hlen : h.len.toNat ≤ rest.length) (hcmd : ¬ IsCommand h.cmd) : Reads conv data [] (-3)
  | segment {data payload rest : Bytes} {h : SegmentHeader} {pieces : List Piece} {code : Int}
      (hdecode : SegmentHeader.decode data = some (h, payload ++ rest)) (hconv : h.conv = conv)
      (hlen : payload.length = h.len.toNat) (hcmd : IsCommand h.cmd)
      (hrest : Reads conv rest pieces code) : Reads conv data ((h, payload) :: pieces) code

def Verdict (conv : UInt32) (data : Bytes) (pieces : List Piece) (code : Int) : Prop :=
  if data.length < IKCP_OVERHEAD then pieces = [] ∧ code = -1 else Reads conv data pieces code

private theorem decode_eq_none {data : Bytes} :
    SegmentHeader.decode data = none ↔ data.length < IKCP_OVERHEAD := by
  unfold SegmentHeader.decode
  split_ifs with hlen
  · exact iff_of_true rfl hlen
  · exact iff_of_false nofun hlen

private theorem isCommand_iff {cmd : UInt8} :
    ¬ IsCommand cmd ↔ cmd ≠ IKCP_CMD_PUSH ∧ cmd ≠ IKCP_CMD_ACK ∧ cmd ≠ IKCP_CMD_WASK ∧
      cmd ≠ IKCP_CMD_WINS := by
  simp only [IsCommand, not_or, ne_eq]

namespace Reads

variable {conv : UInt32}

theorem unique {data : Bytes} {p₁ p₂ : List Piece} {c₁ c₂ : Int} (h₁ : Reads conv data p₁ c₁)
    (h₂ : Reads conv data p₂ c₂) : p₁ = p₂ ∧ c₁ = c₂ := by
  induction h₁ generalizing p₂ c₂ with
  | done hshort =>
    cases h₂ with
    | done => exact ⟨rfl, rfl⟩
    | _ hdecode => rw [decode_eq_none.mpr hshort] at hdecode; cases hdecode
  | badConv hdecode hconv =>
    cases h₂ with
    | done hshort => rw [decode_eq_none.mpr hshort] at hdecode; cases hdecode
    | badConv => exact ⟨rfl, rfl⟩
    | _ hdecode' hconv' => rw [hdecode] at hdecode'; cases hdecode'; exact absurd hconv' hconv
  | badLen hdecode hconv hlen =>
    cases h₂ with
    | done hshort => rw [decode_eq_none.mpr hshort] at hdecode; cases hdecode
    | badConv hdecode' hconv' =>
      rw [hdecode] at hdecode'; cases hdecode'; exact absurd hconv hconv'
    | badLen => exact ⟨rfl, rfl⟩
    | badCmd hdecode' _ hlen' => rw [hdecode] at hdecode'; cases hdecode'; omega
    | segment hdecode' _ hlen' =>
      rw [hdecode] at hdecode'
      cases hdecode'
      rw [List.length_append] at hlen
      omega
  | badCmd hdecode hconv hlen hcmd =>
    cases h₂ with
    | done hshort => rw [decode_eq_none.mpr hshort] at hdecode; cases hdecode
    | badConv hdecode' hconv' =>
      rw [hdecode] at hdecode'; cases hdecode'; exact absurd hconv hconv'
    | badLen hdecode' _ hlen' => rw [hdecode] at hdecode'; cases hdecode'; omega
    | badCmd => exact ⟨rfl, rfl⟩
    | segment hdecode' _ _ hcmd' =>
      rw [hdecode] at hdecode'; cases hdecode'; exact absurd hcmd' hcmd
  | segment hdecode hconv hlen hcmd _ ih =>
    cases h₂ with
    | done hshort => rw [decode_eq_none.mpr hshort] at hdecode; cases hdecode
    | badConv hdecode' hconv' =>
      rw [hdecode] at hdecode'; cases hdecode'; exact absurd hconv hconv'
    | badLen hdecode' _ hlen' =>
      rw [hdecode] at hdecode'
      cases hdecode'
      rw [List.length_append] at hlen'
      omega
    | badCmd hdecode' _ _ hcmd' =>
      rw [hdecode] at hdecode'; cases hdecode'; exact absurd hcmd hcmd'
    | segment hdecode' _ hlen' _ hrest' =>
      rw [hdecode] at hdecode'
      injection hdecode' with hpair
      injection hpair with hh htail
      subst hh
      obtain ⟨rfl, rfl⟩ := List.append_inj htail (hlen.trans hlen'.symm)
      obtain ⟨rfl, rfl⟩ := ih hrest'
      exact ⟨rfl, rfl⟩

end Reads

/-- A panicking read of the source: `none` is an index out of range. -/
def decode8uChecked : Bytes → Option (UInt8 × Bytes)
  | c :: p => some (c, p)
  | _ => none

def decode16uChecked : Bytes → Option (UInt16 × Bytes)
  | a :: b :: p => some (ofLe16 a b, p)
  | _ => none

def decode32uChecked : Bytes → Option (UInt32 × Bytes)
  | a :: b :: c :: d :: p => some (ofLe32 a b c d, p)
  | _ => none

/-- `SegmentHeader::decode` after its length check, with panicking reads. -/
def headerChecked (data : Bytes) : Option (SegmentHeader × Bytes) := do
  let (conv, data) ← decode32uChecked data
  let (cmd, data) ← decode8uChecked data
  let (frg, data) ← decode8uChecked data
  let (wnd, data) ← decode16uChecked data
  let (ts, data) ← decode32uChecked data
  let (sn, data) ← decode32uChecked data
  let (una, data) ← decode32uChecked data
  let (len, data) ← decode32uChecked data
  return ({ conv, cmd, frg, wnd, ts, sn, una, len }, data)

private theorem decode8uChecked_eq {p : Bytes} (h : 1 ≤ p.length) :
    decode8uChecked p = some (ikcpDecode8u p) := by
  rcases p with _ | ⟨a, p⟩
  · exact absurd h (Nat.not_succ_le_zero 0)
  · rfl

private theorem decode16uChecked_eq {p : Bytes} (h : 2 ≤ p.length) :
    decode16uChecked p = some (ikcpDecode16u p) := by
  rcases p with _ | ⟨a, _ | ⟨b, p⟩⟩
  · exact absurd h (Nat.not_succ_le_zero 1)
  · exact absurd h (Nat.not_succ_le_self 1)
  · rfl

private theorem decode32uChecked_eq {p : Bytes} (h : 4 ≤ p.length) :
    decode32uChecked p = some (ikcpDecode32u p) := by
  rcases p with _ | ⟨a, _ | ⟨b, _ | ⟨c, _ | ⟨d, p⟩⟩⟩⟩
  · simp at h
  · simp at h
  · simp at h
  · simp at h
  · rfl

private theorem headerChecked_eq {data : Bytes} (h : ¬ data.length < IKCP_OVERHEAD) :
    headerChecked data = SegmentHeader.decode data := by
  rw [SegmentHeader.decode, if_neg h, headerChecked]
  rw [IKCP_OVERHEAD] at h
  simp (disch := (try simp only [length_decode8u, length_decode16u, length_decode32u]); omega) only
    [decode8uChecked_eq, decode16uChecked_eq, decode32uChecked_eq, Option.bind_eq_bind,
      Option.bind_some, pure]

/-- `(&data[..n], &data[n..])`. -/
def sliceChecked (data : Bytes) (n : ℕ) : Option (Bytes × Bytes) :=
  if n ≤ data.length then some (data.take n, data.drop n) else none

namespace Kcp

variable {O C : Type} [Output O] [Clock C]

/-- The parse loop as the source runs it: every slice is checked, and running out of turns is a
failure too. -/
def inputLoopChecked (pktType : PacketType) :
    ℕ → Kcp O C → Parsed → Bytes → Option (Kcp O C × Except Int Parsed)
  | 0, _, _, _ => none
  | turns + 1, k, acc, data =>
    if data.length < IKCP_OVERHEAD then some (k, .ok acc) else do
      let (h, rest) ← headerChecked data
      if h.conv ≠ k.conv then return (k, .error (-1))
      if rest.length < h.len.toNat then return (k, .error (-2))
      if h.cmd ≠ IKCP_CMD_PUSH ∧ h.cmd ≠ IKCP_CMD_ACK ∧ h.cmd ≠ IKCP_CMD_WASK ∧
          h.cmd ≠ IKCP_CMD_WINS then return (k, .error (-3))
      let (payload, rest) ← sliceChecked rest h.len.toNat
      let (k, acc) := k.inputSegment pktType acc h payload
      inputLoopChecked pktType turns k acc rest

def inputFinish (k : Kcp O C) (sndUna : UInt32) (acc : Parsed) (pktType : PacketType)
    (ackNoDelay : Bool) : Kcp O C × Int :=
  let k := (k.inputRtt pktType acc).inputCwnd sndUna
  match k.inputFlush acc ackNoDelay with
  | some flushType => ((k.flush flushType).1, 0)
  | none => (k, 0)

/-- `input` with the checked parse loop, which may take `turns` turns. -/
def inputChecked (turns : ℕ) (k : Kcp O C) (data : Bytes) (pktType : PacketType)
    (ackNoDelay : Bool) : Option (Kcp O C × Int) :=
  if data.length < IKCP_OVERHEAD then some (k, -1) else do
    match ← inputLoopChecked pktType turns k {} data with
    | (k', .error e) => return (k', e)
    | (k', .ok acc) => return k'.inputFinish k.sndUna acc pktType ackNoDelay

omit [Output O] [Clock C] in
private theorem inputLoopChecked_eq (pktType : PacketType) {turns fuel : ℕ} (k : Kcp O C)
    (acc : Parsed) {data : Bytes} (hturns : data.length < turns) (hfuel : data.length ≤ fuel) :
    inputLoopChecked pktType turns k acc data = some (inputLoop pktType fuel k acc data) := by
  induction turns generalizing fuel k acc data with
  | zero => exact absurd hturns (Nat.not_lt_zero _)
  | succ turns ih =>
    simp only [inputLoopChecked]
    split_ifs with hshort
    · cases fuel with
      | zero => rfl
      | succ fuel => rw [inputLoop, decode_eq_none.mpr hshort]
    · obtain ⟨⟨h, rest⟩, hdecode⟩ := Option.ne_none_iff_exists'.mp (mt decode_eq_none.mp hshort)
      have htaken := decode_length hdecode
      simp only [IKCP_OVERHEAD] at htaken
      obtain ⟨fuel, rfl⟩ : ∃ n, fuel = n + 1 := ⟨fuel - 1, by omega⟩
      rw [headerChecked_eq hshort, hdecode, inputLoop, hdecode]
      simp only [Option.bind_eq_bind, Option.bind_some]
      split_ifs with hconv hlen hcmd
      · rfl
      · rfl
      · rfl
      · rw [sliceChecked, if_pos (by omega), Option.bind_some]
        exact ih _ _ (by rw [List.length_drop]; omega) (by rw [List.length_drop]; omega)

private theorem inputChecked_eq {turns : ℕ} (k : Kcp O C) {data : Bytes} (pktType : PacketType)
    (ackNoDelay : Bool) (hturns : data.length < turns) :
    k.inputChecked turns data pktType ackNoDelay = some (k.input data pktType ackNoDelay) := by
  rw [inputChecked, input, inputParse]
  split_ifs with hshort
  · rfl
  · rw [inputLoopChecked_eq pktType k {} hturns le_rfl]
    rcases inputLoop pktType data.length k {} data with ⟨k', _ | acc⟩
    · rfl
    · rfl

/-- The well-formed segments of a packet, one after the other. -/
def absorb (pktType : PacketType) (k : Kcp O C) (pieces : List Piece) : Kcp O C :=
  pieces.foldl (fun k piece => (k.inputSegment pktType {} piece.1 piece.2).1) k

/-- The estimator, the congestion window and the packets handed to the output are as before. -/
structure Untouched (k k' : Kcp O C) : Prop where
  estimator : k'.rxSrtt = k.rxSrtt ∧ k'.rxRttvar = k.rxRttvar ∧ k'.rxRto = k.rxRto
  congestion : k'.cwnd = k.cwnd ∧ k'.ssthresh = k.ssthresh ∧ k'.incr = k.incr
  output : k'.output = k.output

omit [Output O] [Clock C] in
private theorem Untouched.refl (k : Kcp O C) :
    k.Untouched k := ⟨⟨rfl, rfl, rfl⟩, ⟨rfl, rfl, rfl⟩, rfl⟩

omit [Output O] [Clock C] in
private theorem Untouched.trans {k₁ k₂ k₃ : Kcp O C} (h : k₁.Untouched k₂) (h' : k₂.Untouched k₃) :
    k₁.Untouched k₃ :=
  ⟨⟨h'.1.1.trans h.1.1, h'.1.2.1.trans h.1.2.1, h'.1.2.2.trans h.1.2.2⟩,
    ⟨h'.2.1.trans h.2.1, h'.2.2.1.trans h.2.2.1, h'.2.2.2.trans h.2.2.2⟩, h'.3.trans h.3⟩

omit [Output O] [Clock C] in
private theorem untouched_inputHeader (k : Kcp O C) (pktType : PacketType) (h : SegmentHeader) :
    k.Untouched (k.inputHeader pktType h).1 := by
  simp only [inputHeader]
  split_ifs <;> exact ⟨⟨rfl, rfl, rfl⟩, ⟨rfl, rfl, rfl⟩, rfl⟩

omit [Output O] [Clock C] in
private theorem untouched_inputSegment (k : Kcp O C) (pktType : PacketType) (acc : Parsed)
    (h : SegmentHeader) (payload : Bytes) :
    k.Untouched (k.inputSegment pktType acc h payload).1 := by
  refine (k.untouched_inputHeader pktType h).trans ?_
  simp only [inputSegment]
  split_ifs
  · simp only [parseFastack, parseAck]
    repeat' split
    all_goals exact ⟨⟨rfl, rfl, rfl⟩, ⟨rfl, rfl, rfl⟩, rfl⟩
  · simp only [inputPush, parseData]
    split_ifs <;> exact ⟨⟨rfl, rfl, rfl⟩, ⟨rfl, rfl, rfl⟩, rfl⟩
  · exact ⟨⟨rfl, rfl, rfl⟩, ⟨rfl, rfl, rfl⟩, rfl⟩
  · exact ⟨⟨rfl, rfl, rfl⟩, ⟨rfl, rfl, rfl⟩, rfl⟩

omit [Output O] [Clock C] in
private theorem untouched_absorb (pktType : PacketType) (k : Kcp O C) (pieces : List Piece) :
    k.Untouched (k.absorb pktType pieces) := by
  induction pieces generalizing k with
  | nil => exact .refl k
  | cons piece pieces ih => exact (k.untouched_inputSegment pktType {} _ _).trans (ih _)

omit [Output O] [Clock C] in
private theorem inputSegment_fst (k : Kcp O C) (pktType : PacketType) (acc : Parsed)
    (h : SegmentHeader) (payload : Bytes) :
    (k.inputSegment pktType acc h payload).1 = (k.inputSegment pktType {} h payload).1 := by
  simp only [inputSegment]
  split_ifs <;> rfl

def status : Except Int Parsed → Int
  | .ok _ => 0
  | .error code => code

omit [Output O] [Clock C] in
theorem inputLoop_reads (pktType : PacketType) {fuel : ℕ} (k : Kcp O C) (acc : Parsed)
    {data : Bytes} (hfuel : data.length ≤ fuel) :
    ∃ pieces, Reads k.conv data pieces (status (inputLoop pktType fuel k acc data).2) ∧
      (inputLoop pktType fuel k acc data).1 = k.absorb pktType pieces := by
  induction fuel generalizing k acc data with
  | zero =>
    refine ⟨[], .done ?_, rfl⟩
    rw [Nat.le_zero.mp hfuel]
    decide
  | succ fuel ih =>
    rw [inputLoop]
    rcases hdecode : SegmentHeader.decode data with _ | ⟨h, rest⟩
    · exact ⟨[], .done (decode_eq_none.mp hdecode), rfl⟩
    have htaken := decode_length hdecode
    simp only [IKCP_OVERHEAD] at htaken
    simp only
    split_ifs with hconv hlen hcmd
    · exact ⟨[], .badConv hdecode hconv, rfl⟩
    · exact ⟨[], .badLen hdecode (not_not.mp hconv) hlen, rfl⟩
    · exact ⟨[], .badCmd hdecode (not_not.mp hconv) (not_lt.mp hlen) (isCommand_iff.mpr hcmd), rfl⟩
    · obtain ⟨pieces, hreads, hstate⟩ := ih
        (k.inputSegment pktType acc h (rest.take h.len.toNat)).1
        (k.inputSegment pktType acc h (rest.take h.len.toNat)).2
        (show (rest.drop h.len.toNat).length ≤ fuel by rw [List.length_drop]; omega)
      have hkeep := (k.releases_inputSegment pktType acc h (rest.take h.len.toNat)).view
      refine ⟨(h, rest.take h.len.toNat) :: pieces,
        @Reads.segment _ _ _ (rest.drop h.len.toNat) _ _ _ ?_ (not_not.mp hconv) ?_ ?_ ?_, ?_⟩
      · rw [List.take_append_drop]
        exact hdecode
      · exact List.length_take_of_le (not_lt.mp hlen)
      · exact not_not.mp (mt isCommand_iff.mp hcmd)
      · have hconv' : (k.inputSegment pktType acc h (rest.take h.len.toNat)).1.conv = k.conv :=
          congrArg OutView.conv hkeep
        rwa [hconv'] at hreads
      · rw [hstate, inputSegment_fst]
        rfl

/-- On every byte string `input` ends without an index out of range, its result is the status
the bytes read as, and a malformed packet leaves exactly its well-formed segments absorbed. -/
theorem input_reads (k : Kcp O C) (data : Bytes) (pktType : PacketType) (ackNoDelay : Bool) :
    ∃ pieces code, Verdict k.conv data pieces code ∧
      (∀ pieces' code', Verdict k.conv data pieces' code' → pieces' = pieces ∧ code' = code) ∧
      k.inputChecked (data.length + 1) data pktType ackNoDelay =
        some (k.input data pktType ackNoDelay) ∧
      (k.input data pktType ackNoDelay).2 = code ∧
      (code ≠ 0 → (k.input data pktType ackNoDelay).1 = k.absorb pktType pieces ∧
        k.Untouched (k.input data pktType ackNoDelay).1) := by
  have hchecked := k.inputChecked_eq pktType ackNoDelay (Nat.lt_succ_self data.length)
  by_cases hshort : data.length < IKCP_OVERHEAD
  · have hinput : k.input data pktType ackNoDelay = (k, -1) := by
      rw [input, inputParse, if_pos hshort]
    refine ⟨[], -1, ?_, ?_, hchecked, ?_, ?_⟩
    · rw [Verdict, if_pos hshort]
      exact ⟨rfl, rfl⟩
    · intro pieces' code' h
      rwa [Verdict, if_pos hshort] at h
    · rw [hinput]
    · intro _
      rw [hinput]
      exact ⟨rfl, .refl k⟩
  · obtain ⟨pieces, hreads, hstate⟩ := inputLoop_reads pktType k {} (le_refl data.length)
    refine ⟨pieces, status (inputLoop pktType data.length k {} data).2, ?_, ?_, hchecked, ?_, ?_⟩
    · rw [Verdict, if_neg hshort]
      exact hreads
    · intro pieces' code' h
      rw [Verdict, if_neg hshort] at h
      exact h.unique hreads
    · rw [input, inputParse, if_neg hshort]
      rcases inputLoop pktType data.length k {} data with ⟨k', code | acc⟩
      · rfl
      · simp only [status]
        split <;> rfl
    · intro hcode
      have hinput : (k.input data pktType ackNoDelay).1 = k.absorb pktType pieces := by
        rw [input, inputParse, if_neg hshort, ← hstate]
        revert hcode
        rcases inputLoop pktType data.length k {} data with ⟨k', code | acc⟩
        · intro _
          rfl
        · intro hcode
          exact absurd rfl hcode
      rw [hinput]
      exact ⟨rfl, k.untouched_absorb pktType pieces⟩

end Kcp

end Kcptun.Arq
