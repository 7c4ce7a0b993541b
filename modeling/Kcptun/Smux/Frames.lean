/- Kcptun/Smux/Frames
   source: crates/smux/src/frame.rs (Frame, RawHeader, UpdHeader, check_protocol),
     crates/smux/src/session.rs (OwnedFrame, send_loop)
   digest: The frames of a session: the header and the window update on the wire, the check that a
     received header has to pass, and that every frame a session writes passes it. -/

import Kcptun.Lib.LittleEndian
import Kcptun.Smux.Config

set_option autoImplicit false
set_option relaxedAutoImplicit false

namespace Kcptun.Smux.Frames

open Kcptun.Lib.LittleEndian

def CMD_SYN : UInt8 := 0
def CMD_FIN : UInt8 := 1
def CMD_PSH : UInt8 := 2
def CMD_NOP : UInt8 := 3
def CMD_UPD : UInt8 := 4

def SZ_CMD_UPD : ℕ := 8

def SIZE_OF_VER : ℕ := 1
def SIZE_OF_CMD : ℕ := 1
def SIZE_OF_LENGTH : ℕ := 2
def SIZE_OF_SID : ℕ := 4
def HEADER_SIZE : ℕ := SIZE_OF_VER + SIZE_OF_CMD + SIZE_OF_SID + SIZE_OF_LENGTH

inductive Error where
  | invalidProtocol
deriving DecidableEq, Repr

structure RawHeader where
  bytes : Bytes
  size : bytes.length = HEADER_SIZE
deriving DecidableEq

namespace RawHeader

def new (version cmd : UInt8) (length : UInt16) (sid : UInt32) : RawHeader :=
  ⟨[version, cmd] ++ le16 length ++ le32 sid, rfl⟩

def fromBytes (b : Bytes) : Option RawHeader :=
  if h : HEADER_SIZE ≤ b.length then some ⟨b.take HEADER_SIZE, List.length_take_of_le h⟩ else none

def byte (h : RawHeader) (i : Fin 8) : UInt8 := h.bytes.get (i.cast h.size.symm)

def version (h : RawHeader) : UInt8 := h.byte 0

def cmd (h : RawHeader) : UInt8 := h.byte 1

def length (h : RawHeader) : UInt16 := ofLe16 (h.byte 2) (h.byte 3)

def streamId (h : RawHeader) : UInt32 := ofLe32 (h.byte 4) (h.byte 5) (h.byte 6) (h.byte 7)

def checkProtocol (h : RawHeader) (version : UInt8) : Except Error Unit :=
  if h.version ≠ version then .error .invalidProtocol
  else if h.cmd = CMD_NOP ∨ h.cmd = CMD_SYN ∨ h.cmd = CMD_FIN then
    if h.length ≠ 0 then .error .invalidProtocol else .ok ()
  else if h.cmd = CMD_PSH then .ok ()
  else if h.cmd = CMD_UPD then
    if version ≠ 2 then .error .invalidProtocol
    else if h.length.toNat ≠ SZ_CMD_UPD then .error .invalidProtocol
    else .ok ()
  else .error .invalidProtocol

end RawHeader

/-- The payload of a window update: how much the sender of it has consumed, and how large its
window is. -/
structure UpdHeader where
  bytes : Bytes
  size : bytes.length = SZ_CMD_UPD
deriving DecidableEq

namespace UpdHeader

def new (consumed window : UInt32) : UpdHeader := ⟨le32 consumed ++ le32 window, rfl⟩

def fromBytes (b : Bytes) : Option UpdHeader :=
  if h : SZ_CMD_UPD ≤ b.length then some ⟨b.take SZ_CMD_UPD, List.length_take_of_le h⟩ else none

def byte (u : UpdHeader) (i : Fin 8) : UInt8 := u.bytes.get (i.cast u.size.symm)

def consumed (u : UpdHeader) : UInt32 := ofLe32 (u.byte 0) (u.byte 1) (u.byte 2) (u.byte 3)

def window (u : UpdHeader) : UInt32 := ofLe32 (u.byte 4) (u.byte 5) (u.byte 6) (u.byte 7)

end UpdHeader

structure Frame where
  ver : UInt8
  cmd : UInt8
  sid : UInt32
  data : Bytes
deriving DecidableEq, Repr

namespace Frame

def new (version cmd : UInt8) (sid : UInt32) : Frame := ⟨version, cmd, sid, []⟩

def withData (version cmd : UInt8) (sid : UInt32) (data : Bytes) : Frame := ⟨version, cmd, sid, data⟩

def header (f : Frame) : RawHeader := .new f.ver f.cmd (UInt16.ofNat f.data.length) f.sid

def encodedLen (f : Frame) : ℕ := HEADER_SIZE + f.data.length

def encode (f : Frame) : Bytes := f.header.bytes ++ f.data

/-- A session of this version accepts the frame, and the length field tells the payload's length. -/
structure Valid (version : UInt8) (f : Frame) : Prop where
  checked : f.header.checkProtocol version = .ok ()
  fits : f.data.length ≤ 65535

end Frame

/-! The header. -/

namespace RawHeader

variable {h : RawHeader} {version cmd : UInt8} {len : UInt16} {sid : UInt32} {b : Bytes}

@[simp] theorem version_new : (new version cmd len sid).version = version := rfl

@[simp] theorem cmd_new : (new version cmd len sid).cmd = cmd := rfl

@[simp] theorem length_new : (new version cmd len sid).length = len := ofLe16_le16 len

@[simp] theorem streamId_new : (new version cmd len sid).streamId = sid := ofLe32_le32 sid

private theorem new_fields (h : RawHeader) : new h.version h.cmd h.length h.streamId = h := by
  obtain ⟨bytes, hsize⟩ := h
  match bytes, hsize with
  | [a, b, c, d, e, f, g, i], _ =>
    have hlen : le16 (ofLe16 c d) = [c, d] := le16_ofLe16 c d
    have hsid : le32 (ofLe32 e f g i) = [e, f, g, i] := le32_ofLe32 e f g i
    unfold new
    congr 1
    change [a, b] ++ le16 (ofLe16 c d) ++ le32 (ofLe32 e f g i) = _
    rw [hlen, hsid]
    rfl

theorem fromBytes_append (h : RawHeader) (b : Bytes) : fromBytes (h.bytes ++ b) = some h := by
  have hle : HEADER_SIZE ≤ (h.bytes ++ b).length := by
    rw [List.length_append, h.size]
    exact Nat.le_add_right _ _
  have htake : (h.bytes ++ b).take HEADER_SIZE = h.bytes := List.take_left' h.size
  rw [fromBytes, dif_pos hle]
  exact congrArg some (by cases h; congr 1)

theorem checkProtocol_ok : h.checkProtocol version = .ok () ↔ h.version = version ∧
    ((h.cmd = CMD_NOP ∨ h.cmd = CMD_SYN ∨ h.cmd = CMD_FIN) ∧ h.length = 0 ∨ h.cmd = CMD_PSH ∨
      h.cmd = CMD_UPD ∧ version = 2 ∧ h.length.toNat = SZ_CMD_UPD) := by
  unfold checkProtocol
  constructor
  · intro hok
    split_ifs at hok with hversion hplain hlen hpsh hupd htwo hsize
    · exact ⟨Decidable.not_not.mp hversion, .inl ⟨hplain, Decidable.not_not.mp hlen⟩⟩
    · exact ⟨Decidable.not_not.mp hversion, .inr (.inl hpsh)⟩
    · exact ⟨Decidable.not_not.mp hversion,
        .inr (.inr ⟨hupd, Decidable.not_not.mp htwo, Decidable.not_not.mp hsize⟩)⟩
  · rintro ⟨hversion, ⟨hplain, hlen⟩ | hpsh | ⟨hupd, htwo, hsize⟩⟩
    · rw [if_neg (not_not_intro hversion), if_pos hplain, if_neg (not_not_intro hlen)]
    · have hother : ¬(h.cmd = CMD_NOP ∨ h.cmd = CMD_SYN ∨ h.cmd = CMD_FIN) := by
        rw [hpsh]
        decide
      rw [if_neg (not_not_intro hversion), if_neg hother, if_pos hpsh]
    · have hother : ¬(h.cmd = CMD_NOP ∨ h.cmd = CMD_SYN ∨ h.cmd = CMD_FIN) := by
        rw [hupd]
        decide
      have hpsh : h.cmd ≠ CMD_PSH := by
        rw [hupd]
        decide
      rw [if_neg (not_not_intro hversion), if_neg hother, if_neg hpsh, if_pos hupd,
        if_neg (not_not_intro htwo), if_neg (not_not_intro hsize)]

theorem checkProtocol_error (hbad : h.checkProtocol version ≠ .ok ()) :
    h.checkProtocol version = .error .invalidProtocol := by
  cases hcheck : h.checkProtocol version with
  | ok => exact absurd hcheck hbad
  | error e =>
    cases e
    rfl

end RawHeader

theorem UpdHeader.fromBytes_new (consumed window : UInt32) : ∃ u : UpdHeader,
    fromBytes (new consumed window).bytes = some u ∧ u.consumed = consumed ∧ u.window = window := by
  have hle : SZ_CMD_UPD ≤ (new consumed window).bytes.length := Nat.le_refl 8
  refine ⟨new consumed window, ?_, ofLe32_le32 consumed, ofLe32_le32 window⟩
  rw [fromBytes, dif_pos hle]
  rfl

/-! Frames. -/

namespace Frame

variable {f : Frame} {version cmd : UInt8} {sid : UInt32} {data : Bytes}

theorem length_encode (f : Frame) : f.encode.length = f.encodedLen := by
  rw [encode, List.length_append, f.header.size, encodedLen]

theorem length_header (hfits : f.data.length ≤ 65535) : f.header.length.toNat = f.data.length := by
  rw [header, RawHeader.length_new, UInt16.toNat_ofNat']
  exact Nat.mod_eq_of_lt (by omega)

theorem valid_iff : f.Valid version ↔ f.ver = version ∧
    ((f.cmd = CMD_NOP ∨ f.cmd = CMD_SYN ∨ f.cmd = CMD_FIN) ∧ f.data = [] ∨
      f.cmd = CMD_PSH ∧ f.data.length ≤ 65535 ∨
      f.cmd = CMD_UPD ∧ version = 2 ∧ f.data.length = SZ_CMD_UPD) := by
  have hempty : f.data.length ≤ 65535 → (f.header.length = 0 ↔ f.data = []) := by
    intro hfits
    rw [← UInt16.toNat_inj, length_header hfits]
    exact List.length_eq_zero_iff
  have hchecked := @RawHeader.checkProtocol_ok f.header version
  rw [show f.header.version = f.ver from rfl, show f.header.cmd = f.cmd from rfl] at hchecked
  constructor
  · rintro ⟨hok, hfits⟩
    obtain ⟨hver, ⟨hplain, hlen⟩ | hpsh | ⟨hupd, htwo, hsize⟩⟩ := hchecked.mp hok
    · exact ⟨hver, .inl ⟨hplain, (hempty hfits).mp hlen⟩⟩
    · exact ⟨hver, .inr (.inl ⟨hpsh, hfits⟩)⟩
    · exact ⟨hver, .inr (.inr ⟨hupd, htwo, (length_header hfits).symm.trans hsize⟩)⟩
  · rintro ⟨hver, ⟨hplain, hnil⟩ | ⟨hpsh, hfits⟩ | ⟨hupd, htwo, hsize⟩⟩
    · have hfits : f.data.length ≤ 65535 := by
        rw [hnil]
        exact Nat.zero_le _
      exact ⟨hchecked.mpr ⟨hver, .inl ⟨hplain, (hempty hfits).mpr hnil⟩⟩, hfits⟩
    · exact ⟨hchecked.mpr ⟨hver, .inr (.inl hpsh)⟩, hfits⟩
    · have hfits : f.data.length ≤ 65535 := by
        rw [hsize]
        decide
      exact ⟨hchecked.mpr ⟨hver, .inr (.inr ⟨hupd, htwo, (length_header hfits).trans hsize⟩)⟩,
        hfits⟩

private theorem encode_append_inj {g : Frame} {xs ys : Bytes} (hf : f.data.length ≤ 65535)
    (hg : g.data.length ≤ 65535) (h : f.encode ++ xs = g.encode ++ ys) : f = g ∧ xs = ys := by
  unfold encode at h
  rw [List.append_assoc, List.append_assoc] at h
  obtain ⟨hbytes, hrest⟩ := List.append_inj h (f.header.size.trans g.header.size.symm)
  have hheader : f.header = g.header := by
    cases hfh : f.header
    cases hgh : g.header
    rw [hfh, hgh] at hbytes
    congr 1
  have hlen : f.data.length = g.data.length := by
    rw [← length_header hf, ← length_header hg, hheader]
  obtain ⟨hdata, hmore⟩ := List.append_inj hrest hlen
  have hver : f.ver = g.ver := congrArg RawHeader.version hheader
  have hcmd : f.cmd = g.cmd := congrArg RawHeader.cmd hheader
  have hsid : f.sid = g.sid := by
    have hids := congrArg RawHeader.streamId hheader
    unfold header at hids
    rwa [RawHeader.streamId_new, RawHeader.streamId_new] at hids
  refine ⟨?_, hmore⟩
  cases f
  cases g
  dsimp only at hver hcmd hsid hdata
  rw [hver, hcmd, hsid, hdata]

theorem prefix_of_encode {fs gs : List Frame} (hfs : ∀ f ∈ fs, f.data.length ≤ 65535)
    (hgs : ∀ g ∈ gs, g.data.length ≤ 65535) (h : gs.flatMap encode <+: fs.flatMap encode) :
    gs <+: fs := by
  induction gs generalizing fs with
  | nil => exact List.nil_prefix
  | cons g gs ih =>
    rw [List.forall_mem_cons] at hgs
    obtain ⟨rest, hrest⟩ := h
    rw [List.flatMap_cons, List.append_assoc] at hrest
    cases fs with
    | nil =>
      have hlen := congrArg List.length hrest
      rw [List.length_append, length_encode, encodedLen] at hlen
      have hheader : 0 < HEADER_SIZE := by decide
      rw [List.flatMap_nil, List.length_nil] at hlen
      omega
    | cons f fs =>
      rw [List.forall_mem_cons] at hfs
      rw [List.flatMap_cons] at hrest
      obtain ⟨rfl, hmore⟩ := encode_append_inj hgs.1 hfs.1 hrest
      exact (List.prefix_cons_inj _).mpr (ih hfs.2 hgs.2 ⟨rest, hmore⟩)

theorem ofHeader {h : RawHeader} (hok : h.checkProtocol version = .ok ())
    (hlen : data.length = h.length.toNat) :
    (withData h.version h.cmd h.streamId data).Valid version ∧
      (withData h.version h.cmd h.streamId data).header = h := by
  have hheader : (withData h.version h.cmd h.streamId data).header = h := by
    have hlength : UInt16.ofNat data.length = h.length := by
      rw [hlen]
      exact UInt16.ofNat_toNat
    unfold header withData
    dsimp only
    rw [hlength, RawHeader.new_fields]
  refine ⟨⟨by rw [hheader]; exact hok, ?_⟩, hheader⟩
  have hbound := h.length.toNat_lt
  change data.length ≤ 65535
  omega

end Frame

end Kcptun.Smux.Frames
