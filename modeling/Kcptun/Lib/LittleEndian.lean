/- Kcptun/Lib/LittleEndian
   digest: Little-endian byte lists of 16-bit and 32-bit words and their round trips. -/

import Mathlib.Data.UInt
import Mathlib.Tactic.Ring

set_option autoImplicit false
set_option relaxedAutoImplicit false

namespace Kcptun.Lib.LittleEndian

abbrev Bytes := List UInt8

/-- `u16::to_le_bytes`. -/
def le16 (w : UInt16) : Bytes :=
  [UInt8.ofNat w.toNat, UInt8.ofNat (w.toNat / 256)]

/-- `u32::to_le_bytes`. -/
def le32 (l : UInt32) : Bytes :=
  [UInt8.ofNat l.toNat, UInt8.ofNat (l.toNat / 256), UInt8.ofNat (l.toNat / 65536),
    UInt8.ofNat (l.toNat / 16777216)]

/-- `u16::from_le_bytes`. -/
def ofLe16 (a b : UInt8) : UInt16 := UInt16.ofNat (a.toNat + 256 * b.toNat)

/-- `u32::from_le_bytes`. -/
def ofLe32 (a b c d : UInt8) : UInt32 :=
  UInt32.ofNat (a.toNat + 256 * b.toNat + 65536 * c.toNat + 16777216 * d.toNat)

@[simp] theorem length_le16 (w : UInt16) : (le16 w).length = 2 := rfl

@[simp] theorem length_le32 (l : UInt32) : (le32 l).length = 4 := rfl

theorem ofLe16_le16 (w : UInt16) :
    ofLe16 (UInt8.ofNat w.toNat) (UInt8.ofNat (w.toNat / 256)) = w := by
  have hw := w.toNat_lt
  apply UInt16.toNat_inj.mp
  simp only [ofLe16, UInt16.toNat_ofNat', UInt8.toNat_ofNat']
  omega

theorem ofLe32_le32 (l : UInt32) :
    ofLe32 (UInt8.ofNat l.toNat) (UInt8.ofNat (l.toNat / 256)) (UInt8.ofNat (l.toNat / 65536))
      (UInt8.ofNat (l.toNat / 16777216)) = l := by
  have hl := l.toNat_lt
  apply UInt32.toNat_inj.mp
  simp only [ofLe32, UInt32.toNat_ofNat', UInt8.toNat_ofNat']
  omega

theorem le16_ofLe16 (a b : UInt8) : le16 (ofLe16 a b) = [a, b] := by
  have ha := a.toNat_lt
  have hb := b.toNat_lt
  have hword : (ofLe16 a b).toNat = a.toNat + 256 * b.toNat := by
    rw [ofLe16, UInt16.toNat_ofNat', Nat.mod_eq_of_lt (by omega)]
  simp only [le16, hword, List.cons.injEq, and_true, ← UInt8.toNat_inj, UInt8.toNat_ofNat']
  omega

theorem le32_ofLe32 (a b c d : UInt8) : le32 (ofLe32 a b c d) = [a, b, c, d] := by
  have ha := a.toNat_lt
  have hb := b.toNat_lt
  have hc := c.toNat_lt
  have hd := d.toNat_lt
  have hword : (ofLe32 a b c d).toNat =
      a.toNat + 256 * b.toNat + 65536 * c.toNat + 16777216 * d.toNat := by
    rw [ofLe32, UInt32.toNat_ofNat', Nat.mod_eq_of_lt (by omega)]
  simp only [le32, hword, List.cons.injEq, and_true, ← UInt8.toNat_inj, UInt8.toNat_ofNat']
  omega

end Kcptun.Lib.LittleEndian
