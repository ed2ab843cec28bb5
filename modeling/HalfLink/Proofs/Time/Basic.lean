import HalfLink.Time.Ticks
import Mathlib.Data.Int.ModEq

/-! Ticks as times that have wrapped. In every width, what is worked out on ticks is what is worked out
on the times that they show, reduced by the range of the width. -/
namespace HalfLink.Ticks

variable {w : Nat}

theorem toNat_half (w : Nat) : (half w).toNat = 2 ^ (w - 1) - 1 := by
  rw [half, maximum, BitVec.toNat_ushiftRight, BitVec.toNat_allOnes, Nat.shiftRight_eq_div_pow]
  cases w with
  | zero => rfl
  | succ w =>
    have hpos := Nat.two_pow_pos w
    rw [Nat.add_sub_cancel, Nat.pow_succ]
    omega

theorem view_ofNat (hw : w ≤ 32) (time : Nat) :
    view w (BitVec.ofNat 32 time) = BitVec.ofNat w time :=
  BitVec.setWidth_ofNat_of_le hw time

theorem offset_ofNat (time delta : Nat) :
    offset (BitVec.ofNat w time) (BitVec.ofNat w delta) = BitVec.ofNat w (time + delta) :=
  (BitVec.ofNat_add time delta).symm

theorem offset_eq_ofNat (time : Nat) (delta : Ticks w) :
    offset (BitVec.ofNat w time) delta = BitVec.ofNat w (time + delta.toNat) := by
  rw [← offset_ofNat, BitVec.ofNat_toNat, BitVec.setWidth_eq]

/-- The difference of two ticks, also where the second shows the later time. -/
theorem toNat_diff_ofNat (now past : Nat) :
    ((diff (BitVec.ofNat w now) (BitVec.ofNat w past)).toNat : ℤ) = ((now : ℤ) - past) % 2 ^ w := by
  have hlt : past % 2 ^ w ≤ 2 ^ w := (Nat.mod_lt past (Nat.two_pow_pos w)).le
  have hwrap : (2 ^ w - (past : ℤ) % 2 ^ w + (now : ℤ) % 2 ^ w) ≡ 0 - past + now [ZMOD 2 ^ w] :=
    ((Int.modEq_zero_iff_dvd.mpr dvd_rfl).sub (Int.mod_modEq _ _)).add (Int.mod_modEq _ _)
  rw [diff, BitVec.toNat_sub, BitVec.toNat_ofNat, BitVec.toNat_ofNat]
  push_cast [Nat.cast_sub hlt]
  rw [hwrap.eq, zero_sub, neg_add_eq_sub]

theorem toNat_diff_of_le {past now : Nat} (h : past ≤ now) :
    (diff (BitVec.ofNat w now) (BitVec.ofNat w past)).toNat = (now - past) % 2 ^ w := by
  have hdiff := toNat_diff_ofNat (w := w) now past
  rw [← Nat.cast_sub h] at hdiff
  exact_mod_cast hdiff

theorem expired_ofNat (now deadline : Nat) :
    expired (BitVec.ofNat w now) (BitVec.ofNat w deadline) = true ↔
      ((now : ℤ) - deadline) % 2 ^ w < 2 ^ (w - 1) - 1 := by
  have hpos : 1 ≤ 2 ^ (w - 1) := Nat.one_le_two_pow
  rw [expired, decide_eq_true_iff, BitVec.lt_def, toNat_half, ← toNat_diff_ofNat, ← Int.ofNat_lt]
  push_cast [Nat.cast_sub hpos]
  rfl

end HalfLink.Ticks
