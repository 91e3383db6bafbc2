import Mathlib.Data.Int.Order.Basic
import Mathlib.Tactic.Ring

namespace Omission.Lib
set_option autoImplicit true

/-- What a signed integer of `w` bits keeps of `v`. -/
def wrap (w : Nat) (v : Int) : Int := v.bmod (2 ^ w)

def Fits (w : Nat) (v : Int) : Prop := -2 ^ (w - 1) ≤ v ∧ v < 2 ^ (w - 1)

instance : Decidable (Fits w v) := inferInstanceAs (Decidable (_ ∧ _))

theorem fits_toInt (h : m ≤ n) (v : BitVec m) : Fits n v.toInt := by
  have hlow := v.le_toInt
  have hhigh := v.toInt_lt
  have hpow : (2 : Int) ^ (m - 1) ≤ 2 ^ (n - 1) := by
    exact_mod_cast Nat.pow_le_pow_right (n := 2) (by decide) (Nat.sub_le_sub_right h 1)
  constructor
  · omega
  · omega

theorem fits_wrap (hw : 0 < w) (v : Int) : Fits w (wrap w v) := by
  obtain ⟨k, rfl⟩ := Nat.exists_eq_add_of_lt hw
  have hpow : (2 ^ (0 + k + 1) : Nat) = 2 * 2 ^ k := by ring
  have hpos : 0 < 2 ^ k := Nat.two_pow_pos k
  have hlow := Int.le_bmod (x := v) (m := 2 ^ (0 + k + 1)) (Nat.two_pow_pos _)
  have hhigh := Int.bmod_lt (x := v) (m := 2 ^ (0 + k + 1)) (Nat.two_pow_pos _)
  rw [hpow] at hlow hhigh
  rw [Fits, wrap, show 0 + k + 1 - 1 = k by omega, hpow]
  push_cast at hlow hhigh ⊢
  omega

theorem wrap_eq_iff (hw : 0 < w) : wrap w v = v ↔ Fits w v := by
  constructor
  · intro h
    rw [← h]
    exact fits_wrap hw v
  · intro h
    obtain ⟨k, rfl⟩ := Nat.exists_eq_add_of_lt hw
    have hpow : (2 ^ (0 + k + 1) : Nat) = 2 * 2 ^ k := by ring
    rw [Fits, show 0 + k + 1 - 1 = k by omega] at h
    rw [wrap, hpow]
    apply Int.bmod_eq_of_le
    · push_cast
      omega
    · push_cast
      omega

end Omission.Lib
