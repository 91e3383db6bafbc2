import Mathlib.Algebra.BigOperators.Group.Finset.Basic
import Mathlib.Algebra.Order.Ring.Abs
import Mathlib.Algebra.Order.Ring.Int
import Mathlib.Data.BitVec
import Omission.Lib.Wrap

namespace Omission.Lib
set_option autoImplicit true

/-- `t` is `sum / n`, rounded either way. -/
def Near (n sum t : Int) : Prop := |n * t - sum| < n

theorem near_tdiv (hn : 0 < n) (sum : Int) : Near n sum (sum.tdiv n) := by
  have hsum := Int.mul_tdiv_add_tmod sum n
  have hlow := Int.lt_tmod_of_pos sum hn
  have hhigh := Int.tmod_lt_of_pos sum hn
  rw [Near, abs_lt]
  omega

theorem Near.add (h : Near n (sum + n * a) t) : Near n sum (t - a) := by
  rw [Near, Int.mul_sub]
  rw [Near] at h
  rwa [show n * t - n * a - sum = n * t - (sum + n * a) by omega]

theorem toInt_ofInt_wrap (w : Nat) (v : Int) : (BitVec.ofInt w v).toInt = wrap w v :=
  BitVec.toInt_ofInt v

theorem sum_words (f : ι → BitVec w) (V : Finset ι) :
    ∑ p ∈ V, f p = BitVec.ofInt w (∑ p ∈ V, (f p).toInt) := by
  have h := map_sum (Int.castRingHom (BitVec w)) (fun p => (f p).toInt) V
  refine Eq.trans (Finset.sum_congr rfl fun p _ => ?_) h.symm
  exact BitVec.ofInt_toInt.symm

theorem ofInt_sub_toInt (v : Int) (d : BitVec w) :
    BitVec.ofInt w (v - d.toInt) = BitVec.ofInt w v - d := by
  have h := map_sub (Int.castRingHom (BitVec w)) v d.toInt
  refine h.trans ?_
  congr 1
  exact BitVec.ofInt_toInt

theorem dvd_sub_wrap (w : Nat) (v : Int) : (2 ^ w : Int) ∣ v - wrap w v := by
  refine ⟨v.bdiv (2 ^ w), ?_⟩
  have := Int.bmod_add_bdiv v (2 ^ w)
  rw [wrap]
  push_cast at this
  omega

theorem dvd_of_ofInt_eq (h : BitVec.ofInt w u = BitVec.ofInt w t) : (2 ^ w : Int) ∣ t - u := by
  have hwrap : wrap w u = wrap w t := by
    rw [← toInt_ofInt_wrap, h, toInt_ofInt_wrap]
  have hdvd := Int.dvd_sub (dvd_sub_wrap w t) (dvd_sub_wrap w u)
  rw [hwrap] at hdvd
  rwa [sub_sub_sub_cancel_right] at hdvd

section Mean

variable {n : Nat} {sum t : Int} (hw : 0 < w) (hn : n < 2 ^ (w - 1))
include hw hn

theorem sdiv_words (sum : BitVec w) :
    sum.sdiv (BitVec.ofNat w n) = BitVec.ofInt w (sum.toInt.tdiv n) := by
  have hfit : Fits w n := by
    have hn' : (n : Int) < 2 ^ (w - 1) := by exact_mod_cast hn
    exact ⟨by omega, hn'⟩
  have hcount : (BitVec.ofNat w n).toInt = n := by
    rw [← BitVec.ofInt_natCast, toInt_ofInt_wrap]
    exact (wrap_eq_iff hw).2 hfit
  apply BitVec.eq_of_toInt_eq
  rw [BitVec.toInt_sdiv, BitVec.toInt_ofInt, hcount]

/-- The mean of words is the true mean if their sum fits. -/
theorem mean_words (h : Fits w sum) :
    (BitVec.ofInt w sum).sdiv (BitVec.ofNat w n) = BitVec.ofInt w (sum.tdiv n) := by
  rw [sdiv_words hw hn, toInt_ofInt_wrap, (wrap_eq_iff hw).2 h]

/-- The mean of words whose sum does not fit is not even near the true mean. -/
theorem mean_words_ne (hpos : 0 < n) (hsum : |sum| < n * 2 ^ (w - 1)) (h : ¬ Fits w sum)
    (ht : Near n sum t) :
    (BitVec.ofInt w sum).sdiv (BitVec.ofNat w n) ≠ BitVec.ofInt w t := by
  intro he
  have hpow : (2 ^ w : Int) = 2 * 2 ^ (w - 1) := by
    rw [← Int.pow_succ', Nat.sub_add_cancel hw]
  have hn' : (n : Int) < 2 ^ (w - 1) := by exact_mod_cast hn
  have hpos' : (0 : Int) < n := Int.natCast_pos.2 hpos
  have hbig : (2 ^ (w - 1) : Int) ≤ n * 2 ^ (w - 1) :=
    le_mul_of_one_le_left (by omega) (by omega)
  obtain ⟨hlow, hhigh⟩ := fits_wrap hw sum
  rw [sdiv_words hw hn, toInt_ofInt_wrap] at he
  have hu := near_tdiv hpos' (wrap w sum)
  obtain ⟨k, hk⟩ := dvd_sub_wrap w sum
  obtain ⟨m, hm⟩ := dvd_of_ofInt_eq he
  generalize (wrap w sum).tdiv n = u at hm hu
  have hkm : 2 ^ w * (n * m - k) = (n * t - sum) - (n * u - wrap w sum) := by
    rw [mul_sub, ← hk, mul_left_comm, ← hm]
    ring
  have hzero : n * m - k = 0 := by
    rw [Near, abs_lt] at ht hu
    have hlt : |2 ^ w * (n * m - k)| < 2 ^ w := by
      rw [hkm, hpow, abs_lt]
      omega
    have h0 := Int.eq_zero_of_abs_lt_dvd (Int.dvd_mul_right _ _) hlt
    exact (mul_eq_zero.1 h0).resolve_left (by omega)
  have hk0 : k = 0 := by
    have hlt : |2 ^ w * k| < 2 ^ w * n := by
      rw [abs_lt] at hsum ⊢
      rw [← hk, mul_comm, hpow, mul_left_comm]
      omega
    rw [abs_mul, abs_of_pos (show (0 : Int) < 2 ^ w by omega)] at hlt
    refine Int.eq_zero_of_abs_lt_dvd ⟨m, ?_⟩ (lt_of_mul_lt_mul_left hlt (by omega))
    omega
  apply h
  rw [hk0, mul_zero, sub_eq_zero] at hk
  rw [hk]
  exact fits_wrap hw sum

end Mean

end Omission.Lib
