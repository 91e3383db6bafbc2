import Mathlib.Dynamics.PeriodicPts.Lemmas
import Mathlib.SetTheory.Cardinal.Finite
import Mathlib.Tactic.LinearCombination
import Omission.Lib.Affine

namespace Omission.Lib
set_option autoImplicit true

open Function

/-- A map with a period as long as there are values takes every value on its way. -/
theorem exists_iterate [Finite R] {f : R → R} {x : R} (h : minimalPeriod f x = Nat.card R)
    (y : R) : ∃ n < Nat.card R, f^[n] x = y := by
  have hinj : Injective fun n : Fin (Nat.card R) => f^[n] x := by
    intro m n hmn
    have hm : (m : Nat) < minimalPeriod f x := m.isLt.trans_eq h.symm
    have hn : (n : Nat) < minimalPeriod f x := n.isLt.trans_eq h.symm
    exact Fin.ext ((iterate_eq_iterate_iff_of_lt_minimalPeriod hm hn).1 hmn)
  obtain ⟨n, hn⟩ := (hinj.bijective_of_nat_card_le (Nat.card_fin _).ge).2 y
  exact ⟨n, n.isLt, hn⟩

namespace Affine

variable {R : Type u} [CommRing R] {f : Affine R}

/-- With a factor of remainder 1 by 4 and an odd addend, `2 ^ k` rounds add `2 ^ k` up to a
multiple of `2 ^ (k + 1)`. -/
theorem pow_two_pow_odd (hmul : f.mul = 1 + 4 * u) (hadd : f.add = 1 + 2 * v) (k : Nat) :
    ∃ t s, f ^ 2 ^ k = ⟨1 + 2 ^ (k + 2) * t, 2 ^ k * (1 + 2 * s)⟩ := by
  induction k with
  | zero =>
    refine ⟨u, v, ?_⟩
    rw [pow_zero, pow_one]
    apply Affine.ext
    · linear_combination hmul
    · linear_combination hadd
  | succ k ih =>
    obtain ⟨t, s, h⟩ := ih
    refine ⟨t + 2 ^ (k + 1) * t ^ 2, s + 2 ^ k * t * (1 + 2 * s), ?_⟩
    rw [pow_succ, pow_mul, h, pow_two, mul_def]
    apply Affine.ext
    · ring
    · ring

/-- The period of such a map modulo `2 ^ (k + 1)` is as long as it can be. -/
theorem minimalPeriod_apply (hmul : f.mul = 1 + 4 * u) (hadd : f.add = 1 + 2 * v)
    (hzero : (2 : R) ^ (k + 1) = 0) (hne : (2 : R) ^ k ≠ 0) (x : R) :
    minimalPeriod f.apply x = 2 ^ (k + 1) := by
  have hprime : Fact (Nat.Prime 2) := ⟨Nat.prime_two⟩
  have hodd : f.mul = 1 + 2 * (2 * u) := by linear_combination hmul
  apply minimalPeriod_eq_prime_pow
  · intro hfix
    obtain ⟨t, s, h⟩ := pow_two_pow_odd hmul hadd k
    have hx : (f ^ 2 ^ k).apply x = x := (apply_pow f _ x).trans hfix
    rw [h, apply] at hx
    apply hne
    linear_combination hx - (2 * x * t + s) * hzero
  · change f.apply^[2 ^ (k + 1)] x = x
    rw [← apply_pow, pow_two_pow_eq_one hodd hzero, apply_one]

theorem exists_iterate [Finite R] (hmul : f.mul = 1 + 4 * u) (hadd : f.add = 1 + 2 * v)
    (hcard : Nat.card R = 2 ^ (k + 1)) (hzero : (2 : R) ^ (k + 1) = 0)
    (hne : (2 : R) ^ k ≠ 0) (x y : R) : ∃ n < 2 ^ (k + 1), f.apply^[n] x = y := by
  rw [← hcard]
  exact Lib.exists_iterate ((minimalPeriod_apply hmul hadd hzero hne x).trans hcard.symm) y

end Affine

end Omission.Lib
