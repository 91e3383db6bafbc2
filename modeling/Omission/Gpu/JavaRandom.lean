import Mathlib.Algebra.Group.End
import Mathlib.Data.BitVec
import Omission.Lib.Affine

namespace Omission.Gpu
open Omission.Lib
set_option autoImplicit true

structure JavaRandomSkip where
  multiplier : BitVec 64
  addend : BitVec 64
deriving DecidableEq

namespace JavaRandomSkip

def MULTIPLIER : BitVec 64 := 0x5DEECE66D#64
def ADDEND : BitVec 64 := 0xB#64
def MASK : BitVec 64 := 0xFFFFFFFFFFFF#64

/-- Both factors are computed before they are stored, so `other` may be `skip` itself. -/
def combine (skip other : JavaRandomSkip) : JavaRandomSkip :=
  ⟨(skip.multiplier * other.multiplier) &&& MASK,
    (skip.addend * other.multiplier + other.addend) &&& MASK⟩

/-- One round of the loop of `make` on `skip` and `skip_pow`. -/
def round (n_mod : BitVec 64) (s : JavaRandomSkip × JavaRandomSkip) (i : Nat) :
    JavaRandomSkip × JavaRandomSkip :=
  let (skip, skip_pow) := s
  (if n_mod &&& (1#64 <<< i) ≠ 0#64 then skip.combine skip_pow else skip,
    skip_pow.combine skip_pow)

def make (n : BitVec 64) : JavaRandomSkip :=
  let n_mod := n &&& MASK
  ((List.range 48).foldl (round n_mod) (⟨1#64, 0#64⟩, ⟨MULTIPLIER, ADDEND⟩)).1

end JavaRandomSkip

structure JavaRandom where
  seed : BitVec 64
deriving DecidableEq

namespace JavaRandom

open JavaRandomSkip

/-- `skip<n>()` -/
def skip (n : BitVec 64) (random : JavaRandom) : JavaRandom :=
  ⟨(random.seed * (make n).multiplier + (make n).addend) &&& MASK⟩

/-- `nextBits<n>(bits)`; C++ leaves a shift by less than 0 or more than 63 undefined. -/
def nextBits (n : BitVec 64) (bits : Int) (random : JavaRandom) : BitVec 32 × JavaRandom :=
  let random := random.skip n
  ((random.seed >>> (48 - bits).toNat).setWidth 32, random)

end JavaRandom

/-- One step of the generator of Java, and one step back. -/
def lcg : Equiv.Perm (BitVec 48) where
  toFun s := s * 0x5DEECE66D#48 + 0xB#48
  invFun s := (s - 0xB#48) * 0xDFE05BCB1365#48
  left_inv s := by
    have hinv : 0x5DEECE66D#48 * 0xDFE05BCB1365#48 = 1 := by decide
    dsimp only
    rw [add_sub_cancel_right, mul_assoc, hinv, mul_one]
  right_inv s := by
    have hinv : 0xDFE05BCB1365#48 * 0x5DEECE66D#48 = 1 := by decide
    dsimp only
    rw [mul_assoc, hinv, mul_one, sub_add_cancel]

/-- The same step as a pair of factors. -/
def lcg_step : Affine (BitVec 48) := ⟨0x5DEECE66D#48, 0xB#48⟩

theorem lcg_pow (n : Nat) (s : BitVec 48) : (lcg ^ n) s = (lcg_step ^ n).apply s := by
  rw [Affine.apply_pow, ← Equiv.Perm.iterate_eq_pow]
  rfl

theorem lcg_step_two_pow : lcg_step ^ 2 ^ 48 = 1 :=
  Affine.pow_two_pow_eq_one (u := 0x2EF767336#48) (by decide) (by decide)

theorem lcg_two_pow : lcg ^ 2 ^ 48 = 1 := by
  ext s
  rw [lcg_pow, lcg_step_two_pow, Affine.apply_one]
  rfl

namespace JavaRandomSkip

theorem and_MASK (v : BitVec 64) : v &&& MASK = (v.setWidth 48).setWidth 64 := by
  have hmask : MASK.toNat = 2 ^ 48 - 1 := rfl
  apply BitVec.eq_of_toNat_eq
  rw [BitVec.toNat_and, hmask, Nat.and_two_pow_sub_one_eq_mod,
    BitVec.toNat_setWidth_of_le (by decide), BitVec.toNat_setWidth]

theorem setWidth_and_MASK (v : BitVec 64) : (v &&& MASK).setWidth 48 = v.setWidth 48 := by
  rw [and_MASK, BitVec.setWidth_setWidth_of_le _ (by decide), BitVec.setWidth_eq]

/-- The map that a skip is on 48 bits. -/
def low (skip : JavaRandomSkip) : Affine (BitVec 48) :=
  ⟨skip.multiplier.setWidth 48, skip.addend.setWidth 48⟩

theorem setWidth_mul_add (s a b : BitVec 64) : (s * a + b).setWidth 48 =
    s.setWidth 48 * a.setWidth 48 + b.setWidth 48 := by
  rw [BitVec.setWidth_add _ _ (by decide), BitVec.setWidth_mul _ _ (by decide)]

theorem low_combine (skip other : JavaRandomSkip) :
    (skip.combine other).low = skip.low * other.low := by
  rw [Affine.mul_def]
  simp only [low, combine, setWidth_and_MASK, setWidth_mul_add]
  rw [BitVec.setWidth_mul _ _ (by decide)]

theorem and_bit_ne_zero (v : BitVec 64) (i : Nat) :
    v &&& (1#64 <<< i) ≠ 0#64 ↔ v.toNat.testBit i := by
  change v &&& BitVec.twoPow 64 i ≠ 0#64 ↔ v.getLsbD i
  rw [BitVec.and_twoPow]
  by_cases hi : v.getLsbD i
  · have hlt : i < 64 := BitVec.lt_of_getLsbD hi
    have hbit : (BitVec.twoPow 64 i).getLsbD i = true := by
      rw [BitVec.getLsbD_twoPow, decide_eq_true hlt, decide_eq_true rfl, Bool.and_true]
    rw [if_pos hi]
    refine ⟨fun _ => hi, fun _ hzero => ?_⟩
    rw [hzero, BitVec.getLsbD_zero] at hbit
    exact absurd hbit Bool.false_ne_true
  · rw [if_neg hi]
    exact ⟨fun h => absurd rfl h, fun h => absurd h hi⟩

theorem round_low (n_mod : BitVec 64) (s : JavaRandomSkip × JavaRandomSkip) (i : Nat) :
    ((round n_mod s i).1.low, (round n_mod s i).2.low) =
      (if n_mod.toNat.testBit i then s.1.low * s.2.low else s.1.low, s.2.low * s.2.low) := by
  rw [round]
  simp only [and_bit_ne_zero]
  rw [low_combine, apply_ite low, low_combine]

/-- The loop of `make` is repeated squaring. -/
theorem rounds_low (n_mod : BitVec 64) (i : Nat) :
    Prod.map low low ((List.range i).foldl (round n_mod) (⟨1#64, 0#64⟩, ⟨MULTIPLIER, ADDEND⟩)) =
      squareMultiply n_mod.toNat lcg_step i := by
  induction i with
  | zero => rfl
  | succ i ih =>
    rw [List.range_succ, List.foldl_append, squareMultiply, ← ih]
    exact round_low n_mod _ i

theorem make_low (n : BitVec 64) : (make n).low = lcg_step ^ (n.toNat % 2 ^ 48) := by
  have hrounds := congrArg Prod.fst (rounds_low (n &&& MASK) 48)
  rw [squareMultiply_eq, and_MASK, BitVec.toNat_setWidth_of_le (by decide), BitVec.toNat_setWidth,
    Nat.mod_mod, ← and_MASK] at hrounds
  exact hrounds

end JavaRandomSkip

theorem bmod_emod_low (x : Int) : x.bmod (2 ^ 64) % (2 ^ 48 : Nat) = x % (2 ^ 48 : Nat) := by
  have hdvd : ((2 ^ 48 : Nat) : Int) ∣ (2 ^ 64 : Nat) := by decide
  rw [← Int.emod_emod_of_dvd _ hdvd, Int.bmod_emod, Int.emod_emod_of_dvd _ hdvd]

theorem lcg_zpow_toInt (n : BitVec 64) : lcg ^ n.toInt = lcg ^ (n.toNat % 2 ^ 48) := by
  have hcast : n.toInt % (2 ^ 48 : Nat) = (n.toNat % 2 ^ 48 : Nat) := by
    rw [BitVec.toInt_eq_toNat_bmod, bmod_emod_low, Int.natCast_emod]
  rw [zpow_eq_zpow_emod' n.toInt lcg_two_pow, hcast, zpow_natCast]

theorem lcg_zpow_add (M N : BitVec 64) : lcg ^ (M + N).toInt = lcg ^ M.toInt * lcg ^ N.toInt := by
  have hmod : (M + N).toInt % (2 ^ 48 : Nat) = (M.toInt + N.toInt) % (2 ^ 48 : Nat) := by
    rw [BitVec.toInt_add, bmod_emod_low]
  rw [← zpow_add, zpow_eq_zpow_emod' _ lcg_two_pow, hmod, ← zpow_eq_zpow_emod' _ lcg_two_pow]

namespace JavaRandom

open JavaRandomSkip

theorem skip_low (n s : BitVec 64) :
    (s * (make n).multiplier + (make n).addend).setWidth 48 = (lcg ^ n.toInt) (s.setWidth 48) := by
  rw [lcg_zpow_toInt, lcg_pow, ← make_low]
  exact setWidth_mul_add _ _ _

theorem skip_eq (n : BitVec 64) (random : JavaRandom) : random.skip n =
    ⟨((lcg ^ n.toInt) (random.seed.setWidth 48)).setWidth 64⟩ := by
  rw [skip, and_MASK, skip_low]

theorem skip_skip (M N : BitVec 64) (random : JavaRandom) :
    (random.skip M).skip N = random.skip (M + N) := by
  rw [skip_eq, skip_eq, skip_eq, BitVec.setWidth_setWidth_of_le _ (by decide), BitVec.setWidth_eq,
    lcg_zpow_add, zpow_mul_comm, Equiv.Perm.mul_apply]

theorem iterate_skip (k : Nat) (random : JavaRandom) :
    ((skip 1)^[k] random).skip 1 = random.skip (BitVec.ofNat 64 (k + 1)) := by
  induction k with
  | zero => rfl
  | succ k ih =>
    rw [Function.iterate_succ_apply', ih, skip_skip, BitVec.ofNat_add (k + 1)]
    rfl

/-- `make n` is `n` steps of the generator, backwards for negative `n`, so that skips add up and
`nextBits<N>` is the last of `N` single calls. -/
theorem skip_steps :
    (∀ (n : BitVec 64) (s : BitVec 48),
      (s.setWidth 64 * (make n).multiplier + (make n).addend).setWidth 48 = (lcg ^ n.toInt) s) ∧
    (∀ M N random, skip N (skip M random) = skip (M + N) random) ∧
    ∀ N : BitVec 64, 1 ≤ N.toInt → ∀ bits random,
      nextBits N bits random = nextBits 1 bits
        ((fun random => (nextBits 1 bits random).2)^[N.toInt.toNat - 1] random) := by
  refine ⟨fun n s => ?_, fun M N random => skip_skip M N random, fun N hN bits random => ?_⟩
  · rw [skip_low, BitVec.setWidth_setWidth_of_le _ (by decide), BitVec.setWidth_eq]
  · have hlast : N = BitVec.ofNat 64 (N.toInt.toNat - 1 + 1) := by
      have hcast := BitVec.toInt_eq_toNat_cond N
      have hlt := N.isLt
      apply BitVec.eq_of_toNat_eq
      rw [BitVec.toNat_ofNat]
      split at hcast
      · omega
      · omega
    have hskip := iterate_skip (N.toInt.toNat - 1) random
    rw [← hlast] at hskip
    change _ = nextBits 1 bits ((skip 1)^[N.toInt.toNat - 1] random)
    rw [nextBits, nextBits, hskip]

theorem skip_steps_three : nextBits 3 32 ⟨42⟩ =
    nextBits 1 32 ((fun random => (nextBits 1 32 random).2)^[2] ⟨42⟩) :=
  skip_steps.2.2 3 (by decide) 32 ⟨42⟩

end JavaRandom

end Omission.Gpu
