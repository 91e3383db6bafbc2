import Omission.Gpu.JavaRandom
import Omission.Lib.Cycle
import Omission.Lib.Reject

namespace Omission.Cubiomes
open Omission.Lib
open Omission.Gpu (lcg lcg_step)
open Omission.Gpu.JavaRandomSkip (MASK and_MASK setWidth_mul_add)
set_option autoImplicit true

def next (seed : BitVec 64) (bits : Nat) : BitVec 32 × BitVec 64 :=
  let seed := (seed * 0x5deece66d#64 + 0xb#64) &&& ((1#64 <<< 48) - 1)
  ((seed.sshiftRight (48 - bits)).setWidth 32, seed)

/-- The loop of `nextInt`, for at most `fuel` draws. -/
def nextInt_loop (n m : BitVec 32) : Nat → BitVec 64 → Option (BitVec 32 × BitVec 64)
  | 0, _ => none
  | fuel + 1, seed =>
    let (bits, seed) := next seed 31
    let val := bits.srem n
    if (bits - val + m).toInt < 0 then nextInt_loop n m fuel seed else some (val, seed)

def nextInt (fuel : Nat) (seed : BitVec 64) (n : BitVec 32) : Option (BitVec 32 × BitVec 64) :=
  let m := n - 1
  if m &&& n = 0 then
    let (bits, seed) := next seed 31
    let x := n.signExtend 64 * bits.signExtend 64
    some ((x.sshiftRight 31).setWidth 32, seed)
  else nextInt_loop n m fuel seed

/-- The 31 bits that a state of the generator gives. -/
def top (s : BitVec 48) : Nat := s.toNat / 2 ^ 17

theorem top_lt (s : BitVec 48) : top s < 2 ^ 31 := by
  have hlt := s.isLt
  rw [top]
  omega

theorem next_state (seed : BitVec 64) (bits : Nat) :
    (next seed bits).2 = (lcg (seed.setWidth 48)).setWidth 64 := by
  have hmask : (1#64 <<< 48) - 1 = MASK := by decide
  rw [next, hmask]
  dsimp only
  rw [and_MASK, setWidth_mul_add]
  rfl

theorem next_bits (seed : BitVec 64) :
    (next seed 31).1.toNat = top (lcg (seed.setWidth 48)) := by
  have hstate := next_state seed 31
  have hlt := (lcg (seed.setWidth 48)).isLt
  change (((next seed 31).2.sshiftRight 17).setWidth 32).toNat = _
  rw [hstate]
  have hmsb : ((lcg (seed.setWidth 48)).setWidth 64).msb = false := by
    rw [BitVec.msb_eq_false_iff_two_mul_lt, BitVec.toNat_setWidth_of_le (by decide)]
    omega
  rw [BitVec.sshiftRight_eq_of_msb_false hmsb, BitVec.toNat_setWidth, BitVec.toNat_ushiftRight,
    BitVec.toNat_setWidth_of_le (by decide), Nat.shiftRight_eq_div_pow, top]
  omega

theorem card_state : Nat.card (BitVec 48) = 2 ^ 48 := by
  rw [Nat.card_congr BitVec.equivFin.toEquiv, Nat.card_fin]

/-- The generator of Java goes through all of its states. -/
theorem exists_steps (s t : BitVec 48) : ∃ k < 2 ^ 48, lcg^[k] s = t := by
  have hfinite : Finite (BitVec 48) := Finite.of_equiv _ BitVec.equivFin.toEquiv.symm
  have hmul : lcg_step.mul = 1 + 4 * 0x177BB399B#48 := by decide
  have hadd : lcg_step.add = 1 + 2 * 5#48 := by decide
  exact Affine.exists_iterate hmul hadd card_state (by decide) (by decide) s t

section Draw

variable {n : Nat}

/-- A draw that the test on overflow lets through; every draw is for a power of two. -/
def Accepts (n b : Nat) : Prop := n.isPowerOfTwo ∨ b / n * n + n ≤ 2 ^ 31

instance : DecidablePred (Accepts n) := fun b =>
  inferInstanceAs (Decidable (n.isPowerOfTwo ∨ b / n * n + n ≤ 2 ^ 31))

def result (n b : Nat) : Nat := if n.isPowerOfTwo then scaled (2 ^ 31) n b else b % n

theorem two_pow_mod (h : n.isPowerOfTwo) (hlt : n < 2 ^ 31) : 2 ^ 31 % n = 0 := by
  obtain ⟨k, rfl⟩ := h
  have hk : k ≤ 31 := by
    by_contra hk
    exact absurd hlt (Nat.not_lt.2 (Nat.pow_le_pow_right (by decide) (by omega)))
  exact Nat.mod_eq_zero_of_dvd (Nat.pow_dvd_pow 2 hk)

/-- Each result has the same number of draws that are let through. -/
theorem card_accepts (hn : 0 < n) (hlt : n < 2 ^ 31) (hr : r < n) :
    ((Finset.range (2 ^ 31)).filter fun b => Accepts n b ∧ result n b = r).card =
      2 ^ 31 / n := by
  by_cases hpow : n.isPowerOfTwo
  · rw [← card_scaled (by decide) hn hr (two_pow_mod hpow hlt)]
    refine congrArg Finset.card (Finset.filter_congr fun b _ => ?_)
    rw [result, if_pos hpow]
    exact and_iff_right (.inl hpow)
  · rw [← card_mod hn hr]
    refine congrArg Finset.card (Finset.filter_congr fun b _ => ?_)
    rw [result, if_neg hpow, Accepts, or_iff_right hpow]

theorem result_lt (hn : 0 < n) (hb : b < 2 ^ 31) : result n b < n := by
  rw [result]
  split
  · exact scaled_lt hn hb
  · exact Nat.mod_lt b hn

end Draw

section NextInt

variable {n : BitVec 32}

theorem toNat_of_pos (hn : 0 < n.toInt) : 0 < n.toNat ∧ n.toNat < 2 ^ 31 := by
  have hcond := BitVec.toInt_eq_toNat_cond n
  have hlt := n.isLt
  split at hcond
  · omega
  · omega

theorem toNat_signExtend {v : BitVec 32} (h : v.toNat < 2 ^ 31) :
    (v.signExtend 64).toNat = v.toNat := by
  have hmsb : v.msb = false := by
    rw [BitVec.msb_eq_false_iff_two_mul_lt]
    omega
  rw [BitVec.signExtend_eq_setWidth_of_msb_false hmsb, BitVec.toNat_setWidth_of_le (by decide)]

theorem isPowerOfTwo_iff (hn : 0 < n.toInt) : (n - 1) &&& n = 0 ↔ n.toNat.isPowerOfTwo := by
  have hpos := toNat_of_pos hn
  have hsub : (n - 1).toNat = n.toNat - 1 := by
    rw [BitVec.toNat_sub]
    change (2 ^ 32 - 1 + n.toNat) % 2 ^ 32 = _
    omega
  rw [← Nat.and_sub_one_eq_zero_iff_isPowerOfTwo (by omega), ← BitVec.toNat_inj,
    BitVec.toNat_and, hsub, Nat.and_comm]
  rfl

theorem toNat_val {bits : BitVec 32} (hn : 0 < n.toInt) (hb : bits.toNat < 2 ^ 31) :
    (bits.srem n).toNat = bits.toNat % n.toNat := by
  have hpos := toNat_of_pos hn
  have hn' : n.msb = false := by
    rw [BitVec.msb_eq_false_iff_two_mul_lt]
    omega
  have hb' : bits.msb = false := by
    rw [BitVec.msb_eq_false_iff_two_mul_lt]
    omega
  rw [BitVec.srem_eq, hn', hb']
  exact BitVec.toNat_umod

/-- What the sum of the test is; it is negative as an `int` from `2 ^ 31` on. -/
theorem test_neg_iff {bits : BitVec 32} (hn : 0 < n.toInt) (hb : bits.toNat < 2 ^ 31) :
    (bits - bits.srem n + (n - 1)).toInt < 0 ↔
      ¬ bits.toNat / n.toNat * n.toNat + n.toNat ≤ 2 ^ 31 := by
  obtain ⟨hpos, hlt⟩ := toNat_of_pos hn
  have hdiv := Nat.div_add_mod' bits.toNat n.toNat
  have hval := toNat_val hn hb
  have hsum : (bits - bits.srem n + (n - 1)).toNat =
      bits.toNat / n.toNat * n.toNat + (n.toNat - 1) := by
    rw [BitVec.toNat_add, BitVec.toNat_sub, BitVec.toNat_sub, hval]
    change ((2 ^ 32 - bits.toNat % n.toNat + bits.toNat) % 2 ^ 32 +
      (2 ^ 32 - 1 + n.toNat) % 2 ^ 32) % 2 ^ 32 = _
    omega
  have hcond := BitVec.toInt_eq_toNat_cond (bits - bits.srem n + (n - 1))
  split at hcond
  · omega
  · omega

/-- The draw behind the first `k`. -/
def drawn (s : BitVec 48) (k : Nat) : Nat := top (lcg^[k + 1] s)

theorem drawn_succ (s : BitVec 48) (k : Nat) : drawn s (k + 1) = drawn (lcg s) k := by
  rw [drawn, Function.iterate_succ_apply]
  rfl

theorem setWidth_state (s : BitVec 48) : (s.setWidth 64).setWidth 48 = s := by
  rw [BitVec.setWidth_setWidth_of_le _ (by decide), BitVec.setWidth_eq]

theorem nextInt_loop_succ (hn : 0 < n.toInt) (hpow : ¬ n.toNat.isPowerOfTwo) (fuel : Nat)
    (seed : BitVec 64) : nextInt_loop n (n - 1) (fuel + 1) seed =
      if Accepts n.toNat (drawn (seed.setWidth 48) 0) then
        some (BitVec.ofNat 32 (result n.toNat (drawn (seed.setWidth 48) 0)),
          (lcg (seed.setWidth 48)).setWidth 64)
      else nextInt_loop n (n - 1) fuel ((lcg (seed.setWidth 48)).setWidth 64) := by
  have hbits : (next seed 31).1.toNat = drawn (seed.setWidth 48) 0 := next_bits seed
  have hlt : (next seed 31).1.toNat < 2 ^ 31 := by
    rw [hbits]
    exact top_lt _
  have hval : (next seed 31).1.srem n =
      BitVec.ofNat 32 (result n.toNat (drawn (seed.setWidth 48) 0)) := by
    rw [result, if_neg hpow, ← hbits, ← toNat_val hn hlt, BitVec.ofNat_toNat, BitVec.setWidth_eq]
  have htest : ((next seed 31).1 - (next seed 31).1.srem n + (n - 1)).toInt < 0 ↔
      ¬ Accepts n.toNat (drawn (seed.setWidth 48) 0) := by
    rw [test_neg_iff hn hlt, hbits, Accepts, or_iff_right hpow]
  rw [nextInt_loop]
  dsimp only
  by_cases hacc : Accepts n.toNat (drawn (seed.setWidth 48) 0)
  · rw [if_neg (htest.not.2 (not_not.2 hacc)), if_pos hacc, hval, next_state]
  · rw [if_pos (htest.2 hacc), if_neg hacc, next_state]

/-- The loop ends with the first draw that is let through. -/
theorem nextInt_loop_eq (hn : 0 < n.toInt) (hpow : ¬ n.toNat.isPowerOfTwo) {k fuel : Nat}
    (seed : BitVec 64) (hfirst : ∀ i < k, ¬ Accepts n.toNat (drawn (seed.setWidth 48) i))
    (hk : Accepts n.toNat (drawn (seed.setWidth 48) k)) (hfuel : k < fuel) :
    nextInt_loop n (n - 1) fuel seed =
      some (BitVec.ofNat 32 (result n.toNat (drawn (seed.setWidth 48) k)),
        (lcg^[k + 1] (seed.setWidth 48)).setWidth 64) := by
  induction k generalizing seed fuel with
  | zero =>
    obtain ⟨fuel, rfl⟩ := Nat.exists_eq_succ_of_ne_zero (Nat.ne_of_gt hfuel)
    rw [nextInt_loop_succ hn hpow, if_pos hk]
    rfl
  | succ k ih =>
    obtain ⟨fuel, rfl⟩ := Nat.exists_eq_succ_of_ne_zero (Nat.ne_of_gt (Nat.zero_lt_of_lt hfuel))
    rw [nextInt_loop_succ hn hpow, if_neg (hfirst 0 (Nat.succ_pos k))]
    have hstate := setWidth_state (lcg (seed.setWidth 48))
    rw [ih, hstate, ← drawn_succ, ← Function.iterate_succ_apply]
    · intro i hi
      rw [hstate, ← drawn_succ]
      exact hfirst (i + 1) (Nat.succ_lt_succ hi)
    · rwa [hstate, ← drawn_succ]
    · exact Nat.lt_of_succ_lt_succ hfuel

theorem nextInt_two_pow (hn : 0 < n.toInt) (hpow : n.toNat.isPowerOfTwo) (fuel : Nat)
    (seed : BitVec 64) : nextInt fuel seed n =
      some (BitVec.ofNat 32 (result n.toNat (drawn (seed.setWidth 48) 0)),
        (lcg (seed.setWidth 48)).setWidth 64) := by
  obtain ⟨hpos, hlt⟩ := toNat_of_pos hn
  have hbits : (next seed 31).1.toNat = drawn (seed.setWidth 48) 0 := next_bits seed
  have hdraw : drawn (seed.setWidth 48) 0 < 2 ^ 31 := top_lt _
  have hmul : n.toNat * drawn (seed.setWidth 48) 0 < 2 ^ 31 * 2 ^ 31 :=
    Nat.mul_lt_mul'' hlt hdraw
  have hproduct : (n.signExtend 64 * (next seed 31).1.signExtend 64).toNat =
      n.toNat * drawn (seed.setWidth 48) 0 := by
    rw [BitVec.toNat_mul, toNat_signExtend hlt, toNat_signExtend (hbits ▸ hdraw), hbits,
      Nat.mod_eq_of_lt (by omega)]
  have hmsb : (n.signExtend 64 * (next seed 31).1.signExtend 64).msb = false := by
    rw [BitVec.msb_eq_false_iff_two_mul_lt, hproduct]
    omega
  rw [nextInt, if_pos ((isPowerOfTwo_iff hn).2 hpow)]
  dsimp only
  rw [next_state, BitVec.sshiftRight_eq_of_msb_false hmsb]
  refine congrArg (fun v => some (v, _)) (BitVec.eq_of_toNat_eq ?_)
  rw [BitVec.toNat_setWidth, BitVec.toNat_ushiftRight, hproduct, BitVec.toNat_ofNat, result,
    if_pos hpow, scaled, Nat.shiftRight_eq_div_pow, Nat.mul_comm]

/-- The loop meets a draw that is let through before the generator has gone round. -/
theorem exists_accepts (hn : 0 < n.toInt) (s : BitVec 48) :
    ∃ k < 2 ^ 48, (∀ i < k, ¬ Accepts n.toNat (drawn s i)) ∧ Accepts n.toNat (drawn s k) := by
  have hsome : ∃ k, Accepts n.toNat (drawn s k) ∧ k < 2 ^ 48 := by
    obtain ⟨k, hk, hzero⟩ := exists_steps (lcg s) 0
    refine ⟨k, .inr ?_, hk⟩
    have hlt := toNat_of_pos hn
    have hdraw : drawn s k = 0 := by
      rw [drawn, Function.iterate_succ_apply, hzero]
      rfl
    rw [hdraw, Nat.zero_div]
    omega
  refine ⟨Nat.find hsome, (Nat.find_spec hsome).2, fun i hi hacc => ?_, (Nat.find_spec hsome).1⟩
  exact Nat.find_min hsome hi ⟨hacc, hi.trans (Nat.find_spec hsome).2⟩

theorem nextInt_eq (hn : 0 < n.toInt) (seed : BitVec 64) :
    ∃ k < 2 ^ 48, (∀ i < k, ¬ Accepts n.toNat (drawn (seed.setWidth 48) i)) ∧
      Accepts n.toNat (drawn (seed.setWidth 48) k) ∧
      ∀ fuel, k < fuel → nextInt fuel seed n =
        some (BitVec.ofNat 32 (result n.toNat (drawn (seed.setWidth 48) k)),
          (lcg^[k + 1] (seed.setWidth 48)).setWidth 64) := by
  by_cases hpow : n.toNat.isPowerOfTwo
  · refine ⟨0, by decide, fun i hi => absurd hi (Nat.not_lt_zero i), .inl hpow, ?_⟩
    intro fuel _
    exact nextInt_two_pow hn hpow fuel seed
  · obtain ⟨k, hk, hfirst, hacc⟩ := exists_accepts hn (seed.setWidth 48)
    refine ⟨k, hk, hfirst, hacc, fun fuel hfuel => ?_⟩
    rw [nextInt]
    dsimp only
    rw [if_neg ((isPowerOfTwo_iff hn).not.2 hpow)]
    exact nextInt_loop_eq hn hpow seed hfirst hacc hfuel

theorem exists_nextInt (hn : 0 < n.toInt) (seed : BitVec 64) :
    ∃ v seed', nextInt (2 ^ 48) seed n = some (v, seed') ∧ v.toNat < n.toNat := by
  obtain ⟨hpos, hlt⟩ := toNat_of_pos hn
  obtain ⟨k, hk, -, -, heq⟩ := nextInt_eq hn seed
  refine ⟨_, _, heq _ hk, ?_⟩
  have hresult : result n.toNat (drawn (seed.setWidth 48) k) < n.toNat :=
    result_lt hpos (top_lt _)
  rw [BitVec.toNat_ofNat]
  omega

/-- `nextInt` ends from every state, before the generator has gone round: with the first draw that
is let through, and each result comes from equally many draws. -/
theorem nextInt_ends (n : BitVec 32) (hn : 0 < n.toInt) (seed : BitVec 64) :
    (∃ k < 2 ^ 48, (∀ i < k, ¬ Accepts n.toNat (drawn (seed.setWidth 48) i)) ∧
      Accepts n.toNat (drawn (seed.setWidth 48) k) ∧
      ∀ fuel, k < fuel → nextInt fuel seed n =
        some (BitVec.ofNat 32 (result n.toNat (drawn (seed.setWidth 48) k)),
          (lcg^[k + 1] (seed.setWidth 48)).setWidth 64)) ∧
    (∀ k, result n.toNat (drawn (seed.setWidth 48) k) < n.toNat) ∧
    ∀ r < n.toNat, ((Finset.range (2 ^ 31)).filter fun b =>
      Accepts n.toNat b ∧ result n.toNat b = r).card = 2 ^ 31 / n.toNat := by
  obtain ⟨hpos, hlt⟩ := toNat_of_pos hn
  refine ⟨nextInt_eq hn seed, fun k => result_lt hpos (top_lt _), fun r hr => ?_⟩
  exact card_accepts hpos hlt hr

theorem nextInt_ends_six : ∃ k < 2 ^ 48, nextInt (2 ^ 48) 42 6 =
    some (BitVec.ofNat 32 (result 6 (drawn 42 k)), (lcg^[k + 1] 42).setWidth 64) := by
  obtain ⟨⟨k, hk, -, -, heq⟩, -⟩ := nextInt_ends 6 (by decide) 42
  exact ⟨k, hk, heq (2 ^ 48) hk⟩

end NextInt

end Omission.Cubiomes
