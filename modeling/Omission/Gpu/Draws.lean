import Mathlib.Logic.Function.Iterate
import Omission.Gpu.Random
import Omission.Lib.Reject

namespace Omission.Gpu
open Omission.Lib
set_option autoImplicit true

namespace XrsrRandom

/-- The generator after `k` draws of 32 bits. -/
def after (rng : XrsrRandom) (k : Nat) : XrsrRandom := (fun rng => rng.nextInt32.2)^[k] rng

/-- The draw behind the first `k`. -/
def draw (rng : XrsrRandom) (k : Nat) : Nat := (rng.after k).nextInt32.1.toNat

/-- The draw behind the first `k` is the first that is kept. -/
structure FirstKept (rng : XrsrRandom) (bound k : Nat) : Prop where
  rejected : ∀ i < k, ¬ Kept (2 ^ 32) bound (rng.draw i)
  kept : Kept (2 ^ 32) bound (rng.draw k)

variable {rng rng' : XrsrRandom} {bound j r : BitVec 32} {fuel k : Nat}

theorem nextInt32_after (rng : XrsrRandom) (k : Nat) :
    (rng.after k).nextInt32.2 = rng.after (k + 1) :=
  (Function.iterate_succ_apply' (fun rng : XrsrRandom => rng.nextInt32.2) k rng).symm

theorem firstKept_succ {n : Nat} : rng.FirstKept n (k + 1) ↔
    ¬ Kept (2 ^ 32) n (rng.draw 0) ∧ rng.nextInt32.2.FirstKept n k := by
  constructor
  · intro h
    refine ⟨h.rejected 0 (Nat.succ_pos k), fun i hi => ?_, h.kept⟩
    exact h.rejected (i + 1) (Nat.succ_lt_succ hi)
  · rintro ⟨hzero, h⟩
    refine ⟨fun i hi => ?_, h.kept⟩
    cases i with
    | zero => exact hzero
    | succ i => exact h.rejected i (Nat.lt_of_succ_lt_succ hi)

theorem FirstKept.unique {n l : Nat} (h : rng.FirstKept n k) (h' : rng.FirstKept n l) : k = l := by
  rcases Nat.lt_trichotomy k l with hlt | rfl | hlt
  · exact absurd h.kept (h'.rejected k hlt)
  · rfl
  · exact absurd h'.kept (h.rejected l hlt)

theorem nextProduct_toNat (bound : BitVec 32) (rng : XrsrRandom) :
    (rng.nextProduct bound).1.toNat = rng.draw 0 * bound.toNat := by
  have hlt : rng.draw 0 * bound.toNat < 2 ^ 32 * 2 ^ 32 :=
    Nat.mul_lt_mul'' rng.nextInt32.1.isLt bound.isLt
  rw [nextProduct, BitVec.toNat_mul, BitVec.toNat_setWidth_of_le (by decide),
    BitVec.toNat_setWidth_of_le (by decide)]
  exact Nat.mod_eq_of_lt hlt

/-- `~bound + 1` is 2^32 less the bound. -/
theorem limit_toNat (hb : 0 < bound.toNat) :
    ((~~~bound + 1) % bound).toNat = 2 ^ 32 % bound.toNat := by
  have hlt := bound.isLt
  have hneg : (-bound).toNat = 2 ^ 32 - bound.toNat := by
    rw [BitVec.toNat_neg]
    exact Nat.mod_eq_of_lt (by omega)
  have hnot : ~~~bound + 1 = -bound := (BitVec.neg_eq_not_add bound).symm
  rw [hnot, BitVec.toNat_umod, hneg]
  exact (Nat.mod_eq_sub_mod hlt.le).symm

theorem low_lt (m : BitVec 64) (v : BitVec 32) :
    m &&& 0xFFFFFFFF#64 < v.setWidth 64 ↔ m.toNat % 2 ^ 32 < v.toNat := by
  have hmask : (0xFFFFFFFF#64).toNat = 2 ^ 32 - 1 := rfl
  rw [BitVec.lt_def, BitVec.toNat_and, hmask, Nat.and_two_pow_sub_one_eq_mod,
    BitVec.toNat_setWidth_of_le (by decide)]

/-- The test of the loop on the product of a draw. -/
theorem rejects_iff (hb : 0 < bound.toNat) (rng : XrsrRandom) :
    (rng.nextProduct bound).1 &&& 0xFFFFFFFF#64 < ((~~~bound + 1) % bound).setWidth 64 ↔
      ¬ Kept (2 ^ 32) bound.toNat (rng.draw 0) := by
  rw [low_lt, limit_toNat hb, nextProduct_toNat, Kept, Nat.not_le]

theorem reject_iff (hb : 0 < bound.toNat) {t : BitVec 64 × XrsrRandom} :
    reject bound ((~~~bound + 1) % bound) fuel (rng.nextProduct bound) = some t ↔
      ∃ k < fuel, rng.FirstKept bound.toNat k ∧ t = (rng.after k).nextProduct bound := by
  induction fuel generalizing rng with
  | zero =>
    constructor
    · intro h
      cases h
    · rintro ⟨k, hk, -⟩
      exact absurd hk (Nat.not_lt_zero k)
  | succ fuel ih =>
    rw [reject]
    simp only [rejects_iff hb]
    split
    · next hnot =>
      have hnext : (rng.nextProduct bound).2 = rng.nextInt32.2 := rfl
      rw [hnext, ih]
      constructor
      · rintro ⟨k, hk, hfirst, rfl⟩
        exact ⟨k + 1, Nat.succ_lt_succ hk, firstKept_succ.2 ⟨hnot, hfirst⟩, rfl⟩
      · rintro ⟨k, hk, hfirst, rfl⟩
        cases k with
        | zero => exact absurd hfirst.kept hnot
        | succ k => exact ⟨k, Nat.lt_of_succ_lt_succ hk, (firstKept_succ.1 hfirst).2, rfl⟩
    · next hkept =>
      rw [not_not] at hkept
      have hzero : rng.FirstKept bound.toNat 0 :=
        ⟨fun i hi => absurd hi (Nat.not_lt_zero i), hkept⟩
      constructor
      · intro h
        cases h
        exact ⟨0, Nat.succ_pos fuel, hzero, rfl⟩
      · rintro ⟨k, -, hfirst, rfl⟩
        cases hfirst.unique hzero
        rfl

/-- A product has the result in its upper half. -/
theorem upper_toNat (hb : 0 < bound.toNat) (rng : XrsrRandom) :
    (((rng.nextProduct bound).1 >>> 32).setWidth 32).toNat =
      scaled (2 ^ 32) bound.toNat (rng.draw 0) := by
  have hlt := (scaled_lt hb rng.nextInt32.1.isLt).trans bound.isLt
  rw [BitVec.toNat_setWidth, BitVec.toNat_ushiftRight, Nat.shiftRight_eq_div_pow,
    nextProduct_toNat]
  exact Nat.mod_eq_of_lt hlt

/-- A product that passes the first test is kept as well. -/
theorem kept_of_not_low (hb : 0 < bound.toNat)
    (h : ¬ (rng.nextProduct bound).1 &&& 0xFFFFFFFF#64 < bound.setWidth 64) :
    rng.FirstKept bound.toNat 0 := by
  rw [low_lt, nextProduct_toNat, Nat.not_lt] at h
  refine ⟨fun i hi => absurd hi (Nat.not_lt_zero i), ?_⟩
  exact (Nat.mod_lt _ hb).le.trans h

/-- The result of `nextInt` is that of the first draw that is kept. -/
theorem nextInt_spec (hb : 0 < bound.toNat) (h : rng.nextInt fuel bound = some (r, rng')) :
    ∃ k, rng.FirstKept bound.toNat k ∧ r.toNat = scaled (2 ^ 32) bound.toNat (rng.draw k) ∧
      rng' = rng.after (k + 1) := by
  simp only [nextInt, Option.bind_eq_bind] at h
  split at h
  · obtain ⟨s, hs, he⟩ := Option.bind_eq_some_iff.1 h
    obtain ⟨k, -, hfirst, rfl⟩ := (reject_iff hb).1 hs
    cases he
    exact ⟨k, hfirst, upper_toNat hb _, nextInt32_after rng k⟩
  · next hlow =>
    cases h
    exact ⟨0, kept_of_not_low hb hlow, upper_toNat hb _, rfl⟩

theorem exists_nextInt (hb : 0 < bound.toNat) (hfirst : rng.FirstKept bound.toNat k)
    (hfuel : k < fuel) : ∃ r, rng.nextInt fuel bound = some (r, rng.after (k + 1)) := by
  simp only [nextInt, Option.bind_eq_bind]
  split
  · rw [(reject_iff hb).2 ⟨k, hfuel, hfirst, rfl⟩]
    refine ⟨_, congrArg (fun s => some (_, s)) ?_⟩
    exact nextInt32_after rng k
  · next hlow =>
    cases hfirst.unique (kept_of_not_low hb hlow)
    exact ⟨_, rfl⟩

/-- When its loop ends, `nextInt` returns the result of the first draw that is kept. -/
theorem nextInt_iff (hb : 0 < bound.toNat) : (∃ fuel, rng.nextInt fuel bound = some (r, rng')) ↔
    ∃ k, rng.FirstKept bound.toNat k ∧ r.toNat = scaled (2 ^ 32) bound.toNat (rng.draw k) ∧
      rng' = rng.after (k + 1) := by
  constructor
  · rintro ⟨fuel, h⟩
    exact nextInt_spec hb h
  · rintro ⟨k, hfirst, hr, rfl⟩
    obtain ⟨r', h⟩ := exists_nextInt hb hfirst (Nat.lt_succ_self k)
    obtain ⟨l, hfirst', hr', -⟩ := nextInt_spec hb h
    cases hfirst.unique hfirst'
    cases BitVec.eq_of_toNat_eq (hr.trans hr'.symm)
    exact ⟨k + 1, h⟩

theorem nextInt_lt (hb : 0 < bound.toNat) (h : rng.nextInt fuel bound = some (r, rng')) :
    r.toNat < bound.toNat := by
  obtain ⟨k, -, hr, -⟩ := nextInt_spec hb h
  rw [hr]
  exact scaled_lt hb (rng.after k).nextInt32.1.isLt

end XrsrRandom

/-- The bounds of the rounds of `init_noise`. -/
theorem bound_toNat (i : Nat) : (BitVec.ofNat 32 (256 - i)).toNat = 256 - i := by
  rw [BitVec.toNat_ofNat]
  omega

end Omission.Gpu
