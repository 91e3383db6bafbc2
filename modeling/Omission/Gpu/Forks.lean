import Omission.Gpu.Random
import Omission.Lib.Bits

namespace Omission.Gpu
open Omission.Lib
set_option autoImplicit true

namespace XrsrRandom

def XRSR_MIX1_INVERSE : BitVec 64 := 0x96de1b173f119089#64
def XRSR_MIX2_INVERSE : BitVec 64 := 0x319642b2d24d8ec3#64

def fix64 (a : BitVec 64) : BitVec 64 :=
  let a := (a ^^^ (a >>> 31) ^^^ (a >>> 62)) * XRSR_MIX2_INVERSE
  let a := (a ^^^ (a >>> 27) ^^^ (a >>> 54)) * XRSR_MIX1_INVERSE
  a ^^^ (a >>> 30) ^^^ (a >>> 60)

/-- `XrsrRandom(seed)`. -/
def setSeed (seed : BitVec 64) : XrsrRandom :=
  let seed := seed ^^^ XRSR_SILVER_RATIO
  .of (mix64 seed) (mix64 (seed + XRSR_GOLDEN_RATIO))

def nextLong (rng : XrsrRandom) : BitVec 64 × XrsrRandom := rng.nextInternal

def fork (rng : XrsrRandom) : XrsrRandomFork × XrsrRandom :=
  let (lo, rng) := rng.nextLong
  let (hi, rng) := rng.nextLong
  (⟨lo, hi⟩, rng)

theorem fix64_mix64 (a : BitVec 64) : fix64 (mix64 a) = a := by
  have h1 : XRSR_MIX1 * XRSR_MIX1_INVERSE = 1#64 := by decide
  have h2 : XRSR_MIX2 * XRSR_MIX2_INVERSE = 1#64 := by decide
  rw [fix64, mix64]
  rw [xorshift_undo _ 31 (by decide), mul_undo h2, xorshift_undo _ 27 (by decide), mul_undo h1,
    xorshift_undo _ 30 (by decide)]

theorem mix64_fix64 (a : BitVec 64) : mix64 (fix64 a) = a := by
  have h1 : XRSR_MIX1_INVERSE * XRSR_MIX1 = 1#64 := by decide
  have h2 : XRSR_MIX2_INVERSE * XRSR_MIX2 = 1#64 := by decide
  rw [mix64, fix64]
  rw [xorshift_redo _ 30 (by decide), mul_undo h1, xorshift_redo _ 27 (by decide), mul_undo h2,
    xorshift_redo _ 31 (by decide)]

theorem mix64_injective : Function.Injective mix64 :=
  Function.LeftInverse.injective fix64_mix64

theorem mix64_zero : mix64 0 = 0 := by decide

theorem mixed_ne_zero (seed : BitVec 64) :
    ¬ mix64 seed ||| mix64 (seed + XRSR_GOLDEN_RATIO) = 0 := by
  intro h
  obtain ⟨hlo, hhi⟩ := BitVec.or_eq_zero_iff.1 h
  have hseed : seed = 0 := mix64_injective (hlo.trans mix64_zero.symm)
  have hgold : seed + XRSR_GOLDEN_RATIO = 0 := mix64_injective (hhi.trans mix64_zero.symm)
  rw [hseed] at hgold
  exact absurd hgold (by decide)

theorem setSeed_eq (seed : BitVec 64) : setSeed seed =
    ⟨mix64 (seed ^^^ XRSR_SILVER_RATIO),
      mix64 ((seed ^^^ XRSR_SILVER_RATIO) + XRSR_GOLDEN_RATIO)⟩ := by
  rw [setSeed, of, if_neg (mixed_ne_zero _)]

theorem setSeed_injective : Function.Injective setSeed := by
  intro seed seed' h
  rw [setSeed_eq, setSeed_eq] at h
  have hlo : mix64 (seed ^^^ XRSR_SILVER_RATIO) = mix64 (seed' ^^^ XRSR_SILVER_RATIO) :=
    congrArg lo h
  exact (BitVec.xor_left_inj _).1 (mix64_injective hlo)

/-- The mixer of the seed is a bijection with inverse `fix64`, and every seed has a state of its
own. -/
theorem seed_mixer_bijective : (∀ a, fix64 (mix64 a) = a) ∧ (∀ a, mix64 (fix64 a) = a) ∧
    Function.Bijective mix64 ∧ Function.Injective setSeed :=
  ⟨fix64_mix64, mix64_fix64,
    Function.bijective_iff_has_inverse.2 ⟨fix64, fix64_mix64, mix64_fix64⟩, setSeed_injective⟩

end XrsrRandom

section Forks
open XrsrRandom

theorem XrsrRandom_seed_fork_eq (seed : BitVec 64) :
    XrsrRandom_seed_fork seed = (setSeed seed).fork.1 := by
  rw [setSeed_eq, XrsrRandom_seed_fork]
  generalize mix64 (seed ^^^ XRSR_SILVER_RATIO) = l
  generalize mix64 ((seed ^^^ XRSR_SILVER_RATIO) + XRSR_GOLDEN_RATIO) = h
  simp only [fork, nextLong, nextInternal]

theorem XrsrRandom_double_fork_eq (rng : XrsrRandom) :
    XrsrRandom_double_fork rng = (rng.fork.1, rng.fork.2.fork.1) := by
  simp only [XrsrRandom_double_fork, fork, nextLong, nextInternal]

/-- The unrolled forks are the forks of the generator. -/
theorem forks_agree : (∀ seed, XrsrRandom_seed_fork seed = (setSeed seed).fork.1) ∧
    ∀ rng : XrsrRandom, XrsrRandom_double_fork rng = (rng.fork.1, rng.fork.2.fork.1) :=
  ⟨XrsrRandom_seed_fork_eq, XrsrRandom_double_fork_eq⟩

end Forks

end Omission.Gpu
