import Mathlib.Algebra.Order.Ring.Rat
import Mathlib.Algebra.Order.Group.Abs
import Mathlib.Tactic.Linarith
import Mathlib.Tactic.Positivity
import Omission.Gpu.Forks
import Omission.Gpu.Noise

namespace Omission.Gpu.FilterSeeds
open Omission.Lib XrsrRandom
set_option autoImplicit true

def noise_yo_fork (noise_fork : XrsrRandomFork) : XrsrRandomFork :=
  let l := noise_fork.lo
  let h := noise_fork.hi ^^^ l
  ⟨rol64 l 49 ^^^ h ^^^ (h <<< 21), rol64 h 28⟩

def octave_yo_fork_hash (hash : XrsrForkHash) : XrsrForkHash :=
  let rng := (XrsrRandom.of hash.lo hash.hi).nextInternal.2
  ⟨rng.lo, rng.hi⟩

/-- `(r >> 32) & 0xFFFFFF` of `octave_yo_mod1`. -/
def octave_yo_bits (hash : XrsrForkHash) (noise_yo_fork : XrsrRandomFork) : BitVec 64 :=
  let fork_hash := octave_yo_fork_hash hash
  let l := noise_yo_fork.lo ^^^ fork_hash.lo
  let h := noise_yo_fork.hi ^^^ fork_hash.hi
  let r := rol64 (l + h) 17 + l
  (r >>> 32) &&& 0xFFFFFF#64

/-- The constant `5.9604645E-8f` is `1 / 2^24`. -/
def octave_yo_mod1 (octave_config : OctaveConfig) (noise_yo_fork : XrsrRandomFork) : Rat :=
  (octave_yo_bits octave_config.fork_hash noise_yo_fork).toNat * (1 / 16777216)

def octave (large_biomes : Bool) (half : Half) (k : Nat) : OctaveConfig :=
  (half.octaves (chosen_continentalness_config large_biomes)).getD k ⟨⟨0, 0⟩, 0, 0⟩

/-- `0.038f` -/
def maxScore : Rat := 10200547 / 268435456

/-- The factors `0.35f`, `0.11f` and `0.04f` of the octaves 0, 1 and 2. -/
def factor : Nat → Rat
  | 0 => 11744051 / 33554432
  | 1 => 7381975 / 67108864
  | _ => 5368709 / 134217728

/-- Whether the thread of `seed` gets to the `atomicAdd`, in exact arithmetic. -/
def kernel (large_biomes : Bool) (seed : BitVec 64) : Bool :=
  let seed_fork := XrsrRandom_seed_fork seed
  let noise_random := seed_fork.from (chosen_continentalness_config large_biomes).fork_hash
  let (noise_a_fork, noise_random) := noise_random.fork
  let noise_a_yo_fork := noise_yo_fork noise_a_fork
  let c_0A_yo := octave_yo_mod1 (octave large_biomes .A 0) noise_a_yo_fork
  let score := factor 0 * |c_0A_yo - 1 / 2|
  if score ≥ maxScore then false else
  let (noise_b_fork, _) := noise_random.fork
  let noise_b_yo_fork := noise_yo_fork noise_b_fork
  let c_0B_yo := octave_yo_mod1 (octave large_biomes .B 0) noise_b_yo_fork
  let score := score + factor 0 * |c_0B_yo - 1 / 2|
  if score ≥ maxScore then false else
  let c_1A_yo := octave_yo_mod1 (octave large_biomes .A 1) noise_a_yo_fork
  let score := score + factor 1 * |c_1A_yo - 1 / 2|
  if score ≥ maxScore then false else
  let c_1B_yo := octave_yo_mod1 (octave large_biomes .B 1) noise_b_yo_fork
  let score := score + factor 1 * |c_1B_yo - 1 / 2|
  if score ≥ maxScore then false else
  let c_2A_yo := octave_yo_mod1 (octave large_biomes .A 2) noise_a_yo_fork
  let score := score + factor 2 * |c_2A_yo - 1 / 2|
  if score ≥ maxScore then false else
  let c_2B_yo := octave_yo_mod1 (octave large_biomes .B 2) noise_b_yo_fork
  let score := score + factor 2 * |c_2B_yo - 1 / 2|
  if score ≥ maxScore then false else
  true

/-- The weighted distance of the y offset of one octave from the middle of its cell. -/
def term (large_biomes : Bool) (seed : BitVec 64) (half : Half) (k : Nat) : Rat :=
  factor k * |octave_yo_mod1 (octave large_biomes half k)
    (noise_yo_fork (noise_fork large_biomes seed half)) - 1 / 2|

def total (large_biomes : Bool) (seed : BitVec 64) : Rat :=
  term large_biomes seed .A 0 + term large_biomes seed .B 0 + term large_biomes seed .A 1 +
    term large_biomes seed .B 1 + term large_biomes seed .A 2 + term large_biomes seed .B 2

/-- The second draw of the generator of one octave, of which `init_noise` makes `yo`. -/
def yo_draw (large_biomes : Bool) (seed : BitVec 64) (half : Half) (k : Nat) : BitVec 64 :=
  ((noise_fork large_biomes seed half).from
    (octave large_biomes half k).fork_hash).nextInternal.2.nextInternal.1

/-- Bits 32 to 55 of that draw, as a fraction. -/
def yo_mod1 (large_biomes : Bool) (seed : BitVec 64) (half : Half) (k : Nat) : Rat :=
  ((yo_draw large_biomes seed half k).toNat / 2 ^ 32 % 2 ^ 24 : Nat) / 2 ^ 24

def drawn_term (large_biomes : Bool) (seed : BitVec 64) (half : Half) (k : Nat) : Rat :=
  factor k * |yo_mod1 large_biomes seed half k - 1 / 2|

def drawn_total (large_biomes : Bool) (seed : BitVec 64) : Rat :=
  drawn_term large_biomes seed .A 0 + drawn_term large_biomes seed .B 0 +
    drawn_term large_biomes seed .A 1 + drawn_term large_biomes seed .B 1 +
    drawn_term large_biomes seed .A 2 + drawn_term large_biomes seed .B 2

/-- The fork is not the hash of the octave, so that their difference is a state of its own. -/
def Differs (large_biomes : Bool) (seed : BitVec 64) (half : Half) (k : Nat) : Prop :=
  (noise_fork large_biomes seed half).lo ≠ (octave large_biomes half k).fork_hash.lo ∨
    (noise_fork large_biomes seed half).hi ≠ (octave large_biomes half k).fork_hash.hi

instance (large_biomes : Bool) (seed : BitVec 64) (half : Half) (k : Nat) :
    Decidable (Differs large_biomes seed half k) :=
  inferInstanceAs (Decidable (_ ∨ _))

theorem factor_nonneg (k : Nat) : 0 ≤ factor k := by
  rcases k with _ | _ | k <;> norm_num [factor]

theorem term_nonneg (large : Bool) (seed : BitVec 64) (half : Half) (k : Nat) :
    0 ≤ term large seed half k :=
  mul_nonneg (factor_nonneg k) (abs_nonneg _)

theorem rol64_xor (a b : BitVec 64) (k : Nat) (h : k ≤ 64) :
    rol64 (a ^^^ b) k = rol64 a k ^^^ rol64 b k :=
  rotate_xor a b k h

/-- The state after one step, without the draw. -/
def advance (lo hi : BitVec 64) : XrsrRandom := (⟨lo, hi⟩ : XrsrRandom).nextInternal.2

theorem xor_swap (a b c d : BitVec w) : a ^^^ b ^^^ (c ^^^ d) = (a ^^^ c) ^^^ (b ^^^ d) := by
  ac_rfl

theorem advance_xor (l h l' h' : BitVec 64) :
    advance (l ^^^ l') (h ^^^ h') =
      ⟨(advance l h).lo ^^^ (advance l' h').lo, (advance l h).hi ^^^ (advance l' h').hi⟩ := by
  have hlo : (advance (l ^^^ l') (h ^^^ h')).lo = (advance l h).lo ^^^ (advance l' h').lo := by
    change rol64 (l ^^^ l') 49 ^^^ (h ^^^ h' ^^^ (l ^^^ l')) ^^^
      ((h ^^^ h' ^^^ (l ^^^ l')) <<< 21) = _ ^^^ (h ^^^ l) ^^^ ((h ^^^ l) <<< 21) ^^^
        (_ ^^^ (h' ^^^ l') ^^^ ((h' ^^^ l') <<< 21))
    rw [xor_swap h, rol64_xor l l' 49 (by decide), BitVec.shiftLeft_xor_distrib (h ^^^ l),
      xor_swap (rol64 l 49), xor_swap (rol64 l 49 ^^^ (h ^^^ l))]
  have hhi : (advance (l ^^^ l') (h ^^^ h')).hi = (advance l h).hi ^^^ (advance l' h').hi := by
    change rol64 (h ^^^ h' ^^^ (l ^^^ l')) 28 = rol64 (h ^^^ l) 28 ^^^ rol64 (h' ^^^ l') 28
    rw [xor_swap h, rol64_xor _ _ 28 (by decide)]
  rw [← hlo, ← hhi]

theorem noise_yo_fork_eq (fork : XrsrRandomFork) :
    noise_yo_fork fork = ⟨(advance fork.lo fork.hi).lo, (advance fork.lo fork.hi).hi⟩ := rfl

theorem octave_yo_fork_hash_eq {hash : XrsrForkHash} (h : ¬ hash.lo ||| hash.hi = 0) :
    octave_yo_fork_hash hash = ⟨(advance hash.lo hash.hi).lo, (advance hash.lo hash.hi).hi⟩ := by
  rw [octave_yo_fork_hash, XrsrRandom.of, if_neg h]
  rfl

theorem octave_yo_draw {fork : XrsrRandomFork} {hash : XrsrForkHash}
    (hhash : ¬ hash.lo ||| hash.hi = 0) (hfork : fork.lo ≠ hash.lo ∨ fork.hi ≠ hash.hi) :
    octave_yo_bits hash (noise_yo_fork fork) =
      ((fork.from hash).nextInternal.2.nextInternal.1 >>> 32) &&& 0xFFFFFF#64 := by
  have hne : ¬ (fork.lo ^^^ hash.lo) ||| (fork.hi ^^^ hash.hi) = 0 := by
    intro h0
    obtain ⟨hlo, hhi⟩ := BitVec.or_eq_zero_iff.1 h0
    exact hfork.elim (fun h => h (BitVec.xor_eq_zero_iff.1 hlo))
      fun h => h (BitVec.xor_eq_zero_iff.1 hhi)
  have hfrom : (fork.from hash).nextInternal.2 =
      advance (fork.lo ^^^ hash.lo) (fork.hi ^^^ hash.hi) := by
    rw [XrsrRandomFork.from, XrsrRandom.of, if_neg hne, advance]
  rw [hfrom, advance_xor, octave_yo_bits, noise_yo_fork_eq, octave_yo_fork_hash_eq hhash]
  rfl

/-- Bits 40 to 55 of a draw, as the kernel and as `nextBits(24)` see them. -/
theorem window (r : BitVec 64) :
    ((r >>> 32) &&& 0xFFFFFF#64).toNat / 2 ^ 8 = (r >>> (64 - 24)).toNat % 2 ^ 16 := by
  have hmask : (0xFFFFFF#64).toNat = 2 ^ 24 - 1 := rfl
  rw [BitVec.toNat_and, BitVec.toNat_ushiftRight, BitVec.toNat_ushiftRight, hmask,
    Nat.and_two_pow_sub_one_eq_mod, Nat.shiftRight_eq_div_pow, Nat.shiftRight_eq_div_pow]
  omega

theorem octave_hash_ne_zero (large : Bool) (half : Half) (hk : k < 3) :
    ¬ (octave large half k).fork_hash.lo ||| (octave large half k).fork_hash.hi = 0 := by
  cases large <;> cases half <;> rcases k with _ | _ | _ | k <;> first | decide | omega

theorem init_noise_yo (h : init_noise fuel rng = some g) :
    g.yo = ((rng.nextBits 24).2.nextBits 24).1 := by
  obtain ⟨⟨p, rng'⟩, -, h⟩ := Option.bind_eq_some_iff.1 h
  cases h
  rfl

theorem kernel_eq (large : Bool) (seed : BitVec 64) :
    kernel large seed =
      let a0 := term large seed .A 0
      let b0 := term large seed .B 0
      let a1 := term large seed .A 1
      let b1 := term large seed .B 1
      let a2 := term large seed .A 2
      let b2 := term large seed .B 2
      if a0 ≥ maxScore then false else
      if a0 + b0 ≥ maxScore then false else
      if a0 + b0 + a1 ≥ maxScore then false else
      if a0 + b0 + a1 + b1 ≥ maxScore then false else
      if a0 + b0 + a1 + b1 + a2 ≥ maxScore then false else
      if a0 + b0 + a1 + b1 + a2 + b2 ≥ maxScore then false else true := by
  simp only [kernel, term, noise_fork, Half.fork, XrsrRandom_double_fork_eq, noise_random]

theorem kernel_iff (large : Bool) (seed : BitVec 64) :
    kernel large seed = true ↔ total large seed < maxScore := by
  have ha0 := term_nonneg large seed .A 0
  have hb0 := term_nonneg large seed .B 0
  have ha1 := term_nonneg large seed .A 1
  have hb1 := term_nonneg large seed .B 1
  have ha2 := term_nonneg large seed .A 2
  have hb2 := term_nonneg large seed .B 2
  rw [kernel_eq, total]
  dsimp only
  split_ifs <;> simp only [false_iff, true_iff, not_lt] <;> linarith

theorem octave_noise_eq (h : octave_noise fuel large seed half k = some g) :
    init_noise fuel ((noise_fork large seed half).from (octave large half k).fork_hash) =
      some g := by
  obtain ⟨config, hconfig, h⟩ := Option.bind_eq_some_iff.1 h
  have hoctave : octave large half k = config := by
    rw [octave, List.getD_eq_getElem?_getD, hconfig]
    rfl
  rw [hoctave]
  exact h

/-- The bits of an octave are those of the draw. -/
theorem octave_yo_bits_eq (hk : k < 3) (h : Differs large seed half k) :
    (octave_yo_bits (octave large half k).fork_hash
      (noise_yo_fork (noise_fork large seed half))).toNat =
        (yo_draw large seed half k).toNat / 2 ^ 32 % 2 ^ 24 := by
  have hmask : (0xFFFFFF#64).toNat = 2 ^ 24 - 1 := rfl
  rw [octave_yo_draw (octave_hash_ne_zero large half hk) h, BitVec.toNat_and,
    BitVec.toNat_ushiftRight, hmask, Nat.and_two_pow_sub_one_eq_mod, Nat.shiftRight_eq_div_pow,
    yo_draw]

theorem octave_yo_mod1_eq (octave_config : OctaveConfig) (fork : XrsrRandomFork) :
    octave_yo_mod1 octave_config fork =
      (octave_yo_bits octave_config.fork_hash fork).toNat / 2 ^ 24 := by
  have hunit : (1 / 16777216 : Rat) = (2 ^ 24)⁻¹ := by norm_num
  rw [octave_yo_mod1, hunit, div_eq_mul_inv]

theorem term_eq (hk : k < 3) (h : Differs large seed half k) :
    term large seed half k = drawn_term large seed half k := by
  rw [term, drawn_term, octave_yo_mod1_eq, octave_yo_bits_eq hk h, yo_mod1]

theorem total_eq (h : ∀ half, ∀ k < 3, Differs large seed half k) :
    total large seed = drawn_total large seed := by
  rw [total, drawn_total, term_eq (by decide) (h .A 0 (by decide)),
    term_eq (by decide) (h .B 0 (by decide)), term_eq (by decide) (h .A 1 (by decide)),
    term_eq (by decide) (h .B 1 (by decide)), term_eq (by decide) (h .A 2 (by decide)),
    term_eq (by decide) (h .B 2 (by decide))]

/-- The upper 16 bits of a fraction of 24 bits. -/
theorem upper_bits {bits upper : Nat} (h : bits / 2 ^ 8 = upper) :
    (upper : Rat) / 2 ^ 16 ≤ bits / 2 ^ 24 ∧ (bits : Rat) / 2 ^ 24 < (upper + 1) / 2 ^ 16 := by
  have hlow : upper * 2 ^ 8 ≤ bits := by omega
  have hhigh : bits < (upper + 1) * 2 ^ 8 := by omega
  have hlow' : (upper : Rat) * 2 ^ 8 ≤ bits := by exact_mod_cast hlow
  have hhigh' : (bits : Rat) < (upper + 1) * 2 ^ 8 := by exact_mod_cast hhigh
  constructor
  · linarith
  · linarith

/-- The kernel decides on the true y offsets, and its early exits never change the decision. -/
theorem filter_seeds_decides (large : Bool) (seed : BitVec 64) :
    (∀ half, ∀ k < 3, Differs large seed half k →
      (octave_yo_bits (octave large half k).fork_hash
          (noise_yo_fork (noise_fork large seed half))).toNat / 2 ^ 8 =
        ((((noise_fork large seed half).from (octave large half k).fork_hash).nextBits
          24).2.nextBits 24).1.toNat % 2 ^ 16 ∧
      octave_yo_mod1 (octave large half k) (noise_yo_fork (noise_fork large seed half)) =
        yo_mod1 large seed half k ∧
      ∀ fuel g, octave_noise fuel large seed half k = some g →
        g.yo = ((((noise_fork large seed half).from (octave large half k).fork_hash).nextBits
          24).2.nextBits 24).1 ∧
        ((g.yo.toNat % 2 ^ 16 : Nat) : Rat) / 2 ^ 16 ≤ yo_mod1 large seed half k ∧
        yo_mod1 large seed half k < ((g.yo.toNat % 2 ^ 16 : Nat) + 1) / 2 ^ 16) ∧
    ((∀ half, ∀ k < 3, Differs large seed half k) →
      (kernel large seed = true ↔ drawn_total large seed < maxScore)) ∧
    (kernel large seed = true ↔ total large seed < maxScore) := by
  refine ⟨?_, fun h => total_eq h ▸ kernel_iff large seed, kernel_iff large seed⟩
  intro half k hk hfork
  have hbits : (octave_yo_bits (octave large half k).fork_hash
      (noise_yo_fork (noise_fork large seed half))).toNat / 2 ^ 8 =
        ((((noise_fork large seed half).from (octave large half k).fork_hash).nextBits
          24).2.nextBits 24).1.toNat % 2 ^ 16 := by
    rw [octave_yo_draw (octave_hash_ne_zero large half hk) hfork]
    exact window _
  refine ⟨hbits, ?_, ?_⟩
  · rw [octave_yo_mod1_eq, octave_yo_bits_eq hk hfork, yo_mod1]
  · intro fuel g h
    have hyo := init_noise_yo (octave_noise_eq h)
    rw [octave_yo_bits_eq hk hfork, ← hyo] at hbits
    exact ⟨hyo, upper_bits hbits⟩

theorem forall_octaves {q : Half → Nat → Prop} (hA : q .A 0 ∧ q .A 1 ∧ q .A 2)
    (hB : q .B 0 ∧ q .B 1 ∧ q .B 2) : ∀ half, ∀ k < 3, q half k := by
  have hthree : ∀ half, q half 0 ∧ q half 1 ∧ q half 2 := by
    intro half
    cases half with
    | A => exact hA
    | B => exact hB
  intro half k hk
  obtain ⟨h0, h1, h2⟩ := hthree half
  obtain rfl | rfl | rfl : k = 0 ∨ k = 1 ∨ k = 2 := by omega
  · exact h0
  · exact h1
  · exact h2

/-- Seed 4189 passes, seed 0 does not. -/
theorem filter_seeds_decides_two_seeds :
    (octave_yo_bits (octave false .B 2).fork_hash
        (noise_yo_fork (noise_fork false 4189 .B))).toNat / 2 ^ 8 =
      ((((noise_fork false 4189 .B).from (octave false .B 2).fork_hash).nextBits
        24).2.nextBits 24).1.toNat % 2 ^ 16 ∧
      drawn_total false 4189 < maxScore ∧ ¬ drawn_total false 0 < maxScore := by
  have hpass : ∀ half, ∀ k < 3, Differs false 4189 half k :=
    forall_octaves (by decide +kernel) (by decide +kernel)
  have hfail : ∀ half, ∀ k < 3, Differs false 0 half k :=
    forall_octaves (by decide +kernel) (by decide +kernel)
  obtain ⟨hbits, hkept, -⟩ := filter_seeds_decides false 4189
  obtain ⟨-, hlost, -⟩ := filter_seeds_decides false 0
  refine ⟨(hbits .B 2 (by decide) (hpass .B 2 (by decide))).1, (hkept hpass).1 ?_, ?_⟩
  · decide +kernel
  · exact (hlost hfail).not.1 (by decide +kernel)

end Omission.Gpu.FilterSeeds
