import Mathlib.Algebra.Group.Basic
import Mathlib.Tactic.Ring

namespace Omission.Lib
set_option autoImplicit true

/-- The map `x ↦ x * mul + add`. -/
@[ext]
structure Affine (R : Type u) where
  mul : R
  add : R

namespace Affine

variable {R : Type u} [CommRing R] {f : Affine R}

def apply (f : Affine R) (x : R) : R := x * f.mul + f.add

/-- The product of two maps is the first one followed by the second. -/
instance : Monoid (Affine R) where
  mul f g := ⟨f.mul * g.mul, f.add * g.mul + g.add⟩
  one := ⟨1, 0⟩
  mul_assoc f g h := by
    apply Affine.ext
    · exact mul_assoc f.mul g.mul h.mul
    · change (f.add * g.mul + g.add) * h.mul + h.add =
        f.add * (g.mul * h.mul) + (g.add * h.mul + h.add)
      ring
  one_mul f := by
    apply Affine.ext
    · exact one_mul f.mul
    · change 0 * f.mul + f.add = f.add
      ring
  mul_one f := by
    apply Affine.ext
    · exact mul_one f.mul
    · change f.add * 1 + 0 = f.add
      ring

theorem mul_def (f g : Affine R) : f * g = ⟨f.mul * g.mul, f.add * g.mul + g.add⟩ := rfl

theorem one_def : (1 : Affine R) = ⟨1, 0⟩ := rfl

theorem apply_mul (f g : Affine R) (x : R) : (f * g).apply x = g.apply (f.apply x) := by
  rw [mul_def]
  simp only [apply]
  ring

theorem apply_one (x : R) : (1 : Affine R).apply x = x := by
  rw [apply, one_def, mul_one, add_zero]

theorem apply_pow (f : Affine R) (n : Nat) (x : R) : (f ^ n).apply x = f.apply^[n] x := by
  induction n generalizing x with
  | zero => exact apply_one x
  | succ n ih => rw [pow_succ', apply_mul, ih, Function.iterate_succ_apply]

/-- With an odd factor, `2 ^ k` rounds are the identity up to a multiple of `2 ^ k`. -/
theorem pow_two_pow (hodd : f.mul = 1 + 2 * u) (k : Nat) :
    ∃ t s, f ^ 2 ^ k = ⟨1 + 2 ^ (k + 1) * t, 2 ^ k * s⟩ := by
  induction k with
  | zero =>
    refine ⟨u, f.add, ?_⟩
    rw [pow_zero, pow_one]
    apply Affine.ext
    · rw [zero_add, pow_one, hodd]
    · rw [pow_zero, one_mul]
  | succ k ih =>
    obtain ⟨t, s, h⟩ := ih
    refine ⟨t + 2 ^ k * t ^ 2, s + 2 ^ k * t * s, ?_⟩
    rw [pow_succ, pow_mul, h, pow_two, mul_def]
    apply Affine.ext
    · ring
    · ring

theorem pow_two_pow_eq_one (hodd : f.mul = 1 + 2 * u) (hzero : (2 : R) ^ k = 0) :
    f ^ 2 ^ k = 1 := by
  obtain ⟨t, s, h⟩ := pow_two_pow hodd k
  rw [h, pow_succ, hzero, zero_mul, zero_mul, add_zero, zero_mul, one_def]

end Affine

/-- The rounds of repeated squaring: the power so far and the next square. -/
def squareMultiply {M : Type u} [Monoid M] (n : Nat) (x : M) : Nat → M × M
  | 0 => (1, x)
  | i + 1 =>
    let (y, p) := squareMultiply n x i
    (if n.testBit i then y * p else y, p * p)

theorem squareMultiply_eq {M : Type u} [Monoid M] (n : Nat) (x : M) (i : Nat) :
    squareMultiply n x i = (x ^ (n % 2 ^ i), x ^ 2 ^ i) := by
  induction i with
  | zero => rw [squareMultiply, pow_zero, Nat.mod_one, pow_zero, pow_one]
  | succ i ih =>
    have hmod : n % 2 ^ (i + 1) = n % 2 ^ i + 2 ^ i * (n.testBit i).toNat := by
      rw [Nat.mod_pow_succ, Nat.toNat_testBit]
    have hsquare : x ^ 2 ^ i * x ^ 2 ^ i = x ^ 2 ^ (i + 1) := by
      rw [← pow_add, ← two_mul, ← pow_succ']
    rw [squareMultiply, ih, hmod]
    dsimp only
    rw [hsquare]
    cases n.testBit i with
    | false => rfl
    | true => rw [if_pos rfl, Bool.toNat_true, mul_one, ← pow_add]

end Omission.Lib
