import Mathlib.Tactic.Linarith
import Mathlib.Tactic.Ring
import Mathlib.Algebra.Order.Round
import Omission.Gpu.Sample

namespace Omission.Gpu
open FloatOps
set_option autoImplicit true

theorem gradients_le (hash : Fin 16) : |(gradients.get hash).1| ≤ 1 ∧
    |(gradients.get hash).2.1| ≤ 1 ∧ |(gradients.get hash).2.2| ≤ 1 := by
  revert hash
  decide

theorem abs_mul_le_of_le_one {x g : Rat} (hg : |g| ≤ 1) : |x * g| ≤ |x| := by
  rw [abs_mul]
  exact mul_le_of_le_one_right (abs_nonneg x) hg

theorem gradDot_le (p : UInt8) (x y z : Rat) :
    |gradDot init_grad_dot_table p x y z| ≤ |x| + (|y| + |z|) := by
  simp only [gradDot, init_grad_dot_table, FloatOps.fmaf, FloatOps.ofRat]
  generalize (⟨p.toNat % 16, _⟩ : Fin 16) = hash
  obtain ⟨hx, hy, hz⟩ := gradients_le hash
  have hcast : ∀ i : Int, |i| ≤ 1 → |(i : Rat)| ≤ 1 := fun i hi => mod_cast hi
  refine (abs_add_le _ _).trans (add_le_add (abs_mul_le_of_le_one (hcast _ hx)) ?_)
  exact (abs_add_le _ _).trans
    (add_le_add (abs_mul_le_of_le_one (hcast _ hy)) (abs_mul_le_of_le_one (hcast _ hz)))

theorem smoothstep_nonneg {t : Rat} (h0 : 0 ≤ t) : 0 ≤ smoothstep t := by
  have he : smoothstep t = t * t * t * (6 * (t - 5 / 4) * (t - 5 / 4) + 5 / 8) := by
    simp only [smoothstep, FloatOps.ofRat]
    ring
  rw [he]
  have hsq : 0 ≤ (t - 5 / 4) * (t - 5 / 4) := mul_self_nonneg _
  have hq : 0 ≤ 6 * (t - 5 / 4) * (t - 5 / 4) + 5 / 8 := by linarith
  exact mul_nonneg (mul_nonneg (mul_nonneg h0 h0) h0) hq

theorem smoothstep_one_sub (t : Rat) : smoothstep (1 - t) = 1 - smoothstep t := by
  simp only [smoothstep, FloatOps.ofRat]
  ring

theorem smoothstep_le_one {t : Rat} (h1 : t ≤ 1) : smoothstep t ≤ 1 := by
  have h := smoothstep_nonneg (t := 1 - t) (by linarith)
  rw [smoothstep_one_sub] at h
  linarith

theorem lerp1_eq (f a b : Rat) : lerp1 f a b = (1 - f) * a + f * b := by
  simp only [lerp1, FloatOps.fmaf]
  ring

theorem lerp1_le {f a b A B : Rat} (h0 : 0 ≤ f) (h1 : f ≤ 1) (ha : |a| ≤ A) (hb : |b| ≤ B) :
    |lerp1 f a b| ≤ lerp1 f A B := by
  rw [lerp1_eq, lerp1_eq]
  have h1' : 0 ≤ 1 - f := by linarith
  calc |(1 - f) * a + f * b| ≤ |(1 - f) * a| + |f * b| := abs_add_le _ _
    _ = (1 - f) * |a| + f * |b| := by rw [abs_mul, abs_mul, abs_of_nonneg h1', abs_of_nonneg h0]
    _ ≤ (1 - f) * A + f * B :=
      add_le_add (mul_le_mul_of_nonneg_left ha h1') (mul_le_mul_of_nonneg_left hb h0)

theorem lerp2_le {fx fy : Rat} (hx0 : 0 ≤ fx) (hx1 : fx ≤ 1) (hy0 : 0 ≤ fy) (hy1 : fy ≤ 1)
    (h00 : |v00| ≤ w00) (h10 : |v10| ≤ w10) (h01 : |v01| ≤ w01) (h11 : |v11| ≤ w11) :
    |lerp2 fx fy v00 v10 v01 v11| ≤ lerp2 fx fy w00 w10 w01 w11 :=
  lerp1_le hy0 hy1 (lerp1_le hx0 hx1 h00 h10) (lerp1_le hx0 hx1 h01 h11)

/-- The mean distance to the two ends of a cell, weighted by the fade curve. -/
def fade_distance (t : Rat) : Rat := lerp1 (smoothstep t) t (1 - t)

theorem fade_distance_le {t : Rat} (h0 : 0 ≤ t) (h1 : t ≤ 1) : fade_distance t ≤ 1 / 2 := by
  have hu : 0 ≤ t * (1 - t) := mul_nonneg h0 (by linarith)
  have he : 1 / 2 - fade_distance t =
      ((2 * t - 1) * (2 * t - 1)) * (3 * (t * (1 - t)) * (t * (1 - t)) + t * (1 - t) + 1 / 2) := by
    simp only [fade_distance, lerp1_eq, smoothstep, FloatOps.ofRat]
    ring
  have hq : 0 ≤ 3 * (t * (1 - t)) * (t * (1 - t)) + t * (1 - t) + 1 / 2 := by
    have := mul_nonneg hu hu
    linarith
  have := mul_nonneg (mul_self_nonneg (2 * t - 1)) hq
  linarith

theorem frac_nonneg (x : Rat) : 0 ≤ x - ofRat (F := Rat) (float2int_rd x) :=
  sub_nonneg.2 (Int.floor_le x)

theorem frac_le_one (x : Rat) : x - ofRat (F := Rat) (float2int_rd x) ≤ 1 := by
  have h : x < (⌊x⌋ : Rat) + 1 := Int.lt_floor_add_one x
  have he : (ofRat (F := Rat) (float2int_rd x) : Rat) = (⌊x⌋ : Rat) := rfl
  rw [he]
  linarith

theorem gradDot_le_of_le {p : UInt8} {x y z a b c : Rat} (hx : |x| ≤ a) (hy : |y| ≤ b)
    (hz : |z| ≤ c) : |gradDot init_grad_dot_table p x y z| ≤ a + (b + c) :=
  (gradDot_le p x y z).trans (add_le_add hx (add_le_add hy hz))

section Cell

variable {x y z : Rat} (hx0 : 0 ≤ x) (hx1 : x ≤ 1) (hy0 : 0 ≤ y) (hy1 : y ≤ 1) (hz0 : 0 ≤ z)
  (hz1 : z ≤ 1)
include hx0 hx1 hy0 hy1 hz0 hz1

/-- The corner gradients can all point towards the position, so the noise may pass 1. -/
theorem cell_noise_le (c000 c100 c010 c110 c001 c101 c011 c111 : UInt8) :
    |lerp3 (smoothstep x) (smoothstep y) (smoothstep z)
      (gradDot init_grad_dot_table c000 x y z) (gradDot init_grad_dot_table c100 (x - 1) y z)
      (gradDot init_grad_dot_table c010 x (y - 1) z)
      (gradDot init_grad_dot_table c110 (x - 1) (y - 1) z)
      (gradDot init_grad_dot_table c001 x y (z - 1))
      (gradDot init_grad_dot_table c101 (x - 1) y (z - 1))
      (gradDot init_grad_dot_table c011 x (y - 1) (z - 1))
      (gradDot init_grad_dot_table c111 (x - 1) (y - 1) (z - 1))| ≤ 3 / 2 := by
  have habs : ∀ {t : Rat}, 0 ≤ t → |t| ≤ t := fun ht => (abs_of_nonneg ht).le
  have habs1 : ∀ {t : Rat}, t ≤ 1 → |t - 1| ≤ 1 - t := by
    intro t ht
    rw [abs_sub_comm, abs_of_nonneg (by linarith)]
  have hsx0 := smoothstep_nonneg hx0
  have hsx1 := smoothstep_le_one hx1
  have hsy0 := smoothstep_nonneg hy0
  have hsy1 := smoothstep_le_one hy1
  have hlow := lerp2_le hsx0 hsx1 hsy0 hsy1
    (gradDot_le_of_le (p := c000) (habs hx0) (habs hy0) (habs hz0))
    (gradDot_le_of_le (p := c100) (habs1 hx1) (habs hy0) (habs hz0))
    (gradDot_le_of_le (p := c010) (habs hx0) (habs1 hy1) (habs hz0))
    (gradDot_le_of_le (p := c110) (habs1 hx1) (habs1 hy1) (habs hz0))
  have hhigh := lerp2_le hsx0 hsx1 hsy0 hsy1
    (gradDot_le_of_le (p := c001) (habs hx0) (habs hy0) (habs1 hz1))
    (gradDot_le_of_le (p := c101) (habs1 hx1) (habs hy0) (habs1 hz1))
    (gradDot_le_of_le (p := c011) (habs hx0) (habs1 hy1) (habs1 hz1))
    (gradDot_le_of_le (p := c111) (habs1 hx1) (habs1 hy1) (habs1 hz1))
  refine (lerp1_le (smoothstep_nonneg hz0) (smoothstep_le_one hz1) hlow hhigh).trans ?_
  -- the three coordinates of the weighted distance separate
  have he : lerp1 (smoothstep z)
      (lerp2 (smoothstep x) (smoothstep y) (x + (y + z)) (1 - x + (y + z)) (x + (1 - y + z))
        (1 - x + (1 - y + z)))
      (lerp2 (smoothstep x) (smoothstep y) (x + (y + (1 - z))) (1 - x + (y + (1 - z)))
        (x + (1 - y + (1 - z))) (1 - x + (1 - y + (1 - z)))) =
      fade_distance x + fade_distance y + fade_distance z := by
    simp only [lerp2, fade_distance, lerp1_eq]
    ring
  rw [he]
  have h1 := fade_distance_le hx0 hx1
  have h2 := fade_distance_le hy0 hy1
  have h3 := fade_distance_le hz0 hz1
  linarith

end Cell

/-- The range of the gradient noise of one octave. -/
theorem sample_noise_le (noise : NoiseView Rat) (x y z : Rat) :
    |sample_noise init_grad_dot_table noise x y z| ≤ 3 / 2 :=
  cell_noise_le (frac_nonneg _) (frac_le_one _) (frac_nonneg _) (frac_le_one _) (frac_nonneg _)
    (frac_le_one _) _ _ _ _ _ _ _ _

end Omission.Gpu
