import Mathlib.Data.Int.Order.Basic

namespace Omission.Lib
set_option autoImplicit true

/-- The sum stays on one side of zero when each of `n` summands moves by `a`, or it is a multiple
of `n`. -/
def Steady (n sum a : Int) : Prop := n ∣ sum ∨ (0 ≤ sum ↔ 0 ≤ sum + n * a)

instance : Decidable (Steady n sum a) := inferInstanceAs (Decidable (_ ∨ _))

/-- A truncated mean moves along exactly if the sum is steady. -/
theorem tdiv_add_mul_iff (hn : 0 < n) :
    (sum + n * a).tdiv n = sum.tdiv n + a ↔ Steady n sum a := by
  have hdvd : n ∣ sum + n * a ↔ n ∣ sum := Int.dvd_add_left (Int.dvd_mul_right n a)
  rw [Steady, Int.tdiv_eq_ediv, Int.tdiv_eq_ediv, Int.add_mul_ediv_left sum a (Int.ne_of_gt hn),
    Int.sign_eq_one_of_pos hn]
  generalize sum / n = quot
  by_cases hs : n ∣ sum
  · rw [if_pos (.inr (hdvd.2 hs)), if_pos (.inr hs)]
    exact iff_of_true (by omega) (.inl hs)
  · have hs' := hdvd.not.2 hs
    simp only [hs, hs', or_false, false_or]
    generalize sum + n * a = moved
    -- rounding adds one below zero
    split <;> split <;> omega

/-- Truncated and floored quotients agree from zero on and on multiples. -/
theorem tdiv_eq_ediv_iff {x n : Int} (hn : 0 < n) : x.tdiv n = x / n ↔ 0 ≤ x ∨ n ∣ x := by
  rw [Int.tdiv_eq_ediv, Int.sign_eq_one_of_pos hn]
  by_cases hx : 0 ≤ x ∨ n ∣ x
  · rw [if_pos hx, Int.add_zero]
    exact iff_of_true rfl hx
  · rw [if_neg hx]
    exact iff_of_false (by omega) hx

end Omission.Lib
