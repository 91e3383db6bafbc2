import Mathlib.Order.Interval.Finset.Nat

namespace Omission.Lib
set_option autoImplicit true

/-- A draw `l` below `n` scaled to a result below `bound`. -/
def scaled (n bound l : Nat) : Nat := l * bound / n

/-- The draws with one of the first `n % bound` remainders are rejected. -/
def Kept (n bound l : Nat) : Prop := n % bound ≤ l * bound % n

instance : DecidablePred (Kept n bound) := fun l =>
  inferInstanceAs (Decidable (n % bound ≤ l * bound % n))

theorem scaled_lt (hb : 0 < bound) (hl : l < n) : scaled n bound l < bound := by
  have hmul : l * bound < n * bound := Nat.mul_lt_mul_of_pos_right hl hb
  exact Nat.div_lt_of_lt_mul hmul

/-- The products of the draws that are kept for `r` lie in one interval. -/
theorem kept_scaled_iff (hn : 0 < n) : Kept n bound l ∧ scaled n bound l = r ↔
    r * n + n % bound ≤ l * bound ∧ l * bound < r * n + n := by
  have hdiv := Nat.div_add_mod (l * bound) n
  have hmod := Nat.mod_lt (l * bound) hn
  constructor
  · rintro ⟨hkept, rfl⟩
    rw [scaled, Nat.mul_comm _ n]
    rw [Kept] at hkept
    omega
  · rintro ⟨hlo, hhi⟩
    have hr : scaled n bound l = r := by
      apply Nat.div_eq_of_lt_le
      · omega
      · rw [Nat.succ_mul]
        exact hhi
    rw [scaled] at hr
    rw [hr, Nat.mul_comm n r] at hdiv
    exact ⟨by rw [Kept]; omega, hr⟩

theorem le_ceil_iff (hb : 0 < b) : (c + b - 1) / b ≤ l ↔ c ≤ l * b := by
  rw [← Nat.lt_succ_iff, Nat.div_lt_iff_lt_mul hb, Nat.succ_mul]
  omega

/-- Every result has the same number of draws that are kept for it. -/
theorem card_kept (hn : 0 < n) (hb : 0 < bound) (hr : r < bound) :
    ((Finset.range n).filter fun l => Kept n bound l ∧ scaled n bound l = r).card = n / bound := by
  have hn' := Nat.mod_add_div' n bound
  have hceil : (r * n + n + bound - 1) / bound =
      (r * n + n % bound + bound - 1) / bound + n / bound := by
    rw [← Nat.add_mul_div_right _ _ hb]
    congr 1
    omega
  have hset : (Finset.range n).filter (fun l => Kept n bound l ∧ scaled n bound l = r) =
      Finset.Ico ((r * n + n % bound + bound - 1) / bound)
        ((r * n + n + bound - 1) / bound) := by
    ext l
    rw [Finset.mem_filter, Finset.mem_range, kept_scaled_iff hn, Finset.mem_Ico, le_ceil_iff hb,
      ← Nat.not_le (a := (r * n + n + bound - 1) / bound), le_ceil_iff hb, Nat.not_le]
    refine and_iff_right_of_imp fun h => ?_
    have hmul : (r + 1) * n ≤ bound * n := Nat.mul_le_mul_right n hr
    rw [Nat.succ_mul, Nat.mul_comm bound n] at hmul
    exact Nat.lt_of_mul_lt_mul_right (h.2.trans_le hmul)
  rw [hset, Nat.card_Ico, hceil, Nat.add_sub_cancel_left]

/-- Without remainder nothing is rejected. -/
theorem card_scaled (hn : 0 < n) (hb : 0 < bound) (hr : r < bound) (hzero : n % bound = 0) :
    ((Finset.range n).filter fun l => scaled n bound l = r).card = n / bound := by
  rw [← card_kept hn hb hr]
  congr 1
  apply Finset.filter_congr
  intro l _
  rw [Kept, hzero]
  exact (and_iff_right (Nat.zero_le _)).symm

/-- The draws below the last multiple of the bound give each remainder equally often. -/
theorem card_mod (hb : 0 < bound) (hr : r < bound) :
    ((Finset.range n).filter fun l => l / bound * bound + bound ≤ n ∧ l % bound = r).card =
      n / bound := by
  have himage : (Finset.range n).filter (fun l => l / bound * bound + bound ≤ n ∧
      l % bound = r) = (Finset.range (n / bound)).image fun q => q * bound + r := by
    ext l
    rw [Finset.mem_filter, Finset.mem_range, Finset.mem_image]
    constructor
    · rintro ⟨-, hle, rfl⟩
      refine ⟨l / bound, ?_, Nat.div_add_mod' l bound⟩
      rw [Finset.mem_range, ← Nat.succ_le_iff, Nat.le_div_iff_mul_le hb, Nat.succ_mul]
      exact hle
    · rintro ⟨q, hq, rfl⟩
      have hle : q * bound + bound ≤ n := by
        rwa [Finset.mem_range, ← Nat.succ_le_iff, Nat.le_div_iff_mul_le hb, Nat.succ_mul] at hq
      have hdiv : (q * bound + r) / bound = q := by
        rw [Nat.mul_comm, Nat.mul_add_div hb, Nat.div_eq_of_lt hr, Nat.add_zero]
      refine ⟨by omega, by rwa [hdiv], ?_⟩
      rw [Nat.mul_comm, Nat.mul_add_mod, Nat.mod_eq_of_lt hr]
  have hinj : Function.Injective fun q => q * bound + r := by
    intro p q hpq
    exact Nat.eq_of_mul_eq_mul_right hb (Nat.add_right_cancel hpq)
  rw [himage, Finset.card_image_of_injective _ hinj, Finset.card_range]

end Omission.Lib
