import Mathlib.Algebra.BigOperators.Ring.Finset
import Mathlib.Algebra.Order.BigOperators.Group.Finset
import Mathlib.Tactic.IntervalCases
import Mathlib.Tactic.Ring
import Omission.Gpu.Filter2

namespace Omission.Gpu.Filter2
open Omission.Lib FloatOps
set_option autoImplicit true

namespace Template

variable {large_biomes : Bool} (T : Template large_biomes)

def row_step : Nat := if T.samples_square_sparse then 2 else 1

theorem exists_log : ∃ k, 5 ≤ k ∧ k ≤ 16 ∧ T.samples = 2 ^ k := by
  obtain ⟨hlo, hhi, hpow⟩ := T.samples_ok
  have hne : T.samples ≠ 0 := by omega
  obtain ⟨k, hk⟩ := (Nat.and_sub_one_eq_zero_iff_isPowerOfTwo hne).1 (beq_iff_eq.1 hpow)
  refine ⟨k, ?_, ?_, hk⟩
  · exact (Nat.pow_le_pow_iff_right (by decide : 1 < 2)).1 (hk ▸ hlo)
  · exact (Nat.pow_le_pow_iff_right (by decide : 1 < 2)).1 (hk ▸ hhi)

/-- How the threads of an input cover its grid: a round covers whole rows. -/
structure Layout (count S threads loops step : Nat) : Prop where
  rows_pos : 0 < threads / S
  rows : threads / S * S = threads
  rounds : loops * (step * (threads / S)) = S
  whole : threads = threads / 32 * 32
  count_eq : count = loops * threads
  share : 256 / threads * threads = 256
  loops_pos : 0 < loops
  even : step = 2 → S % 2 = 0

theorem layout :
    Layout T.samples T.samples_square_size T.threads_per_input T.loops T.row_step := by
  obtain ⟨k, h5, h16, hk⟩ := T.exists_log
  simp only [samples_square_size, threads_per_input, loops, row_step, samples_square_sparse, hk]
  interval_cases k
  all_goals
    constructor <;> decide +kernel

end Template

theorem sum_lanes [AddCommMonoid M] (f : Nat → M) (n warps : Nat) :
    ∑ w ∈ Finset.range warps, ∑ l : Fin n, f (n * w + l) = ∑ p ∈ Finset.range (warps * n), f p := by
  induction warps with
  | zero => simp
  | succ w ih =>
    rw [Finset.sum_range_succ, ih, Nat.succ_mul, Finset.sum_range_add, Finset.sum_range,
      Nat.mul_comm,
      Finset.sum_range]

theorem digit_div {a n r : Nat} (h : r < n) : (a * n + r) / n = a := by
  rw [Nat.mul_comm, Nat.mul_add_div (Nat.zero_lt_of_lt h), Nat.div_eq_of_lt h, Nat.add_zero]

theorem xor_bits (f : Bool) {x : Nat} (hx : x < 2) : x ^^^ f.toNat = (x + f.toNat) % 2 := by
  revert x f
  decide

section Visits

variable {large_biomes : Bool} (T : Template large_biomes)

def first_row (x : Nat) : Nat :=
  if T.samples_square_sparse then (x % 2 + T.flipped_sparse_samples.toNat) % 2 else 0

theorem first_row_lt (x : Nat) : first_row T x < T.row_step := by
  unfold first_row Template.row_step
  split
  · exact Nat.mod_lt _ (by decide)
  · exact Nat.one_pos

theorem z_index_eq (p : Nat) :
    z_index T p = p / T.samples_square_size * T.row_step +
      first_row T (p % T.samples_square_size) := by
  unfold z_index x_index first_row Template.row_step
  split
  · rw [Nat.and_one_is_mod, xor_bits _ (Nat.mod_lt _ (by decide))]
  · simp

theorem mem_grid {x z : Nat} : (x, z) ∈ grid T ↔
    x < T.samples_square_size ∧ z < T.samples_square_size ∧ z % T.row_step = first_row T x := by
  rw [grid, Finset.mem_filter, Finset.mem_product, Finset.mem_range, Finset.mem_range, and_assoc]
  unfold first_row Template.row_step
  split
  · next h => simp [h]
  · next h => simp [h, Nat.mod_one]

def visit (p i : Nat) : Nat × Nat :=
  (x_index T p, z_index T p + i * (T.samples_square_size / T.loops))

def visitor (q : Nat × Nat) : Nat × Nat :=
  let block := T.samples_square_size / T.loops
  (q.2 % block / T.row_step * T.samples_square_size + q.1, q.2 / block)

theorem square_size_div : T.samples_square_size / T.loops =
    T.row_step * (T.threads_per_input / T.samples_square_size) := by
  have h := T.layout
  conv_lhs => rw [← h.rounds]
  rw [Nat.mul_div_cancel_left _ h.loops_pos]

theorem row_step_pos : 0 < T.row_step := (Nat.zero_le _).trans_lt (first_row_lt T 0)

theorem square_size_pos : 0 < T.samples_square_size := by
  have h := T.layout
  rw [← h.rounds]
  exact Nat.mul_pos h.loops_pos (Nat.mul_pos (row_step_pos T) h.rows_pos)

theorem z_index_lt {p : Nat} (hp : p < T.threads_per_input) :
    z_index T p < T.samples_square_size / T.loops := by
  have hrow : p / T.samples_square_size < T.threads_per_input / T.samples_square_size := by
    rw [Nat.div_lt_iff_lt_mul (square_size_pos T), T.layout.rows]
    exact hp
  have hle := Nat.mul_le_mul_right T.row_step (Nat.succ_le_of_lt hrow)
  have hfirst := first_row_lt T (p % T.samples_square_size)
  rw [Nat.succ_mul] at hle
  rw [z_index_eq, square_size_div, Nat.mul_comm T.row_step]
  omega

theorem rounds_mul : T.loops * (T.samples_square_size / T.loops) = T.samples_square_size := by
  rw [square_size_div, T.layout.rounds]

theorem visit_mem {p i : Nat} (hp : p < T.threads_per_input) (hi : i < T.loops) :
    visit T p i ∈ grid T := by
  have hz := z_index_lt T hp
  refine (mem_grid T).2 ⟨Nat.mod_lt _ (square_size_pos T), ?_, ?_⟩
  · have hle := Nat.mul_le_mul_right (T.samples_square_size / T.loops) (Nat.succ_le_of_lt hi)
    rw [rounds_mul, Nat.succ_mul] at hle
    omega
  · have hfirst := first_row_lt T (p % T.samples_square_size)
    rw [square_size_div, ← Nat.mul_assoc, Nat.mul_right_comm, Nat.add_mul_mod_self_right,
      z_index_eq,
      Nat.mul_add_mod_of_lt hfirst]
    rfl

theorem visitor_visit {p i : Nat} (hp : p < T.threads_per_input) :
    visitor T (visit T p i) = (p, i) := by
  have hz := z_index_lt T hp
  simp only [visitor, visit]
  rw [Nat.add_comm (z_index T p), Nat.mul_add_mod_of_lt hz, digit_div hz, z_index_eq,
    digit_div (first_row_lt T _), x_index, Nat.div_add_mod']

theorem visitor_index {q : Nat × Nat} (hq : q ∈ grid T) :
    (visitor T q).1 % T.samples_square_size = q.1 ∧
      z_index T (visitor T q).1 = q.2 % (T.samples_square_size / T.loops) := by
  obtain ⟨x, z⟩ := q
  obtain ⟨hx, -, hrow⟩ := (mem_grid T).1 hq
  have hmod : z % (T.samples_square_size / T.loops) % T.row_step = z % T.row_step := by
    rw [square_size_div, Nat.mod_mul_right_mod]
  have hfst : (visitor T (x, z)).1 % T.samples_square_size = x := Nat.mul_add_mod_of_lt hx
  refine ⟨hfst, ?_⟩
  rw [z_index_eq, hfst, ← hrow, ← hmod]
  simp only [visitor]
  rw [digit_div hx, Nat.div_add_mod']

theorem visit_visitor {q : Nat × Nat} (hq : q ∈ grid T) :
    visit T (visitor T q).1 (visitor T q).2 = q := by
  obtain ⟨hx, hz⟩ := visitor_index T hq
  rw [visit, x_index, hx, hz]
  simp only [visitor]
  rw [Nat.mod_add_div']

theorem visitor_lt {q : Nat × Nat} (hq : q ∈ grid T) :
    (visitor T q).1 < T.threads_per_input ∧ (visitor T q).2 < T.loops := by
  obtain ⟨x, z⟩ := q
  obtain ⟨hx, hz, -⟩ := (mem_grid T).1 hq
  have hblock : 0 < T.samples_square_size / T.loops := by
    rw [square_size_div]
    exact Nat.mul_pos (row_step_pos T) T.layout.rows_pos
  constructor
  · have hmod : z % (T.samples_square_size / T.loops) <
        T.row_step * (T.threads_per_input / T.samples_square_size) := by
      rw [square_size_div]
      exact Nat.mod_lt _ (Nat.mul_pos (row_step_pos T) T.layout.rows_pos)
    have hrow := Nat.div_lt_of_lt_mul hmod
    have hle := Nat.mul_le_mul_right T.samples_square_size (Nat.succ_le_of_lt hrow)
    rw [Nat.succ_mul, T.layout.rows] at hle
    simp only [visitor]
    omega
  · rw [visitor, Nat.div_lt_iff_lt_mul hblock, rounds_mul]
    exact hz

/-- The threads of an input sample every point of its grid once. -/
theorem sum_visits [AddCommMonoid M] (f : Nat × Nat → M) :
    ∑ w ∈ Finset.range (T.threads_per_input / 32), ∑ i ∈ Finset.range T.loops,
      ∑ l : Fin 32, f (visit T (32 * w + l) i) = ∑ q ∈ grid T, f q := by
  rw [Finset.sum_comm]
  have hlanes : ∀ i, ∑ w ∈ Finset.range (T.threads_per_input / 32), ∑ l : Fin 32,
      f (visit T (32 * w + l) i) = ∑ p ∈ Finset.range T.threads_per_input, f (visit T p i) := by
    intro i
    rw [sum_lanes fun p => f (visit T p i), ← T.layout.whole]
  simp only [hlanes]
  rw [Finset.sum_comm, ← Finset.sum_product' _ _ fun p i => f (visit T p i)]
  refine Finset.sum_nbij' (fun v => visit T v.1 v.2) (visitor T) ?_ ?_ ?_ ?_ ?_
  · intro v hv
    obtain ⟨hp, hi⟩ := Finset.mem_product.1 hv
    exact visit_mem T (Finset.mem_range.1 hp) (Finset.mem_range.1 hi)
  · intro q hq
    obtain ⟨hp, hi⟩ := visitor_lt T hq
    exact Finset.mem_product.2 ⟨Finset.mem_range.2 hp, Finset.mem_range.2 hi⟩
  · intro v hv
    exact visitor_visit T (Finset.mem_range.1 (Finset.mem_product.1 hv).1)
  · intro q hq
    exact visit_visitor T hq
  · intro v _
    rfl

end Visits

end Omission.Gpu.Filter2
