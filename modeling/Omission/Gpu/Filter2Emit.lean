import Omission.Gpu.Filter2Grid

namespace Omission.Gpu.Filter2
open Omission.Lib FloatOps
set_option autoImplicit true

section Emit

variable {large_biomes : Bool} (T : Template large_biomes) {F : Type} [LT F] [DecidableLT F]
  [FloatOps F] (sample : Data T.octaves → BitVec 32 → BitVec 32 → BitVec 32 → F)
  (input : SeedPos) (seen : Nat → Data T.octaves)

/-- Whether a thread finds its sample of round `i` below the threshold. -/
def flag (p i : Nat) : Bool :=
  decide (sample (seen p) (input.x + offset T (visit T p i).1) 0
    (input.z + offset T (visit T p i).2) < T.noise_threshold)

theorem first_x_eq (p i : Nat) : first_x T input p = input.x + offset T (visit T p i).1 :=
  add_assoc _ _ _

theorem first_z_eq (p : Nat) : first_z T input p = input.z + offset T (visit T p 0).2 := by
  rw [visit, Nat.zero_mul, Nat.add_zero]
  exact add_assoc _ _ _

theorem offset_next (p i : Nat) :
    offset T (visit T p i).2 + T.z_step = offset T (visit T p (i + 1)).2 := by
  simp only [visit, offset, Template.z_step, Nat.add_mul, Nat.one_mul, BitVec.ofNat_add,
    BitVec.ofNat_mul]
  ring

structure Walked (warp k : Nat) (w : Warp) : Prop where
  z : ∀ l : Fin 32, w.z l = input.z + offset T (visit T (32 * warp + l) k).2
  total_valid : w.total_valid = ∑ i ∈ Finset.range k, ∑ l : Fin 32,
    (flag T sample input seen (32 * warp + l) i).toNat
  sum_dx : T.move_center = true → ∀ l : Fin 32, w.sum_dx l = ∑ i ∈ Finset.range k,
    if flag T sample input seen (32 * warp + l) i then offset T (visit T (32 * warp + l) i).1 else 0
  sum_dz : T.move_center = true → ∀ l : Fin 32, w.sum_dz l = ∑ i ∈ Finset.range k,
    if flag T sample input seen (32 * warp + l) i then offset T (visit T (32 * warp + l) i).2 else 0

theorem warp_reduce_add_eq [AddCommMonoid M] (val : Fin 32 → M) :
    warp_reduce_add val = ∑ l, val l := by
  rw [warp_reduce_add, Fin.sum_univ_def]

variable {T sample input seen}

theorem Walked.round {warp k : Nat} {w : Warp} (h : Walked T sample input seen warp k w) :
    Walked T sample input seen warp (k + 1)
      (sample_round T sample input (fun l => seen (32 * warp + l))
        (fun l => first_x T input (32 * warp + l)) w) := by
  have hflag : ∀ l : Fin 32, decide (sample (seen (32 * warp + l))
      (first_x T input (32 * warp + l)) 0 (w.z l) < T.noise_threshold) =
        flag T sample input seen (32 * warp + l) k := by
    intro l
    rw [h.z, first_x_eq T input _ k, flag]
  constructor
  · intro l
    simp only [sample_round]
    rw [h.z, add_assoc, offset_next]
  · simp only [sample_round, hflag]
    rw [h.total_valid, warp_reduce_add_eq, Finset.sum_range_succ]
  · intro hmove l
    simp only [sample_round, hflag, hmove, Bool.true_and]
    rw [Finset.sum_range_succ, ← h.sum_dx hmove, first_x_eq T input _ k, add_sub_cancel_left]
    split
    · rfl
    · rw [add_zero]
  · intro hmove l
    simp only [sample_round, hflag, hmove, Bool.true_and]
    rw [Finset.sum_range_succ, ← h.sum_dz hmove, h.z, add_sub_cancel_left]
    split
    · rfl
    · rw [add_zero]

theorem sample_loop_walked (warp : Nat) :
    Walked T sample input seen warp T.loops (sample_loop T sample input seen warp) := by
  unfold sample_loop
  induction T.loops with
  | zero => exact ⟨fun l => first_z_eq T input _, rfl, fun _ _ => rfl, fun _ _ => rfl⟩
  | succ k ih =>
    rw [Function.iterate_succ_apply']
    exact ih.round

theorem warps_sum [AddCommMonoid M] (f : Nat → M) :
    (if T.samples > 32 then ((List.range (T.threads_per_input / 32)).map f).sum else f 0) =
      ∑ w ∈ Finset.range (T.threads_per_input / 32), f w := by
  split
  · rfl
  · next h =>
    have h32 : T.threads_per_input / 32 = 1 := by
      have hs : T.samples = 32 := by
        have := T.samples_ok.1
        omega
      rw [Template.threads_per_input, hs, Nat.min_eq_left (by decide)]
    rw [h32, Finset.sum_range_one]

variable (T sample input seen)

def total [AddCommMonoid M] (f : Nat → Nat → M) : M :=
  ∑ w ∈ Finset.range (T.threads_per_input / 32), ∑ i ∈ Finset.range T.loops, ∑ l : Fin 32,
    f (32 * w + l) i

def count : Nat := total T fun p i => (flag T sample input seen p i).toNat

def moved (coordinate : Nat × Nat → Nat) : BitVec 32 :=
  total T fun p i => if flag T sample input seen p i then offset T (coordinate (visit T p i)) else 0

def record (n : Nat) (dx dz : BitVec 32) : List SeedPos :=
  if T.min_count.toNat ≤ n then
    if T.move_center then
      [⟨input.seed_index, input.x + dx.sdiv (BitVec.ofNat 32 n),
        input.z + dz.sdiv (BitVec.ofNat 32 n)⟩]
    else [input]
  else []

theorem moved_of_count_eq_zero (h : count T sample input seen = 0)
    (coordinate : Nat × Nat → Nat) : moved T sample input seen coordinate = 0 := by
  simp only [count, total, Finset.sum_eq_zero_iff] at h
  simp only [moved, total]
  refine Finset.sum_eq_zero fun w hw => Finset.sum_eq_zero fun i hi =>
    Finset.sum_eq_zero fun l hl => ?_
  rw [if_neg]
  exact fun hf => by simpa [hf] using h w hw i hi l hl

theorem mean_eq (h : n = 0 → s = 0) :
    (if n ≠ 0 then BitVec.sdiv s (BitVec.ofNat 32 n) else s) = s.sdiv (BitVec.ofNat 32 n) := by
  split
  · rfl
  · next hn =>
    have hs := h (not_not.1 hn)
    subst hs
    exact BitVec.zero_sdiv.symm

theorem sums_eq (sum : Warp → Fin 32 → BitVec 32) (coordinate : Nat × Nat → Nat)
    (h : ∀ (w : Nat) (l : Fin 32), sum (sample_loop T sample input seen w) l =
      ∑ i ∈ Finset.range T.loops, if flag T sample input seen (32 * w + l) i then
        offset T (coordinate (visit T (32 * w + l) i)) else 0) :
    (if T.samples > 32 then ((List.range (T.threads_per_input / 32)).map fun w =>
        warp_reduce_add (sum (sample_loop T sample input seen w))).sum
      else warp_reduce_add (sum (sample_loop T sample input seen 0))) =
      moved T sample input seen coordinate := by
  rw [warps_sum fun w => warp_reduce_add (sum (sample_loop T sample input seen w))]
  refine Finset.sum_congr rfl fun w _ => ?_
  rw [warp_reduce_add_eq, Finset.sum_comm]
  exact Finset.sum_congr rfl fun l _ => h w l

theorem emit_eq_record : emit T sample input seen =
    record T input (count T sample input seen) (moved T sample input seen Prod.fst)
      (moved T sample input seen Prod.snd) := by
  have hcount : (if T.samples > 32 then ((List.range (T.threads_per_input / 32)).map fun w =>
        (sample_loop T sample input seen w).total_valid).sum
      else (sample_loop T sample input seen 0).total_valid) = count T sample input seen := by
    rw [warps_sum fun w => (sample_loop T sample input seen w).total_valid]
    exact Finset.sum_congr rfl fun w _ => (sample_loop_walked w).total_valid
  have hdx (hmove : T.move_center = true) :=
    sums_eq T sample input seen Warp.sum_dx Prod.fst fun w => (sample_loop_walked w).sum_dx hmove
  have hdz (hmove : T.move_center = true) :=
    sums_eq T sample input seen Warp.sum_dz Prod.snd fun w => (sample_loop_walked w).sum_dz hmove
  unfold emit record
  simp only [hcount]
  cases hmove : T.move_center with
  | true =>
    simp only [hdx hmove, hdz hmove, if_true,
      mean_eq (moved_of_count_eq_zero T sample input seen · _)]
  | false => simp

end Emit

end Omission.Gpu.Filter2
