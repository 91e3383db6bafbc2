import Mathlib.Algebra.Order.BigOperators.Group.List
import Omission.Gpu.NoiseRange

namespace Omission.Gpu.HighOctaves
open ResultSampler FloatOps
set_option autoImplicit true

abbrev WarpPos := Fin 32 → BitVec 32 × BitVec 32

def any_sync (predicate : Fin 32 → Bool) : Bool := (List.finRange 32).any predicate

section Kernel

variable {F : Type} [Add F] [Sub F] [Mul F] [LT F] [DecidableLT F] [FloatOps F]
variable (large_biomes : Bool) (table : GradDotTable F) {n : Nat} (octaves : Fin n → NoiseView F)
  (noise_threshold : F)

def need_high (x z : BitVec 32) : Bool :=
  let margin := rest12_margin large_biomes n
  let val_low := sample_first12 large_biomes table octaves x 0 z
  decide (val_low > noise_threshold - margin) && decide (val_low < noise_threshold + margin)

/-- The flag `valid` of a lane of `KernelFilter2::kernel` for more than 12 octaves. -/
def valid (pos : WarpPos) (lane : Fin 32) : Bool :=
  let x := (pos lane).1
  let z := (pos lane).2
  let val_low := sample_first12 large_biomes table octaves x 0 z
  let val_high :=
    if any_sync fun l =>
        need_high large_biomes table octaves noise_threshold (pos l).1 (pos l).2 then
      sample_rest12 large_biomes table octaves x 0 z
    else ofRat 0
  decide (val_low + val_high < noise_threshold)

end Kernel

section Exact

variable (large_biomes : Bool) {n : Nat} (octaves : Fin n → NoiseView Rat) (noise_threshold : Rat)

def low (p : BitVec 32 × BitVec 32) : Rat :=
  sample_first12 large_biomes init_grad_dot_table octaves p.1 0 p.2

/-- The sum of the octaves that the shortcut skips. -/
def high (p : BitVec 32 × BitVec 32) : Rat :=
  sample_rest12 large_biomes init_grad_dot_table octaves p.1 0 p.2

def noise (k : Fin n) (p : BitVec 32 × BitVec 32) : Rat :=
  octave_sample_noise (octave_config large_biomes k) init_grad_dot_table (octaves k) p.1 0 p.2

/-- Some lane is within the margin, or no lane's high octaves reach from its low sum across the
threshold. -/
def OutOfReach (pos : WarpPos) : Prop :=
  (∃ lane, noise_threshold - rest12_margin large_biomes n < low large_biomes octaves (pos lane) ∧
    low large_biomes octaves (pos lane) < noise_threshold + rest12_margin large_biomes n) ∨
  ∀ lane, (low large_biomes octaves (pos lane) ≤ noise_threshold - rest12_margin large_biomes n →
      high large_biomes octaves (pos lane) <
        noise_threshold - low large_biomes octaves (pos lane)) ∧
    (noise_threshold + rest12_margin large_biomes n ≤ low large_biomes octaves (pos lane) →
      noise_threshold - low large_biomes octaves (pos lane) ≤ high large_biomes octaves (pos lane))

variable {large_biomes octaves noise_threshold}

theorem need_high_iff {p : BitVec 32 × BitVec 32} :
    need_high large_biomes init_grad_dot_table octaves noise_threshold p.1 p.2 = true ↔
      noise_threshold - rest12_margin large_biomes n < low large_biomes octaves p ∧
        low large_biomes octaves p < noise_threshold + rest12_margin large_biomes n := by
  simp only [need_high, Bool.and_eq_true, decide_eq_true_eq, gt_iff_lt, low]

theorem any_sync_iff {predicate : Fin 32 → Bool} :
    any_sync predicate = true ↔ ∃ lane, predicate lane = true := by
  simp only [any_sync, List.any_eq_true, List.mem_finRange, true_and]

theorem valid_iff_of_needed {pos : WarpPos} {lane lane' : Fin 32}
    (h : need_high large_biomes init_grad_dot_table octaves noise_threshold (pos lane').1
      (pos lane').2 = true) :
    valid large_biomes init_grad_dot_table octaves noise_threshold pos lane =
      decide (low large_biomes octaves (pos lane) + high large_biomes octaves (pos lane) <
        noise_threshold) := by
  have hany : any_sync (fun l => need_high large_biomes init_grad_dot_table octaves
      noise_threshold (pos l).1 (pos l).2) = true := any_sync_iff.2 ⟨lane', h⟩
  simp only [valid, if_pos hany]
  rfl

theorem valid_of_not_needed {pos : WarpPos} (lane : Fin 32)
    (h : ∀ lane', ¬ need_high large_biomes init_grad_dot_table octaves noise_threshold
      (pos lane').1 (pos lane').2 = true) :
    valid large_biomes init_grad_dot_table octaves noise_threshold pos lane =
      decide (low large_biomes octaves (pos lane) < noise_threshold) := by
  have hany : ¬ any_sync (fun l => need_high large_biomes init_grad_dot_table octaves
      noise_threshold (pos l).1 (pos l).2) = true := by
    rw [any_sync_iff]
    rintro ⟨l, hl⟩
    exact h l hl
  have h0 : ∀ v : Rat, v + ofRat 0 = v := add_zero
  simp only [valid, if_neg hany, h0]
  rfl

theorem value_factor_pos (large_biomes : Bool) {k : Nat} (hk : k < 18) :
    0 < (octave_config large_biomes k).value_factor := by
  revert large_biomes k
  decide +kernel

theorem rest12_margin_eq (large_biomes : Bool) (hn : n = 14 ∨ n = 16 ∨ n = 18) :
    rest12_margin large_biomes n = (((List.finRange n).filter fun k => 12 ≤ k.val).map
      fun k : Fin n => (octave_config large_biomes k).value_factor).sum := by
  rcases hn with rfl | rfl | rfl <;> revert large_biomes <;> decide +kernel

theorem rest12_margin_pos (large_biomes : Bool) (hn : n = 14 ∨ n = 16 ∨ n = 18) :
    (0 : Rat) < rest12_margin large_biomes n := by
  rcases hn with rfl | rfl | rfl <;> revert large_biomes <;> decide +kernel

theorem foldl_add_eq_sum (f : α → Rat) (init : Rat) (l : List α) :
    l.foldl (fun val k => val + f k) init = init + (l.map f).sum := by
  induction l generalizing init with
  | nil => simp
  | cons a l ih => rw [List.foldl_cons, ih, List.map_cons, List.sum_cons, add_assoc]

theorem high_eq (p : BitVec 32 × BitVec 32) :
    high large_biomes octaves p = (((List.finRange n).filter fun k => 12 ≤ k.val).map
      fun k : Fin n => noise large_biomes octaves k p *
        (octave_config large_biomes k).value_factor).sum := by
  refine (foldl_add_eq_sum _ _ _).trans ?_
  exact zero_add _

theorem weighted_sum_le {l : List α} {f w : α → Rat} {c : Rat} (hf : ∀ k ∈ l, |f k| ≤ c)
    (hw : ∀ k ∈ l, 0 ≤ w k) : |(l.map fun k => f k * w k).sum| ≤ c * (l.map w).sum := by
  induction l with
  | nil => simp
  | cons a l ih =>
    obtain ⟨hfa, hfl⟩ := List.forall_mem_cons.1 hf
    obtain ⟨hwa, hwl⟩ := List.forall_mem_cons.1 hw
    have ha : |f a * w a| ≤ c * w a := by
      rw [abs_mul, abs_of_nonneg hwa]
      exact mul_le_mul_of_nonneg_right hfa hwa
    rw [List.map_cons, List.sum_cons, List.map_cons, List.sum_cons, mul_add]
    exact (abs_add_le _ _).trans (add_le_add ha (ih hfl hwl))

theorem high_le (hn : n = 14 ∨ n = 16 ∨ n = 18) {c : Rat} {p : BitVec 32 × BitVec 32}
    (hc : ∀ k : Fin n, 12 ≤ k.val → |noise large_biomes octaves k p| ≤ c) :
    |high large_biomes octaves p| ≤ c * rest12_margin large_biomes n := by
  rw [high_eq, rest12_margin_eq large_biomes hn]
  apply weighted_sum_le
  · intro k hk
    exact hc k (of_decide_eq_true (List.mem_filter.1 hk).2)
  · intro k _
    exact (value_factor_pos large_biomes (by omega)).le

theorem exists_bound_lt {l : List α} {f : α → Rat} (h : ∀ k ∈ l, f k < 1) :
    ∃ c < 1, ∀ k ∈ l, f k ≤ c := by
  induction l with
  | nil => exact ⟨0, zero_lt_one, by simp⟩
  | cons a l ih =>
    obtain ⟨ha, hl⟩ := List.forall_mem_cons.1 h
    obtain ⟨c, hc, hle⟩ := ih hl
    refine ⟨max (f a) c, max_lt ha hc, ?_⟩
    exact List.forall_mem_cons.2 ⟨le_max_left _ _, fun k hk => (hle k hk).trans (le_max_right _ _)⟩

theorem high_lt (hn : n = 14 ∨ n = 16 ∨ n = 18) {p : BitVec 32 × BitVec 32}
    (h : ∀ k : Fin n, 12 ≤ k.val → |noise large_biomes octaves k p| < 1) :
    |high large_biomes octaves p| < rest12_margin large_biomes n := by
  obtain ⟨c, hc, hle⟩ := exists_bound_lt (l := (List.finRange n).filter fun k => 12 ≤ k.val)
    (f := fun k => |noise large_biomes octaves k p|)
    fun k hk => h k (of_decide_eq_true (List.mem_filter.1 hk).2)
  have hpos := rest12_margin_pos large_biomes hn
  calc |high large_biomes octaves p| ≤ c * rest12_margin large_biomes n := by
        apply high_le hn
        intro k hk
        exact hle k (List.mem_filter.2 ⟨List.mem_finRange k, decide_eq_true hk⟩)
    _ < 1 * rest12_margin large_biomes n := mul_lt_mul_of_pos_right hc hpos
    _ = rest12_margin large_biomes n := one_mul _

theorem outOfReach_of_range {pos : WarpPos}
    (h : ∀ lane, -rest12_margin large_biomes n ≤ high large_biomes octaves (pos lane) ∧
      high large_biomes octaves (pos lane) < rest12_margin large_biomes n) :
    OutOfReach large_biomes octaves noise_threshold pos := by
  refine .inr fun lane => ?_
  obtain ⟨hlo, hhi⟩ := h lane
  constructor
  · intro hle
    linarith
  · intro hle
    linarith

theorem range_of_outOfReach {p : BitVec 32 × BitVec 32}
    (h : ∀ noise_threshold, OutOfReach large_biomes octaves noise_threshold fun _ => p) :
    -rest12_margin large_biomes n ≤ high large_biomes octaves p ∧
      high large_biomes octaves p < rest12_margin large_biomes n := by
  constructor
  · by_contra hlt
    rcases h (low large_biomes octaves p - rest12_margin large_biomes n) with ⟨_, _, hhi⟩ | hall
    · linarith
    · have := (hall 0).2 (by linarith)
      linarith
  · by_contra hge
    rcases h (low large_biomes octaves p + high large_biomes octaves p) with ⟨_, hlo, _⟩ | hall
    · linarith
    · have := (hall 0).1 (by linarith)
      linarith

theorem valid_exact_iff (hn : n = 14 ∨ n = 16 ∨ n = 18) (pos : WarpPos) :
    (∀ lane, valid large_biomes init_grad_dot_table octaves noise_threshold pos lane =
      decide (low large_biomes octaves (pos lane) + high large_biomes octaves (pos lane) <
        noise_threshold)) ↔ OutOfReach large_biomes octaves noise_threshold pos := by
  have hpos := rest12_margin_pos large_biomes hn
  by_cases hneed : ∃ lane, need_high large_biomes init_grad_dot_table octaves noise_threshold
      (pos lane).1 (pos lane).2 = true
  · obtain ⟨lane, hlane⟩ := hneed
    exact iff_of_true (fun _ => valid_iff_of_needed hlane) (.inl ⟨lane, need_high_iff.1 hlane⟩)
  · have hnot := not_exists.1 hneed
    have hout : OutOfReach large_biomes octaves noise_threshold pos ↔
        ∀ lane, (low large_biomes octaves (pos lane) ≤
            noise_threshold - rest12_margin large_biomes n →
          high large_biomes octaves (pos lane) <
            noise_threshold - low large_biomes octaves (pos lane)) ∧
          (noise_threshold + rest12_margin large_biomes n ≤ low large_biomes octaves (pos lane) →
            noise_threshold - low large_biomes octaves (pos lane) ≤
              high large_biomes octaves (pos lane)) :=
      or_iff_right fun ⟨lane, h⟩ => hnot lane (need_high_iff.2 h)
    rw [hout]
    refine forall_congr' fun lane => ?_
    rw [valid_of_not_needed lane hnot, decide_eq_decide]
    have hfar := fun h => hnot lane (need_high_iff.2 h)
    by_cases hle : low large_biomes octaves (pos lane) ≤
        noise_threshold - rest12_margin large_biomes n
    · have hlt : low large_biomes octaves (pos lane) < noise_threshold := by linarith
      have hno : ¬ noise_threshold + rest12_margin large_biomes n ≤
          low large_biomes octaves (pos lane) := by linarith
      rw [iff_true_left hlt]
      constructor
      · intro h
        exact ⟨fun _ => by linarith, fun h' => absurd h' hno⟩
      · rintro ⟨h, -⟩
        have := h hle
        linarith
    · have hge : noise_threshold + rest12_margin large_biomes n ≤
          low large_biomes octaves (pos lane) :=
        not_lt.1 fun h => hfar ⟨not_le.1 hle, h⟩
      have hnlt : ¬ low large_biomes octaves (pos lane) < noise_threshold := by linarith
      rw [iff_false_left hnlt]
      constructor
      · intro h
        exact ⟨fun h' => absurd h' hle, fun _ => by linarith⟩
      · rintro ⟨-, h⟩
        have := h hge
        linarith

theorem valid_exact_always_iff (hn : n = 14 ∨ n = 16 ∨ n = 18) :
    (∀ noise_threshold pos lane,
      valid large_biomes init_grad_dot_table octaves noise_threshold pos lane =
        decide (low large_biomes octaves (pos lane) + high large_biomes octaves (pos lane) <
          noise_threshold)) ↔
      ∀ p, -rest12_margin large_biomes n ≤ high large_biomes octaves p ∧
        high large_biomes octaves p < rest12_margin large_biomes n := by
  constructor
  · intro h p
    apply range_of_outOfReach
    intro noise_threshold
    exact (valid_exact_iff hn fun _ => p).1 (h noise_threshold fun _ => p)
  · intro h noise_threshold pos
    apply (valid_exact_iff hn pos).2
    apply outOfReach_of_range
    exact fun lane => h (pos lane)

/-- The shortcut keeps the decisions of a warp exactly when no skipped sum reaches across the
threshold, and those of every warp exactly when the skipped sums stay within the margin. That holds
where the skipped octaves stay between -1 and 1. -/
theorem high_octaves_skipped (large_biomes : Bool) (hn : n = 14 ∨ n = 16 ∨ n = 18)
    (octaves : Fin n → NoiseView Rat) :
    (∀ noise_threshold pos,
      (∀ lane, valid large_biomes init_grad_dot_table octaves noise_threshold pos lane =
        decide (low large_biomes octaves (pos lane) + high large_biomes octaves (pos lane) <
          noise_threshold)) ↔ OutOfReach large_biomes octaves noise_threshold pos) ∧
    ((∀ noise_threshold pos lane,
      valid large_biomes init_grad_dot_table octaves noise_threshold pos lane =
        decide (low large_biomes octaves (pos lane) + high large_biomes octaves (pos lane) <
          noise_threshold)) ↔
      ∀ p, -rest12_margin large_biomes n ≤ high large_biomes octaves p ∧
        high large_biomes octaves p < rest12_margin large_biomes n) ∧
    ∀ p, ((∀ k : Fin n, 12 ≤ k.val → |noise large_biomes octaves k p| < 1) →
        |high large_biomes octaves p| < rest12_margin large_biomes n) ∧
      ((∀ k : Fin n, 12 ≤ k.val → |noise large_biomes octaves k p| ≤ 1) →
        |high large_biomes octaves p| ≤ rest12_margin large_biomes n) ∧
      |high large_biomes octaves p| ≤ 3 / 2 * rest12_margin large_biomes n := by
  refine ⟨fun _ pos => valid_exact_iff hn pos, valid_exact_always_iff hn, fun p => ⟨?_, ?_, ?_⟩⟩
  · exact high_lt hn
  · intro h
    have := high_le hn h
    rwa [one_mul] at this
  · exact high_le hn fun k _ => sample_noise_le _ _ _ _

end Exact

/-- Around the cell of the origin all gradients point away from the middle of the cell. -/
def low_table : Vector UInt8 256 :=
  shuffled [(0, 16), (1, 32), (16, 48), (17, 64), (32, 80), (33, 96), (48, 115), (49, 131),
    (64, 145), (65, 161), (80, 178), (81, 194), (96, 208), (97, 224)]

/-- Around the cell of the origin all gradients point towards one position, where the noise is
above 1. -/
def high_table : Vector UInt8 256 :=
  shuffled [(0, 16), (1, 32), (16, 48), (17, 64), (32, 80), (33, 96), (48, 120), (49, 138),
    (64, 153), (65, 171), (80, 181), (81, 199), (96, 211), (97, 227)]

def far_octaves (k : Fin 14) : NoiseView Rat :=
  if k.val < 2 then ⟨low_table, 12112 / 65536, 1 / 2, 1 / 2⟩
  else if k.val < 12 then ⟨low_table, 0, 0, 0⟩
  else ⟨high_table, 22938 / 65536, 31130 / 65536, 1 / 2⟩

theorem far_octaves_low : low false far_octaves (0, 0) ≤ -21 / 20 - rest12_margin false 14 := by
  decide +kernel

theorem far_octaves_sum :
    -21 / 20 ≤ low false far_octaves (0, 0) + high false far_octaves (0, 0) := by
  decide +kernel

theorem far_octaves_high : rest12_margin false 14 < high false far_octaves (0, 0) := by
  decide +kernel

theorem high_octaves_skipped_far :
    valid false init_grad_dot_table far_octaves 0 (fun _ => (0, 0)) 0 =
      decide (low false far_octaves (0, 0) + high false far_octaves (0, 0) < 0) := by
  obtain ⟨hiff, -, hbound⟩ := high_octaves_skipped false (.inl rfl) far_octaves
  have hhigh := (abs_le.1 (hbound (0, 0)).2.2).2
  have hlow := far_octaves_low
  have hmargin : rest12_margin false 14 < (1 : Rat) := by decide +kernel
  have hpos : (0 : Rat) < rest12_margin false 14 := rest12_margin_pos false (.inl rfl)
  refine (hiff 0 fun _ => (0, 0)).2 (.inr fun _ => ⟨fun _ => ?_, fun hge => ?_⟩) 0
  · linarith
  · linarith

/-- A warp at the origin with the threshold of `Template<-10500, 14, ..>`. -/
theorem decision_changed :
    (∀ k, (far_octaves k).p.toList.Nodup ∧ 0 ≤ (far_octaves k).xo ∧ (far_octaves k).xo < 256 ∧
      0 ≤ (far_octaves k).yo ∧ (far_octaves k).yo < 256 ∧
      0 ≤ (far_octaves k).zo ∧ (far_octaves k).zo < 256) ∧
    (∃ lane, valid false init_grad_dot_table far_octaves (-21 / 20) (fun _ => (0, 0)) lane ≠
      decide (low false far_octaves (0, 0) + high false far_octaves (0, 0) < -21 / 20)) ∧
    rest12_margin false 14 < |high false far_octaves (0, 0)| := by
  refine ⟨fun k => ?_, ?_, far_octaves_high.trans_le (le_abs_self _)⟩
  · unfold far_octaves
    split_ifs
    · exact ⟨shuffled_nodup _, by norm_num⟩
    · exact ⟨shuffled_nodup _, by norm_num⟩
    · exact ⟨shuffled_nodup _, by norm_num⟩
  · by_contra hsame
    push Not at hsame
    have hout := (valid_exact_iff (.inl rfl) fun _ => (0, 0)).1 hsame
    rcases hout with ⟨lane, hlo, -⟩ | hout
    · exact absurd far_octaves_low (not_le.2 hlo)
    · have h := (hout 0).1 far_octaves_low
      have := far_octaves_sum
      linarith

end Omission.Gpu.HighOctaves
