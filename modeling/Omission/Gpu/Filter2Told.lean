import Mathlib.Data.Rat.Floor
import Omission.Gpu.Filter2Shared

namespace Omission.Gpu.Filter2
open Omission.Lib FloatOps
set_option autoImplicit true

section Told

variable {large_biomes : Bool} {T : Template large_biomes}

theorem pos_step_mul_lt : T.pos_step * T.samples_square_size < 2 ^ 30 := by
  have h := Nat.div_mul_le_self
    ((T.pos_range * large_biomes_pos_mul large_biomes).toNat / 4) T.samples_square_size
  have := (T.pos_range * large_biomes_pos_mul large_biomes).isLt
  rw [Template.pos_step]
  omega

theorem offset_inj (h : T.pos_step ≠ 0) {i j : Nat} (hi : i < T.samples_square_size)
    (hj : j < T.samples_square_size) (he : offset T i = offset T j) : i = j := by
  have hlt : ∀ k < T.samples_square_size, k * T.pos_step < 2 ^ 32 := by
    intro k hk
    have := Nat.mul_le_mul_left T.pos_step hk.le
    rw [Nat.mul_comm k]
    exact (this.trans_lt pos_step_mul_lt).trans (by decide)
  have hnat := congrArg BitVec.toNat (add_right_cancel he)
  rw [BitVec.toNat_ofNat, BitVec.toNat_ofNat, Nat.mod_eq_of_lt (hlt i hi),
    Nat.mod_eq_of_lt (hlt j hj)] at hnat
  exact Nat.eq_of_mul_eq_mul_right (Nat.pos_of_ne_zero h) hnat

theorem offset_toInt {i : Nat} (hi : i < T.samples_square_size) : (offset T i).toInt =
    (i * T.pos_step : Nat) - (T.pos_step * (T.samples_square_size - 1) / 2 : Nat) := by
  have hlt := pos_step_mul_lt (T := T)
  have hmul := Nat.mul_le_mul_left T.pos_step hi.le
  have hle := Nat.mul_le_mul_left T.pos_step (Nat.sub_le T.samples_square_size 1)
  rw [Nat.mul_comm] at hmul
  have hwords : offset T i = BitVec.ofInt 32
      ((i * T.pos_step : Nat) - (T.pos_step * (T.samples_square_size - 1) / 2 : Nat)) := by
    rw [offset, Template.pos_offset, Nat.mod_eq_of_lt (by omega), ← sub_eq_add_neg,
      ← BitVec.ofInt_natCast, ← BitVec.ofInt_natCast]
    exact (map_sub (Int.castRingHom (BitVec 32)) _ _).symm
  rw [hwords, toInt_ofInt_wrap]
  apply (wrap_eq_iff (by decide)).2
  constructor
  · omega
  · omega

/-- The distance between two offsets that lead to one place. -/
theorem offset_shift {i j : Nat} {a b : BitVec 32} (hi : i < T.samples_square_size)
    (hj : j < T.samples_square_size) (h : b + offset T i = a + offset T j) :
    (offset T i).toInt = (offset T j).toInt + (a - b).toInt := by
  have hlt := pos_step_mul_lt (T := T)
  have hmuli := Nat.mul_le_mul_left T.pos_step hi.le
  have hmulj := Nat.mul_le_mul_left T.pos_step hj.le
  rw [Nat.mul_comm] at hmuli hmulj
  have hsub : a - b = offset T i - offset T j := by
    rw [sub_eq_sub_iff_add_eq_add, ← h, add_comm]
  rw [hsub, BitVec.toInt_sub, offset_toInt hi, offset_toInt hj, Int.bmod_eq_of_le]
  · omega
  · omega
  · omega

theorem lt_of_mem_grid {q : Nat × Nat} (hq : q ∈ grid T) :
    q.1 < T.samples_square_size ∧ q.2 < T.samples_square_size := by
  obtain ⟨hx, hz, -⟩ := (mem_grid T).1 hq
  exact ⟨hx, hz⟩

theorem two_mul_abs_drift_le {coordinate : Nat × Nat → Nat} {V : Finset (Nat × Nat)}
    (hV : ∀ p ∈ V, coordinate p < T.samples_square_size) :
    2 * |drift T coordinate V| ≤ V.card * (T.pos_step * T.samples_square_size : Nat) := by
  have hterm : ∀ p ∈ V, 2 * |(offset T (coordinate p)).toInt| ≤
      (T.pos_step * T.samples_square_size : Nat) := by
    intro p hp
    have hlast := Nat.le_sub_one_of_lt (hV p hp)
    have hmul := Nat.mul_le_mul_left T.pos_step hlast
    have hsize : T.pos_step * (T.samples_square_size - 1) + T.pos_step =
        T.pos_step * T.samples_square_size := by
      rw [← Nat.mul_succ, Nat.succ_eq_add_one, Nat.sub_add_cancel (square_size_pos T)]
    rw [Nat.mul_comm] at hmul
    rw [offset_toInt (hV p hp), ← hsize]
    rcases Nat.eq_zero_or_pos T.pos_step with h0 | hpos
    · simp [h0]
    · rcases abs_choice ((coordinate p * T.pos_step : Nat) -
          (T.pos_step * (T.samples_square_size - 1) / 2 : Nat) : Int) with he | he
      · rw [he]
        omega
      · rw [he]
        omega
  calc 2 * |drift T coordinate V|
      ≤ 2 * ∑ p ∈ V, |(offset T (coordinate p)).toInt| :=
        Int.mul_le_mul_of_nonneg_left (Finset.abs_sum_le_sum_abs _ _) (by decide)
    _ = ∑ p ∈ V, 2 * |(offset T (coordinate p)).toInt| := Finset.mul_sum _ _ _
    _ ≤ ∑ _ ∈ V, ((T.pos_step * T.samples_square_size : Nat) : Int) := Finset.sum_le_sum hterm
    _ = V.card * (T.pos_step * T.samples_square_size : Nat) := by
        rw [Finset.sum_const, nsmul_eq_mul]

theorem abs_drift_lt {coordinate : Nat × Nat → Nat} {V : Finset (Nat × Nat)}
    (hV : ∀ p ∈ V, coordinate p < T.samples_square_size) (hpos : 0 < V.card) :
    |drift T coordinate V| < V.card * 2 ^ 31 := by
  have hle := two_mul_abs_drift_le hV
  have hlt := Nat.mul_le_mul_left V.card (pos_step_mul_lt (T := T)).le
  have hcast : (V.card * (T.pos_step * T.samples_square_size : Nat) : Int) ≤ V.card * 2 ^ 30 := by
    exact_mod_cast hlt
  omega

/-- The sums fit on every grid that is not too wide for its number of points. -/
theorem summable_of_lt (h : T.samples * (T.pos_step * T.samples_square_size) < 2 ^ 32) :
    Summable T := by
  intro _ V hV _
  have hcard := Nat.mul_le_mul_right (T.pos_step * T.samples_square_size)
    (grid_card ▸ Finset.card_le_card hV)
  have hfits : ∀ {coordinate : Nat × Nat → Nat},
      (∀ p ∈ V, coordinate p < T.samples_square_size) → Fits 32 (drift T coordinate V) := by
    intro coordinate hlt
    have hle := two_mul_abs_drift_le hlt
    have habs : |drift T coordinate V| < 2 ^ 31 := by
      have hcast : (V.card * (T.pos_step * T.samples_square_size : Nat) : Int) < 2 ^ 32 := by
        exact_mod_cast hcard.trans_lt h
      omega
    rw [abs_lt] at habs
    exact ⟨habs.1.le, habs.2⟩
  exact ⟨hfits fun p hp => (lt_of_mem_grid (hV hp)).1, hfits fun p hp => (lt_of_mem_grid (hV hp)).2⟩

theorem two_lt_square_size : 2 < T.samples_square_size := by
  have hle : (grid T).card ≤ T.samples_square_size * T.samples_square_size := by
    refine (Finset.card_filter_le _ _).trans ?_
    rw [Finset.card_product, Finset.card_range]
  rw [grid_card] at hle
  have h32 := T.samples_ok.1
  by_contra hS
  have := Nat.mul_le_mul (not_lt.1 hS) (not_lt.1 hS)
  omega

theorem offset_zero_ne (h : T.pos_step ≠ 0) : offset T 0 ≠ 0 := by
  have hmul := Nat.mul_le_mul_left T.pos_step (Nat.sub_le T.samples_square_size 1)
  have hlt := hmul.trans_lt (pos_step_mul_lt (T := T))
  have hge : 1 * 2 ≤ T.pos_step * (T.samples_square_size - 1) := by
    have hS := two_lt_square_size (T := T)
    exact Nat.mul_le_mul (Nat.pos_of_ne_zero h) (by omega)
  have hzero : offset T 0 = T.pos_offset := by simp [offset]
  rw [hzero, Template.pos_offset, neg_ne_zero]
  intro he
  have hnat := congrArg BitVec.toNat he
  have h0 : (0 : BitVec 32).toNat = 0 := rfl
  rw [BitVec.toNat_ofNat, h0] at hnat
  omega

theorem first_point_mem : (0, first_row T 0) ∈ grid T := by
  have hS := two_lt_square_size (T := T)
  have hlt := first_row_lt T 0
  have h2 : T.row_step ≤ 2 := by
    unfold Template.row_step
    split <;> decide
  exact (mem_grid T).2 ⟨by omega, by omega, Nat.mod_eq_of_lt hlt⟩

theorem record_none (input : SeedPos) :
    record T input 0 0 0 = if T.min_count.toNat = 0 then [input] else [] := by
  have hzero : (0 : BitVec 32).sdiv (BitVec.ofNat 32 0) = 0 := BitVec.zero_sdiv
  simp only [record, Nat.le_zero, hzero, add_zero, ite_self]

section Emit

variable {F : Type} [LT F] [DecidableLT F] [FloatOps F]
  {sample : Data T.octaves → BitVec 32 → BitVec 32 → BitVec 32 → F} {input : SeedPos}
  {seen : Nat → Data T.octaves}

theorem emit_length_le : (emit T sample input seen).length ≤ 1 := by
  rw [emit_eq_record, record]
  split_ifs <;> simp

theorem seed_of_mem_emit {r : SeedPos} (hr : r ∈ emit T sample input seen) :
    r.seed_index = input.seed_index := by
  rw [emit_eq_record, record] at hr
  split_ifs at hr
  · exact List.mem_singleton.1 hr ▸ rfl
  · exact List.mem_singleton.1 hr ▸ rfl
  · cases hr

/-- An input none of whose points is below the threshold. -/
theorem emit_none (h : ∀ p, ∀ q ∈ grid T, ¬ sample (seen p) (input.x + offset T q.1) 0
    (input.z + offset T q.2) < T.noise_threshold) :
    emit T sample input seen = if T.min_count.toNat = 0 then [input] else [] := by
  have hcount : count T sample input seen = 0 := by
    unfold count total
    refine Finset.sum_eq_zero fun w hw => Finset.sum_eq_zero fun i hi =>
      Finset.sum_eq_zero fun l _ => ?_
    have hmem := visit_mem T (thread_lt hw l) (Finset.mem_range.1 hi)
    have hflag : flag T sample input seen (32 * w + l) i = false := decide_eq_false (h _ _ hmem)
    exact congrArg Bool.toNat hflag
  rw [emit_eq_record, hcount, moved_of_count_eq_zero T sample input seen hcount,
    moved_of_count_eq_zero T sample input seen hcount, record_none]

end Emit

/-- Lists of which one tells more than the other, input by input. -/
theorem not_perm_flatMap {α : Type} {f g : Nat → List α} {n j : Nat} (told : α → Bool)
    (hle : ∀ i, (f i).countP told ≤ (g i).countP told) (hj : j < n)
    (hlt : (f j).countP told < (g j).countP told) :
    ¬ ((List.range n).flatMap f).Perm ((List.range n).flatMap g) := by
  intro h
  have heq := h.countP_eq told
  rw [List.countP_flatMap, List.countP_flatMap] at heq
  refine ne_of_lt (List.sum_lt_sum _ _ ?_ ?_) heq
  · exact fun i _ => hle i
  · exact ⟨j, List.mem_range.2 hj, hlt⟩

section Picky

variable (T) in
/-- The record of an input that is moved to the first point of its grid. -/
def first_point (input : SeedPos) : SeedPos :=
  ⟨input.seed_index, input.x + offset T 0, input.z + offset T (first_row T 0)⟩

variable (T) in
/-- Below the threshold for the octaves of one input's seed only, and at one point only if every
count is enough. -/
def picky (results : BitVec 32 → Words) (input : SeedPos) (d : Data T.octaves)
    (x _y z : BitVec 32) : Rat :=
  if d = (results input.seed_index).data T.octaves ∧
      (T.min_count.toNat = 0 → x = (first_point T input).x ∧ z = (first_point T input).z) then
    T.noise_threshold - 1
  else T.noise_threshold

variable (T) in
/-- The records that show that the octaves of the input's seed have been read. -/
def told (input r : SeedPos) : Bool :=
  decide (r.seed_index = input.seed_index ∧ (T.min_count.toNat = 0 → r = first_point T input))

variable {results : BitVec 32 → Words} {a b : SeedPos} {seen : Nat → Data T.octaves}

theorem picky_lt_iff {d : Data T.octaves} {x y z : BitVec 32} :
    picky T results a d x y z < T.noise_threshold ↔
      d = (results a.seed_index).data T.octaves ∧
        (T.min_count.toNat = 0 → x = (first_point T a).x ∧ z = (first_point T a).z) := by
  unfold picky
  split
  · next h => exact iff_of_true (sub_one_lt _) h
  · next h => exact iff_of_false (lt_irrefl _) h

theorem below_grid (hb : b.seed_index = a.seed_index) (hmin : T.min_count.toNat ≠ 0) :
    below T (picky T results a) b ((results b.seed_index).data T.octaves) = grid T := by
  simp only [below, picky_lt_iff, hb, hmin, true_and, false_implies, Finset.filter_true]

theorem below_point (hb : b.seed_index = a.seed_index) (hmin : T.min_count.toNat = 0)
    (hstep : T.pos_step ≠ 0) {q : Nat × Nat} (hq : q ∈ grid T)
    (hx : b.x + offset T q.1 = (first_point T a).x)
    (hz : b.z + offset T q.2 = (first_point T a).z) :
    below T (picky T results a) b ((results b.seed_index).data T.octaves) = {q} := by
  obtain ⟨hqx, hqz, -⟩ := (mem_grid T).1 hq
  ext p
  simp only [below, picky_lt_iff, hb, hmin, true_and, forall_const, Finset.mem_filter,
    Finset.mem_singleton]
  constructor
  · rintro ⟨hp, h1, h2⟩
    obtain ⟨hpx, hpz, -⟩ := (mem_grid T).1 hp
    exact Prod.ext (offset_inj hstep hpx hqx (add_left_cancel (h1.trans hx.symm)))
      (offset_inj hstep hpz hqz (add_left_cancel (h2.trans hz.symm)))
  · rintro rfl
    exact ⟨hq, hx, hz⟩

theorem not_blind_iff : ¬ Blind T ↔ T.min_count.toNat ≤ T.samples ∧
    (T.min_count.toNat = 0 → T.move_center = true ∧ T.pos_step ≠ 0) := by
  simp only [Blind, not_or, not_lt, not_and, Bool.not_eq_false]

theorem reference_told (hT : ¬ Blind T) (hb : b.seed_index = a.seed_index)
    (hpoint : T.min_count.toNat = 0 → ∃ q ∈ grid T, b.x + offset T q.1 = (first_point T a).x ∧
      b.z + offset T q.2 = (first_point T a).z) :
    (reference T (picky T results a) results b).countP (told T a) = 1 := by
  obtain ⟨hle, hmove⟩ := not_blind_iff.1 hT
  by_cases hmin : T.min_count.toNat = 0
  · obtain ⟨q, hq, hx, hz⟩ := hpoint hmin
    have hmean : ∀ coordinate : Nat × Nat → Nat,
        BitVec.ofInt 32 ((drift T coordinate {q}).tdiv 1) = offset T (coordinate q) := by
      intro coordinate
      rw [drift, Finset.sum_singleton, Int.tdiv_one, BitVec.ofInt_toInt]
    have heq : (⟨b.seed_index, b.x + offset T q.1, b.z + offset T q.2⟩ : SeedPos) =
        first_point T a := by
      rw [hb, hx, hz]
      rfl
    rw [reference, below_point hb hmin (hmove hmin).2 hq hx hz]
    simp only [hmin, (hmove hmin).1, Finset.card_singleton, Nat.cast_one, Nat.zero_le, if_true,
      hmean, heq]
    simp [told, first_point]
  · have htold : ∀ r : SeedPos, r.seed_index = b.seed_index → told T a r = true := by
      intro r hr
      simp [told, hr, hb, hmin]
    rw [reference, below_grid hb hmin, grid_card]
    simp only [hle, if_true]
    split
    · exact List.countP_eq_length.2 fun r hr => htold r (List.mem_singleton.1 hr ▸ rfl)
    · exact List.countP_eq_length.2 fun r hr => htold r (List.mem_singleton.1 hr ▸ rfl)

theorem emit_told_le (hT : ¬ Blind T) :
    (emit T (picky T results a) b seen).countP (told T a) ≤
      (reference T (picky T results a) results b).countP (told T a) := by
  by_cases hb : b.seed_index = a.seed_index
  · by_cases hpoint : T.min_count.toNat = 0 → ∃ q ∈ grid T,
        b.x + offset T q.1 = (first_point T a).x ∧ b.z + offset T q.2 = (first_point T a).z
    · rw [reference_told hT hb hpoint]
      exact List.countP_le_length.trans emit_length_le
    · obtain ⟨hmin, hno⟩ := Classical.not_imp.1 hpoint
      have hnone : ∀ seen : Nat → Data T.octaves,
          emit T (picky T results a) b seen = [b] := by
        intro seen
        rw [emit_none, if_pos hmin]
        intro p q hq hlt
        exact hno ⟨q, hq, (picky_lt_iff.1 hlt).2 hmin⟩
      have hempty : below T (picky T results a) b ((results b.seed_index).data T.octaves) = ∅ :=
        Finset.filter_eq_empty_iff.2 fun q hq hlt => hno ⟨q, hq, (picky_lt_iff.1 hlt).2 hmin⟩
      have hown : emit T (picky T results a) b (fun _ => (results b.seed_index).data T.octaves) =
          reference T (picky T results a) results b := by
        apply emit_eq_reference fun _ _ => rfl
        rw [hempty]
        have hzero : Fits 32 0 := by decide
        exact fun _ _ => ⟨hzero, hzero⟩
      rw [← hown, hnone, hnone]
  · rw [List.countP_eq_zero.2]
    · exact Nat.zero_le _
    · intro r hr htold
      exact hb ((seed_of_mem_emit hr).symm.trans (of_decide_eq_true htold).1)

theorem emit_told_lt (hT : ¬ Blind T)
    (hlost : ∀ p, seen p ≠ (results a.seed_index).data T.octaves) :
    (emit T (picky T results a) a seen).countP (told T a) <
      (reference T (picky T results a) results a).countP (told T a) := by
  rw [reference_told hT rfl fun _ => ⟨_, first_point_mem, rfl, rfl⟩,
    emit_none fun p q _ hlt => hlost p (picky_lt_iff.1 hlt).1]
  split
  · next hmin =>
    have hne : told T a a = false := by
      apply decide_eq_false
      rintro ⟨-, h⟩
      have hx := congrArg SeedPos.x (h hmin)
      exact offset_zero_ne ((not_blind_iff.1 hT).2 hmin).2 (left_eq_add.1 hx)
    simp [hne]
  · exact Nat.one_pos

/-- The reference tells more about an input than threads do that never see its octaves. -/
theorem not_perm_reference {inputs : Nat → SeedPos} {inputs_len j : Nat}
    {seen : Nat → Nat → Data T.octaves} (hT : ¬ Blind T) (hj : j < inputs_len)
    (hlost : ∀ p, seen j p ≠ (results (inputs j).seed_index).data T.octaves) :
    ¬ ((List.range inputs_len).flatMap fun i =>
        emit T (picky T results (inputs j)) (inputs i) (seen i)).Perm
      ((List.range inputs_len).flatMap fun i =>
        reference T (picky T results (inputs j)) results (inputs i)) :=
  not_perm_flatMap (told T (inputs j)) (fun _ => emit_told_le hT) hj (emit_told_lt hT hlost)

end Picky

section Spots

variable (T) in
/-- A smallest set of points that the filter averages although a sum does not fit. -/
structure Overflows (V : Finset (Nat × Nat)) : Prop where
  subset : V ⊆ grid T
  enough : T.min_count.toNat ≤ V.card
  unfit : ¬ DriftFits T V
  least : ∀ W ⊆ grid T, T.min_count.toNat ≤ W.card → ¬ DriftFits T W → V.card ≤ W.card

theorem exists_overflows (h : ¬ Summable T) : T.move_center = true ∧ ∃ V, Overflows T V := by
  obtain ⟨hmove, h⟩ := Classical.not_imp.1 h
  refine ⟨hmove, ?_⟩
  push Not at h
  obtain ⟨V, ⟨hsub, hmin, hfit⟩, hleast⟩ := exists_minimalFor_of_wellFoundedLT
    (fun V : Finset (Nat × Nat) => V ⊆ grid T ∧ T.min_count.toNat ≤ V.card ∧ ¬ DriftFits T V)
    Finset.card h
  refine ⟨V, hsub, hmin, hfit, fun W hW hcard hunfit => ?_⟩
  rcases le_total W.card V.card with hle | hle
  · exact hleast ⟨hW, hcard, hunfit⟩ hle
  · exact hle

variable (T) in
/-- Below the threshold at the points of `V` around one input, for the octaves of its seed. -/
def spots (results : BitVec 32 → Words) (input : SeedPos) (V : Finset (Nat × Nat))
    (d : Data T.octaves) (x _y z : BitVec 32) : Rat :=
  if d = (results input.seed_index).data T.octaves ∧
      ∃ p ∈ V, x = input.x + offset T p.1 ∧ z = input.z + offset T p.2 then
    T.noise_threshold - 1
  else T.noise_threshold

variable (T) in
/-- The records of the seed that lie at the true mean of `V` around the input. -/
def AtMean (input : SeedPos) (V : Finset (Nat × Nat)) (r : SeedPos) : Prop :=
  r.seed_index = input.seed_index ∧
    (∃ t, Near V.card (drift T Prod.fst V) t ∧ r.x = input.x + BitVec.ofInt 32 t) ∧
    ∃ t, Near V.card (drift T Prod.snd V) t ∧ r.z = input.z + BitVec.ofInt 32 t

variable {results : BitVec 32 → Words} {a b : SeedPos} {V : Finset (Nat × Nat)}

theorem Overflows.card_pos (hV : Overflows T V) : 0 < V.card := by
  apply Nat.pos_of_ne_zero
  intro h0
  rw [Finset.card_eq_zero] at h0
  have hzero : Fits 32 0 := by decide
  exact hV.unfit (h0 ▸ ⟨hzero, hzero⟩)

theorem Overflows.pos_step_ne (hV : Overflows T V) : T.pos_step ≠ 0 := by
  intro h
  have hzero : ∀ coordinate, drift T coordinate V = 0 := by
    intro coordinate
    exact Finset.sum_eq_zero fun p _ => congrArg BitVec.toInt (offset_eq_zero h _)
  apply hV.unfit
  rw [DriftFits, hzero, hzero]
  decide

theorem spots_lt_iff {d : Data T.octaves} {x y z : BitVec 32} :
    spots T results a V d x y z < T.noise_threshold ↔
      d = (results a.seed_index).data T.octaves ∧
        ∃ p ∈ V, x = a.x + offset T p.1 ∧ z = a.z + offset T p.2 := by
  unfold spots
  split
  · next h => exact iff_of_true (sub_one_lt _) h
  · next h => exact iff_of_false (lt_irrefl _) h

/-- Where another input sees the points of `V`, it sees them all moved by one vector. -/
theorem below_spots (hV : Overflows T V) (d : Data T.octaves) :
    let W := below T (spots T results a V) b d
    W.card ≤ V.card ∧ (W.card = V.card →
      drift T Prod.fst W = drift T Prod.fst V + V.card * (a.x - b.x).toInt ∧
      drift T Prod.snd W = drift T Prod.snd V + V.card * (a.z - b.z).toInt) := by
  intro W
  have hW : ∀ q ∈ W, q ∈ grid T ∧ ∃ p ∈ V, b.x + offset T q.1 = a.x + offset T p.1 ∧
      b.z + offset T q.2 = a.z + offset T p.2 := by
    intro q hq
    obtain ⟨hgrid, hlt⟩ := Finset.mem_filter.1 hq
    exact ⟨hgrid, (spots_lt_iff.1 hlt).2⟩
  choose! hgrid f hf hx hz using hW
  have hinj : Set.InjOn f W := by
    intro q hq q' hq' he
    obtain ⟨hqx, hqz⟩ := lt_of_mem_grid (hgrid q hq)
    obtain ⟨hqx', hqz'⟩ := lt_of_mem_grid (hgrid q' hq')
    have hx' := (hx q hq).trans (he ▸ (hx q' hq').symm)
    have hz' := (hz q hq).trans (he ▸ (hz q' hq').symm)
    exact Prod.ext (offset_inj hV.pos_step_ne hqx hqx' (add_left_cancel hx'))
      (offset_inj hV.pos_step_ne hqz hqz' (add_left_cancel hz'))
  have hsub : W.image f ⊆ V := Finset.image_subset_iff.2 hf
  have hcard : (W.image f).card = W.card := Finset.card_image_of_injOn hinj
  refine ⟨hcard ▸ Finset.card_le_card hsub, fun he => ?_⟩
  have himage : W.image f = V := Finset.eq_of_subset_of_card_le hsub (he ▸ hcard.ge)
  have hdrift : ∀ (coordinate : Nat × Nat → Nat) (δ : Int),
      (∀ q ∈ W, (offset T (coordinate q)).toInt = (offset T (coordinate (f q))).toInt + δ) →
        drift T coordinate W = drift T coordinate V + V.card * δ := by
    intro coordinate δ hδ
    rw [drift, Finset.sum_congr rfl hδ, Finset.sum_add_distrib, Finset.sum_const, he,
      nsmul_eq_mul, drift, ← himage, Finset.sum_image hinj]
  constructor
  · exact hdrift _ _ fun q hq => offset_shift (lt_of_mem_grid (hgrid q hq)).1
      (lt_of_mem_grid (hV.subset (hf q hq))).1 (hx q hq)
  · exact hdrift _ _ fun q hq => offset_shift (lt_of_mem_grid (hgrid q hq)).2
      (lt_of_mem_grid (hV.subset (hf q hq))).2 (hz q hq)

theorem below_spots_self (hV : Overflows T V) :
    below T (spots T results a V) a ((results a.seed_index).data T.octaves) = V := by
  ext q
  simp only [below, Finset.mem_filter, spots_lt_iff, true_and]
  constructor
  · rintro ⟨hq, p, hp, hx, hz⟩
    obtain ⟨hqx, hqz⟩ := lt_of_mem_grid hq
    obtain ⟨hpx, hpz⟩ := lt_of_mem_grid (hV.subset hp)
    have hqp : q = p := Prod.ext (offset_inj hV.pos_step_ne hqx hpx (add_left_cancel hx))
      (offset_inj hV.pos_step_ne hqz hpz (add_left_cancel hz))
    exact hqp ▸ hp
  · exact fun hq => ⟨hV.subset hq, q, hq, rfl, rfl⟩

section Means

variable (hV : Overflows T V) (hmove : T.move_center = true)
include hV hmove

/-- The reference has a record at the mean for each input that sees all points. -/
theorem reference_atMean (hseed : b.seed_index = a.seed_index)
    (hcard : (below T (spots T results a V) b ((results b.seed_index).data T.octaves)).card =
      V.card) :
    ∃ r, reference T (spots T results a V) results b = [r] ∧ AtMean T a V r := by
  obtain ⟨hx, hz⟩ := (below_spots (b := b) hV _).2 hcard
  have hpos : (0 : Int) < V.card := Int.natCast_pos.2 hV.card_pos
  have hmean : ∀ {sum moved : Int} {x y : BitVec 32}, moved = sum + V.card * (x - y).toInt →
      ∃ t, Near V.card sum t ∧ y + BitVec.ofInt 32 (moved.tdiv V.card) =
        x + BitVec.ofInt 32 t := by
    rintro sum moved x y rfl
    refine ⟨(sum + V.card * (x - y).toInt).tdiv V.card - (x - y).toInt,
      (near_tdiv hpos _).add, ?_⟩
    rw [ofInt_sub_toInt]
    ring
  rw [reference, hcard, if_pos hV.enough, if_pos hmove]
  exact ⟨_, rfl, hseed, hmean hx, hmean hz⟩

/-- The wrapped sums lead elsewhere. -/
theorem emit_not_atMean {r : SeedPos} (hr : r ∈ emit T (spots T results a V) a
    fun _ => (results a.seed_index).data T.octaves) : ¬ AtMean T a V r := by
  rw [emit_own fun _ _ => rfl, below_spots_self hV, record, if_pos hV.enough, if_pos hmove] at hr
  rw [List.mem_singleton.1 hr]
  rintro ⟨-, ⟨tx, htx, hx⟩, tz, htz, hz⟩
  have hfits : ∀ {coordinate : Nat × Nat → Nat} {t : Int},
      (∀ p ∈ V, coordinate p < T.samples_square_size) →
      Near V.card (drift T coordinate V) t →
      (BitVec.ofInt 32 (drift T coordinate V)).sdiv (BitVec.ofNat 32 V.card) =
        BitVec.ofInt 32 t → Fits 32 (drift T coordinate V) := by
    intro coordinate t hlt ht he
    by_contra hnot
    exact mean_words_ne (by decide) (card_lt hV.subset) hV.card_pos
      (abs_drift_lt hlt hV.card_pos) hnot ht he
  apply hV.unfit
  constructor
  · exact hfits (fun p hp => (lt_of_mem_grid (hV.subset hp)).1) htx (add_left_cancel hx)
  · exact hfits (fun p hp => (lt_of_mem_grid (hV.subset hp)).2) htz (add_left_cancel hz)

open Classical in
theorem emit_atMean_le :
    (emit T (spots T results a V) b fun _ => (results b.seed_index).data T.octaves).countP
        (AtMean T a V) ≤
      (reference T (spots T results a V) results b).countP (AtMean T a V) := by
  by_cases hfit : T.min_count.toNat ≤
      (below T (spots T results a V) b ((results b.seed_index).data T.octaves)).card →
    DriftFits T (below T (spots T results a V) b ((results b.seed_index).data T.octaves))
  · rw [emit_eq_reference (fun _ _ => rfl) fun _ => hfit]
  · obtain ⟨hmin, hunfit⟩ := Classical.not_imp.1 hfit
    have hcard := (below_spots (b := b) hV _).1.antisymm
      (hV.least _ (below_subset _) hmin hunfit)
    by_cases hseed : b.seed_index = a.seed_index
    · obtain ⟨r, hr, hmean⟩ := reference_atMean hV hmove hseed hcard
      rw [hr, List.countP_singleton, if_pos (decide_eq_true hmean)]
      exact List.countP_le_length.trans emit_length_le
    · rw [List.countP_eq_zero.2]
      · exact Nat.zero_le _
      · intro r hr hmean
        exact hseed ((seed_of_mem_emit hr).symm.trans (of_decide_eq_true hmean).1)

/-- The reference has more records at the mean than threads that add up words. -/
theorem not_perm_overflows {inputs : Nat → SeedPos} {inputs_len j : Nat} (hj : j < inputs_len) :
    ¬ ((List.range inputs_len).flatMap fun i =>
        emit T (spots T results (inputs j) V) (inputs i)
          fun _ => (results (inputs i).seed_index).data T.octaves).Perm
      ((List.range inputs_len).flatMap fun i =>
        reference T (spots T results (inputs j) V) results (inputs i)) := by
  classical
  refine not_perm_flatMap (fun r => decide (AtMean T (inputs j) V r))
    (fun _ => emit_atMean_le hV hmove) hj ?_
  obtain ⟨r, hr, hmean⟩ : ∃ r, reference T (spots T results (inputs j) V) results (inputs j) =
      [r] ∧ AtMean T (inputs j) V r :=
    reference_atMean hV hmove rfl (congrArg Finset.card (below_spots_self hV))
  rw [hr, List.countP_singleton, if_pos (decide_eq_true hmean), List.countP_eq_zero.2]
  · exact Nat.one_pos
  · exact fun r hr h => emit_not_atMean hV hmove hr (of_decide_eq_true h)

end Means

end Spots

end Told

end Omission.Gpu.Filter2
