import Omission.Gpu.Filter2Warp
import Omission.Gpu.NoiseRange

namespace Omission.Gpu.Filter2A
open Omission.Lib Omission.Gpu.Filter2 Omission.Gpu.Filter2Warp FloatOps
set_option autoImplicit true

def T_0A (large_biomes : Bool) : Template large_biomes where
  threshold := -5500
  octaves := 3
  pos_range := 8 * 1024
  samples := 256
  min_count := 27
  flipped_sparse_samples := false
  move_center := false
  only_a := true
  samples_ok := by decide +kernel
  sparse_ok := by decide
  pos_range_ok := by cases large_biomes <;> decide +kernel

def T_0B (large_biomes : Bool) : Template large_biomes where
  threshold := -5500
  octaves := 3
  pos_range := 8 * 1024
  samples := 256
  min_count := 20
  flipped_sparse_samples := false
  move_center := false
  only_a := false
  samples_ok := by decide +kernel
  sparse_ok := by decide
  pos_range_ok := by cases large_biomes <;> decide +kernel

section Kernels

variable (large_biomes : Bool) {F : Type} [Add F] [Sub F] [Mul F]
  [LT F] [DecidableLT F] [FloatOps F]
  (table : GradDotTable F) (read : NoiseWords → NoiseView F) (inputs : Nat → SeedPos)
  (results : BitVec 32 → Words) (inputs_len : Nat) (outs : List SeedPos)

/-- `KernelFilter2_0A::kernel` -/
def kernel_0A : Prop :=
  Filter2Warp.Kernel (T_0A large_biomes) .A table read inputs results inputs_len outs

/-- `KernelFilter2_0B::kernel` -/
def kernel_0B : Prop :=
  Filter2Warp.Kernel (T_0B large_biomes) .B table read inputs results inputs_len outs

end Kernels

section Sampler

variable {large_biomes : Bool} (T : Template large_biomes) {F : Type} [Add F] [Sub F] [Mul F]
  [FloatOps F] (table : GradDotTable F) (read : NoiseWords → NoiseView F)

def sampler_octaves (d : Data T.octaves) (k : Fin T.octaves) : NoiseView F :=
  read fun i => d ⟨k * 68 + i, by omega⟩

/-- What the generic kernel samples with at most 12 octaves. -/
def sampler (d : Data T.octaves) (x y z : BitVec 32) : F :=
  if T.only_a then
    ResultSampler.sample_only_a large_biomes table (sampler_octaves T read d) x y z
  else ResultSampler.sample large_biomes table (sampler_octaves T read d) x y z

end Sampler

section Opposed

theorem rat_zero_mul (c yo : Rat) : ofRat 0 * c + yo = yo := by
  have hzero : (ofRat 0 : Rat) * c = 0 := zero_mul c
  rw [hzero, zero_add]

/-- The lower corners of a cell have the gradient (1, -1, 0), the upper ones (-1, 1, 0). -/
def Opposed (c : Cell) : Prop :=
  (c.c000.toNat % 16 = 2 ∧ c.c100.toNat % 16 = 2 ∧ c.c001.toNat % 16 = 2 ∧ c.c101.toNat % 16 = 2) ∧
    c.c010.toNat % 16 = 1 ∧ c.c110.toNat % 16 = 1 ∧ c.c011.toNat % 16 = 1 ∧ c.c111.toNat % 16 = 1

instance (c : Cell) : Decidable (Opposed c) := inferInstanceAs (Decidable (_ ∧ _))

theorem gradDot_lower {p : UInt8} (h : p.toNat % 16 = 2) (x y z : Rat) :
    gradDot init_grad_dot_table p x y z = x - y := by
  have hhash : (⟨p.toNat % 16, Nat.mod_lt _ (by decide)⟩ : Fin 16) = 2 := Fin.ext h
  simp only [gradDot, hhash]
  change x * ((1 : Int) : Rat) + (y * ((-1 : Int) : Rat) + z * ((0 : Int) : Rat)) = x - y
  push_cast
  ring

theorem gradDot_upper {p : UInt8} (h : p.toNat % 16 = 1) (x y z : Rat) :
    gradDot init_grad_dot_table p x y z = y - x := by
  have hhash : (⟨p.toNat % 16, Nat.mod_lt _ (by decide)⟩ : Fin 16) = 1 := Fin.ext h
  simp only [gradDot, hhash]
  change x * ((-1 : Int) : Rat) + (y * ((1 : Int) : Rat) + z * ((0 : Int) : Rat)) = y - x
  push_cast
  ring

theorem interp_opposed {c : Cell} (h : Opposed c) (x z fx fz : Rat) :
    interp init_grad_dot_table x (1 / 2) z fx (smoothstep (1 / 2)) fz c = -(1 / 2) := by
  obtain ⟨⟨h000, h100, h001, h101⟩, h010, h110, h011, h111⟩ := h
  have hfade : smoothstep (1 / 2 : Rat) = 1 / 2 := by decide +kernel
  simp only [interp, gradDot_lower h000, gradDot_lower h100, gradDot_lower h001, gradDot_lower h101,
    gradDot_upper h010, gradDot_upper h110, gradDot_upper h011, gradDot_upper h111, hfade, lerp3,
    lerp2, lerp1_eq, FloatOps.ofRat]
  ring

/-- A permutation whose 16 cells at the origin are all of that kind. -/
def opposed_table : Vector UInt8 256 :=
  shuffled [(0, 16), (1, 18), (2, 20), (3, 22), (4, 24), (16, 32), (17, 64), (18, 33), (19, 65),
    (20, 34), (21, 66), (22, 35), (23, 67), (24, 36), (25, 68), (32, 34), (64, 81), (33, 50),
    (65, 97), (34, 82), (66, 113), (35, 98), (67, 129), (36, 114), (68, 145), (37, 130), (69, 161),
    (38, 146), (70, 177), (39, 162), (71, 193), (40, 178), (72, 209)]

def opposed (o : Rat) : NoiseView Rat := ⟨opposed_table, o, 1 / 2, o⟩

theorem opposed_cell (o : Rat) : ∀ x < 4, ∀ z < 4,
    Opposed (compute_cell (opposed o) (x : Nat) 0 (z : Nat)) := by
  change ∀ x < 4, ∀ z < 4, Opposed (compute_cell (opposed 0) (x : Nat) 0 (z : Nat))
  decide +kernel

theorem floor_lt_four {v : Rat} (h0 : 0 ≤ v) (h4 : v < 4) : ∃ n < 4, ⌊v⌋ = (n : Nat) := by
  have hlo : 0 ≤ ⌊v⌋ := Int.floor_nonneg.2 h0
  have hhi : ⌊v⌋ < 4 := Int.floor_lt.2 (by exact_mod_cast h4)
  exact ⟨⌊v⌋.toNat, by omega, by omega⟩

theorem opposed_noise {o : Rat} {config : OctaveConfig} {x z : BitVec 32}
    (hx0 : 0 ≤ x.toInt * config.input_factor + o) (hx4 : x.toInt * config.input_factor + o < 4)
    (hz0 : 0 ≤ z.toInt * config.input_factor + o) (hz4 : z.toInt * config.input_factor + o < 4) :
    octave_sample_noise config init_grad_dot_table (opposed o) x 0 z = -(1 / 2) := by
  obtain ⟨m, hm, hxm⟩ := floor_lt_four hx0 hx4
  obtain ⟨n, hn, hzn⟩ := floor_lt_four hz0 hz4
  have hy : wrap (ofRat ((0 : BitVec 32).toInt : Rat) * ofRat config.input_factor) +
      (opposed o).yo = 1 / 2 := rat_zero_mul _ _
  have hfloor : float2int_rd (1 / 2 : Rat) = 0 := by decide +kernel
  have hfrac : (1 / 2 : Rat) - ofRat ((0 : Int) : Rat) = 1 / 2 := sub_zero _
  have hcell := opposed_cell o m hm n hn
  rw [← hxm, ← hzn] at hcell
  rw [octave_sample_noise, sample_noise, hy, hfloor, hfrac]
  exact interp_opposed hcell _ _ _ _

def read (w : NoiseWords) : NoiseView Rat := if w 0 = 0 then opposed 2 else opposed 4

def results (_seed_index : BitVec 32) : Words := fun i => if i < 68 then 0 else 1

theorem coordinate_mem {k : Nat} {o : Rat} (hk : k = 0 ∧ o = 2 ∨ k = 1 ∧ o = 4) :
    ∀ i < (if k = 0 then 16 else 8),
      0 ≤ (0 + offset (T_0A false) i : BitVec 32).toInt * (cfg false .A k).input_factor + o ∧
      (0 + offset (T_0A false) i : BitVec 32).toInt * (cfg false .A k).input_factor + o < 4 := by
  rcases hk with ⟨rfl, rfl⟩ | ⟨rfl, rfl⟩ <;> decide +kernel

theorem octave_value {k : Nat} {o : Rat} (hk : k = 0 ∧ o = 2 ∨ k = 1 ∧ o = 4) {q : Nat × Nat}
    (hx : q.1 < if k = 0 then 16 else 8) (hz : q.2 < if k = 0 then 16 else 8) :
    sample_octave (cfg false .A k) init_grad_dot_table (opposed o)
      (0 + offset (T_0A false) q.1) 0 (0 + offset (T_0A false) q.2) =
      -(1 / 2) * (cfg false .A k).value_factor := by
  obtain ⟨hx0, hx4⟩ := coordinate_mem hk q.1 hx
  obtain ⟨hz0, hz4⟩ := coordinate_mem hk q.2 hz
  rw [sample_octave, opposed_noise hx0 hx4 hz0 hz4]
  rfl

theorem square_size_eq : (T_0A false).samples_square_size = 16 := by decide +kernel

theorem pair_flag_of_lt {q : Nat × Nat} (hx : q.1 < 8) (hz : q.2 < 8) :
    pair_flag (T_0A false) .A init_grad_dot_table (opposed 2) (opposed 4) ⟨0, 0, 0⟩ q := by
  have h0 := octave_value (k := 0) (.inl ⟨rfl, rfl⟩) (q := q) (by simp; omega) (by simp; omega)
  have h1 := octave_value (k := 1) (.inr ⟨rfl, rfl⟩) (q := q) hx hz
  rw [pair_flag, pair_value, h0, h1]
  decide +kernel

theorem first_point_count : 27 ≤ ((grid (T_0A false)).filter
    (pair_flag (T_0A false) .A init_grad_dot_table (opposed 2) (opposed 4) ⟨0, 0, 0⟩)).card := by
  have hsub : Finset.range 8 ×ˢ Finset.range 8 ⊆ (grid (T_0A false)).filter
      (pair_flag (T_0A false) .A init_grad_dot_table (opposed 2) (opposed 4) ⟨0, 0, 0⟩) := by
    intro q hq
    obtain ⟨hx, hz⟩ := Finset.mem_product.1 hq
    rw [Finset.mem_range] at hx hz
    refine Finset.mem_filter.2 ⟨(mem_grid _).2 ⟨?_, ?_, ?_⟩, pair_flag_of_lt hx hz⟩
    · rw [square_size_eq]
      omega
    · rw [square_size_eq]
      omega
    · exact Nat.mod_one _
  have hcard := Finset.card_le_card hsub
  rw [Finset.card_product, Finset.card_range] at hcard
  omega

theorem decided_origin : decided (T_0A false) .A init_grad_dot_table read results ⟨0, 0, 0⟩ =
    [⟨0, 0, 0⟩] := by
  have hfirst : read (Words.noise (octave_words (results 0) .A 0)) = opposed 2 := rfl
  have hsecond : read (Words.noise (octave_words (results 0) .A 1)) = opposed 4 := rfl
  simp only [decided, hfirst, hsecond]
  exact if_pos first_point_count

end Opposed

section Equal

variable {large_biomes : Bool} {F : Type} [Add F] [Sub F] [Mul F] [LT F] [DecidableLT F]
  [FloatOps F] {table : GradDotTable F} {read : NoiseWords → NoiseView F}
  {results : BitVec 32 → Words}

variable (large_biomes table) in
omit [LT F] [DecidableLT F] in
theorem sample_only_a_three (octaves : Fin 3 → NoiseView F) (x y z : BitVec 32) :
    ResultSampler.sample_only_a large_biomes table octaves x y z =
      ofRat 0 + sample_octave (cfg large_biomes .A 0) table (octaves 0) x y z +
        sample_octave (cfg large_biomes .A 1) table (octaves 2) x y z := by
  have hks : ((List.finRange 3).filter fun k => k.val % 2 = 0) = [0, 2] := by decide
  rw [ResultSampler.sample_only_a, hks]
  rfl

omit [LT F] [DecidableLT F] in
theorem sampler_eq (m : Words) (x z : BitVec 32) :
    sampler (T_0A large_biomes) table read (m.data 3) x 0 z =
      pair_value large_biomes .A table (read (Words.noise (octave_words m .A 0)))
        (read (Words.noise (octave_words m .A 1))) x z := by
  have honly : (T_0A large_biomes).only_a = true := rfl
  exact (if_pos honly).trans
    (sample_only_a_three large_biomes table (fun k => read fun i => m (k * 68 + i)) x 0 z)

theorem reference_eq_decided (input : SeedPos) :
    reference (T_0A large_biomes) (sampler (T_0A large_biomes) table read) results input =
      decided (T_0A large_biomes) .A table read results input := by
  have hbelow : below (T_0A large_biomes) (sampler (T_0A large_biomes) table read) input
      ((results input.seed_index).data 3) = (grid (T_0A large_biomes)).filter
        (pair_flag (T_0A large_biomes) .A table
          (read (Words.noise (octave_words (results input.seed_index) .A 0)))
          (read (Words.noise (octave_words (results input.seed_index) .A 1))) input) := by
    refine Finset.filter_congr fun q _ => ?_
    rw [sampler_eq]
    rfl
  rw [decided, ← hbelow]
  rfl

/-- The warp-per-input kernel emits what the generic kernel emits. -/
theorem filter2_0A_iff (hy : ∀ c yo : F, ofRat 0 * c + yo = yo) (table : GradDotTable F)
    (read : NoiseWords → NoiseView F) (inputs : Nat → SeedPos) (results : BitVec 32 → Words)
    (inputs_len : Nat) (outs : List SeedPos) :
    kernel_0A large_biomes table read inputs results inputs_len outs ↔
      Filter2.Kernel (T_0A large_biomes) (sampler (T_0A large_biomes) table read) inputs results
        inputs_len outs := by
  have hown : ∀ j < inputs_len, Summable (T_0A large_biomes) ∧
      OwnWords (T_0A large_biomes) inputs results inputs_len j :=
    fun _ hj => ⟨fun hmove => absurd hmove Bool.false_ne_true,
      Owned.ownWords (.inl (Nat.le_refl 256)) hj⟩
  rw [kernel_0A, Filter2Warp.kernel_iff hy rfl, Filter2.kernel_iff (.inr hown)]
  simp only [reference_eq_decided]

end Equal

theorem filter2_0A_iff_origin :
    kernel_0A false init_grad_dot_table read (fun _ => ⟨0, 0, 0⟩) results 1 [⟨0, 0, 0⟩] ∧
    (kernel_0A false init_grad_dot_table read (fun _ => ⟨0, 0, 0⟩) results 1 [⟨0, 0, 0⟩] ↔
      Filter2.Kernel (T_0A false) (sampler (T_0A false) init_grad_dot_table read)
        (fun _ => ⟨0, 0, 0⟩) results 1 [⟨0, 0, 0⟩]) := by
  refine ⟨?_, filter2_0A_iff rat_zero_mul init_grad_dot_table _ _ _ 1 _⟩
  rw [kernel_0A, Filter2Warp.kernel_iff rat_zero_mul rfl, List.range_one, List.flatMap_singleton,
    decided_origin]

end Omission.Gpu.Filter2A
