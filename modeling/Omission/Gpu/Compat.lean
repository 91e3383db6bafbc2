import Omission.Gpu.Filter2A

namespace Omission.Gpu.Compat
open Omission.Lib Omission.Gpu.Filter2 Omission.Gpu.Filter2Warp Omission.Gpu.Filter2A FloatOps
set_option autoImplicit true

section Constants

variable (large_biomes : Bool)

def lbpm : Nat := if large_biomes then 4 else 1
def pos_step : Nat := 8192 * lbpm large_biomes / 4 / 16
def pos_offset : BitVec 32 := -BitVec.ofNat 32 (pos_step large_biomes * 15 / 2)

def first_octave : Int := if large_biomes then -11 else -9
def root_vf : Rat := (16666666666666666 / 100000000000000000) / ((1 / 10) * (1 + 1 / 9))
def base_if : Rat := 1 / 2 ^ (-first_octave large_biomes).toNat
def base_vf : Rat := 2 ^ 8 / (2 ^ 9 - 1) * root_vf
def b_mult : Rat := 10181268882175227 / 10000000000000000

def if0 (IsB : Bool) : Rat := if IsB then base_if large_biomes * b_mult else base_if large_biomes
def if1 (IsB : Bool) : Rat :=
  if IsB then base_if large_biomes * 2 * b_mult else base_if large_biomes * 2
def vf0 : Rat := base_vf
def vf1 : Rat := base_vf * (1 / 2)

end Constants

def noise_threshold : Rat := -55 / 100
def kPrefilterThreshold : Rat := -45 / 100

section Kernel

variable (large_biomes : Bool) (MinCount : Nat) (IsB : Bool) {F : Type}
  [Add F] [Sub F] [Mul F] [LT F]
  [DecidableLT F] [FloatOps F] (gdt : GradDotTable F) (read : NoiseWords → NoiseView F)
  (inputs : Nat → SeedPos) (results : BitVec 32 → Words)

def z_world (input : SeedPos) (lane : Nat) : BitVec 32 :=
  input.z + BitVec.ofNat 32 (lane / 2 * pos_step large_biomes) + pos_offset large_biomes

def x_world (input : SeedPos) (lane k : Nat) : BitVec 32 :=
  input.x + BitVec.ofNat 32 (x_start lane * pos_step large_biomes) + pos_offset large_biomes +
    BitVec.ofNat 32 (k * pos_step large_biomes)

/-- The variables of a lane in the first phase. -/
structure First (F : Type) where
  a : Corners
  noise0_vals : Nat → F
  prefilter_count : Nat

def first_step (oct0 : NoiseView F) (input : SeedPos) (lane : Nat) (s : First F) (k : Nat) :
    First F :=
  let (a, n0) := column_noise gdt oct0 (if0 large_biomes IsB) (z_world large_biomes input lane) s.a
    (x_world large_biomes input lane k)
  let val := n0 * ofRat vf0
  ⟨a, Function.update s.noise0_vals k val,
    s.prefilter_count + if val < ofRat kPrefilterThreshold then 1 else 0⟩

/-- Octave 0 at the eight columns of a lane; `s` is not initialised but for its count. -/
def first_phase (oct0 : NoiseView F) (input : SeedPos) (lane : Nat) (s : First F) : First F :=
  (List.range 8).foldl (first_step large_biomes IsB gdt oct0 input lane)
    ⟨⟨0, false, s.a.cell⟩, s.noise0_vals, 0⟩

def second_step (oct1 : NoiseView F) (input : SeedPos) (lane : Nat) (noise0_vals : Nat → F)
    (s : Corners × Nat) (k : Nat) : Corners × Nat :=
  let (b, n1) := column_noise gdt oct1 (if1 large_biomes IsB) (z_world large_biomes input lane) s.1
    (x_world large_biomes input lane k)
  let val := noise0_vals k + n1 * ofRat vf1
  (b, s.2 + if val < ofRat noise_threshold then 1 else 0)

def second_phase (oct1 : NoiseView F) (input : SeedPos) (lane : Nat) (noise0_vals : Nat → F)
    (b : Cell) : Nat :=
  ((List.range 8).foldl (second_step large_biomes IsB gdt oct1 input lane noise0_vals)
    (⟨0, false, b⟩, 0)).2

def half : Half := if IsB then .B else .A

structure Step (m : Slots) (input_index : Nat) (m' : Slots) (out : List SeedPos) : Prop where
  oct0 : Written (copy_writes (octave_words (results (inputs input_index).seed_index) (half IsB) 0))
    m.oct0 m'.oct0
  oct1 : Written (copy_writes (octave_words (results (inputs input_index).seed_index) (half IsB) 1))
    m.oct1 m'.oct1
  emitted : ∃ (a : Fin 32 → First F) (b : Fin 32 → Cell), out =
    let input := inputs input_index
    let first (lane : Fin 32) :=
      first_phase large_biomes IsB gdt (read (Words.noise m'.oct0)) input lane (a lane)
    let prefilter_total := warp_reduce_add fun lane => (first lane).prefilter_count
    if prefilter_total ≥ MinCount then
      let total := warp_reduce_add fun lane : Fin 32 => second_phase large_biomes IsB gdt
        (read (Words.noise m'.oct1)) input lane (first lane).noise0_vals (b lane)
      if total ≥ MinCount then [⟨input.seed_index, input.x, input.z⟩] else []
    else []

/-- `filter2_compat_kernel<MinCount, IsB>` on 2380 blocks of eight warps. -/
def filter2_compat_kernel (inputs_len : Nat) (outs : List SeedPos) : Prop :=
  Launch (fun _ : Slots => True) (Step large_biomes MinCount IsB gdt read inputs results) (2380 * 8)
    inputs_len outs

end Kernel

/-- The parameters of the kernel that `filter2_compat_kernel<_, IsB>` stands in for. -/
def T (large_biomes IsB : Bool) : Template large_biomes :=
  if IsB then T_0B large_biomes else T_0A large_biomes

theorem constants_eq (large_biomes IsB : Bool) :
    pos_step large_biomes = (T large_biomes IsB).pos_step ∧
      pos_offset large_biomes = (T large_biomes IsB).pos_offset ∧
      if0 large_biomes IsB = (cfg large_biomes (half IsB) 0).input_factor ∧
      if1 large_biomes IsB = (cfg large_biomes (half IsB) 1).input_factor ∧
      vf0 = (cfg large_biomes (half IsB) 0).value_factor ∧
      vf1 = (cfg large_biomes (half IsB) 1).value_factor := by
  cases large_biomes <;> cases IsB <;> decide +kernel

section Lane

variable {large_biomes IsB : Bool} {F : Type} [Add F] [Sub F] [Mul F] [LT F] [DecidableLT F]
  [FloatOps F] {gdt : GradDotTable F} {oct0 oct1 : NoiseView F} {input : SeedPos}

variable (IsB) in
theorem x_world_eq (lane k : Nat) :
    x_world large_biomes input lane k = Filter2Warp.x_world (T large_biomes IsB) input lane k := by
  obtain ⟨hstep, hoffset, -⟩ := constants_eq large_biomes IsB
  rw [x_world, Filter2Warp.x_world, hstep, hoffset]

variable (IsB) in
theorem z_world_eq (lane : Nat) :
    z_world large_biomes input lane = Filter2Warp.z_world (T large_biomes IsB) input lane := by
  obtain ⟨hstep, hoffset, -⟩ := constants_eq large_biomes IsB
  rw [z_world, Filter2Warp.z_world, hstep, hoffset]

def first_value (large_biomes IsB : Bool) (gdt : GradDotTable F) (oct0 : NoiseView F)
    (input : SeedPos) (q : Nat × Nat) : F :=
  sample_octave (cfg large_biomes (half IsB) 0) gdt oct0
    (input.x + offset (T large_biomes IsB) q.1) 0
    (input.z + offset (T large_biomes IsB) q.2)

structure FirstWalked (large_biomes IsB : Bool) (gdt : GradDotTable F) (oct0 : NoiseView F)
    (input : SeedPos) (lane n : Nat) (s : First F) : Prop where
  a : s.a.Fits oct0 (cfg large_biomes (half IsB) 0) (z_world large_biomes input lane)
  noise0_vals : ∀ k < n,
    s.noise0_vals k = first_value large_biomes IsB gdt oct0 input (lane_point lane k)
  prefilter_count : s.prefilter_count = ∑ k ∈ Finset.range n,
    if first_value large_biomes IsB gdt oct0 input (lane_point lane k) < ofRat kPrefilterThreshold
    then 1 else 0

theorem FirstWalked.step (hy : ∀ c yo : F, ofRat 0 * c + yo = yo) {lane n : Nat} {s : First F}
    (h : FirstWalked large_biomes IsB gdt oct0 input lane n s) :
    FirstWalked large_biomes IsB gdt oct0 input lane (n + 1)
      (first_step large_biomes IsB gdt oct0 input lane s n) := by
  obtain ⟨-, -, hif, -, hvf, -⟩ := constants_eq large_biomes IsB
  have hval : (column_noise gdt oct0 (if0 large_biomes IsB) (z_world large_biomes input lane) s.a
      (x_world large_biomes input lane n)).2 * ofRat vf0 =
        first_value large_biomes IsB gdt oct0 input (lane_point lane n) := by
    rw [hif, column_noise_eq gdt hy h.a, x_world_eq IsB, z_world_eq IsB,
      Filter2Warp.x_world_eq, Filter2Warp.z_world_eq, hvf]
    rfl
  refine ⟨?_, ?_, ?_⟩
  · simp only [first_step, hif]
    exact column_noise_fits gdt h.a _
  · intro k hk
    simp only [first_step, hval]
    rcases Nat.lt_succ_iff_lt_or_eq.1 hk with hlt | rfl
    · rw [Function.update_of_ne hlt.ne, h.noise0_vals k hlt]
    · rw [Function.update_self]
  · simp only [first_step, hval]
    rw [h.prefilter_count, Finset.sum_range_succ]

theorem first_phase_walked (hy : ∀ c yo : F, ofRat 0 * c + yo = yo) (lane : Nat) (s : First F) :
    FirstWalked large_biomes IsB gdt oct0 input lane 8
      (first_phase large_biomes IsB gdt oct0 input lane s) := by
  have hwalk : ∀ n, FirstWalked large_biomes IsB gdt oct0 input lane n ((List.range n).foldl
      (first_step large_biomes IsB gdt oct0 input lane)
      ⟨⟨0, false, s.a.cell⟩, s.noise0_vals, 0⟩) := by
    intro n
    induction n with
    | zero => exact ⟨fun h => absurd h Bool.false_ne_true, fun k hk => absurd hk k.not_lt_zero, rfl⟩
    | succ n ih =>
      rw [List.range_succ, List.foldl_append]
      exact ih.step hy
  exact hwalk 8

omit [Add F] [Sub F] [Mul F] [LT F] [DecidableLT F] in
theorem noise_threshold_eq (large_biomes IsB : Bool) :
    (ofRat noise_threshold : F) = (T large_biomes IsB).noise_threshold := by
  have hrat : noise_threshold = ((T large_biomes IsB).threshold : Rat) / 10000 := by
    cases large_biomes <;> cases IsB <;> decide +kernel
  rw [Template.noise_threshold, hrat]

structure SecondWalked (large_biomes IsB : Bool) (gdt : GradDotTable F) (oct0 oct1 : NoiseView F)
    (input : SeedPos) (lane n : Nat) (s : Corners × Nat) : Prop where
  b : s.1.Fits oct1 (cfg large_biomes (half IsB) 1) (z_world large_biomes input lane)
  local_count : s.2 = ∑ k ∈ Finset.range n,
    if pair_flag (T large_biomes IsB) (half IsB) gdt oct0 oct1 input (lane_point lane k)
      then 1 else 0

section Second

variable (hy : ∀ c yo : F, ofRat 0 * c + yo = yo) (hz : ∀ v : F, ofRat 0 + v = v)
  {noise0_vals : Nat → F} {lane : Nat}
  (hvals : ∀ k < 8, noise0_vals k = first_value large_biomes IsB gdt oct0 input (lane_point lane k))
include hy hz hvals

theorem SecondWalked.step {n : Nat} {s : Corners × Nat} (hn : n < 8)
    (h : SecondWalked large_biomes IsB gdt oct0 oct1 input lane n s) :
    SecondWalked large_biomes IsB gdt oct0 oct1 input lane (n + 1)
      (second_step large_biomes IsB gdt oct1 input lane noise0_vals s n) := by
  obtain ⟨-, -, -, hif, -, hvf⟩ := constants_eq large_biomes IsB
  have hval : noise0_vals n + (column_noise gdt oct1 (if1 large_biomes IsB)
      (z_world large_biomes input lane) s.1 (x_world large_biomes input lane n)).2 * ofRat vf1 =
        pair_value large_biomes (half IsB) gdt oct0 oct1
          (input.x + offset (T large_biomes IsB) (lane_point lane n).1)
          (input.z + offset (T large_biomes IsB) (lane_point lane n).2) := by
    rw [hvals n hn, hif, column_noise_eq gdt hy h.b, x_world_eq IsB,
      z_world_eq IsB, Filter2Warp.x_world_eq, Filter2Warp.z_world_eq, hvf, pair_value, hz]
    rfl
  refine ⟨?_, ?_⟩
  · simp only [second_step, hif]
    exact column_noise_fits gdt h.b _
  · simp only [second_step, hval]
    rw [h.local_count, Finset.sum_range_succ, noise_threshold_eq large_biomes IsB]
    rfl

theorem second_phase_eq (b : Cell) :
    second_phase large_biomes IsB gdt oct1 input lane noise0_vals b = ∑ k ∈ Finset.range 8,
      if pair_flag (T large_biomes IsB) (half IsB) gdt oct0 oct1 input (lane_point lane k)
      then 1 else 0 := by
  have hwalk : ∀ n ≤ 8, SecondWalked large_biomes IsB gdt oct0 oct1 input lane n
      ((List.range n).foldl (second_step large_biomes IsB gdt oct1 input lane noise0_vals)
        (⟨0, false, b⟩, 0)) := by
    intro n
    induction n with
    | zero => exact fun _ => ⟨fun h => absurd h Bool.false_ne_true, rfl⟩
    | succ n ih =>
      intro hn
      rw [List.range_succ, List.foldl_append]
      exact (ih (by omega)).step hy hz hvals (by omega)
  exact (hwalk 8 le_rfl).local_count

end Second

theorem samples_eq (large_biomes IsB : Bool) : (T large_biomes IsB).samples = 256 := by
  cases IsB <;> rfl

def prefiltered (large_biomes IsB : Bool) (gdt : GradDotTable F) (oct0 : NoiseView F)
    (input : SeedPos) : Finset (Nat × Nat) :=
  (grid (T large_biomes IsB)).filter fun q =>
    first_value large_biomes IsB gdt oct0 input q < ofRat kPrefilterThreshold

theorem prefilter_total (hy : ∀ c yo : F, ofRat 0 * c + yo = yo) (s : Fin 32 → First F) :
    (warp_reduce_add fun lane : Fin 32 =>
      (first_phase large_biomes IsB gdt oct0 input lane (s lane)).prefilter_count) =
      (prefiltered large_biomes IsB gdt oct0 input).card := by
  have hlane : ∀ lane : Fin 32,
      (first_phase large_biomes IsB gdt oct0 input lane (s lane)).prefilter_count =
        ∑ k ∈ Finset.range 8, if first_value large_biomes IsB gdt oct0 input (lane_point lane k) <
          ofRat kPrefilterThreshold then 1 else 0 :=
    fun lane => (first_phase_walked hy lane (s lane)).prefilter_count
  simp only [warp_reduce_add_eq, hlane]
  rw [sum_lane_points (samples_eq large_biomes IsB) fun q =>
    if first_value large_biomes IsB gdt oct0 input q < ofRat kPrefilterThreshold then 1 else 0,
    prefiltered, Finset.card_filter]

theorem second_total (hy : ∀ c yo : F, ofRat 0 * c + yo = yo) (hz : ∀ v : F, ofRat 0 + v = v)
    (s : Fin 32 → First F) (b : Fin 32 → Cell) :
    (warp_reduce_add fun lane : Fin 32 => second_phase large_biomes IsB gdt oct1 input lane
      (first_phase large_biomes IsB gdt oct0 input lane (s lane)).noise0_vals (b lane)) =
      ((grid (T large_biomes IsB)).filter
        (pair_flag (T large_biomes IsB) (half IsB) gdt oct0 oct1 input)).card := by
  have hlane : ∀ lane : Fin 32, second_phase large_biomes IsB gdt oct1 input lane
      (first_phase large_biomes IsB gdt oct0 input lane (s lane)).noise0_vals (b lane) =
        ∑ k ∈ Finset.range 8, if pair_flag (T large_biomes IsB) (half IsB) gdt oct0 oct1 input
          (lane_point lane k) then 1 else 0 :=
    fun lane => second_phase_eq hy hz (first_phase_walked hy lane (s lane)).noise0_vals (b lane)
  simp only [warp_reduce_add_eq, hlane]
  rw [sum_lane_points (samples_eq large_biomes IsB) fun q =>
    if pair_flag (T large_biomes IsB) (half IsB) gdt oct0 oct1 input q then 1 else 0,
    Finset.card_filter]

end Lane

section Run

variable {large_biomes IsB : Bool} {F : Type} [Add F] [Sub F] [Mul F] [LT F] [DecidableLT F]
  [FloatOps F] {gdt : GradDotTable F} {read : NoiseWords → NoiseView F} {inputs : Nat → SeedPos}
  {results : BitVec 32 → Words} {MinCount : Nat}

def passes (large_biomes IsB : Bool) (gdt : GradDotTable F) (read : NoiseWords → NoiseView F)
    (results : BitVec 32 → Words) (input : SeedPos) : Bool :=
  decide ((T large_biomes IsB).min_count.toNat ≤ (prefiltered large_biomes IsB gdt
    (read (Words.noise (octave_words (results input.seed_index) (half IsB) 0))) input).card)

def split_decided (large_biomes IsB : Bool) (gdt : GradDotTable F) (read : NoiseWords → NoiseView F)
    (results : BitVec 32 → Words) (input : SeedPos) : List SeedPos :=
  if passes large_biomes IsB gdt read results input then
    decided (T large_biomes IsB) (half IsB) gdt read results input
  else []

variable (hy : ∀ c yo : F, ofRat 0 * c + yo = yo) (hz : ∀ v : F, ofRat 0 + v = v)
  (hmin : MinCount = (T large_biomes IsB).min_count.toNat)
include hy hz hmin

theorem Step.out_eq {m m' : Slots} {input_index : Nat} {out : List SeedPos}
    (h : Step large_biomes MinCount IsB gdt read inputs results m input_index m' out) :
    out = split_decided large_biomes IsB gdt read results (inputs input_index) := by
  obtain ⟨a, b, hout⟩ := h.emitted
  rw [hout, hmin]
  simp only [prefilter_total hy, second_total hy hz, copied h.oct0, copied h.oct1, ge_iff_le]
  rw [split_decided, passes]
  simp only [decide_eq_true_eq]
  rfl

omit hy hz hmin in
theorem exists_step (m : Slots) (input_index : Nat) :
    ∃ m' out, Step large_biomes MinCount IsB gdt read inputs results m input_index m' out := by
  obtain ⟨oct0, h0⟩ := exists_written
    (copy_writes (octave_words (results (inputs input_index).seed_index) (half IsB) 0)) m.oct0
  obtain ⟨oct1, h1⟩ := exists_written
    (copy_writes (octave_words (results (inputs input_index).seed_index) (half IsB) 1)) m.oct1
  exact ⟨⟨oct0, oct1⟩, _, h0, h1, fun _ => ⟨⟨0, false, ⟨0, 0, 0, 0, 0, 0, 0, 0⟩⟩,
    fun _ => ofRat 0, 0⟩,
    fun _ => ⟨0, 0, 0, 0, 0, 0, 0, 0⟩, rfl⟩

theorem kernel_iff {inputs_len : Nat} {outs : List SeedPos} :
    filter2_compat_kernel large_biomes MinCount IsB gdt read inputs results inputs_len outs ↔
      outs.Perm ((List.range inputs_len).flatMap fun i =>
        split_decided large_biomes IsB gdt read results (inputs i)) := by
  have hrun : ∀ {outs}, filter2_compat_kernel large_biomes MinCount IsB gdt read inputs results
      inputs_len outs → outs.Perm ((List.range inputs_len).flatMap fun i =>
        split_decided large_biomes IsB gdt read results (inputs i)) := by
    intro outs h
    refine Launch.perm (I := fun _ => True) h (fun _ _ => trivial) ?_ (by decide)
    intro m i m' out _ hstep
    exact ⟨trivial, List.Perm.of_eq (hstep.out_eq hy hz hmin)⟩
  constructor
  · exact hrun
  · intro houts
    have hex : ∃ outs, filter2_compat_kernel large_biomes MinCount IsB gdt read inputs results
        inputs_len outs :=
      exists_launch ⟨⟨fun _ => 0, fun _ => 0⟩, trivial⟩ exists_step _ _
    obtain ⟨outs', f, hf, hwarps⟩ := hex
    exact ⟨f, (houts.trans (hrun ⟨f, hf, hwarps⟩).symm).trans hf, hwarps⟩

end Run

section Exact

def nth (l : List SeedPos) (i : Nat) : SeedPos := l.getD i ⟨0, 0, 0⟩

theorem flatMap_nth (l : List SeedPos) (f : SeedPos → List SeedPos) :
    ((List.range l.length).flatMap fun i => f (nth l i)) = l.flatMap f := by
  have hmap : (List.range l.length).map (nth l) = l := by
    refine List.ext_getElem (by simp) fun i _ h => ?_
    rw [List.getElem_map, List.getElem_range, nth, List.getD_eq_getElem?_getD,
      List.getElem?_eq_getElem h, Option.getD_some]
  conv_rhs => rw [← hmap, List.flatMap_map]

theorem flatMap_filter (l : List SeedPos) (p : SeedPos → Bool) (f : SeedPos → List SeedPos) :
    (l.flatMap fun a => if p a then f a else []) = (l.filter p).flatMap f := by
  induction l with
  | nil => rfl
  | cons a l ih =>
    rw [List.flatMap_cons, ih, List.filter_cons]
    split
    · rw [List.flatMap_cons]
    · rw [List.nil_append]

/-- In exact arithmetic the split build runs the normal filters on the inputs that octave 0
keeps. -/
theorem filter2_compat_iff (large_biomes : Bool) (table : GradDotTable Rat)
    (read : NoiseWords → NoiseView Rat) (results : BitVec 32 → Words) (l outs : List SeedPos) :
    (filter2_compat_kernel large_biomes 27 false table read (nth l) results l.length outs ↔
      let kept := l.filter (passes large_biomes false table read results)
      kernel_0A large_biomes table read (nth kept) results kept.length outs) ∧
    (filter2_compat_kernel large_biomes 20 true table read (nth l) results l.length outs ↔
      let kept := l.filter (passes large_biomes true table read results)
      kernel_0B large_biomes table read (nth kept) results kept.length outs) := by
  have hzero : ∀ v : Rat, ofRat 0 + v = v := zero_add
  have h27 : 27 = (T large_biomes false).min_count.toNat := rfl
  have h20 : 20 = (T large_biomes true).min_count.toNat := rfl
  constructor
  · rw [kernel_iff rat_zero_mul hzero h27]
    simp only [kernel_0A]
    rw [Filter2Warp.kernel_iff rat_zero_mul rfl, flatMap_nth, flatMap_nth, ← flatMap_filter]
    rfl
  · rw [kernel_iff rat_zero_mul hzero h20]
    simp only [kernel_0B]
    rw [Filter2Warp.kernel_iff rat_zero_mul rfl, flatMap_nth, flatMap_nth, ← flatMap_filter]
    rfl

end Exact

theorem prefiltered_empty :
    prefiltered false false init_grad_dot_table (opposed 2) ⟨0, 0, 0⟩ = ∅ := by
  refine Finset.filter_eq_empty_iff.2 fun q hq => ?_
  obtain ⟨hx, hz, -⟩ := (mem_grid (T_0A false)).1 hq
  rw [square_size_eq] at hx hz
  have hvalue : first_value false false init_grad_dot_table (opposed 2) ⟨0, 0, 0⟩ q =
      -(1 / 2) * (cfg false .A 0).value_factor := octave_value (.inl ⟨rfl, rfl⟩) hx hz
  rw [hvalue]
  decide +kernel

theorem not_passes_origin :
    passes false false init_grad_dot_table read results ⟨0, 0, 0⟩ = false := by
  have hfirst : read (Words.noise (octave_words (results 0) (half false) 0)) = opposed 2 := rfl
  simp only [passes, hfirst, prefiltered_empty]
  decide

/-- An input with at least 64 points below the threshold in the sum of its two octaves, of which
none is below -0.45 in the first. -/
theorem kept_input_lost :
    (∀ o, (opposed o).p.toList.Nodup) ∧
    (∀ outs, kernel_0A false init_grad_dot_table read (nth [⟨0, 0, 0⟩]) results 1 outs ↔
      outs = [⟨0, 0, 0⟩]) ∧
    ∀ outs, filter2_compat_kernel false 27 false init_grad_dot_table read
      (nth [⟨0, 0, 0⟩]) results 1
      outs ↔ outs = [] := by
  have hrange : List.range 1 = List.range [(⟨0, 0, 0⟩ : SeedPos)].length := rfl
  refine ⟨fun _ => shuffled_nodup _, fun outs => ?_, fun outs => ?_⟩
  · rw [kernel_0A, Filter2Warp.kernel_iff rat_zero_mul rfl, hrange, flatMap_nth, List.flatMap_cons,
      decided_origin]
    exact List.perm_singleton
  · have h27 : 27 = (T false false).min_count.toNat := rfl
    rw [kernel_iff rat_zero_mul zero_add h27, hrange, flatMap_nth, List.flatMap_cons, split_decided,
      not_passes_origin]
    exact List.perm_nil

end Omission.Gpu.Compat
