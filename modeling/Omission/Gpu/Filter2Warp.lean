import Omission.Gpu.Filter2Shared

namespace Omission.Gpu.Filter2Warp
open Omission.Lib Omission.Gpu.Filter2 FloatOps
set_option autoImplicit true

/-- The hashes of the eight corners of a cell. -/
structure Cell where
  c000 : UInt8
  c100 : UInt8
  c010 : UInt8
  c110 : UInt8
  c001 : UInt8
  c101 : UInt8
  c011 : UInt8
  c111 : UInt8

def compute_cell (noise : NoiseView F) (int_x int_y int_z : Int) : Cell :=
  let p0 := noise.entry int_x
  let p1 := noise.entry (int_x + 1)
  let p00 := noise.entry (p0.toNat + int_y)
  let p01 := noise.entry (p0.toNat + int_y + 1)
  let p10 := noise.entry (p1.toNat + int_y)
  let p11 := noise.entry (p1.toNat + int_y + 1)
  { c000 := noise.entry (p00.toNat + int_z)
    c100 := noise.entry (p10.toNat + int_z)
    c010 := noise.entry (p01.toNat + int_z)
    c110 := noise.entry (p11.toNat + int_z)
    c001 := noise.entry (p00.toNat + int_z + 1)
    c101 := noise.entry (p10.toNat + int_z + 1)
    c011 := noise.entry (p01.toNat + int_z + 1)
    c111 := noise.entry (p11.toNat + int_z + 1) }

/-- `cur_ix`, `have` and the corner hashes of one octave, which are not initialised at first. -/
structure Corners where
  cur_ix : Int
  have_cell : Bool
  cell : Cell

def cfg (large_biomes : Bool) (half : Half) (k : Nat) : OctaveConfig :=
  FilterSeeds.octave large_biomes half k

/-- Where `continentalness_kA` or `continentalness_kB` stands among a seed's octaves. -/
def octave_index (half : Half) (k : Nat) : Nat :=
  match half with
  | .A => 2 * k
  | .B => 2 * k + 1

def octave_words (results : Words) (half : Half) (k : Nat) : Words := fun i =>
  results (octave_index half k * 68 + i)

/-- The bytes of one `ImprovedNoise`. -/
abbrev NoiseWords := Fin 68 → BitVec 32

def Words.noise (m : Words) : NoiseWords := fun i => m i

section Walk

variable {F : Type} [Add F] [Sub F] [Mul F] [FloatOps F] (table : GradDotTable F)

def interp (frac_x frac_y frac_z fx fy fz : F) (c : Cell) : F :=
  let n000 := gradDot table c.c000 frac_x frac_y frac_z
  let n100 := gradDot table c.c100 (frac_x - ofRat 1) frac_y frac_z
  let n010 := gradDot table c.c010 frac_x (frac_y - ofRat 1) frac_z
  let n110 := gradDot table c.c110 (frac_x - ofRat 1) (frac_y - ofRat 1) frac_z
  let n001 := gradDot table c.c001 frac_x frac_y (frac_z - ofRat 1)
  let n101 := gradDot table c.c101 (frac_x - ofRat 1) frac_y (frac_z - ofRat 1)
  let n011 := gradDot table c.c011 frac_x (frac_y - ofRat 1) (frac_z - ofRat 1)
  let n111 := gradDot table c.c111 (frac_x - ofRat 1) (frac_y - ofRat 1) (frac_z - ofRat 1)
  lerp3 fx fy fz n000 n100 n010 n110 n001 n101 n011 n111

variable (noise : NoiseView F) (input_factor : Rat) (z_world : BitVec 32)

def int_y : Int := float2int_rd noise.yo

def zc : F := ofRat z_world.toInt * ofRat input_factor + noise.zo

/-- The noise of one octave at the next column; the corners are hashed again when `int_x`
changes. -/
def column_noise (corners : Corners) (x_world : BitVec 32) : Corners × F :=
  let y := noise.yo
  let frac_y := y - ofRat (int_y noise)
  let fy := smoothstep frac_y
  let int_z := float2int_rd (zc noise input_factor z_world)
  let frac_z := zc noise input_factor z_world - ofRat int_z
  let fz := smoothstep frac_z
  let xc := ofRat x_world.toInt * ofRat input_factor + noise.xo
  let int_x := float2int_rd xc
  let frac_x := xc - ofRat int_x
  let corners := if !corners.have_cell || int_x != corners.cur_ix then
    ⟨int_x, true, compute_cell noise int_x (int_y noise) int_z⟩ else corners
  let fx := smoothstep frac_x
  (corners, interp table frac_x frac_y frac_z fx fy fz corners.cell)

end Walk

section Kernel

variable {large_biomes : Bool} (T : Template large_biomes) (half : Half) {F : Type} [Add F] [Sub F]
  [Mul F] [LT F] [DecidableLT F] [FloatOps F] (table : GradDotTable F)
  (read : NoiseWords → NoiseView F) (inputs : Nat → SeedPos) (results : BitVec 32 → Words)

/-- The two octaves of a warp in shared memory. -/
structure Slots where
  oct0 : Words
  oct1 : Words

/-- What a lane copies of one octave. -/
def copy_writes (src : Words) (lane : Fin 32) : List (Nat × BitVec 32) :=
  (strided lane 32 68).map fun i => (i, src i)

def x_start (lane : Nat) : Nat := lane % 2 * 8

def z_world (input : SeedPos) (lane : Nat) : BitVec 32 :=
  input.z + BitVec.ofNat 32 (lane / 2 * T.pos_step) + T.pos_offset

def x_world (input : SeedPos) (lane k : Nat) : BitVec 32 :=
  input.x + BitVec.ofNat 32 (x_start lane * T.pos_step) + T.pos_offset +
    BitVec.ofNat 32 (k * T.pos_step)

/-- The corners of both octaves and `local_count` of a lane. -/
structure LaneState where
  a : Corners
  b : Corners
  local_count : Nat

def lane_step (oct0 oct1 : NoiseView F) (input : SeedPos) (lane : Nat) (s : LaneState) (k : Nat) :
    LaneState :=
  let x := x_world T input lane k
  let z := z_world T input lane
  let (a, noise0) := column_noise table oct0 (cfg large_biomes half 0).input_factor z s.a x
  let (b, noise1) := column_noise table oct1 (cfg large_biomes half 1).input_factor z s.b x
  let val := ofRat 0
  let val := val + noise0 * ofRat (cfg large_biomes half 0).value_factor
  let val := val + noise1 * ofRat (cfg large_biomes half 1).value_factor
  ⟨a, b, s.local_count + if val < T.noise_threshold then 1 else 0⟩

/-- `local_count` of a lane, whose corner variables hold `a` and `b` at first. -/
def lane_count (oct0 oct1 : NoiseView F) (input : SeedPos) (lane : Nat) (a b : Cell) : Nat :=
  ((List.range 8).foldl (lane_step T half table oct0 oct1 input lane)
    ⟨⟨0, false, a⟩, ⟨0, false, b⟩, 0⟩).local_count

structure Step (m : Slots) (input_index : Nat) (m' : Slots) (out : List SeedPos) : Prop where
  oct0 : Written (copy_writes (octave_words (results (inputs input_index).seed_index) half 0))
    m.oct0 m'.oct0
  oct1 : Written (copy_writes (octave_words (results (inputs input_index).seed_index) half 1))
    m.oct1 m'.oct1
  emitted : ∃ a b : Fin 32 → Cell, out =
    let input := inputs input_index
    let total := warp_reduce_add fun lane : Fin 32 =>
      lane_count T half table (read (Words.noise m'.oct0)) (read (Words.noise m'.oct1)) input lane
        (a lane) (b lane)
    if total ≥ T.min_count.toNat then [⟨input.seed_index, input.x, input.z⟩] else []

/-- The kernel on 2380 blocks of eight warps. -/
def Kernel (inputs_len : Nat) (outs : List SeedPos) : Prop :=
  Launch (fun _ : Slots => True) (Step T half table read inputs results) (2380 * 8) inputs_len outs

end Kernel

section Cached

variable {F : Type} [Add F] [Sub F] [Mul F] [FloatOps F] (table : GradDotTable F)
  {noise : NoiseView F} {config : OctaveConfig} {z : BitVec 32} {corners : Corners}

def Corners.Fits (noise : NoiseView F) (config : OctaveConfig) (z : BitVec 32)
    (c : Corners) : Prop :=
  c.have_cell = true → c.cell = compute_cell noise c.cur_ix (int_y noise)
    (float2int_rd (zc noise config.input_factor z))

theorem column_noise_corners (h : corners.Fits noise config z) (x : BitVec 32) :
    let int_x := float2int_rd (ofRat x.toInt * ofRat config.input_factor + noise.xo : F)
    let c := (column_noise table noise config.input_factor z corners x).1
    c.have_cell = true ∧ c.cur_ix = int_x ∧ c.cell = compute_cell noise int_x (int_y noise)
      (float2int_rd (zc noise config.input_factor z)) := by
  simp only [column_noise]
  split
  · exact ⟨rfl, rfl, rfl⟩
  · next hkeep =>
    simp only [Bool.or_eq_true, Bool.not_eq_true', not_or, Bool.not_eq_false, bne_iff_ne,
      ne_eq, not_not] at hkeep
    obtain ⟨hhave, hix⟩ := hkeep
    exact ⟨hhave, hix.symm, hix ▸ h hhave⟩

theorem column_noise_fits (h : corners.Fits noise config z) (x : BitVec 32) :
    (column_noise table noise config.input_factor z corners x).1.Fits noise config z := by
  obtain ⟨-, hix, hcell⟩ := column_noise_corners table h x
  intro _
  rw [hcell, hix]

/-- Sampling with the kept corners is sampling the octave at height 0. -/
theorem column_noise_eq (hy : ∀ c yo : F, ofRat 0 * c + yo = yo) (h : corners.Fits noise config z)
    (x : BitVec 32) : (column_noise table noise config.input_factor z corners x).2 =
      octave_sample_noise config table noise x 0 z := by
  obtain ⟨-, -, hcell⟩ := column_noise_corners table h x
  have hzero : wrap (ofRat ((0 : BitVec 32).toInt : Rat) * ofRat config.input_factor) + noise.yo =
      noise.yo := hy _ _
  rw [octave_sample_noise, sample_noise, hzero]
  change interp table _ _ _ _ _ _
    (column_noise table noise config.input_factor z corners x).1.cell = _
  rw [hcell]
  rfl

end Cached

def pair_value {F : Type} [Add F] [Sub F] [Mul F] [FloatOps F] (large_biomes : Bool) (half : Half)
    (table : GradDotTable F) (oct0 oct1 : NoiseView F) (x z : BitVec 32) : F :=
  ofRat 0 + sample_octave (cfg large_biomes half 0) table oct0 x 0 z +
    sample_octave (cfg large_biomes half 1) table oct1 x 0 z

section Lane

variable {large_biomes : Bool} {T : Template large_biomes} {half : Half} {F : Type} [Add F] [Sub F]
  [Mul F] [LT F] [DecidableLT F] [FloatOps F] {table : GradDotTable F} {oct0 oct1 : NoiseView F}
  {input : SeedPos}

theorem x_world_eq (lane k : Nat) :
    x_world T input lane k = input.x + offset T (x_start lane + k) := by
  simp only [x_world, offset, Nat.add_mul, BitVec.ofNat_add]
  ring

theorem z_world_eq (lane : Nat) : z_world T input lane = input.z + offset T (lane / 2) :=
  add_assoc _ _ _

def lane_point (lane k : Nat) : Nat × Nat := (x_start lane + k, lane / 2)

def pair_flag (T : Template large_biomes) (half : Half) (table : GradDotTable F)
    (oct0 oct1 : NoiseView F) (input : SeedPos) (q : Nat × Nat) : Prop :=
  pair_value large_biomes half table oct0 oct1 (input.x + offset T q.1) (input.z + offset T q.2) <
    T.noise_threshold

instance (q : Nat × Nat) : Decidable (pair_flag T half table oct0 oct1 input q) :=
  inferInstanceAs (Decidable (_ < _))

structure Walked (T : Template large_biomes) (half : Half) (table : GradDotTable F)
    (oct0 oct1 : NoiseView F) (input : SeedPos) (lane n : Nat) (s : LaneState) : Prop where
  a : s.a.Fits oct0 (cfg large_biomes half 0) (z_world T input lane)
  b : s.b.Fits oct1 (cfg large_biomes half 1) (z_world T input lane)
  local_count : s.local_count = ∑ k ∈ Finset.range n,
    if pair_flag T half table oct0 oct1 input (lane_point lane k) then 1 else 0

theorem Walked.step (hy : ∀ c yo : F, ofRat 0 * c + yo = yo) {lane n : Nat} {s : LaneState}
    (h : Walked T half table oct0 oct1 input lane n s) :
    Walked T half table oct0 oct1 input lane (n + 1)
      (lane_step T half table oct0 oct1 input lane s n) := by
  refine ⟨column_noise_fits table h.a _, column_noise_fits table h.b _, ?_⟩
  simp only [lane_step, column_noise_eq table hy h.a, column_noise_eq table hy h.b]
  rw [h.local_count, Finset.sum_range_succ, x_world_eq, z_world_eq]
  rfl

theorem lane_count_eq (hy : ∀ c yo : F, ofRat 0 * c + yo = yo) (lane : Nat) (a b : Cell) :
    lane_count T half table oct0 oct1 input lane a b = ∑ k ∈ Finset.range 8,
      if pair_flag T half table oct0 oct1 input (lane_point lane k) then 1 else 0 := by
  have hwalk : ∀ n, Walked T half table oct0 oct1 input lane n ((List.range n).foldl
      (lane_step T half table oct0 oct1 input lane) ⟨⟨0, false, a⟩, ⟨0, false, b⟩, 0⟩) := by
    intro n
    induction n with
    | zero => exact ⟨fun h => absurd h Bool.false_ne_true,
      fun h => absurd h Bool.false_ne_true, rfl⟩
    | succ n ih =>
      rw [List.range_succ, List.foldl_append]
      exact ih.step hy
  exact (hwalk 8).local_count

theorem sum_lane_points [AddCommMonoid M] (hT : T.samples = 256) (f : Nat × Nat → M) :
    ∑ lane : Fin 32, ∑ k ∈ Finset.range 8, f (lane_point lane k) = ∑ q ∈ grid T, f q := by
  have hS : T.samples_square_size = 16 := by
    rw [Template.samples_square_size, hT]
    decide +kernel
  have hsparse : T.samples_square_sparse = false := by
    rw [Template.samples_square_sparse, hT]
    decide +kernel
  have hgrid : ∀ q : Nat × Nat, q ∈ grid T ↔ q.1 < 16 ∧ q.2 < 16 := by
    intro q
    rw [← Prod.mk.eta (p := q), mem_grid, hS, Template.row_step, first_row, hsparse]
    simp [Nat.mod_one]
  rw [← Finset.sum_range fun lane => ∑ k ∈ Finset.range 8, f (lane_point lane k),
    ← Finset.sum_product' _ _ fun lane k => f (lane_point lane k)]
  refine Finset.sum_nbij' (fun v => lane_point v.1 v.2)
    (fun q => (q.2 * 2 + q.1 / 8, q.1 % 8)) ?_ ?_ ?_ ?_ fun v _ => rfl
  · intro v hv
    obtain ⟨hl, hk⟩ := Finset.mem_product.1 hv
    rw [Finset.mem_range] at hl hk
    rw [hgrid, lane_point, x_start]
    omega
  · intro q hq
    rw [hgrid] at hq
    rw [Finset.mem_product, Finset.mem_range, Finset.mem_range]
    omega
  · intro v hv
    obtain ⟨hl, hk⟩ := Finset.mem_product.1 hv
    rw [Finset.mem_range] at hl hk
    simp only [lane_point, x_start]
    exact Prod.ext (by simp only []; omega) (by simp only []; omega)
  · intro q hq
    rw [hgrid] at hq
    simp only [lane_point, x_start]
    exact Prod.ext (by simp only []; omega) (by simp only []; omega)

theorem warp_total (hy : ∀ c yo : F, ofRat 0 * c + yo = yo) (hT : T.samples = 256)
    (a b : Fin 32 → Cell) :
    warp_reduce_add (fun lane : Fin 32 =>
      lane_count T half table oct0 oct1 input lane (a lane) (b lane)) =
      ((grid T).filter (pair_flag T half table oct0 oct1 input)).card := by
  simp only [warp_reduce_add_eq, lane_count_eq hy]
  rw [sum_lane_points hT fun q => if pair_flag T half table oct0 oct1 input q then 1 else 0,
    Finset.card_filter]

end Lane

section Run

variable {large_biomes : Bool} {T : Template large_biomes} {half : Half} {F : Type} [Add F] [Sub F]
  [Mul F] [LT F] [DecidableLT F] [FloatOps F] {table : GradDotTable F}
  {read : NoiseWords → NoiseView F} {inputs : Nat → SeedPos} {results : BitVec 32 → Words}

theorem copied {src m m' : Words} (h : Written (copy_writes src) m m') :
    Words.noise m' = Words.noise src := by
  funext i
  apply h.eq (f := src)
  · intro lane w hw
    obtain ⟨j, -, rfl⟩ := List.mem_map.1 hw
    rfl
  · have hi : i.val = i.val % 32 + i.val / 32 * 32 := by omega
    refine ⟨⟨i.val % 32, Nat.mod_lt _ (by decide)⟩, (i.val, src i), ?_, rfl⟩
    exact List.mem_map.2 ⟨i, (mem_strided (by decide)).2 ⟨i.isLt, i.val / 32, hi⟩, rfl⟩

def decided (T : Template large_biomes) (half : Half) (table : GradDotTable F)
    (read : NoiseWords → NoiseView F) (results : BitVec 32 → Words) (input : SeedPos) :
    List SeedPos :=
  let oct k := read (Words.noise (octave_words (results input.seed_index) half k))
  if T.min_count.toNat ≤ ((grid T).filter (pair_flag T half table (oct 0) (oct 1) input)).card then
    [input]
  else []

theorem Step.out_eq (hy : ∀ c yo : F, ofRat 0 * c + yo = yo) (hT : T.samples = 256) {m m' : Slots}
    {input_index : Nat} {out : List SeedPos}
    (h : Step T half table read inputs results m input_index m' out) :
    out = decided T half table read results (inputs input_index) := by
  obtain ⟨a, b, hout⟩ := h.emitted
  rw [hout]
  simp only [warp_total hy hT, copied h.oct0, copied h.oct1]
  rfl

theorem exists_step (m : Slots) (input_index : Nat) :
    ∃ m' out, Step T half table read inputs results m input_index m' out := by
  obtain ⟨oct0, h0⟩ := exists_written
    (copy_writes (octave_words (results (inputs input_index).seed_index) half 0)) m.oct0
  obtain ⟨oct1, h1⟩ := exists_written
    (copy_writes (octave_words (results (inputs input_index).seed_index) half 1)) m.oct1
  exact ⟨⟨oct0, oct1⟩, _, h0, h1, fun _ => ⟨0, 0, 0, 0, 0, 0, 0, 0⟩,
    fun _ => ⟨0, 0, 0, 0, 0, 0, 0, 0⟩, rfl⟩

/-- Any run of the kernel decides about every input. -/
theorem kernel_iff (hy : ∀ c yo : F, ofRat 0 * c + yo = yo) (hT : T.samples = 256)
    {inputs_len : Nat} {outs : List SeedPos} :
    Kernel T half table read inputs results inputs_len outs ↔
      outs.Perm ((List.range inputs_len).flatMap fun i =>
        decided T half table read results (inputs i)) := by
  have hrun : ∀ {outs}, Kernel T half table read inputs results inputs_len outs →
      outs.Perm ((List.range inputs_len).flatMap fun i =>
        decided T half table read results (inputs i)) := by
    intro outs h
    refine Launch.perm (I := fun _ => True) h (fun _ _ => trivial) ?_ (by decide)
    intro m i m' out _ hstep
    exact ⟨trivial, List.Perm.of_eq (hstep.out_eq hy hT)⟩
  constructor
  · exact hrun
  · intro houts
    have hex : ∃ outs, Kernel T half table read inputs results inputs_len outs :=
      exists_launch ⟨⟨fun _ => 0, fun _ => 0⟩, trivial⟩ exists_step _ _
    obtain ⟨outs', f, hf, hwarps⟩ := hex
    exact ⟨f, (houts.trans (hrun ⟨f, hf, hwarps⟩).symm).trans hf, hwarps⟩

end Run

end Omission.Gpu.Filter2Warp
