import Mathlib.Data.Fin.VecNotation
import Mathlib.Tactic.FinCases
import Omission.Gpu.GradVecs

namespace Omission.Gpu.GradVecs1
open Omission.Lib Omission.Gpu.GradVecs
set_option autoImplicit true

def kGradVecs1PrefilterThreshold : Rat := -12
def kGradVecs1FinalThreshold : Rat := -37 / 2

def cell_size (large_biomes : Bool) : Int := 512 * if large_biomes then 4 else 1

structure Shared where
  oct_0A : ImprovedNoise
  shared_kernel_0A : ConvKernel
  /-- `conv_z0` and `conv_z1` -/
  conv_z : Fin 2 × Fin 513 × Fin 6 → Rat
  idx_xy : Fin 2 × Fin 272 → UInt8

/-- `(int32_t)((2.5f - o) * cell_size)` for an offset in units of `2^-16`. -/
def center (large_biomes : Bool) (o : BitVec 64) : BitVec 32 :=
  BitVec.ofInt 32 (((163840 - (o.toNat : Int)) * cell_size large_biomes).tdiv 65536)

def conv_writes (m : Shared) (nz : Fin 256) : List ((Fin 2 × Fin 513 × Fin 6) × Rat) :=
  (List.finRange 6).flatMap fun dnx =>
    let conv0 := conv m.shared_kernel_0A m.oct_0A nz dnx 0
    let conv1 := conv m.shared_kernel_0A m.oct_0A nz dnx 1
    [((0, ⟨nz, by omega⟩, dnx), conv0), ((1, ⟨nz, by omega⟩, dnx), conv1),
      ((0, ⟨nz + 256, by omega⟩, dnx), conv0), ((1, ⟨nz + 256, by omega⟩, dnx), conv1)]

def idx_writes (g : ImprovedNoise) (nz : Fin 256) : List ((Fin 2 × Fin 272) × UInt8) :=
  let ny := whole g.yo
  let idx_x := entry g nz
  let v0 := entry g (idx_x.toNat + ny)
  let v1 := entry g (idx_x.toNat + ny + 1)
  [((0, ⟨nz, by omega⟩), v0), ((1, ⟨nz, by omega⟩), v1)] ++
    if h : nz < 6 then [((0, ⟨256 + nz, by omega⟩), v0), ((1, ⟨256 + nz, by omega⟩), v1)] else []

structure Uchar4 where
  x : UInt8
  y : UInt8
  z : UInt8
  w : UInt8

/-- Four entries of a row of `idx_xy` in one load. -/
def load (m : Shared) (row : Fin 2) (i : Nat) (h : i + 3 < 272) : Uchar4 :=
  ⟨m.idx_xy (row, ⟨i, by omega⟩), m.idx_xy (row, ⟨i + 1, by omega⟩),
    m.idx_xy (row, ⟨i + 2, by omega⟩), m.idx_xy (row, ⟨i + 3, by omega⟩)⟩

/-- `w0` or `w1`: rows of `conv_z0` or `conv_z1`. -/
def window (nz : Fin 256) (c_0 c_1 c_2 c_3 : Uchar4) (k : Fin 13) : Fin 513 :=
  let c : Fin 13 → UInt8 := ![c_0.x, c_0.y, c_0.z, c_0.w, c_1.x, c_1.y, c_1.z, c_1.w,
    c_2.x, c_2.y, c_2.z, c_2.w, c_3.x]
  ⟨(c k).toNat + nz, by have := (c k).toNat_lt; omega⟩

/-- What a thread carries from one round of its loop to the next. -/
structure Scan where
  x : BitVec 32
  c0_0 : Uchar4
  c0_1 : Uchar4
  c1_0 : Uchar4
  c1_1 : Uchar4

section Kernel

variable (large_biomes : Bool) (m : Shared) (seed_index : BitVec 32) (nz : Fin 256)

/-- One candidate of a round: the record that it appends, if any. -/
def examine (x z : BitVec 32) (w0 w1 : Fin 13 → Fin 513) (candidate : Fin 8) : Option SeedPos :=
  let at0 (i : Fin 6) := m.conv_z (0, w0 ⟨candidate + i, by omega⟩, i)
  let at1 (i : Fin 6) := m.conv_z (1, w1 ⟨candidate + i, by omega⟩, i)
  let gate := at0 2 + at0 3 + at1 2 + at1 3
  if gate ≥ kGradVecs1PrefilterThreshold then
    let score := gate + at0 0 + at0 1 + at0 4 + at0 5 + at1 0 + at1 1 + at1 4 + at1 5
    if score > kGradVecs1FinalThreshold then
      some ⟨seed_index,
        x + BitVec.ofNat 32 candidate * BitVec.ofInt 32 (cell_size large_biomes), z⟩
    else none
  else none

/-- The round of the loop with `nx = 8 * k`, with the cell of each candidate. -/
def round (z : BitVec 32) (s : Scan) (k : Fin 32) : Scan × List ((Nat × Nat) × Option SeedPos) :=
  let c0_2 := load m 0 (8 * k + 8) (by omega)
  let c0_3 := load m 0 (8 * k + 12) (by omega)
  let c1_2 := load m 1 (8 * k + 8) (by omega)
  let c1_3 := load m 1 (8 * k + 12) (by omega)
  let w0 := window nz s.c0_0 s.c0_1 c0_2 c0_3
  let w1 := window nz s.c1_0 s.c1_1 c1_2 c1_3
  (⟨s.x + BitVec.ofInt 32 (8 * cell_size large_biomes), c0_2, c0_3, c1_2, c1_3⟩,
    (List.finRange 8).map fun candidate : Fin 8 => ((8 * k.val + candidate.val, nz.val),
      examine large_biomes m seed_index s.x z w0 w1 candidate))

/-- The last `n` rounds. -/
def rounds (z : BitVec 32) : (n k : Nat) → k + n = 32 → Scan →
    List ((Nat × Nat) × Option SeedPos)
  | 0, _, _, _ => []
  | n + 1, k, h, s =>
    let (s', out) := round large_biomes m seed_index nz z s ⟨k, by omega⟩
    out ++ rounds z n (k + 1) (by omega) s'

/-- What a thread does after the second barrier. -/
def scan_cells : List ((Nat × Nat) × Option SeedPos) :=
  let z := center large_biomes m.oct_0A.zo +
    BitVec.ofNat 32 nz * BitVec.ofInt 32 (cell_size large_biomes)
  rounds large_biomes m seed_index nz z 32 0 rfl ⟨center large_biomes m.oct_0A.xo,
    load m 0 0 (by decide), load m 0 4 (by decide), load m 1 0 (by decide), load m 1 4 (by decide)⟩

end Kernel

/-- A block deals with one seed: what it leaves in shared memory, and the candidates of all threads
in the order in which they come. -/
structure Step (large_biomes : Bool) (results : Nat → ImprovedNoise) (m : Shared)
    (seed_index : Nat) (m' : Shared) (out : List ((Nat × Nat × Nat) × Option SeedPos)) : Prop where
  oct_0A : m'.oct_0A = results seed_index
  shared_kernel_0A : m'.shared_kernel_0A = m.shared_kernel_0A
  conv_z : Written (conv_writes m') m.conv_z m'.conv_z
  idx_xy : Written (idx_writes m'.oct_0A) m.idx_xy m'.idx_xy
  out : out.Perm (((List.finRange 256).flatMap
    (scan_cells large_biomes m' (BitVec.ofNat 32 seed_index))).map
      fun c => ((seed_index, c.1), c.2))

/-- A block before its first seed: nothing but the kernel table has been written. -/
def Started (device_kernel_0A : ConvKernel) (m : Shared) : Prop :=
  ∃ m0 : Shared, Written (fun t : Fin 256 => copy_kernel device_kernel_0A 256 t)
    m0.shared_kernel_0A m.shared_kernel_0A

/-- `KernelFilterGradVecs1::kernel` over `seeds_len` seeds. -/
def Kernel (large_biomes : Bool) (device_kernel_0A : ConvKernel) (results : Nat → ImprovedNoise)
    (seeds_len : Nat) (outs : List ((Nat × Nat × Nat) × Option SeedPos)) : Prop :=
  Launch (Started device_kernel_0A) (Step large_biomes results) 6800 seeds_len outs

def direct (large_biomes : Bool) (K : ConvKernel) (g : ImprovedNoise) (seed_index nx nz : Nat) :
    Option SeedPos :=
  if gate K g (whole g.yo) nx nz ≥ kGradVecs1PrefilterThreshold ∧
      score K g (whole g.yo) nx nz > kGradVecs1FinalThreshold then
    some ⟨BitVec.ofNat 32 seed_index,
      center large_biomes g.xo + BitVec.ofInt 32 (nx * cell_size large_biomes),
      center large_biomes g.zo + BitVec.ofInt 32 (nz * cell_size large_biomes)⟩
  else none

def conv_table (K : ConvKernel) (g : ImprovedNoise) (i : Fin 2 × Fin 513 × Fin 6) : Rat :=
  conv K g i.2.1.val i.2.2 i.1

def idx_table (g : ImprovedNoise) (i : Fin 2 × Fin 272) : UInt8 :=
  hash_xy g (whole g.yo) i.2.val 0 i.1

structure Tables (K : ConvKernel) (g : ImprovedNoise) (m : Shared) : Prop where
  oct_0A : m.oct_0A = g
  conv_z : ∀ (dy : Fin 2) (V : Fin 513) (dx : Fin 6), V.val < 512 →
    m.conv_z (dy, V, dx) = conv_table K g (dy, V, dx)
  idx_xy : ∀ (dy : Fin 2) (j : Fin 272), j.val < 262 →
    m.idx_xy (dy, j) = idx_table g (dy, j)

theorem conv_writes_eq (m : Shared) (nz : Fin 256) :
    ∀ w ∈ conv_writes m nz, w.2 = conv_table m.shared_kernel_0A m.oct_0A w.1 := by
  intro w hw
  have hwrap : ∀ dnx dny, conv m.shared_kernel_0A m.oct_0A (nz.val : Int) dnx dny =
      conv m.shared_kernel_0A m.oct_0A ((nz.val + 256 : Nat) : Int) dnx dny := by
    intro dnx dny
    apply conv_congr
    omega
  obtain ⟨dnx, -, hw⟩ := List.mem_flatMap.1 hw
  simp only [List.mem_cons, List.not_mem_nil, or_false] at hw
  rcases hw with rfl | rfl | rfl | rfl
  · rfl
  · rfl
  · exact hwrap dnx 0
  · exact hwrap dnx 1

theorem mem_conv_writes (m : Shared) (nz : Fin 256) {V : Fin 513}
    (h : V.val = nz.val ∨ V.val = nz.val + 256) (dx : Fin 6) (dy : Fin 2) :
    ∃ w ∈ conv_writes m nz, w.1 = (dy, V, dx) := by
  obtain ⟨V, hV⟩ := V
  rcases h with rfl | rfl
  · match dy with
    | 0 => exact ⟨_, List.mem_flatMap.2 ⟨dx, List.mem_finRange dx, .head _⟩, rfl⟩
    | 1 => exact ⟨_, List.mem_flatMap.2 ⟨dx, List.mem_finRange dx, .tail _ (.head _)⟩, rfl⟩
  · match dy with
    | 0 => exact ⟨_, List.mem_flatMap.2 ⟨dx, List.mem_finRange dx,
      .tail _ (.tail _ (.head _))⟩, rfl⟩
    | 1 =>
      exact ⟨_, List.mem_flatMap.2
        ⟨dx, List.mem_finRange dx, .tail _ (.tail _ (.tail _ (.head _)))⟩, rfl⟩

theorem idx_writes_eq (g : ImprovedNoise) (nz : Fin 256) :
    ∀ w ∈ idx_writes g nz, w.2 = idx_table g w.1 := by
  have hself : entry g nz = entry g ((nz : Int) + (0 : Fin 6)) := by simp
  have hwrap : entry g nz = entry g (((256 + nz.val : Nat) : Int) + (0 : Fin 6)) := by
    apply entry_congr
    simp
  have h0 : ∀ v : Int, v = v + ((0 : Fin 2) : Int) := by simp
  intro w hw
  simp only [idx_writes, List.mem_append, List.mem_cons, List.not_mem_nil, or_false] at hw
  rcases hw with (rfl | rfl) | hw
  · rw [idx_table, hash_xy, ← hself]
    exact congrArg (entry g) (h0 _)
  · rw [idx_table, hash_xy, ← hself]
    rfl
  · split at hw
    · simp only [List.mem_cons, List.not_mem_nil, or_false] at hw
      rcases hw with rfl | rfl
      · rw [idx_table, hash_xy, ← hwrap]
        exact congrArg (entry g) (h0 _)
      · rw [idx_table, hash_xy, ← hwrap]
        rfl
    · cases hw

theorem mem_idx_writes (g : ImprovedNoise) (nz : Fin 256) {j : Fin 272}
    (h : j.val = nz.val ∨ j.val = 256 + nz.val ∧ nz.val < 6) (dy : Fin 2) :
    ∃ w ∈ idx_writes g nz, w.1 = (dy, j) := by
  obtain ⟨j, hj⟩ := j
  rcases h with rfl | ⟨rfl, h6⟩
  · match dy with
    | 0 => exact ⟨_, .head _, rfl⟩
    | 1 => exact ⟨_, .tail _ (.head _), rfl⟩
  · simp only [idx_writes, dif_pos (show nz < 6 from h6)]
    match dy with
    | 0 => exact ⟨_, .tail _ (.tail _ (.head _)), rfl⟩
    | 1 => exact ⟨_, .tail _ (.tail _ (.tail _ (.head _))), rfl⟩

variable {large_biomes : Bool} {results : Nat → ImprovedNoise} {m m' : Shared} {seed_index : Nat}
  {outs : List ((Nat × Nat × Nat) × Option SeedPos)} {K : ConvKernel} {g : ImprovedNoise}

/-- The tables are those of the current seed, whatever the memory held before. -/
theorem Step.tables (h : Step large_biomes results m seed_index m' outs) :
    Tables m.shared_kernel_0A (results seed_index) m' := by
  refine ⟨h.oct_0A, ?_, ?_⟩
  · intro dy V dx hV
    rw [← h.oct_0A, ← h.shared_kernel_0A]
    have hrow : V.val = V.val % 256 ∨ V.val = V.val % 256 + 256 := by omega
    exact h.conv_z.eq (conv_writes_eq m')
      ⟨⟨V.val % 256, Nat.mod_lt _ (by decide)⟩, mem_conv_writes m' _ hrow dx dy⟩
  · intro dy j hj
    rw [← h.oct_0A]
    have hcol : j.val = j.val % 256 ∨ j.val = 256 + j.val % 256 ∧ j.val % 256 < 6 := by omega
    exact h.idx_xy.eq (idx_writes_eq m'.oct_0A)
      ⟨⟨j.val % 256, Nat.mod_lt _ (by decide)⟩, mem_idx_writes m'.oct_0A _ hcol dy⟩

theorem window_eq (m : Shared) (row : Fin 2) (nz : Fin 256) (k : Fin 32) (j : Fin 13) :
    window nz (load m row (8 * k) (by omega)) (load m row (8 * k + 4) (by omega))
      (load m row (8 * k + 8) (by omega)) (load m row (8 * k + 12) (by omega)) j =
    ⟨(m.idx_xy (row, ⟨8 * k + j, by omega⟩)).toNat + nz,
      by have := (m.idx_xy (row, ⟨8 * k + j, by omega⟩)).toNat_lt; omega⟩ := by
  fin_cases j <;> rfl

theorem hash_xy_zero (g : ImprovedNoise) (ny nx : Int) (dx : Fin 6) (dy : Fin 2) :
    hash_xy g ny (nx + dx) 0 dy = hash_xy g ny nx dx dy := by
  have h0 : nx + dx + ((0 : Fin 6) : Int) = nx + dx := by simp
  rw [hash_xy, h0, hash_xy]

theorem Tables.read (h : Tables K g m) (nz : Fin 256) (k : Fin 32) (c : Fin 8) (dy : Fin 2)
    (dx : Fin 6) :
    m.conv_z (dy, window nz (load m dy (8 * k) (by omega)) (load m dy (8 * k + 4) (by omega))
      (load m dy (8 * k + 8) (by omega)) (load m dy (8 * k + 12) (by omega))
      ⟨c + dx, by omega⟩, dx) =
    column K g (whole g.yo) ((8 * k.val + c.val : Nat) : Int) (nz.val : Int) dx dy := by
  have hidx := h.idx_xy dy ⟨8 * k + (c + dx), by omega⟩ (by simp only; omega)
  have hlt := (m.idx_xy (dy, ⟨8 * k + (c + dx), by omega⟩)).toNat_lt
  have hcast : ((8 * k.val + (c.val + dx.val) : Nat) : Int) =
      ((8 * k.val + c.val : Nat) : Int) + dx := by
    push_cast
    ring
  rw [window_eq, h.conv_z _ _ _ (by simp only; omega), conv_table, column]
  rw [idx_table, hcast, hash_xy_zero] at hidx
  simp only [hidx, Nat.cast_add]

theorem ofInt_step (c : BitVec 32) (a b : Int) :
    c + BitVec.ofInt 32 a + BitVec.ofInt 32 b = c + BitVec.ofInt 32 (a + b) := by
  rw [BitVec.add_assoc, BitVec.ofInt_add]

theorem kernel_score_eq (K : ConvKernel) (g : ImprovedNoise) (ny nx nz : Int) :
    gate K g ny nx nz + column K g ny nx nz 0 0 + column K g ny nx nz 1 0 +
      column K g ny nx nz 4 0 + column K g ny nx nz 5 0 + column K g ny nx nz 0 1 +
      column K g ny nx nz 1 1 + column K g ny nx nz 4 1 + column K g ny nx nz 5 1 =
    score K g ny nx nz := by
  rw [score_eq]
  ring

/-- A candidate of round `k` is decided by the direct convolution at its cell. -/
theorem examine_eq (h : Tables K g m) (nz : Fin 256) (k : Fin 32) (c : Fin 8) (s : Scan)
    (hs : s = ⟨center large_biomes g.xo +
      BitVec.ofInt 32 ((8 * k.val : Nat) * cell_size large_biomes),
      load m 0 (8 * k) (by omega), load m 0 (8 * k + 4) (by omega),
      load m 1 (8 * k) (by omega), load m 1 (8 * k + 4) (by omega)⟩) :
    examine large_biomes m (BitVec.ofNat 32 seed_index) s.x
      (center large_biomes g.zo + BitVec.ofNat 32 nz * BitVec.ofInt 32 (cell_size large_biomes))
      (window nz s.c0_0 s.c0_1 (load m 0 (8 * k + 8) (by omega)) (load m 0 (8 * k + 12) (by omega)))
      (window nz s.c1_0 s.c1_1 (load m 1 (8 * k + 8) (by omega))
        (load m 1 (8 * k + 12) (by omega))) c =
    direct large_biomes K g seed_index (8 * k + c) nz := by
  subst hs
  have hread := h.read nz k c
  have hx : ∀ n : Nat, BitVec.ofNat 32 n * BitVec.ofInt 32 (cell_size large_biomes) =
      BitVec.ofInt 32 (n * cell_size large_biomes) := by
    intro n
    rw [BitVec.ofInt_mul, BitVec.ofInt_natCast]
  have hsum : ((8 * k.val : Nat) : Int) * cell_size large_biomes + c.val * cell_size large_biomes =
      ((8 * k.val + c.val : Nat) : Int) * cell_size large_biomes := by
    push_cast
    ring
  simp only [examine, hread, hx, ofInt_step, hsum, ← gate_eq]
  rw [kernel_score_eq, direct, ite_and]

theorem rounds_eq (h : Tables K g m) (nz : Fin 256) (n k : Nat) (hk : k + n = 32) (s : Scan)
    (hs : s = ⟨center large_biomes g.xo + BitVec.ofInt 32 ((8 * k : Nat) * cell_size large_biomes),
      load m 0 (8 * k) (by omega), load m 0 (8 * k + 4) (by omega),
      load m 1 (8 * k) (by omega), load m 1 (8 * k + 4) (by omega)⟩) :
    rounds large_biomes m (BitVec.ofNat 32 seed_index) nz
      (center large_biomes g.zo + BitVec.ofNat 32 nz * BitVec.ofInt 32 (cell_size large_biomes))
      n k hk s =
    (List.range' k n).flatMap fun k => (List.finRange 8).map fun c =>
      ((8 * k + c.val, nz.val), direct large_biomes K g seed_index (8 * k + c.val) nz) := by
  induction n generalizing k s with
  | zero => rfl
  | succ n ih =>
    rw [rounds, List.range'_succ, List.flatMap_cons]
    simp only [round]
    congr 1
    · apply List.map_congr_left
      intro c _
      rw [examine_eq h nz ⟨k, by omega⟩ c s hs]
    · apply ih
      subst hs
      rw [Scan.mk.injEq]
      refine ⟨?_, rfl, rfl, rfl, rfl⟩
      rw [ofInt_step]
      congr 2
      push_cast
      ring

theorem candidates : ((List.range' 0 32).flatMap fun k => (List.finRange 8).map fun c : Fin 8 =>
    8 * k + c.val) = List.range 256 := by decide +kernel

theorem scan_cells_eq (h : Tables K g m) (nz : Fin 256) :
    scan_cells large_biomes m (BitVec.ofNat 32 seed_index) nz =
      (List.range 256).map fun nx =>
        ((nx, nz.val), direct large_biomes K g seed_index nx nz) := by
  have hs : (⟨center large_biomes g.xo, load m 0 0 (by decide), load m 0 4 (by decide),
      load m 1 0 (by decide), load m 1 4 (by decide)⟩ : Scan) =
      ⟨center large_biomes g.xo + BitVec.ofInt 32 ((8 * 0 : Nat) * cell_size large_biomes),
        load m 0 (8 * 0) (by decide), load m 0 (8 * 0 + 4) (by decide),
        load m 1 (8 * 0) (by decide), load m 1 (8 * 0 + 4) (by decide)⟩ := by
    rw [Scan.mk.injEq]
    refine ⟨?_, rfl, rfl, rfl, rfl⟩
    simp
  simp only [scan_cells, h.oct_0A]
  rw [rounds_eq h nz 32 0 rfl _ hs, ← candidates, List.map_flatMap]
  simp only [List.map_map, Function.comp_def]

theorem Step.direct (h : Step large_biomes results m seed_index m' outs)
    (hm : m.shared_kernel_0A = K) :
    m'.shared_kernel_0A = K ∧ outs.Perm ((List.range 256).flatMap fun nz =>
      (List.range 256).map fun nx => ((seed_index, nx, nz),
        GradVecs1.direct large_biomes K (results seed_index) seed_index nx nz)) := by
  subst hm
  refine ⟨h.shared_kernel_0A, h.out.trans (.of_eq ?_)⟩
  have hscan : scan_cells large_biomes m' (BitVec.ofNat 32 seed_index) =
      fun nz : Fin 256 => (List.range 256).map fun nx => ((nx, nz.val),
        GradVecs1.direct large_biomes m.shared_kernel_0A (results seed_index) seed_index nx nz) :=
    funext (scan_cells_eq h.tables)
  rw [hscan, List.map_flatMap, ← finRange_flatMap]
  simp only [List.map_map, Function.comp_def]

theorem exists_kernel (large_biomes : Bool) (device_kernel_0A : ConvKernel)
    (results : Nat → ImprovedNoise) (seeds_len : Nat) :
    ∃ outs, Kernel large_biomes device_kernel_0A results seeds_len outs := by
  apply exists_launch
  · obtain ⟨k, hk⟩ := exists_written (fun t : Fin 256 => copy_kernel device_kernel_0A 256 t) 0
    exact ⟨⟨results 0, k, 0, 0⟩, ⟨results 0, 0, 0, 0⟩, hk⟩
  · intro m seed_index
    obtain ⟨idx_xy, hidx⟩ := exists_written (idx_writes (results seed_index)) m.idx_xy
    obtain ⟨conv_z, hconv⟩ := exists_written
      (conv_writes ⟨results seed_index, m.shared_kernel_0A, m.conv_z, m.idx_xy⟩) m.conv_z
    exact ⟨⟨results seed_index, m.shared_kernel_0A, conv_z, idx_xy⟩, _,
      rfl, rfl, hconv, hidx, .refl _⟩

end Omission.Gpu.GradVecs1
