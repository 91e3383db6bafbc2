import Mathlib.Data.Rat.Floor
import Omission.Gpu.FilterSeeds
import Omission.Gpu.GradVecs

namespace Omission.Gpu.GradVecs2
open Omission.Lib Omission.Gpu.GradVecs
set_option autoImplicit true

def kGradVecs2PrefilterThreshold : Rat := -27 / 2
def kGradVecs2FinalThreshold : Rat := -20

def HBATCH : Nat := 40

/-- `(int32_t)(1.0f / octaves_a[0].input_factor) * 256` -/
def cell_size_0A (large_biomes : Bool) : Int :=
  (1 / (FilterSeeds.octave large_biomes .A 0).input_factor).floor * 256

def input_factor_b (large_biomes : Bool) : Rat :=
  (FilterSeeds.octave large_biomes .B 0).input_factor

structure Shared where
  oct_0B : ImprovedNoise
  shared_kernel_0B : ConvKernel
  /-- `conv_z0` and `conv_z1` -/
  conv_z : Fin 2 × Nat × Fin 6 → Rat
  s_hoisted_xy : Nat × Fin 2 × Fin 6 → Int

/-- The lattice coordinate `__float2int_rd(v * input_factor_b + o - 2.0f)`. -/
def lattice (large_biomes : Bool) (v : BitVec 32) (o : BitVec 64) : Int :=
  (v.toInt * input_factor_b large_biomes + (o.toNat : Rat) / 65536 - 2).floor

def tile (large_biomes : Bool) (grid_width : Nat) (v : BitVec 32) (t : Nat) : BitVec 32 :=
  v + BitVec.ofInt 32 ((t - (grid_width / 2 : Nat)) * cell_size_0A large_biomes)

def conv_writes (m : Shared) (thread : Fin 128) : List ((Fin 2 × Nat × Fin 6) × Rat) :=
  (strided thread 128 256).flatMap fun V : Nat => (List.finRange 6).flatMap fun dnx =>
    let conv0 := conv m.shared_kernel_0B m.oct_0B V dnx 0
    let conv1 := conv m.shared_kernel_0B m.oct_0B V dnx 1
    [((0, V, dnx), conv0), ((1, V, dnx), conv1)]

section Kernel

variable (large_biomes : Bool) (grid_width : Nat) (input : SeedPos)

def batch_len (tx_base : Nat) : Nat :=
  if tx_base + HBATCH ≤ grid_width then HBATCH else grid_width - tx_base

def hoist_writes (g : ImprovedNoise) (tx_base : Nat) (thread : Fin 128) :
    List ((Nat × Fin 2 × Fin 6) × Int) :=
  (strided thread 128 (batch_len grid_width tx_base * 12)).map fun tid =>
    let bi := tid / 12
    let vi := tid % 12
    let dnx : Fin 6 := ⟨vi % 6, Nat.mod_lt _ (by decide)⟩
    let dny : Fin 2 := ⟨vi / 6, by omega⟩
    let x := tile large_biomes grid_width input.x (tx_base + bi)
    let nx := lattice large_biomes x g.xo
    let ny := whole g.yo
    let idx_x : Int := (entry g (nx + dnx)).toNat
    ((bi, dny, dnx), (entry g (idx_x + ny + dny)).toNat)

/-- One tile: the record that it appends, if any. -/
def examine (m : Shared) (tx_base bi tz : Nat) : Option SeedPos :=
  let x := tile large_biomes grid_width input.x (tx_base + bi)
  let z := tile large_biomes grid_width input.z tz
  let nz_masked := lattice large_biomes z m.oct_0B.zo % 256
  let at0 (i : Fin 6) := m.conv_z (0, ((m.s_hoisted_xy (bi, 0, i) + nz_masked) % 256).toNat, i)
  let at1 (i : Fin 6) := m.conv_z (1, ((m.s_hoisted_xy (bi, 1, i) + nz_masked) % 256).toNat, i)
  let gate := at0 2 + at0 3 + at1 2 + at1 3
  if gate ≥ kGradVecs2PrefilterThreshold then
    let score := (List.finRange 6).foldl (fun score i => score + at0 i + at1 i) 0
    if score > kGradVecs2FinalThreshold then some ⟨input.seed_index, x, z⟩ else none
  else none

/-- One batch of columns between its barriers, with the tiles of all threads. -/
structure Batch (input_index : Nat) (m : Shared) (tx_base : Nat) (m' : Shared)
    (out : List ((Nat × Nat × Nat) × Option SeedPos)) : Prop where
  hoisted : Written (hoist_writes large_biomes grid_width input m.oct_0B tx_base)
    m.s_hoisted_xy m'.s_hoisted_xy
  frame : m' = { m with s_hoisted_xy := m'.s_hoisted_xy }
  out : out.Perm ((List.finRange 128).flatMap fun thread : Fin 128 =>
    (List.range (batch_len grid_width tx_base)).flatMap fun bi =>
      (strided thread 128 grid_width).map fun tz => ((input_index, tx_base + bi, tz),
        examine large_biomes grid_width input m' tx_base bi tz))

/-- The tables of an input are built, and then the batches follow. -/
structure Step (inputs : Nat → SeedPos) (results : BitVec 32 → ImprovedNoise) (m : Shared)
    (input_index : Nat) (m' : Shared) (out : List ((Nat × Nat × Nat) × Option SeedPos)) :
    Prop where
  tables : ∃ m1 : Shared, m1.oct_0B = results (inputs input_index).seed_index ∧
    m1.shared_kernel_0B = m.shared_kernel_0B ∧ m1.s_hoisted_xy = m.s_hoisted_xy ∧
    Written (conv_writes m1) m.conv_z m1.conv_z ∧
    Items (Batch large_biomes grid_width (inputs input_index) input_index) m1
      (strided 0 HBATCH grid_width) m' out

end Kernel

/-- A block before its first input: nothing but the kernel table has been written. -/
def Started (device_kernel_0B : ConvKernel) (m : Shared) : Prop :=
  ∃ m0 : Shared, Written (fun t : Fin 128 => copy_kernel device_kernel_0B 128 t)
    m0.shared_kernel_0B m.shared_kernel_0B

/-- `KernelFilterGradVecs2::kernel` over `inputs_len` inputs. -/
def Kernel (large_biomes : Bool) (grid_width : Nat) (device_kernel_0B : ConvKernel)
    (inputs : Nat → SeedPos) (results : BitVec 32 → ImprovedNoise) (inputs_len : Nat)
    (outs : List ((Nat × Nat × Nat) × Option SeedPos)) : Prop :=
  Launch (Started device_kernel_0B) (Step large_biomes grid_width inputs results) 2048 inputs_len
    outs

def direct (large_biomes : Bool) (grid_width : Nat) (K : ConvKernel) (g : ImprovedNoise)
    (input : SeedPos) (tx tz : Nat) : Option SeedPos :=
  let x := tile large_biomes grid_width input.x tx
  let z := tile large_biomes grid_width input.z tz
  let nx := lattice large_biomes x g.xo
  let nz := lattice large_biomes z g.zo
  if gate K g (whole g.yo) nx nz ≥ kGradVecs2PrefilterThreshold ∧
      score K g (whole g.yo) nx nz > kGradVecs2FinalThreshold then
    some ⟨input.seed_index, x, z⟩
  else none

def conv_table (K : ConvKernel) (g : ImprovedNoise) (i : Fin 2 × Nat × Fin 6) : Rat :=
  conv K g i.2.1 i.2.2 i.1

structure Tables (K : ConvKernel) (g : ImprovedNoise) (m : Shared) : Prop where
  oct_0B : m.oct_0B = g
  shared_kernel_0B : m.shared_kernel_0B = K
  conv_z : ∀ dy, ∀ V < 256, ∀ dx, m.conv_z (dy, V, dx) = conv_table K g (dy, V, dx)

section Proofs

variable {large_biomes : Bool} {grid_width : Nat} {input : SeedPos} {K : ConvKernel}
  {g : ImprovedNoise} {m m' : Shared} {tx_base input_index : Nat}
  {outs : List ((Nat × Nat × Nat) × Option SeedPos)}

theorem exists_thread {i len : Nat} (h : i < len) : ∃ t : Fin 128, i ∈ strided t 128 len := by
  refine ⟨⟨i % 128, Nat.mod_lt _ (by decide)⟩, (mem_strided (by decide)).2 ⟨h, i / 128, ?_⟩⟩
  change i = i % 128 + i / 128 * 128
  omega

theorem conv_written {conv_z : Fin 2 × Nat × Fin 6 → Rat}
    (h : Written (conv_writes m) conv_z m.conv_z) (dy : Fin 2) {V : Nat} (hV : V < 256)
    (dx : Fin 6) :
    m.conv_z (dy, V, dx) = conv_table m.shared_kernel_0B m.oct_0B (dy, V, dx) := by
  apply h.eq
  · intro t w hw
    obtain ⟨V, -, hw⟩ := List.mem_flatMap.1 hw
    obtain ⟨dnx, -, hw⟩ := List.mem_flatMap.1 hw
    simp only [List.mem_cons, List.not_mem_nil, or_false] at hw
    rcases hw with rfl | rfl <;> rfl
  · obtain ⟨t, ht⟩ := exists_thread hV
    refine ⟨t, ((dy, V, dx), conv m.shared_kernel_0B m.oct_0B V dx dy), ?_, rfl⟩
    refine List.mem_flatMap.2 ⟨V, ht, List.mem_flatMap.2 ⟨dx, List.mem_finRange dx, ?_⟩⟩
    match dy with
    | 0 => exact .head _
    | 1 => exact .tail _ (.head _)

def hoisted_table (large_biomes : Bool) (grid_width : Nat) (input : SeedPos) (g : ImprovedNoise)
    (tx_base : Nat) (i : Nat × Fin 2 × Fin 6) : Int :=
  (hash_xy g (whole g.yo)
    (lattice large_biomes (tile large_biomes grid_width input.x (tx_base + i.1)) g.xo)
    i.2.2 i.2.1).toNat

theorem Batch.hoisted_eq (h : Batch large_biomes grid_width input input_index m tx_base m' outs)
    (dny : Fin 2) {bi : Nat} (hbi : bi < batch_len grid_width tx_base) (dnx : Fin 6) :
    m'.s_hoisted_xy (bi, dny, dnx) =
      hoisted_table large_biomes grid_width input m.oct_0B tx_base (bi, dny, dnx) := by
  apply h.hoisted.eq
  · intro t w hw
    obtain ⟨tid, -, rfl⟩ := List.mem_map.1 hw
    rfl
  · obtain ⟨t, ht⟩ := exists_thread
      (show bi * 12 + (dny * 6 + dnx) < batch_len grid_width tx_base * 12 by omega)
    refine ⟨t, _, List.mem_map.2 ⟨_, ht, rfl⟩, ?_⟩
    refine Prod.ext ?_ (Prod.ext (Fin.ext ?_) (Fin.ext ?_))
    · change (bi * 12 + (dny.val * 6 + dnx.val)) / 12 = bi
      omega
    · change (bi * 12 + (dny.val * 6 + dnx.val)) % 12 / 6 = dny.val
      omega
    · change (bi * 12 + (dny.val * 6 + dnx.val)) % 12 % 6 = dnx.val
      omega

theorem Tables.read (h : Tables K g m)
    (hb : Batch large_biomes grid_width input input_index m tx_base m' outs)
    {bi : Nat} (hbi : bi < batch_len grid_width tx_base) (nz : Int) (dy : Fin 2) (dx : Fin 6) :
    m'.conv_z (dy, ((m'.s_hoisted_xy (bi, dy, dx) + nz % 256) % 256).toNat, dx) =
      column K g (whole g.yo)
        (lattice large_biomes (tile large_biomes grid_width input.x (tx_base + bi)) g.xo)
          nz dx dy := by
  have hconv : m'.conv_z = m.conv_z := by rw [hb.frame]
  rw [hconv, h.conv_z dy _ (by omega) dx, conv_table, column, hb.hoisted_eq dy hbi dx, h.oct_0B,
    hoisted_table]
  apply conv_congr
  dsimp only
  omega

theorem kernel_score_eq (K : ConvKernel) (g : ImprovedNoise) (ny nx nz : Int) :
    (List.finRange 6).foldl (fun score i => score + column K g ny nx nz i 0 +
      column K g ny nx nz i 1) 0 = score K g ny nx nz := by
  rw [score, columns_eq, Fin.sum_univ_def, List.sum_eq_foldl, List.foldl_map]
  simp only [Rat.add_assoc]

/-- A tile of a batch is decided by the direct convolution. -/
theorem examine_eq (h : Tables K g m)
    (hb : Batch large_biomes grid_width input input_index m tx_base m' outs)
    {bi : Nat} (hbi : bi < batch_len grid_width tx_base) (tz : Nat) :
    examine large_biomes grid_width input m' tx_base bi tz =
      direct large_biomes grid_width K g input (tx_base + bi) tz := by
  have hoct : m'.oct_0B = g := by
    rw [hb.frame]
    exact h.oct_0B
  simp only [examine, h.read hb hbi, hoct, ← gate_eq, kernel_score_eq]
  rw [direct, ite_and]

def tiles (large_biomes : Bool) (grid_width : Nat) (K : ConvKernel) (g : ImprovedNoise)
    (input : SeedPos) (input_index : Nat) (txs : List Nat) :
    List ((Nat × Nat × Nat) × Option SeedPos) :=
  txs.flatMap fun tx => (List.range grid_width).map fun tz =>
    ((input_index, tx, tz), direct large_biomes grid_width K g input tx tz)

theorem Batch.perm (h : Tables K g m)
    (hb : Batch large_biomes grid_width input input_index m tx_base m' outs) :
    Tables K g m' ∧ outs.Perm (tiles large_biomes grid_width K g input input_index
      (List.range' tx_base (batch_len grid_width tx_base))) := by
  constructor
  · rw [hb.frame]
    exact ⟨h.oct_0B, h.shared_kernel_0B, h.conv_z⟩
  · refine hb.out.trans ((flatMap_comm _ _ _).trans ?_)
    rw [tiles, List.range'_eq_map_range, List.flatMap_map]
    apply List.Perm.flatMap_left
    intro bi hbi
    refine (List.Perm.of_eq (finRange_flatMap 128 fun thread =>
      (strided thread 128 grid_width).map _)).trans ?_
    refine (strided_map_perm grid_width (by decide) _).trans (.of_eq ?_)
    apply List.map_congr_left
    intro tz _
    rw [examine_eq h hb (List.mem_range.1 hbi)]

theorem batches (large_biomes : Bool) (grid_width : Nat) (K : ConvKernel) (g : ImprovedNoise)
    (input : SeedPos) (input_index : Nat) :
    ((strided 0 HBATCH grid_width).flatMap fun tx_base =>
      tiles large_biomes grid_width K g input input_index
        (List.range' tx_base (batch_len grid_width tx_base))) =
    tiles large_biomes grid_width K g input input_index (List.range grid_width) := by
  have hlen : ∀ tx_base, batch_len grid_width tx_base = min HBATCH (grid_width - tx_base) := by
    intro tx_base
    unfold batch_len HBATCH
    split <;> omega
  have hall : ((stride HBATCH grid_width grid_width 0).flatMap fun b =>
      List.range' b (min HBATCH (grid_width - b))) = List.range' 0 (grid_width - 0) :=
    stride_batches (by decide) (by omega)
  rw [Nat.sub_zero, ← List.range_eq_range'] at hall
  simp only [tiles, hlen]
  rw [← List.flatMap_assoc, strided, hall]

theorem Step.perm {inputs : Nat → SeedPos} {results : BitVec 32 → ImprovedNoise}
    (h : Step large_biomes grid_width inputs results m input_index m' outs)
    (hm : m.shared_kernel_0B = K) :
    m'.shared_kernel_0B = K ∧ outs.Perm (tiles large_biomes grid_width K
      (results (inputs input_index).seed_index) (inputs input_index) input_index
      (List.range grid_width)) := by
  obtain ⟨m1, hoct, hkernel, -, hconv, hitems⟩ := h.tables
  have htables : Tables K (results (inputs input_index).seed_index) m1 := by
    refine ⟨hoct, hkernel.trans hm, ?_⟩
    intro dy V hV dx
    rw [conv_written hconv dy hV dx, hoct, hkernel, hm]
  obtain ⟨h', hperm⟩ := hitems.perm (fun _ _ _ _ _ h hb => hb.perm h) htables
  exact ⟨h'.shared_kernel_0B, batches large_biomes grid_width K _ _ input_index ▸ hperm⟩

theorem exists_kernel (large_biomes : Bool) (grid_width : Nat) (device_kernel_0B : ConvKernel)
    (inputs : Nat → SeedPos) (results : BitVec 32 → ImprovedNoise) (inputs_len : Nat) :
    ∃ outs, Kernel large_biomes grid_width device_kernel_0B inputs results inputs_len outs := by
  apply exists_launch
  · obtain ⟨k, hk⟩ := exists_written (fun t : Fin 128 => copy_kernel device_kernel_0B 128 t) 0
    exact ⟨⟨results 0, k, 0, 0⟩, ⟨results 0, 0, 0, 0⟩, hk⟩
  · intro m input_index
    obtain ⟨conv_z, hconv⟩ := exists_written (conv_writes
      ⟨results (inputs input_index).seed_index, m.shared_kernel_0B, m.conv_z, m.s_hoisted_xy⟩)
      m.conv_z
    obtain ⟨m', outs, hitems⟩ := exists_items
      (R := Batch large_biomes grid_width (inputs input_index) input_index) (fun m tx_base => by
        obtain ⟨s, hs⟩ := exists_written
          (hoist_writes large_biomes grid_width (inputs input_index) m.oct_0B tx_base)
            m.s_hoisted_xy
        exact ⟨{ m with s_hoisted_xy := s }, _, hs, rfl, .refl _⟩)
      ⟨results (inputs input_index).seed_index, m.shared_kernel_0B, conv_z, m.s_hoisted_xy⟩
      (strided 0 HBATCH grid_width)
    exact ⟨m', outs, ⟨⟨results (inputs input_index).seed_index, m.shared_kernel_0B, conv_z,
      m.s_hoisted_xy⟩, rfl, rfl, rfl, hconv, hitems⟩⟩

end Proofs

end Omission.Gpu.GradVecs2
