import Mathlib.Algebra.BigOperators.Fin
import Mathlib.Algebra.Order.Ring.Rat
import Mathlib.Tactic.Ring
import Omission.Gpu.Noise
import Omission.Gpu.Types
import Omission.Lib.Threads

namespace Omission.Gpu.GradVecs
open Omission.Lib
set_option autoImplicit true

instance neZero_2 : NeZero 2 := ⟨by decide⟩

instance neZero_6 : NeZero 6 := ⟨by decide⟩

def entry (g : ImprovedNoise) (i : Int) : UInt8 := g.p.get ⟨(i % 256).toNat, mod_256_lt i⟩

def gradient (g : ImprovedNoise) (i : Int) : Fin 16 :=
  ⟨(entry g i).toNat % 16, Nat.mod_lt _ (by decide)⟩

def whole (o : BitVec 64) : Int := o.toNat / 65536

/-- `device_kernel[dnx][dnz][p][dny]` -/
abbrev ConvKernel := Fin 6 × Fin 6 × Fin 16 × Fin 2 → Rat

/-- `host_kernel[dny][dnx][dnz][p]` -/
abbrev HostKernel := Fin 2 → Fin 6 → Fin 6 → Fin 16 → Rat

/-- One half of `init_conv_kernels`: `temp` is not initialised. -/
def init_conv_kernel (host_kernel : HostKernel) (temp : ConvKernel) : ConvKernel :=
  scatter temp ((List.finRange 2).flatMap fun dny => (List.finRange 6).flatMap fun dnx =>
    (List.finRange 6).flatMap fun dnz => (List.finRange 16).map fun p =>
      ((dnx, dnz, p, dny), host_kernel dny dnx dnz p))

theorem init_conv_kernel_eq (host_kernel : HostKernel) (temp : ConvKernel) :
    init_conv_kernel host_kernel temp =
      fun (dnx, dnz, p, dny) => host_kernel dny dnx dnz p := by
  funext ⟨dnx, dnz, p, dny⟩
  refine scatter_eq (f := fun (dnx, dnz, p, dny) => host_kernel dny dnx dnz p) ?_ (.inr ?_)
  · intro w hw
    simp only [List.mem_flatMap, List.mem_map] at hw
    obtain ⟨dny, -, dnx, -, dnz, -, p, -, rfl⟩ := hw
    rfl
  · refine ⟨((dnx, dnz, p, dny), host_kernel dny dnx dnz p), ?_, rfl⟩
    simp only [List.mem_flatMap, List.mem_map]
    exact ⟨dny, List.mem_finRange _, dnx, List.mem_finRange _, dnz, List.mem_finRange _, p,
      List.mem_finRange _, rfl⟩

/-- The word of 16 bytes that holds an entry of the kernel table. -/
def word (i : Fin 6 × Fin 6 × Fin 16 × Fin 2) : Nat :=
  (((i.1 * 6 + i.2.1) * 16 + i.2.2.1) * 2 + i.2.2.2) / 4

theorem word_lt (i : Fin 6 × Fin 6 × Fin 16 × Fin 2) : word i < 288 := by
  unfold word
  omega

def table_indices : List (Fin 6 × Fin 6 × Fin 16 × Fin 2) :=
  (List.finRange 6).flatMap fun dnx => (List.finRange 6).flatMap fun dnz =>
    (List.finRange 16).flatMap fun p => (List.finRange 2).map fun dny => (dnx, dnz, p, dny)

theorem mem_table_indices (i : Fin 6 × Fin 6 × Fin 16 × Fin 2) : i ∈ table_indices := by
  obtain ⟨dnx, dnz, p, dny⟩ := i
  simp only [table_indices, List.mem_flatMap, List.mem_map]
  exact ⟨dnx, List.mem_finRange _, dnz, List.mem_finRange _, p, List.mem_finRange _, dny,
    List.mem_finRange _, rfl⟩

/-- What a thread copies of the kernel table into shared memory. -/
def copy_kernel (device_kernel : ConvKernel) (block_dim thread : Nat) :
    List ((Fin 6 × Fin 6 × Fin 16 × Fin 2) × Rat) :=
  (strided thread block_dim 288).flatMap fun i =>
    (table_indices.filter fun e => word e = i).map fun e => (e, device_kernel e)

theorem copy_kernel_eq {block_dim : Nat} (hb : 0 < block_dim) {device_kernel : ConvKernel}
    (h : Written (fun t : Fin block_dim => copy_kernel device_kernel block_dim t) m m') :
    m' = device_kernel := by
  funext i
  apply h.eq
  · intro t w hw
    obtain ⟨k, -, hw⟩ := List.mem_flatMap.1 hw
    obtain ⟨e, -, rfl⟩ := List.mem_map.1 hw
    rfl
  · have hmem : word i ∈ (List.range block_dim).flatMap fun t => strided t block_dim 288 :=
      (strided_perm 288 hb).mem_iff.2 (List.mem_range.2 (word_lt i))
    obtain ⟨t, ht, hw⟩ := List.mem_flatMap.1 hmem
    refine ⟨⟨t, List.mem_range.1 ht⟩, (i, device_kernel i), ?_, rfl⟩
    refine List.mem_flatMap.2 ⟨word i, hw, List.mem_map.2 ⟨i, ?_, rfl⟩⟩
    exact List.mem_filter.2 ⟨mem_table_indices i, by simp⟩

section Convolution

variable (K : ConvKernel) (g : ImprovedNoise)

/-- `conv0` or `conv1` of a thread for the hash `V`: one column of the convolution. -/
def conv (V : Int) (dnx : Fin 6) (dny : Fin 2) : Rat :=
  (List.finRange 6).foldl (fun c dnz => c + K (dnx, dnz, gradient g (V + dnz), dny)) 0

/-- The hash of column `nx + dx` at height `ny + dy`. -/
def hash_xy (ny nx : Int) (dx : Fin 6) (dy : Fin 2) : UInt8 :=
  entry g ((entry g (nx + dx)).toNat + ny + dy)

/-- The gradient of the lattice corner `(nx + dx, ny + dy, nz + dz)`. -/
def corner (ny nx nz : Int) (dx dz : Fin 6) (dy : Fin 2) : Fin 16 :=
  gradient g ((hash_xy g ny nx dx dy).toNat + nz + dz)

/-- The part of the convolution with `dx` in a set of columns. -/
def columns (ny nx nz : Int) (dxs : Finset (Fin 6)) : Rat :=
  ∑ dx ∈ dxs, ∑ dz : Fin 6, ∑ dy : Fin 2, K (dx, dz, corner g ny nx nz dx dz dy, dy)

def score (ny nx nz : Int) : Rat := columns K g ny nx nz Finset.univ

def gate (ny nx nz : Int) : Rat := columns K g ny nx nz {2, 3}

end Convolution

theorem entry_congr (g : ImprovedNoise) {i j : Int} (h : i % 256 = j % 256) :
    entry g i = entry g j := by
  simp only [entry, h]

theorem gradient_congr (g : ImprovedNoise) {i j : Int} (h : i % 256 = j % 256) :
    gradient g i = gradient g j := by
  simp only [gradient, entry_congr g h]

theorem conv_congr (K : ConvKernel) (g : ImprovedNoise) {V W : Int} (h : V % 256 = W % 256)
    (dnx : Fin 6) (dny : Fin 2) : conv K g V dnx dny = conv K g W dnx dny := by
  have hg : ∀ dnz : Fin 6, gradient g (V + dnz) = gradient g (W + dnz) := by
    intro dnz
    apply gradient_congr
    rw [Int.add_emod, h, ← Int.add_emod]
  simp only [conv, hg]

theorem conv_eq_sum (K : ConvKernel) (g : ImprovedNoise) (V : Int) (dnx : Fin 6) (dny : Fin 2) :
    conv K g V dnx dny = ∑ dz : Fin 6, K (dnx, dz, gradient g (V + dz), dny) := by
  rw [Fin.sum_univ_def, List.sum_eq_foldl, List.foldl_map]
  rfl

/-- The column `dx` of the cell `(nx, nz)` at height `ny + dy`. -/
def column (K : ConvKernel) (g : ImprovedNoise) (ny nx nz : Int) (dx : Fin 6) (dy : Fin 2) : Rat :=
  conv K g ((hash_xy g ny nx dx dy).toNat + nz) dx dy

theorem columns_eq (K : ConvKernel) (g : ImprovedNoise) (ny nx nz : Int) (dxs : Finset (Fin 6)) :
    columns K g ny nx nz dxs =
      ∑ dx ∈ dxs, (column K g ny nx nz dx 0 + column K g ny nx nz dx 1) := by
  apply Finset.sum_congr rfl
  intro dx _
  simp only [Fin.sum_univ_two, Finset.sum_add_distrib]
  rw [column, column, conv_eq_sum, conv_eq_sum]
  rfl

theorem gate_eq (K : ConvKernel) (g : ImprovedNoise) (ny nx nz : Int) :
    gate K g ny nx nz = column K g ny nx nz 2 0 + column K g ny nx nz 3 0 +
      column K g ny nx nz 2 1 + column K g ny nx nz 3 1 := by
  rw [gate, columns_eq, Finset.sum_pair (by decide)]
  ring

theorem score_eq (K : ConvKernel) (g : ImprovedNoise) (ny nx nz : Int) :
    score K g ny nx nz = gate K g ny nx nz +
      (column K g ny nx nz 0 0 + column K g ny nx nz 0 1 + column K g ny nx nz 1 0 +
        column K g ny nx nz 1 1 + column K g ny nx nz 4 0 + column K g ny nx nz 4 1 +
        column K g ny nx nz 5 0 + column K g ny nx nz 5 1) := by
  rw [score, columns_eq, Fin.sum_univ_six, gate_eq]
  ring

end Omission.Gpu.GradVecs
