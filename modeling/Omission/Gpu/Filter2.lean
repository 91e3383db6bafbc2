import Mathlib.Data.BitVec
import Mathlib.Algebra.BigOperators.Fin
import Omission.Gpu.Sample
import Omission.Gpu.Types
import Omission.Lib.Threads
import Omission.Lib.Wrap

namespace Omission.Gpu.Filter2
open Omission.Lib FloatOps
set_option autoImplicit true

def large_biomes_pos_mul (large_biomes : Bool) : BitVec 32 := if large_biomes then 4 else 1

def is_pow2 (val : Nat) : Bool := val &&& (val - 1) == 0

def square_size (samples : Nat) : Nat := 1 <<< ((samples.log2 + 1) / 2)

def square_sparse (samples : Nat) : Bool := samples.log2 % 2 == 1

/-- The parameters of `Template` and its static_asserts. The threshold is in ten-thousandths. -/
structure Template (large_biomes : Bool) where
  threshold : Int
  octaves : Nat
  pos_range : BitVec 32
  samples : Nat
  min_count : BitVec 32
  flipped_sparse_samples : Bool
  move_center : Bool
  only_a : Bool
  samples_ok : 32 ≤ samples ∧ samples ≤ 256 * 256 ∧ is_pow2 samples = true
  sparse_ok : flipped_sparse_samples = true → square_sparse samples = true
  pos_range_ok :
    (pos_range * large_biomes_pos_mul large_biomes).toNat % (square_size samples * 2 * 4) = 0

namespace Template

variable {large_biomes : Bool} (T : Template large_biomes)

def noise_threshold [FloatOps F] : F := ofRat (T.threshold / 10000)
def samples_square_size : Nat := square_size T.samples
def samples_square_sparse : Bool := square_sparse T.samples
def pos_step : Nat :=
  (T.pos_range * large_biomes_pos_mul large_biomes).toNat / 4 / T.samples_square_size
def pos_offset : BitVec 32 :=
  -BitVec.ofNat 32 (T.pos_step * (T.samples_square_size - 1) % 2 ^ 32 / 2)
def threads_per_input : Nat := min T.samples 256
def loops : Nat := T.samples / T.threads_per_input
def inputs_per_block : Nat := 256 / T.threads_per_input
def z_step : BitVec 32 := BitVec.ofNat 32 (T.pos_step * (T.samples_square_size / T.loops))

end Template

def warp_reduce_add [AddCommMonoid M] (val : Fin 32 → M) : M := ((List.finRange 32).map val).sum

/-- 32-bit words of memory from some address on. -/
abbrev Words := Nat → BitVec 32

/-- The octave data of one input: 68 words for each octave. -/
abbrev Data (octaves : Nat) := Fin (octaves * 68) → BitVec 32

def Words.data (m : Words) (octaves : Nat) : Data octaves := fun i => m i

section Kernel

variable {large_biomes : Bool} (T : Template large_biomes) {F : Type} [LT F] [DecidableLT F]
  [FloatOps F] (sample : Data T.octaves → BitVec 32 → BitVec 32 → BitVec 32 → F)
  (inputs : Nat → SeedPos) (results : BitVec 32 → Words) (inputs_len : Nat)

def x_index (pos_index : Nat) : Nat := pos_index % T.samples_square_size

def z_index (pos_index : Nat) : Nat :=
  let z_index := pos_index / T.samples_square_size
  if T.samples_square_sparse then
    z_index * 2 + ((x_index T pos_index &&& 1) ^^^ T.flipped_sparse_samples.toNat)
  else z_index

def first_x (input : SeedPos) (pos_index : Nat) : BitVec 32 :=
  input.x + BitVec.ofNat 32 (x_index T pos_index * T.pos_step) + T.pos_offset

def first_z (input : SeedPos) (pos_index : Nat) : BitVec 32 :=
  input.z + BitVec.ofNat 32 (z_index T pos_index * T.pos_step) + T.pos_offset

/-- The variables of a warp in the sampling loop; `total_valid` is that of lane 0. -/
structure Warp where
  total_valid : Nat
  sum_dx : Fin 32 → BitVec 32
  sum_dz : Fin 32 → BitVec 32
  z : Fin 32 → BitVec 32

/-- One round of the sampling loop. Lane `l` reads the octaves as `seen l`. -/
def sample_round (input : SeedPos) (seen : Fin 32 → Data T.octaves) (x : Fin 32 → BitVec 32)
    (w : Warp) : Warp :=
  let valid (l : Fin 32) : Bool := decide (sample (seen l) (x l) 0 (w.z l) < T.noise_threshold)
  { total_valid := w.total_valid + warp_reduce_add fun l => (valid l).toNat
    sum_dx := fun l =>
      if T.move_center && valid l then w.sum_dx l + (x l - input.x) else w.sum_dx l
    sum_dz := fun l =>
      if T.move_center && valid l then w.sum_dz l + (w.z l - input.z) else w.sum_dz l
    z := fun l => w.z l + T.z_step }

/-- The sampling loop of warp `warp` of an input. -/
def sample_loop (input : SeedPos) (seen : Nat → Data T.octaves) (warp : Nat) : Warp :=
  (sample_round T sample input (fun l => seen (32 * warp + l))
      fun l => first_x T input (32 * warp + l))^[T.loops]
    ⟨0, fun _ => 0, fun _ => 0, fun l => first_z T input (32 * warp + l)⟩

/-- What the block emits for one input, read from the octaves `seen` by its threads. -/
def emit (input : SeedPos) (seen : Nat → Data T.octaves) : List SeedPos :=
  let warps := List.range (T.threads_per_input / 32)
  let total_valid :=
    if T.samples > 32 then (warps.map fun w => (sample_loop T sample input seen w).total_valid).sum
    else (sample_loop T sample input seen 0).total_valid
  let sums (sum : Warp → Fin 32 → BitVec 32) : BitVec 32 :=
    if T.move_center then
      let total :=
        if T.samples > 32 then
          (warps.map fun w => warp_reduce_add (sum (sample_loop T sample input seen w))).sum
        else warp_reduce_add (sum (sample_loop T sample input seen 0))
      if total_valid ≠ 0 then total.sdiv (BitVec.ofNat 32 total_valid) else total
    else 0
  if total_valid ≥ T.min_count.toNat then
    [⟨input.seed_index, input.x + sums Warp.sum_dx, input.z + sums Warp.sum_dz⟩]
  else []

/-- The cooperative load: the words that a thread writes to `s_octaves_buf`. -/
def load_writes (block_input_base : Nat) (thread : Fin 256) : List (Nat × BitVec 32) :=
  let input_index := block_input_base + thread / T.threads_per_input
  if input_index < inputs_len then
    (strided thread 256 (T.octaves * 17)).flatMap fun i => (List.range 4).map fun j =>
      (4 * i + j, results (inputs input_index).seed_index (4 * i + j))
  else []

/-- One round of the block loop, from the buffer `m` to the buffer `m'`. No barrier ends the round
when there are 32 samples, so a slow warp may find words of the next load. -/
structure Round (m : Words) (block_input_base : Nat) (m' : Words) (out : List SeedPos) : Prop where
  loaded : Written (load_writes T inputs results inputs_len block_input_base) m m'
  emitted : ∃ next : Words,
    Written (load_writes T inputs results inputs_len
      (block_input_base + 32 * 256 * T.inputs_per_block)) m' next ∧
    ∃ seen : Nat → Words,
      (∀ thread i, seen thread i = m' i ∨ T.samples ≤ 32 ∧ seen thread i = next i) ∧
      out.Perm ((List.range T.inputs_per_block).flatMap fun block_input_index =>
        let input_index := block_input_base + block_input_index
        if input_index < inputs_len then
          emit T sample (inputs input_index) fun pos_index =>
            (seen (block_input_index * T.threads_per_input + pos_index)).data T.octaves
        else [])

/-- `KernelFilter2::kernel` on `32 * 256` blocks, with what it appends to its output. -/
def Kernel (outs : List SeedPos) : Prop :=
  ∃ f : Nat → List SeedPos, outs.Perm ((List.range (32 * 256)).flatMap f) ∧
    ∀ block < 32 * 256, ∃ m m', Items (Round T sample inputs results inputs_len) m
      (strided (block * T.inputs_per_block) (32 * 256 * T.inputs_per_block) inputs_len) m' (f block)

end Kernel

section Reference

variable {large_biomes : Bool} (T : Template large_biomes) {F : Type} [LT F] [DecidableLT F]
  [FloatOps F] (sample : Data T.octaves → BitVec 32 → BitVec 32 → BitVec 32 → F)

/-- The sample grid of an input as column and row, a checkerboard when sparse. -/
def grid : Finset (Nat × Nat) :=
  (Finset.range T.samples_square_size ×ˢ Finset.range T.samples_square_size).filter fun p =>
    T.samples_square_sparse = true →
      p.2 % 2 = (p.1 % 2 + T.flipped_sparse_samples.toNat) % 2

def offset (i : Nat) : BitVec 32 := BitVec.ofNat 32 (i * T.pos_step) + T.pos_offset

def below (input : SeedPos) (d : Data T.octaves) : Finset (Nat × Nat) :=
  (grid T).filter fun p =>
    sample d (input.x + offset T p.1) 0 (input.z + offset T p.2) < T.noise_threshold

/-- The sum of how far the points of `V` lie from the input. -/
def drift (coordinate : Nat × Nat → Nat) (V : Finset (Nat × Nat)) : Int :=
  ∑ p ∈ V, (offset T (coordinate p)).toInt

/-- What the filter is for, with the octaves of the input's own seed and integer sums. -/
def reference (results : BitVec 32 → Words) (input : SeedPos) : List SeedPos :=
  let valid := below T sample input ((results input.seed_index).data T.octaves)
  if T.min_count.toNat ≤ valid.card then
    if T.move_center then
      [⟨input.seed_index,
        input.x + BitVec.ofInt 32 ((drift T Prod.fst valid).tdiv valid.card),
        input.z + BitVec.ofInt 32 ((drift T Prod.snd valid).tdiv valid.card)⟩]
    else [input]
  else []

def DriftFits (V : Finset (Nat × Nat)) : Prop :=
  Fits 32 (drift T Prod.fst V) ∧ Fits 32 (drift T Prod.snd V)

/-- Neither sum that the filter may divide leaves the range of an int32. -/
def Summable : Prop :=
  T.move_center = true → ∀ V ⊆ grid T, T.min_count.toNat ≤ V.card → DriftFits T V

end Reference

end Omission.Gpu.Filter2
