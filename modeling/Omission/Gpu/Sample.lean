import Mathlib.Algebra.Group.End
import Mathlib.Algebra.Order.Floor.Defs
import Mathlib.Data.Rat.Floor
import Mathlib.Logic.Equiv.Basic
import Omission.Gpu.FilterSeeds

namespace Omission.Gpu
set_option autoImplicit true

/-- What the samplers use of `float` besides `+`, `-`, `*` and `<`. -/
class FloatOps (F : Type) where
  fmaf : F → F → F → F
  /-- `__float2int_rd` -/
  float2int_rd : F → Int
  /-- A conversion or a constant. -/
  ofRat : Rat → F

open FloatOps

/-- Exact arithmetic. -/
instance : FloatOps Rat where
  fmaf x y z := x * y + z
  float2int_rd x := ⌊x⌋
  ofRat r := r

/-- `ImprovedNoise` as the samplers read it. -/
structure NoiseView (F : Type) where
  p : Vector UInt8 256
  xo : F
  yo : F
  zo : F

def NoiseView.entry (noise : NoiseView F) (i : Int) : UInt8 :=
  noise.p.get ⟨(i % 256).toNat, mod_256_lt i⟩

structure GradDotTable (F : Type) where
  x : Fin 16 → F
  y : Fin 16 → F
  z : Fin 16 → F

/-- The gradients of `init_grad_dot_table`. -/
def gradients : Vector (Int × Int × Int) 16 :=
  #v[(1, 1, 0), (-1, 1, 0), (1, -1, 0), (-1, -1, 0), (1, 0, 1), (-1, 0, 1), (1, 0, -1), (-1, 0, -1),
    (0, 1, 1), (0, -1, 1), (0, 1, -1), (0, -1, -1), (1, 1, 0), (0, -1, 1), (-1, 1, 0), (0, -1, -1)]

section Noise

variable {F : Type} [Add F] [Sub F] [Mul F] [FloatOps F]

def init_grad_dot_table : GradDotTable F where
  x hash := ofRat (gradients.get hash).1
  y hash := ofRat (gradients.get hash).2.1
  z hash := ofRat (gradients.get hash).2.2

def gradDot (table : GradDotTable F) (p : UInt8) (x y z : F) : F :=
  let hash : Fin 16 := ⟨p.toNat % 16, Nat.mod_lt _ (by decide)⟩
  fmaf x (table.x hash) (fmaf y (table.y hash) (z * table.z hash))

def smoothstep (value : F) : F :=
  value * value * value * (value * (value * ofRat 6 - ofRat 15) + ofRat 10)

def lerp1 (fx v0 v1 : F) : F := fmaf fx (v1 - v0) v0

def lerp2 (fx fy v00 v10 v01 v11 : F) : F := lerp1 fy (lerp1 fx v00 v10) (lerp1 fx v01 v11)

def lerp3 (fx fy fz v000 v100 v010 v110 v001 v101 v011 v111 : F) : F :=
  lerp1 fz (lerp2 fx fy v000 v100 v010 v110) (lerp2 fx fy v001 v101 v011 v111)

def sample_noise (table : GradDotTable F) (noise : NoiseView F) (x y z : F) : F :=
  let x := x + noise.xo
  let y := y + noise.yo
  let z := z + noise.zo
  let int_x := float2int_rd x
  let int_y := float2int_rd y
  let int_z := float2int_rd z
  let frac_x := x - ofRat int_x
  let frac_y := y - ofRat int_y
  let frac_z := z - ofRat int_z
  let p0 := noise.entry int_x
  let p1 := noise.entry (int_x + 1)
  let p00 := noise.entry (p0.toNat + int_y)
  let p01 := noise.entry (p0.toNat + int_y + 1)
  let p10 := noise.entry (p1.toNat + int_y)
  let p11 := noise.entry (p1.toNat + int_y + 1)
  let n000 := gradDot table (noise.entry (p00.toNat + int_z)) frac_x frac_y frac_z
  let n100 := gradDot table (noise.entry (p10.toNat + int_z)) (frac_x - ofRat 1) frac_y frac_z
  let n010 := gradDot table (noise.entry (p01.toNat + int_z)) frac_x (frac_y - ofRat 1) frac_z
  let n110 := gradDot table (noise.entry (p11.toNat + int_z)) (frac_x - ofRat 1)
    (frac_y - ofRat 1) frac_z
  let n001 := gradDot table (noise.entry (p00.toNat + int_z + 1)) frac_x frac_y (frac_z - ofRat 1)
  let n101 := gradDot table (noise.entry (p10.toNat + int_z + 1)) (frac_x - ofRat 1) frac_y
    (frac_z - ofRat 1)
  let n011 := gradDot table (noise.entry (p01.toNat + int_z + 1)) frac_x (frac_y - ofRat 1)
    (frac_z - ofRat 1)
  let n111 := gradDot table (noise.entry (p11.toNat + int_z + 1)) (frac_x - ofRat 1)
    (frac_y - ofRat 1) (frac_z - ofRat 1)
  let fx := smoothstep frac_x
  let fy := smoothstep frac_y
  let fz := smoothstep frac_z
  lerp3 fx fy fz n000 n100 n010 n110 n001 n101 n011 n111

def wrap (value : F) : F := value

def octave_sample_noise (config : OctaveConfig) (table : GradDotTable F) (noise : NoiseView F)
    (x y z : BitVec 32) : F :=
  sample_noise table noise (wrap (ofRat x.toInt * ofRat config.input_factor))
    (wrap (ofRat y.toInt * ofRat config.input_factor))
    (wrap (ofRat z.toInt * ofRat config.input_factor))

def sample_octave (config : OctaveConfig) (table : GradDotTable F) (noise : NoiseView F)
    (x y z : BitVec 32) : F :=
  octave_sample_noise config table noise x y z * ofRat config.value_factor

/-- The constants of `octaves[k]`: `octaves_a[k / 2]` for even and `octaves_b[k / 2]` for odd
`k`. -/
def octave_config (large_biomes : Bool) (k : Nat) : OctaveConfig :=
  FilterSeeds.octave large_biomes (if k % 2 = 0 then .A else .B) (k / 2)

namespace ResultSampler

variable {n : Nat} (large_biomes : Bool) (table : GradDotTable F) (octaves : Fin n → NoiseView F)

def sum_octaves (x y z : BitVec 32) (ks : List (Fin n)) : F :=
  ks.foldl (fun val (k : Fin n) =>
    val + sample_octave (octave_config large_biomes k) table (octaves k) x y z) (ofRat 0)

def sample (x y z : BitVec 32) : F :=
  sum_octaves large_biomes table octaves x y z (List.finRange n)

def sample_only_a (x y z : BitVec 32) : F :=
  sum_octaves large_biomes table octaves x y z ((List.finRange n).filter fun k => k.val % 2 = 0)

def sample_first12 (x y z : BitVec 32) : F :=
  sum_octaves large_biomes table octaves x y z ((List.finRange n).filter fun k => k.val < 12)

def sample_rest12 (x y z : BitVec 32) : F :=
  sum_octaves large_biomes table octaves x y z ((List.finRange n).filter fun k => 12 ≤ k.val)

/-- `rest12_margin()` of a sampler of `n` octaves. -/
def rest12_margin (n : Nat) : F :=
  ([12, 14, 16].filter (· < n)).foldl
    (fun m k => m + ofRat 2 * ofRat (octave_config large_biomes k).value_factor) (ofRat 0)

end ResultSampler

end Noise

/-- The identity table after some swaps. -/
def shuffled (swaps : List (Fin 256 × Fin 256)) : Vector UInt8 256 :=
  Vector.ofFn fun i => UInt8.ofFin ((swaps.map fun s => Equiv.swap s.1 s.2).prod i)

theorem shuffled_nodup (swaps : List (Fin 256 × Fin 256)) : (shuffled swaps).toList.Nodup := by
  rw [shuffled, Vector.toList_ofFn, List.nodup_ofFn]
  intro i j h
  exact Equiv.injective _ (congrArg UInt8.toFin h)

end Omission.Gpu
