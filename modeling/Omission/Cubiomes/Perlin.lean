import Mathlib.Data.Rat.Floor
import Mathlib.Tactic.IntervalCases
import Omission.Lib.Wrap

namespace Omission.Cubiomes
open Omission.Lib
set_option autoImplicit true

/-- What the samplers use of `double` besides `+`, `-`, `*` and `/`. -/
class Doubles (D : Type) where
  /-- A literal. -/
  lit : Rat → D
  ofInt : Int → D
  floor : D → D
  lt : D → D → Bool
  isZero : D → Bool
  /-- The integral part; an infinity and a NaN have none. -/
  trunc : D → Option Int

/-- What they use of `float` besides `+`, `-` and `*`. -/
class Singles (F : Type) where
  litF : Rat → F
  fabsf : F → F
  truncF : F → Option Int

class Conversions (D F : Type) where
  toFloat : D → F
  toDouble : F → D

open Doubles

/-- A conversion to a signed integer; what does not fit becomes the least value. -/
def cast (w : Nat) (v : Option Int) : Int :=
  (v.filter fun v => Fits w v).getD (-2 ^ (w - 1))

/-- Round to nearest: a sum is the negative zero only if both summands are. -/
structure SumLaws (D : Type) [Add D] [Doubles D] : Prop where
  zero_add_zero : (lit 0 : D) + lit 0 = lit 0
  zero_add_add : ∀ v a : D, lit 0 + v = v → lit 0 + (v + a) = v + a

/-- Exact arithmetic. -/
instance : Doubles Rat where
  lit r := r
  ofInt v := v
  floor v := ⌊v⌋
  lt v w := v < w
  isZero v := v == 0
  trunc v := some (if 0 ≤ v then ⌊v⌋ else ⌈v⌉)

instance : Singles Rat where
  litF r := r
  fabsf v := |v|
  truncF v := some (if 0 ≤ v then ⌊v⌋ else ⌈v⌉)

instance : Conversions Rat Rat := ⟨id, id⟩

theorem sumLaws_rat : SumLaws Rat := ⟨add_zero 0, fun v a _ => zero_add (v + a)⟩

structure PerlinNoise (D : Type) where
  d : Vector UInt8 257
  h2 : UInt8
  a : D
  b : D
  c : D
  amplitude : D
  lacunarity : D
  d2 : D
  t2 : D

/-- `idx[h]` -/
def PerlinNoise.entry (noise : PerlinNoise D) (h : UInt8) : UInt8 :=
  noise.d.get ⟨h.toNat, Nat.lt_succ_of_lt h.toNat_lt⟩

/-- `idx[h + 1]`, where the sum is an `int` -/
def PerlinNoise.entrySucc (noise : PerlinNoise D) (h : UInt8) : UInt8 :=
  noise.d.get ⟨h.toNat + 1, Nat.succ_lt_succ h.toNat_lt⟩

structure OctaveNoise (D : Type) where
  octaves : List (PerlinNoise D)

structure DoublePerlinNoise (D : Type) where
  amplitude : D
  octA : OctaveNoise D
  octB : OctaveNoise D

section Samplers

variable {D : Type} [Add D] [Sub D] [Mul D] [Div D] [Neg D] [Doubles D]

def lerp (part src dst : D) : D := src + part * (dst - src)

/-- `d*d*d * (d * (d*6.0-15.0) + 10.0)` -/
def fade (d : D) : D := d * d * d * (d * (d * lit 6 - lit 15) + lit 10)

/-- `(uint8_t)(int) d` -/
def byte (d : D) : UInt8 := UInt8.ofInt (cast 32 (trunc d))

def maintainPrecision (x : D) : D := x

/-- `indexedLerp` of `noise.c`. -/
def indexedLerp (idx : UInt8) (a b c : D) : D :=
  match (idx &&& 0xf).toNat with
  | 0 => a + b
  | 1 => -a + b
  | 2 => a - b
  | 3 => -a - b
  | 4 => a + c
  | 5 => -a + c
  | 6 => a - c
  | 7 => -a - c
  | 8 => b + c
  | 9 => -b + c
  | 10 => b - c
  | 11 => -b - c
  | 12 => a + b
  | 13 => -b + c
  | 14 => -a + b
  | 15 => -b - c
  | _ => lit 0

def samplePerlin (noise : PerlinNoise D) (d1 d2 d3 yamp ymin : D) : D :=
  let (d2, h2, t2) :=
    if isZero d2 then (noise.d2, noise.h2, noise.t2)
    else
      let d2 := d2 + noise.b
      let i2 := floor d2
      let d2 := d2 - i2
      (d2, byte i2, fade d2)
  let d1 := d1 + noise.a
  let d3 := d3 + noise.c
  let i1 := floor d1
  let i3 := floor d3
  let d1 := d1 - i1
  let d3 := d3 - i3
  let h1 := byte i1
  let h3 := byte i3
  let t1 := fade d1
  let t3 := fade d3
  let d2 :=
    if isZero yamp then d2
    else
      let yclamp := if lt ymin d2 then ymin else d2
      d2 - floor (yclamp / yamp) * yamp
  let v1a := noise.entry h1 + h2
  let v1b := noise.entrySucc h1 + h2
  let v2a := noise.entry v1a + h3
  let v2b := noise.entrySucc v1a + h3
  let v3a := noise.entry v1b + h3
  let v3b := noise.entrySucc v1b + h3
  let l1 := indexedLerp (noise.entry v2a) d1 d2 d3
  let l5 := indexedLerp (noise.entrySucc v2a) d1 d2 (d3 - lit 1)
  let l2 := indexedLerp (noise.entry v3a) (d1 - lit 1) d2 d3
  let l6 := indexedLerp (noise.entrySucc v3a) (d1 - lit 1) d2 (d3 - lit 1)
  let l3 := indexedLerp (noise.entry v2b) d1 (d2 - lit 1) d3
  let l7 := indexedLerp (noise.entrySucc v2b) d1 (d2 - lit 1) (d3 - lit 1)
  let l4 := indexedLerp (noise.entry v3b) (d1 - lit 1) (d2 - lit 1) d3
  let l8 := indexedLerp (noise.entrySucc v3b) (d1 - lit 1) (d2 - lit 1) (d3 - lit 1)
  let l1 := lerp t1 l1 l2
  let l3 := lerp t1 l3 l4
  let l5 := lerp t1 l5 l6
  let l7 := lerp t1 l7 l8
  let l1 := lerp t2 l1 l3
  let l5 := lerp t2 l5 l7
  lerp t3 l1 l5

def sampleOctave (noise : OctaveNoise D) (x y z : D) : D :=
  noise.octaves.foldl (fun v p =>
    let lf := p.lacunarity
    let ax := maintainPrecision (x * lf)
    let ay := maintainPrecision (y * lf)
    let az := maintainPrecision (z * lf)
    let pv := samplePerlin p ax ay az (lit 0) (lit 0)
    v + p.amplitude * pv) (lit 0)

def sampleDoublePerlin (noise : DoublePerlinNoise D) (x y z : D) : D :=
  let f : D := lit 337 / lit 331
  let v : D := lit 0
  let v := v + sampleOctave noise.octA x y z
  let v := v + sampleOctave noise.octB (x * f) (y * f) (z * f)
  v * noise.amplitude

/-- The copy in `cubiomes.c`. -/
def fast_indexedLerp (idx : UInt8) (a b c : D) : D :=
  match (idx &&& 0xf).toNat with
  | 0 => a + b
  | 1 => -a + b
  | 2 => a - b
  | 3 => -a - b
  | 4 => a + c
  | 5 => -a + c
  | 6 => a - c
  | 7 => -a - c
  | 8 => b + c
  | 9 => -b + c
  | 10 => b - c
  | 11 => -b - c
  | 12 => a + b
  | 13 => -b + c
  | 14 => -a + b
  | _ => -b - c

def fast_samplePerlin (noise : PerlinNoise D) (d1 d2 d3 yamp ymin : D) : D :=
  let (d2, h2, t2) :=
    if isZero d2 then (noise.d2, noise.h2, noise.t2)
    else
      let d2 := d2 + noise.b
      let i2 := floor d2
      let d2 := d2 - i2
      (d2, byte i2, fade d2)
  let d1 := d1 + noise.a
  let d3 := d3 + noise.c
  let i1 := floor d1
  let i3 := floor d3
  let d1 := d1 - i1
  let d3 := d3 - i3
  let h1 := byte i1
  let h3 := byte i3
  let t1 := fade d1
  let t3 := fade d3
  let d2 :=
    if isZero yamp then d2
    else
      let yclamp := if lt ymin d2 then ymin else d2
      d2 - floor (yclamp / yamp) * yamp
  let v1a := noise.entry h1 + h2
  let v1b := noise.entrySucc h1 + h2
  let v2a := noise.entry v1a + h3
  let v2b := noise.entrySucc v1a + h3
  let v3a := noise.entry v1b + h3
  let v3b := noise.entrySucc v1b + h3
  let l1 := fast_indexedLerp (noise.entry v2a) d1 d2 d3
  let l5 := fast_indexedLerp (noise.entrySucc v2a) d1 d2 (d3 - lit 1)
  let l2 := fast_indexedLerp (noise.entry v3a) (d1 - lit 1) d2 d3
  let l6 := fast_indexedLerp (noise.entrySucc v3a) (d1 - lit 1) d2 (d3 - lit 1)
  let l3 := fast_indexedLerp (noise.entry v2b) d1 (d2 - lit 1) d3
  let l7 := fast_indexedLerp (noise.entrySucc v2b) d1 (d2 - lit 1) (d3 - lit 1)
  let l4 := fast_indexedLerp (noise.entry v3b) (d1 - lit 1) (d2 - lit 1) d3
  let l8 := fast_indexedLerp (noise.entrySucc v3b) (d1 - lit 1) (d2 - lit 1) (d3 - lit 1)
  let l1 := lerp t1 l1 l2
  let l3 := lerp t1 l3 l4
  let l5 := lerp t1 l5 l6
  let l7 := lerp t1 l7 l8
  let l1 := lerp t2 l1 l3
  let l5 := lerp t2 l5 l7
  lerp t3 l1 l5

def fast_sampleOctave (noise : OctaveNoise D) (x y z : D) : D :=
  noise.octaves.foldl (fun v p =>
    let lf := p.lacunarity
    let ax := maintainPrecision (x * lf)
    let ay := maintainPrecision (y * lf)
    let az := maintainPrecision (z * lf)
    v + p.amplitude * fast_samplePerlin p ax ay az (lit 0) (lit 0)) (lit 0)

def fast_sampleDoublePerlin (noise : DoublePerlinNoise D) (x y z : D) : D :=
  let f : D := lit 337 / lit 331
  let v := fast_sampleOctave noise.octA x y z
  let v := v + fast_sampleOctave noise.octB (x * f) (y * f) (z * f)
  v * noise.amplitude

omit [Mul D] [Div D] in
theorem fast_indexedLerp_eq (idx : UInt8) (a b c : D) :
    fast_indexedLerp idx a b c = indexedLerp idx a b c := by
  have hlt : (idx &&& 0xf).toNat < 16 := by
    rw [UInt8.toNat_and]
    exact Nat.lt_of_le_of_lt Nat.and_le_right (by decide)
  rw [fast_indexedLerp, indexedLerp]
  generalize (idx &&& 0xf).toNat = k at hlt ⊢
  interval_cases k <;> rfl

theorem fast_samplePerlin_eq (noise : PerlinNoise D) (d1 d2 d3 yamp ymin : D) :
    fast_samplePerlin noise d1 d2 d3 yamp ymin = samplePerlin noise d1 d2 d3 yamp ymin := by
  simp only [fast_samplePerlin, fast_indexedLerp_eq]
  rfl

theorem fast_sampleOctave_eq (noise : OctaveNoise D) (x y z : D) :
    fast_sampleOctave noise x y z = sampleOctave noise x y z := by
  simp only [fast_sampleOctave, fast_samplePerlin_eq]
  rfl

/-- A sum that starts with zero keeps its value under one more. -/
theorem zero_add_sampleOctave (h : SumLaws D) (noise : OctaveNoise D) (x y z : D) :
    lit 0 + sampleOctave noise x y z = sampleOctave noise x y z := by
  have hsum : ∀ (octaves : List (PerlinNoise D)) (f : PerlinNoise D → D) (v : D),
      lit 0 + v = v → lit 0 + octaves.foldl (fun v p => v + f p) v =
        octaves.foldl (fun v p => v + f p) v := by
    intro octaves f v hv
    induction octaves generalizing v with
    | nil => exact hv
    | cons p octaves ih => exact ih _ (h.zero_add_add v (f p) hv)
  exact hsum noise.octaves _ (lit 0) h.zero_add_zero

theorem fast_sampleDoublePerlin_eq (h : SumLaws D) (noise : DoublePerlinNoise D) (x y z : D) :
    fast_sampleDoublePerlin noise x y z = sampleDoublePerlin noise x y z := by
  simp only [fast_sampleDoublePerlin, sampleDoublePerlin, fast_sampleOctave_eq,
    zero_add_sampleOctave h]

end Samplers

end Omission.Cubiomes
