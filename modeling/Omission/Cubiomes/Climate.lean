import Omission.Cpu.Noise
import Omission.Cubiomes.Perlin

namespace Omission.Cubiomes
open Omission.Lib
open Omission.Cpu (NP)
open Doubles Singles Conversions
set_option autoImplicit true

structure BiomeNoise (D Spline : Type) where
  climate : NP → DoublePerlinNoise D
  sp : Spline
  nptype : Int
  mc : Int

def SAMPLE_NO_SHIFT : BitVec 32 := 1
def SAMPLE_NO_DEPTH : BitVec 32 := 2
def SAMPLE_NO_BIOME : BitVec 32 := 4

section Climate

variable {D F Spline : Type} [Add D] [Sub D] [Mul D] [Div D] [Neg D] [Doubles D] [Sub F] [Add F]
  [Mul F] [Singles F] [Conversions D F]

/-- `-3.0F * (fabsf(fabsf(w) - 0.6666667F) - 0.33333334F)` -/
def ridges (w : F) : F :=
  litF (-3) * (fabsf (fabsf w - litF (6666667 / 10000000)) - litF (33333334 / 100000000))

/-- `(int64_t)(10000.0F*v)` -/
def scaled (v : F) : Int := cast 64 (truncF (litF 10000 * v))

-- the splines of the depth, the biome of six climate parameters, and the sampler of one parameter
variable (getSpline : Spline → Vector F 4 → F) (climateToBiome : Int → Vector Int 6 → Int)
  (sampleClimatePara : BiomeNoise D Spline → Int → Int → D)

/-- Called with neither `np` nor `dat`. -/
def sampleBiomeNoise (bn : BiomeNoise D Spline) (x y z : Int) (sample_flags : BitVec 32) : Int :=
  if bn.nptype ≥ 0 then wrap 32 (cast 64 (trunc (lit 10000 * sampleClimatePara bn x z)))
  else
    let px : D := ofInt x
    let pz : D := ofInt z
    let (px, pz) :=
      if sample_flags &&& SAMPLE_NO_SHIFT = 0 then
        (px + sampleDoublePerlin (bn.climate .SHIFT) (ofInt x) (lit 0) (ofInt z) * lit 4,
          pz + sampleDoublePerlin (bn.climate .SHIFT) (ofInt z) (ofInt x) (lit 0) * lit 4)
      else (px, pz)
    let c : F := toFloat (sampleDoublePerlin (bn.climate .CONTINENTALNESS) px (lit 0) pz)
    let e : F := toFloat (sampleDoublePerlin (bn.climate .EROSION) px (lit 0) pz)
    let w : F := toFloat (sampleDoublePerlin (bn.climate .WEIRDNESS) px (lit 0) pz)
    let d : F :=
      if sample_flags &&& SAMPLE_NO_DEPTH = 0 then
        let off : D := toDouble (getSpline bn.sp #v[c, e, ridges w, w] + litF (15 / 1000))
        toFloat (lit 1 - ofInt (wrap 32 (y * 4)) / lit 128 - lit 83 / lit 160 + off)
      else litF 0
    let t : F := toFloat (sampleDoublePerlin (bn.climate .TEMPERATURE) px (lit 0) pz)
    let h : F := toFloat (sampleDoublePerlin (bn.climate .HUMIDITY) px (lit 0) pz)
    let np := #v[scaled t, scaled h, scaled c, scaled e, scaled d, scaled w]
    if sample_flags &&& SAMPLE_NO_BIOME = 0 then climateToBiome bn.mc np else -1

def cubiomes_sample_biome (bn : BiomeNoise D Spline) (x y z : Int) : Int :=
  sampleBiomeNoise getSpline climateToBiome sampleClimatePara bn x y z 0

/-- The biomes at `y4 = 15` and `y4 = 16`. -/
def cubiomes_sample_biome_2y (bn : BiomeNoise D Spline) (x4 z4 : Int) (cont_max : BitVec 32) :
    Int × Int :=
  let px : D := ofInt x4
  let pz : D := ofInt z4
  let px := px + fast_sampleDoublePerlin (bn.climate .SHIFT) (ofInt x4) (lit 0) (ofInt z4) * lit 4
  let pz := pz + fast_sampleDoublePerlin (bn.climate .SHIFT) (ofInt z4) (ofInt x4) (lit 0) * lit 4
  let c : F := toFloat (fast_sampleDoublePerlin (bn.climate .CONTINENTALNESS) px (lit 0) pz)
  if cast 32 (truncF (litF 10000 * c)) > cont_max.toInt then (0, 0)
  else
    let e : F := toFloat (fast_sampleDoublePerlin (bn.climate .EROSION) px (lit 0) pz)
    let w : F := toFloat (fast_sampleDoublePerlin (bn.climate .WEIRDNESS) px (lit 0) pz)
    let off : D := toDouble (getSpline bn.sp #v[c, e, ridges w, w] + litF (15 / 1000))
    let t : F := toFloat (fast_sampleDoublePerlin (bn.climate .TEMPERATURE) px (lit 0) pz)
    let h : F := toFloat (fast_sampleDoublePerlin (bn.climate .HUMIDITY) px (lit 0) pz)
    let biome_15 :=
      let d : F := toFloat (lit 1 - ofInt (15 * 4) / lit 128 - lit 83 / lit 160 + off)
      climateToBiome bn.mc #v[scaled t, scaled h, scaled c, scaled e, scaled d, scaled w]
    let biome_16 :=
      let d : F := toFloat (lit 1 - ofInt (16 * 4) / lit 128 - lit 83 / lit 160 + off)
      climateToBiome bn.mc #v[scaled t, scaled h, scaled c, scaled e, scaled d, scaled w]
    (biome_15, biome_16)

/-- A value above the limit as an `int` is above it as an `int64_t`. -/
theorem lt_cast_of_lt {limit : BitVec 32} {v : Option Int} (h : limit.toInt < cast 32 v) :
    limit.toInt < cast 64 v := by
  have hlow : -2 ^ 31 ≤ limit.toInt := limit.le_toInt
  cases v with
  | none => exact absurd h (Int.not_lt.2 hlow)
  | some v =>
    by_cases hv : Fits 32 v
    · have hv' : Fits 64 v := by
        unfold Fits at hv ⊢
        omega
      rw [cast, Option.filter_some, if_pos (decide_eq_true hv)] at h
      rwa [cast, Option.filter_some, if_pos (decide_eq_true hv')]
    · rw [cast, Option.filter_some, if_neg (by rwa [decide_eq_true_eq])] at h
      exact absurd h (Int.not_lt.2 hlow)

/-- The continentalness of a cell. -/
def continentalness (F : Type) [Conversions D F] (bn : BiomeNoise D Spline) (x z : Int) : F :=
  toFloat (sampleDoublePerlin (bn.climate .CONTINENTALNESS)
    (ofInt x + sampleDoublePerlin (bn.climate .SHIFT) (ofInt x) (lit 0) (ofInt z) * lit 4) (lit 0)
    (ofInt z + sampleDoublePerlin (bn.climate .SHIFT) (ofInt z) (ofInt x) (lit 0) * lit 4))

variable {getSpline climateToBiome sampleClimatePara}

theorem exists_np {bn : BiomeNoise D Spline} (hseed : bn.nptype = -1) (x y z : Int) :
    ∃ np : Vector Int 6, cubiomes_sample_biome getSpline climateToBiome sampleClimatePara bn x y z =
      climateToBiome bn.mc np ∧ np[2] = scaled (continentalness F bn x z) := by
  have hnp : ¬ bn.nptype ≥ 0 := by
    rw [hseed]
    decide
  rw [cubiomes_sample_biome, sampleBiomeNoise, if_neg hnp]
  exact ⟨_, rfl, rfl⟩

/-- The exit is taken by the continentalness of the plain sampler, and without it both biomes are
those of the plain sampler. -/
theorem sample_biome_2y_eq (hsum : SumLaws D) {bn : BiomeNoise D Spline} (hseed : bn.nptype = -1)
    (x4 z4 : Int) (cont_max : BitVec 32) :
    cubiomes_sample_biome_2y getSpline climateToBiome bn x4 z4 cont_max =
      if cast 32 (truncF (litF 10000 * continentalness F bn x4 z4)) > cont_max.toInt then (0, 0)
      else (cubiomes_sample_biome getSpline climateToBiome sampleClimatePara bn x4 15 z4,
        cubiomes_sample_biome getSpline climateToBiome sampleClimatePara bn x4 16 z4) := by
  have hnp : ¬ bn.nptype ≥ 0 := by
    rw [hseed]
    decide
  have h15 : wrap 32 (15 * 4) = 15 * 4 := by decide
  have h16 : wrap 32 (16 * 4) = 16 * 4 := by decide
  simp only [cubiomes_sample_biome, sampleBiomeNoise, if_neg hnp, h15, h16]
  simp only [cubiomes_sample_biome_2y, fast_sampleDoublePerlin_eq hsum]
  rfl

theorem biome_eq_iff {id biome : Int} {P : Prop} [Decidable P] (h : P → biome ≠ id) (h0 : 0 ≠ id) :
    (if P then 0 else biome) = id ↔ biome = id := by
  split
  · next hP => exact iff_of_false h0 (h hP)
  · exact Iff.rfl

/-- The fast sampler finds the biome where the plain one does, and its copies of the noise
functions compute what the originals do. -/
theorem sample_biome_2y_iff (getSpline : Spline → Vector F 4 → F)
    (climateToBiome : Int → Vector Int 6 → Int)
    (sampleClimatePara : BiomeNoise D Spline → Int → Int → D)
    (hsum : SumLaws D) (bn : BiomeNoise D Spline) (hseed : bn.nptype = -1) (cont_max : BitVec 32)
    (hlimit : ∀ np : Vector Int 6, cont_max.toInt < np[2] → climateToBiome bn.mc np ≠ 14)
    (x4 z4 : Int) :
    ((cubiomes_sample_biome_2y getSpline climateToBiome bn x4 z4 cont_max).1 = 14 ↔
      cubiomes_sample_biome getSpline climateToBiome sampleClimatePara bn x4 15 z4 = 14) ∧
    ((cubiomes_sample_biome_2y getSpline climateToBiome bn x4 z4 cont_max).2 = 14 ↔
      cubiomes_sample_biome getSpline climateToBiome sampleClimatePara bn x4 16 z4 = 14) ∧
    (∀ (noise : PerlinNoise D) (d1 d2 d3 yamp ymin : D),
      fast_samplePerlin noise d1 d2 d3 yamp ymin = samplePerlin noise d1 d2 d3 yamp ymin) ∧
    (∀ (noise : OctaveNoise D) (x y z : D),
      fast_sampleOctave noise x y z = sampleOctave noise x y z) ∧
    ∀ (noise : DoublePerlinNoise D) (x y z : D),
      fast_sampleDoublePerlin noise x y z = sampleDoublePerlin noise x y z := by
  have hexit : ∀ y, cast 32 (truncF (litF 10000 * continentalness F bn x4 z4)) > cont_max.toInt →
      cubiomes_sample_biome getSpline climateToBiome sampleClimatePara bn x4 y z4 ≠ 14 := by
    intro y h
    obtain ⟨np, hbiome, hc⟩ := exists_np (F := F) hseed x4 y z4
    rw [hbiome]
    apply hlimit
    rw [hc]
    exact lt_cast_of_lt h
  rw [sample_biome_2y_eq hsum hseed]
  refine ⟨?_, ?_, fast_samplePerlin_eq, fast_sampleOctave_eq, fast_sampleDoublePerlin_eq hsum⟩
  · rw [apply_ite Prod.fst]
    exact biome_eq_iff (hexit 15) (by decide)
  · rw [apply_ite Prod.snd]
    exact biome_eq_iff (hexit 16) (by decide)

end Climate

/-- An octave of the generator below; the noise at `y = 0` is the cached one. -/
def islandOctave (lacunarity : Rat) : PerlinNoise Rat where
  d := ((Vector.replicate 257 3).set 3 5).set 7 9
  h2 := 3
  a := 1 / 4
  b := 7 / 2
  c := 3 / 4
  amplitude := 4
  lacunarity := lacunarity
  d2 := 1 / 2
  t2 := 1 / 2

/-- A generator with the biome 14 around the cell `(12, 4)`, below the surface only. -/
def island : BiomeNoise Rat Unit where
  climate _ := ⟨5 / 4, ⟨[islandOctave (1 / 16)]⟩, ⟨[islandOctave (1 / 8)]⟩⟩
  sp := ()
  nptype := -1
  mc := 0

def islandBiome (_mc : Int) (np : Vector Int 6) : Int :=
  if np[2] > -10500 then 0 else if np[4] < 0 then 10 else 14

theorem sample_biome_2y_iff_island :
    cubiomes_sample_biome_2y (fun _ _ => (0 : Rat)) islandBiome island 12 4 (-10500) = (14, 10) ∧
    cubiomes_sample_biome (fun _ _ => (0 : Rat)) islandBiome (fun _ _ _ => 0) island 12 15 4 = 14 ∧
    cubiomes_sample_biome (fun _ _ => (0 : Rat)) islandBiome (fun _ _ _ => 0) island 12 16 4 ≠
      14 := by
  have hfast : cubiomes_sample_biome_2y (fun _ _ => (0 : Rat)) islandBiome island 12 4 (-10500) =
      (14, 10) := by decide +kernel
  have hlimit : ∀ np : Vector Int 6, BitVec.toInt (-10500 : BitVec 32) < np[2] →
      islandBiome island.mc np ≠ 14 := by
    intro np h
    have hlimit : np[2] > -10500 := h
    rw [islandBiome, if_pos hlimit]
    decide
  have h := sample_biome_2y_iff (fun _ _ => (0 : Rat)) islandBiome (fun _ _ _ => 0) sumLaws_rat
    island rfl (-10500) hlimit 12 4
  rw [hfast] at h
  exact ⟨hfast, h.1.1 rfl, fun hbiome => absurd (h.2.1.2 hbiome) (by decide)⟩

end Omission.Cubiomes
