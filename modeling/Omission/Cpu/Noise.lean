import Mathlib.Data.BitVec
import Mathlib.Data.Rat.Defs
import Omission.Lib.Exchange

namespace Omission.Cpu
open Omission.Lib
set_option autoImplicit true

structure Xoroshiro where
  lo : BitVec 64
  hi : BitVec 64
deriving DecidableEq

def rotl64 (x : BitVec 64) (b : Nat) : BitVec 64 := (x <<< b) ||| (x >>> (64 - b))

def xSetSeed (value : BitVec 64) : Xoroshiro :=
  let XL := 0x9e3779b97f4a7c15#64
  let XH := 0x6a09e667f3bcc909#64
  let A := 0xbf58476d1ce4e5b9#64
  let B := 0x94d049bb133111eb#64
  let l := value ^^^ XH
  let h := l + XL
  let l := (l ^^^ (l >>> 30)) * A
  let h := (h ^^^ (h >>> 30)) * A
  let l := (l ^^^ (l >>> 27)) * B
  let h := (h ^^^ (h >>> 27)) * B
  let l := l ^^^ (l >>> 31)
  let h := h ^^^ (h >>> 31)
  ⟨l, h⟩

def xNextLong (xr : Xoroshiro) : BitVec 64 × Xoroshiro :=
  let l := xr.lo
  let h := xr.hi
  let n := rotl64 (l + h) 17 + l
  let h := h ^^^ l
  (n, ⟨rotl64 l 49 ^^^ h ^^^ (h <<< 21), rotl64 h 28⟩)

/-- `(xNextLong(xr) & 0xFFFFFFFF) * n` -/
def xNextProduct (n : BitVec 32) (xr : Xoroshiro) : BitVec 64 × Xoroshiro :=
  (((xNextLong xr).1 &&& 0xFFFFFFFF#64) * n.setWidth 64, (xNextLong xr).2)

/-- The loop of `xNextInt`, for at most `fuel` tests. -/
def xReject (n : BitVec 32) : Nat → BitVec 64 × Xoroshiro → Option (BitVec 64 × Xoroshiro)
  | 0, _ => none
  | fuel + 1, (r, xr) =>
    if r.setWidth 32 < (~~~n + 1) % n then xReject n fuel (xNextProduct n xr) else some (r, xr)

def xNextInt (fuel : Nat) (n : BitVec 32) (xr : Xoroshiro) : Option (BitVec 32 × Xoroshiro) := do
  let (r, xr) := xNextProduct n xr
  let (r, xr) ← if r.setWidth 32 < n then xReject n fuel (r, xr) else some (r, xr)
  some ((r >>> 32).setWidth 32, xr)

/-- The 53-bit integer behind `xNextDouble`. -/
def xNextDouble (xr : Xoroshiro) : BitVec 64 × Xoroshiro :=
  ((xNextLong xr).1 >>> (64 - 53), (xNextLong xr).2)

/-- One octave. The offsets are kept as the 53-bit integers behind `a`, `b` and `c`. -/
structure PerlinNoise where
  d : Vector UInt8 257
  a : BitVec 64
  b : BitVec 64
  c : BitVec 64
deriving DecidableEq

def xShuffleRound (fuel : Nat) (s : Vector UInt8 257 × Xoroshiro) (i : Nat) :
    Option (Vector UInt8 257 × Xoroshiro) := do
  let (j, xr) ← xNextInt fuel (BitVec.ofNat 32 (256 - i)) s.2
  let idx ← exchange s.1 i (j.toNat + i)
  some (idx, xr)

/-- `old` is what the last byte of the table held before. -/
def xPerlinInit (fuel : Nat) (old : UInt8) (xr : Xoroshiro) : Option PerlinNoise := do
  let (a, xr) := xNextDouble xr
  let (b, xr) := xNextDouble xr
  let (c, xr) := xNextDouble xr
  let (idx, _) ← (List.range 256).foldlM (xShuffleRound fuel)
    (Vector.ofFn fun i => if i.val < 256 then UInt8.ofNat i else old, xr)
  some ⟨idx.set 256 idx[0], a, b, c⟩

def md5_octave_n : List (BitVec 64 × BitVec 64) :=
  [(0xb198de63a8012672#64, 0x7b84cad43ef7b5a8#64),
   (0x0fd787bfbc403ec3#64, 0x74a4a31ca21b48b8#64),
   (0x36d326eed40efeb2#64, 0x5be9ce18223c636a#64),
   (0x082fe255f8be6631#64, 0x4e96119e22dedc81#64),
   (0x0ef68ec68504005e#64, 0x48b6bf93a2789640#64),
   (0xf11268128982754f#64, 0x257a1d670430b0aa#64),
   (0xe51c98ce7d1de664#64, 0x5f9478a733040c45#64),
   (0x6d7b49e7e429850a#64, 0x2e3063c622a24777#64),
   (0xbd90d5377ba1b762#64, 0xc07317d419a7548d#64),
   (0x53d39c6752dac858#64, 0xbcd1c5a80ab65b3e#64),
   (0xb4a24d7a84e7677b#64, 0x023ff9668e89b5c4#64),
   (0xdffa22b534c5f608#64, 0xb9b67517d3665ca9#64),
   (0xd50708086cef4d7c#64, 0x6e1651ecc7f43309#64)]

section Octaves

-- the draws of a rejection loop, and what the octave buffer held before
variable (fuel : Nat) (old : UInt8)

/-- One round of `xOctaveInit`; the octaves so far are `octaves[0..n]`. -/
def xOctaveRound (xlo xhi : BitVec 64) (amplitudes : List Rat) (omin nmax : Int)
    (octaves : List PerlinNoise) (i : Nat) : Option (List PerlinNoise) := do
  if (octaves.length : Int) = nmax then some octaves
  else do
    let amplitude ← amplitudes[i]?
    if amplitude = 0 then some octaves
    else do
      let md5 ← md5_octave_n[(12 + omin + i).toNat]?
      let octave ← xPerlinInit fuel old ⟨xlo ^^^ md5.1, xhi ^^^ md5.2⟩
      some (octaves ++ [octave])

def xOctaveInit (xr : Xoroshiro) (amplitudes : List Rat) (omin : Int) (len : Nat) (nmax : Int) :
    Option (List PerlinNoise × Xoroshiro) := do
  let (xlo, xr) := xNextLong xr
  let (xhi, xr) := xNextLong xr
  let octaves ← (List.range len).foldlM (xOctaveRound fuel old xlo xhi amplitudes omin nmax) []
  some (octaves, xr)

structure DoublePerlinNoise where
  octA : List PerlinNoise
  octB : List PerlinNoise

def xDoublePerlinInit (xr : Xoroshiro) (amplitudes : List Rat) (omin : Int) (len : Nat)
    (nmax : Int) : Option DoublePerlinNoise := do
  let na : Int := if nmax > 0 then (nmax + 1) / 2 else -1
  let nb : Int := if nmax > 0 then nmax - na else -1
  let (octA, xr) ← xOctaveInit fuel old xr amplitudes omin len na
  let (octB, _) ← xOctaveInit fuel old xr amplitudes omin len nb
  some ⟨octA, octB⟩

inductive NP where
  | TEMPERATURE | HUMIDITY | CONTINENTALNESS | EROSION | SHIFT | WEIRDNESS
deriving DecidableEq, Repr

def NP.all : List NP := [.TEMPERATURE, .HUMIDITY, .CONTINENTALNESS, .EROSION, .SHIFT, .WEIRDNESS]

def init_climate_seed (xlo xhi : BitVec 64) (large : Bool) (nmax : Int) :
    NP → Option DoublePerlinNoise
  | .SHIFT =>
    xDoublePerlinInit fuel old
      ⟨xlo ^^^ 0x080518cf6af25384#64, xhi ^^^ 0x3f3dfb40a54febd5#64⟩ [1, 1, 1, 0] (-3) 4 nmax
  | .TEMPERATURE =>
    xDoublePerlinInit fuel old
      ⟨xlo ^^^ (if large then 0x944b0073edf549db#64 else 0x5c7e6b29735f0d7f#64),
        xhi ^^^ (if large then 0x4ff44347e9d22b96#64 else 0xf7d86f1bbc734988#64)⟩
      [3 / 2, 0, 1, 0, 0, 0] (if large then -12 else -10) 6 nmax
  | .HUMIDITY =>
    xDoublePerlinInit fuel old
      ⟨xlo ^^^ (if large then 0x71b8ab943dbd5301#64 else 0x81bb4d22e8dc168e#64),
        xhi ^^^ (if large then 0xbb63ddcf39ff7a2b#64 else 0xf1c8b4bea16303cd#64)⟩
      [1, 1, 0, 0, 0, 0] (if large then -10 else -8) 6 nmax
  | .CONTINENTALNESS =>
    xDoublePerlinInit fuel old
      ⟨xlo ^^^ (if large then 0x9a3f51a113fce8dc#64 else 0x83886c9d0ae3a662#64),
        xhi ^^^ (if large then 0xee2dbd157e5dcdad#64 else 0xafa638a61b42e8ad#64)⟩
      [1, 1, 2, 2, 2, 1, 1, 1, 1] (if large then -11 else -9) 9 nmax
  | .EROSION =>
    xDoublePerlinInit fuel old
      ⟨xlo ^^^ (if large then 0x8c984b1f8702a951#64 else 0xd02491e6058f6fd8#64),
        xhi ^^^ (if large then 0xead7b1f92bae535f#64 else 0x4792512c94c17a80#64)⟩
      [1, 1, 0, 1, 1] (if large then -11 else -9) 5 nmax
  | .WEIRDNESS =>
    xDoublePerlinInit fuel old
      ⟨xlo ^^^ 0xefc8ef4d36102b34#64, xhi ^^^ 0x1beeeb324a0f24ea#64⟩ [1, 2, 1, 0, 0, 0] (-7) 6 nmax

/-- The climates of `setBiomeSeed`; none where the octave buffer is too small. -/
def setBiomeSeed (seed : BitVec 64) (large : Bool) : Option (List DoublePerlinNoise) := do
  let (xlo, pxr) := xNextLong (xSetSeed seed)
  let (xhi, _) := xNextLong pxr
  let climate ← NP.all.mapM (init_climate_seed fuel old xlo xhi large (-1))
  if (climate.map fun dpn => dpn.octA.length + dpn.octB.length).sum > 46 then none else some climate

end Octaves

end Omission.Cpu
