import Mathlib.Data.Rat.Defs
import Omission.Gpu.Random
import Omission.Lib.Exchange

namespace Omission.Gpu
open Omission.Lib
set_option autoImplicit true

/-- The indices of a permutation table, so that `0 : Fin 256` is the same term everywhere. -/
instance neZero_256 : NeZero 256 := ⟨by decide⟩

theorem mod_256_lt (i : Int) : (i % 256).toNat < 256 := by
  omega

/-- One octave. The offsets are kept as the 24-bit integers behind `xo`, `yo` and `zo`. -/
structure ImprovedNoise where
  p : Vector UInt8 256
  xo : BitVec 64
  yo : BitVec 64
  zo : BitVec 64
deriving DecidableEq

def shuffle_round (fuel : Nat) (s : Vector UInt8 256 × XrsrRandom) (i : Nat) :
    Option (Vector UInt8 256 × XrsrRandom) := do
  let (j, random) ← s.2.nextInt fuel (BitVec.ofNat 32 (256 - i))
  let p ← exchange s.1 i (i + j.toNat)
  some (p, random)

def init_noise (fuel : Nat) (random : XrsrRandom) : Option ImprovedNoise := do
  let (xo, random) := random.nextBits 24
  let (yo, random) := random.nextBits 24
  let (zo, random) := random.nextBits 24
  let (p, _) ← (List.range 256).foldlM (shuffle_round fuel)
    (Vector.ofFn fun i => UInt8.ofNat i, random)
  some ⟨p, xo, yo, zo⟩

structure NoiseParameters where
  first_octave : Int
  amplitudes : List Rat

def continentalness_parameters : NoiseParameters := ⟨-9, [1, 1, 2, 2, 2, 1, 1, 1, 1]⟩
def continentalness_large_parameters : NoiseParameters := ⟨-11, [1, 1, 2, 2, 2, 1, 1, 1, 1]⟩

def hash_continentalness : XrsrForkHash := ⟨0x83886c9d0ae3a662#64, 0xafa638a61b42e8ad#64⟩
def hash_continentalness_large : XrsrForkHash := ⟨0x9a3f51a113fce8dc#64, 0xee2dbd157e5dcdad#64⟩

def hash_octave : List XrsrForkHash :=
  [⟨0xb198de63a8012672#64, 0x7b84cad43ef7b5a8#64⟩,
   ⟨0x0fd787bfbc403ec3#64, 0x74a4a31ca21b48b8#64⟩,
   ⟨0x36d326eed40efeb2#64, 0x5be9ce18223c636a#64⟩,
   ⟨0x082fe255f8be6631#64, 0x4e96119e22dedc81#64⟩,
   ⟨0x0ef68ec68504005e#64, 0x48b6bf93a2789640#64⟩,
   ⟨0xf11268128982754f#64, 0x257a1d670430b0aa#64⟩,
   ⟨0xe51c98ce7d1de664#64, 0x5f9478a733040c45#64⟩,
   ⟨0x6d7b49e7e429850a#64, 0x2e3063c622a24777#64⟩,
   ⟨0xbd90d5377ba1b762#64, 0xc07317d419a7548d#64⟩,
   ⟨0x53d39c6752dac858#64, 0xbcd1c5a80ab65b3e#64⟩,
   ⟨0xb4a24d7a84e7677b#64, 0x023ff9668e89b5c4#64⟩,
   ⟨0xdffa22b534c5f608#64, 0xb9b67517d3665ca9#64⟩,
   ⟨0xd50708086cef4d7c#64, 0x6e1651ecc7f43309#64⟩]

structure OctaveConfig where
  fork_hash : XrsrForkHash
  input_factor : Rat
  value_factor : Rat
deriving DecidableEq

structure NormalNoiseConfig where
  fork_hash : XrsrForkHash
  octaves_a : List OctaveConfig
  octaves_b : List OctaveConfig

/-- The constants of `make_normal_noise_config`, in exact arithmetic. -/
def make_normal_noise_config (noise_parameters : NoiseParameters) (fork_hash : XrsrForkHash) :
    NormalNoiseConfig :=
  let first_octave := noise_parameters.first_octave
  let amplitudes := noise_parameters.amplitudes
  let size := amplitudes.length
  let root_value_factor : Rat :=
    (16666666666666666 / 100000000000000000) / ((1 / 10) * (1 + 1 / (size : Rat)))
  let input_factor : Rat := 1 / 2 ^ (-first_octave).toNat
  let value_factor : Rat := 2 ^ (size - 1) / (2 ^ size - 1) * root_value_factor
  let octave (scale : Rat) (i : Nat) : OctaveConfig :=
    ⟨hash_octave.getD (first_octave + 12 + i).toNat ⟨0, 0⟩, input_factor * 2 ^ i * scale,
      value_factor / 2 ^ i * amplitudes.getD i 0⟩
  ⟨fork_hash, (List.range size).map (octave 1),
    (List.range size).map (octave (10181268882175227 / 10000000000000000))⟩

def continentalness_config : NormalNoiseConfig :=
  make_normal_noise_config continentalness_parameters hash_continentalness

def continentalness_large_config : NormalNoiseConfig :=
  make_normal_noise_config continentalness_large_parameters hash_continentalness_large

def chosen_continentalness_config (large_biomes : Bool) : NormalNoiseConfig :=
  if large_biomes then continentalness_large_config else continentalness_config

inductive Half where
  | A | B
deriving DecidableEq, Repr

def Half.octaves (config : NormalNoiseConfig) : Half → List OctaveConfig
  | .A => config.octaves_a
  | .B => config.octaves_b

/-- `noise_a_fork` or `noise_b_fork`. -/
def Half.fork (forks : XrsrRandomFork × XrsrRandomFork) : Half → XrsrRandomFork
  | .A => forks.1
  | .B => forks.2

def noise_random (large_biomes : Bool) (seed : BitVec 64) : XrsrRandom :=
  (XrsrRandom_seed_fork seed).from (chosen_continentalness_config large_biomes).fork_hash

def noise_fork (large_biomes : Bool) (seed : BitVec 64) (half : Half) : XrsrRandomFork :=
  half.fork (XrsrRandom_double_fork (noise_random large_biomes seed))

/-- What the kernels store in `continentalness_kA` and `continentalness_kB`. -/
def octave_noise (fuel : Nat) (large_biomes : Bool) (seed : BitVec 64) (half : Half) (k : Nat) :
    Option ImprovedNoise := do
  let octave ← (half.octaves (chosen_continentalness_config large_biomes))[k]?
  init_noise fuel ((noise_fork large_biomes seed half).from octave.fork_hash)

end Omission.Gpu
