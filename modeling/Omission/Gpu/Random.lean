import Mathlib.Data.BitVec

namespace Omission.Gpu
set_option autoImplicit true

structure XrsrForkHash where
  lo : BitVec 64
  hi : BitVec 64
deriving DecidableEq

structure XrsrRandomFork where
  lo : BitVec 64
  hi : BitVec 64
deriving DecidableEq

/-- The state of the generator; `of` is its constructor. -/
structure XrsrRandom where
  lo : BitVec 64
  hi : BitVec 64
deriving DecidableEq

namespace XrsrRandom

def XRSR_MIX1 : BitVec 64 := 0xbf58476d1ce4e5b9#64
def XRSR_MIX2 : BitVec 64 := 0x94d049bb133111eb#64
def XRSR_SILVER_RATIO : BitVec 64 := 0x6a09e667f3bcc909#64
def XRSR_GOLDEN_RATIO : BitVec 64 := 0x9e3779b97f4a7c15#64

def mix64 (a : BitVec 64) : BitVec 64 :=
  let a := (a ^^^ (a >>> 30)) * XRSR_MIX1
  let a := (a ^^^ (a >>> 27)) * XRSR_MIX2
  a ^^^ (a >>> 31)

def rol64 (a : BitVec 64) (bits : Nat) : BitVec 64 := (a <<< bits) ||| (a >>> (64 - bits))

def of (lo hi : BitVec 64) : XrsrRandom :=
  if lo ||| hi = 0 then ⟨-7046029254386353131, 7640891576956012809⟩ else ⟨lo, hi⟩

def nextInternal (rng : XrsrRandom) : BitVec 64 × XrsrRandom :=
  let l := rng.lo
  let h := rng.hi
  let r := rol64 (l + h) 17 + l
  let h := h ^^^ l
  (r, ⟨rol64 l 49 ^^^ h ^^^ (h <<< 21), rol64 h 28⟩)

def nextBits (bits : Nat) (rng : XrsrRandom) : BitVec 64 × XrsrRandom :=
  (rng.nextInternal.1 >>> (64 - bits), rng.nextInternal.2)

def nextInt32 (rng : XrsrRandom) : BitVec 32 × XrsrRandom :=
  (rng.nextInternal.1.setWidth 32, rng.nextInternal.2)

/-- `l * bound` of the next draw. -/
def nextProduct (bound : BitVec 32) (rng : XrsrRandom) : BitVec 64 × XrsrRandom :=
  (rng.nextInt32.1.setWidth 64 * bound.setWidth 64, rng.nextInt32.2)

/-- `while (n < j)`, for at most `fuel` tests. -/
def reject (bound j : BitVec 32) : Nat → BitVec 64 × XrsrRandom → Option (BitVec 64 × XrsrRandom)
  | 0, _ => none
  | fuel + 1, (m, rng) =>
    let n := m &&& 0xFFFFFFFF#64
    if n < j.setWidth 64 then reject bound j fuel (rng.nextProduct bound) else some (m, rng)

def nextInt (fuel : Nat) (bound : BitVec 32) (rng : XrsrRandom) :
    Option (BitVec 32 × XrsrRandom) := do
  let (m, rng) := rng.nextProduct bound
  let n := m &&& 0xFFFFFFFF#64
  let (m, rng) ←
    if n < bound.setWidth 64 then reject bound ((~~~bound + 1) % bound) fuel (m, rng)
    else some (m, rng)
  some ((m >>> 32).setWidth 32, rng)

end XrsrRandom

def XrsrRandomFork.from (fork : XrsrRandomFork) (hash : XrsrForkHash) : XrsrRandom :=
  .of (fork.lo ^^^ hash.lo) (fork.hi ^^^ hash.hi)

open XrsrRandom in
def XrsrRandom_seed_fork (seed : BitVec 64) : XrsrRandomFork :=
  let seed := seed ^^^ XRSR_SILVER_RATIO
  let l := mix64 seed
  let h := mix64 (seed + XRSR_GOLDEN_RATIO)
  let r1 := rol64 (l + h) 17 + l
  let h := h ^^^ l
  let l2 := rol64 l 49 ^^^ h ^^^ (h <<< 21)
  let h2 := rol64 h 28
  let r2 := rol64 (l2 + h2) 17 + l2
  ⟨r1, r2⟩

open XrsrRandom in
def XrsrRandom_double_fork (rng : XrsrRandom) : XrsrRandomFork × XrsrRandomFork :=
  let l := rng.lo
  let h := rng.hi
  let r1 := rol64 (l + h) 17 + l
  let h := h ^^^ l
  let l2 := rol64 l 49 ^^^ h ^^^ (h <<< 21)
  let h2 := rol64 h 28
  let r2 := rol64 (l2 + h2) 17 + l2
  let h2 := h2 ^^^ l2
  let l3 := rol64 l2 49 ^^^ h2 ^^^ (h2 <<< 21)
  let h3 := rol64 h2 28
  let r3 := rol64 (l3 + h3) 17 + l3
  let h3 := h3 ^^^ l3
  let l4 := rol64 l3 49 ^^^ h3 ^^^ (h3 <<< 21)
  let h4 := rol64 h3 28
  let r4 := rol64 (l4 + h4) 17 + l4
  (⟨r1, r2⟩, ⟨r3, r4⟩)

end Omission.Gpu
