import Mathlib.Data.BitVec

namespace Omission.Gpu

/-- A candidate position of one seed, in quarter blocks. -/
structure SeedPos where
  seed_index : BitVec 32
  x : BitVec 32
  z : BitVec 32
deriving DecidableEq, Repr, Inhabited

end Omission.Gpu
