import Mathlib.Algebra.Order.Group.Unbundled.Int
import Mathlib.Tactic.NormNum
import Mathlib.Tactic.Linarith

namespace Omission.Cpu
set_option autoImplicit true

def mcStepSeed (s salt : BitVec 64) : BitVec 64 :=
  s * (s * 6364136223846793005#64 + 1442695040888963407#64) + salt

/-- The shift of a cell's centre along one axis, drawn from the state `s`. -/
def cellShift (s : BitVec 64) : Int := (((s >>> 24) &&& 1023#64).toNat - 512) * 36

def getVoronoiCell (sha : BitVec 64) (a b c : Int) : Int × Int × Int :=
  let s := [a, b, c, a, b, c].foldl (fun s k => mcStepSeed s (BitVec.ofInt 64 k)) sha
  let s' := mcStepSeed s sha
  let s'' := mcStepSeed s' sha
  (cellShift s, cellShift s', cellShift s'')

/-- Bit `k` of the corner number `i`, as in `(i & k) != 0`. -/
def bit (i k : Nat) : Int := if i &&& k ≠ 0 then 1 else 0

/-- The squared distance of corner `i` and its cell, for the naive cell `p` and the offset `d`
of the block in it. -/
def corner (sha : BitVec 64) (p d : Int × Int × Int) (i : Nat) : BitVec 64 × Int × Int × Int :=
  let bx := bit i 4
  let by' := bit i 2
  let bz := bit i 1
  let cx := p.1 + bx
  let cy := p.2.1 + by'
  let cz := p.2.2 + bz
  let r := getVoronoiCell sha cx cy cz
  let rx := r.1 + (d.1 - 40 * 1024 * bx)
  let ry := r.2.1 + (d.2.1 - 40 * 1024 * by')
  let rz := r.2.2 + (d.2.2 - 40 * 1024 * bz)
  (BitVec.ofInt 64 rx * BitVec.ofInt 64 rx + BitVec.ofInt 64 ry * BitVec.ofInt 64 ry +
    BitVec.ofInt 64 rz * BitVec.ofInt 64 rz, cx, cy, cz)

/-- The loop over the corners: the nearest so far is `a`, at distance `dmin`. -/
def nearest (sha : BitVec 64) (p d : Int × Int × Int) :
    List Nat → BitVec 64 → Int × Int × Int → Int × Int × Int
  | [], _, a => a
  | i :: is, dmin, a =>
    if (corner sha p d i).1 < dmin then nearest sha p d is (corner sha p d i).1 (corner sha p d i).2
    else nearest sha p d is dmin a

def sar2 (x : Int) : Int := x >>> (2 : Nat)

def voronoiAccess3D (sha : BitVec 64) (x y z : Int) : Int × Int × Int :=
  let x := x - 2
  let y := y - 2
  let z := z - 2
  nearest sha (sar2 x, sar2 y, sar2 z) (x % 4 * 10240, y % 4 * 10240, z % 4 * 10240)
    (List.range 8) (BitVec.allOnes 64) (0, 0, 0)

theorem cellShift_bounds (s : BitVec 64) : -18432 ≤ cellShift s ∧ cellShift s ≤ 18396 := by
  have hle : ((s >>> 24) &&& 1023#64).toNat ≤ 1023 := by
    rw [BitVec.toNat_and]
    exact Nat.and_le_right
  unfold cellShift
  omega

theorem bit_bounds (i k : Nat) : 0 ≤ bit i k ∧ bit i k ≤ 1 := by
  unfold bit
  split <;> decide

theorem sum_squares_lt {x y z : Int} (hx : |x| ≤ 100000) (hy : |y| ≤ 100000)
    (hz : |z| ≤ 100000) :
    BitVec.ofInt 64 x * BitVec.ofInt 64 x + BitVec.ofInt 64 y * BitVec.ofInt 64 y +
      BitVec.ofInt 64 z * BitVec.ofInt 64 z < BitVec.allOnes 64 := by
  have square : ∀ w : Int, |w| ≤ 100000 → 0 ≤ w * w ∧ w * w ≤ 10000000000 := by
    intro w hw
    obtain ⟨hl, hu⟩ := abs_le.1 hw
    constructor <;> nlinarith
  obtain ⟨hx0, hx1⟩ := square x hx
  obtain ⟨hy0, hy1⟩ := square y hy
  obtain ⟨hz0, hz1⟩ := square z hz
  rw [← BitVec.ofInt_mul, ← BitVec.ofInt_mul, ← BitVec.ofInt_mul, ← BitVec.ofInt_add,
    ← BitVec.ofInt_add, BitVec.lt_def, BitVec.toNat_ofInt, BitVec.toNat_allOnes]
  rw [Int.emod_eq_of_lt (by omega) (by omega)]
  omega

theorem corner_lt (sha : BitVec 64) {p d : Int × Int × Int} (h1 : 0 ≤ d.1 ∧ d.1 ≤ 30720)
    (h2 : 0 ≤ d.2.1 ∧ d.2.1 ≤ 30720) (h3 : 0 ≤ d.2.2 ∧ d.2.2 ≤ 30720) (i : Nat) :
    (corner sha p d i).1 < BitVec.allOnes 64 := by
  have shift : ∀ (s : BitVec 64) (e : Int) (k : Nat), 0 ≤ e ∧ e ≤ 30720 →
      |cellShift s + (e - 40 * 1024 * bit i k)| ≤ 100000 := by
    intro s e k he
    have hs := cellShift_bounds s
    have hb := bit_bounds i k
    rw [abs_le]
    omega
  exact sum_squares_lt (shift _ _ _ h1) (shift _ _ _ h2) (shift _ _ _ h3)

def Near (p c : Int × Int × Int) : Prop :=
  (c.1 = p.1 ∨ c.1 = p.1 + 1) ∧ (c.2.1 = p.2.1 ∨ c.2.1 = p.2.1 + 1) ∧
    (c.2.2 = p.2.2 ∨ c.2.2 = p.2.2 + 1)

theorem corner_near (sha : BitVec 64) (p d : Int × Int × Int) (i : Nat) :
    Near p (corner sha p d i).2 := by
  have step : ∀ (a : Int) k, a + bit i k = a ∨ a + bit i k = a + 1 := by
    intro a k
    have := bit_bounds i k
    omega
  exact ⟨step _ _, step _ _, step _ _⟩

theorem nearest_near (sha : BitVec 64) (p d : Int × Int × Int) (is : List Nat)
    (dmin : BitVec 64) {a : Int × Int × Int} (h : Near p a) :
    Near p (nearest sha p d is dmin a) := by
  induction is generalizing dmin a with
  | nil => exact h
  | cons i is ih =>
    rw [nearest]
    split
    · exact ih _ (corner_near sha p d i)
    · exact ih _ h

/-- The lookup ends in the naive cell or one next to it on the upper side. -/
theorem voronoiAccess3D_near (sha : BitVec 64) (x y z : Int) :
    Near (sar2 (x - 2), sar2 (y - 2), sar2 (z - 2)) (voronoiAccess3D sha x y z) := by
  have hoff : ∀ a : Int, 0 ≤ a % 4 * 10240 ∧ a % 4 * 10240 ≤ 30720 := by
    intro a
    omega
  have hrange : List.range 8 = 0 :: (List.range 7).map Nat.succ := List.range_succ_eq_map
  rw [voronoiAccess3D, hrange, nearest,
    if_pos (corner_lt sha (hoff (x - 2)) (hoff (y - 2)) (hoff (z - 2)) 0)]
  exact nearest_near sha _ _ _ _ (corner_near sha _ _ 0)

end Omission.Cpu
