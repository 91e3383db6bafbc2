import Omission.Cpu.Largest
import Omission.Lib.Wrap

namespace Omission.Cpu
open Omission.Lib
set_option autoImplicit true

structure PosArea where
  x : Int
  z : Int
  area : Int
deriving DecidableEq

/-- Whether a scale-4 cell is of the biome. -/
abbrev Field := Int → Int → Bool

section Field

variable (F : Field) (Q : Square)

/-- The cells of the square that are of the biome, by column and row. -/
def Square.cells : Set (Int × Int) :=
  {c | Within Q.sx c.1 c.2 ∧ F (Q.ox + c.1) (Q.oz + c.2) = true}

/-- What the threads leave in `grid`. -/
def Square.grid : Grid Int8 Q.sx :=
  .tabulate Q.sx fun i j => if F (Q.ox + i) (Q.oz + j) then 1 else 0

/-- A largest component of the square is large enough as far as an `int32_t` tells. -/
def LargeComponent (min_size : Int) : Prop := ∃ s C,
  FirstLargest Adj RowMajor (Q.cells F) s C ∧ min_size ≤ wrap 32 (16 * C.card)

def center (sum n : Int) : Int := ((2 * sum.tdiv n + 1) * Square.scale).tdiv 2

/-- What `fast_find_center` makes of its best component; the double behind a centre is exact. -/
def Center.Best.result (best : Center.Best) (min_size : Int) : Option PosArea :=
  if best.best_n = 0 then none
  else
    let res : PosArea := ⟨center best.best_sx best.best_n, center best.best_sz best.best_n,
      wrap 32 (best.best_n * (Square.scale * Square.scale))⟩
    if res.area ≥ min_size then some res else none

/-- The outer `Option` is a fault, the inner one the answer of `fast_find_center`. -/
def find_center (min_size : Int) : Option (Option PosArea) := do
  let best ← fast_find_center Q (Q.grid F)
  some (best.result min_size)

variable {F Q}

theorem live_grid : live (Q.grid F) = Q.cells F := by
  ext ⟨i, j⟩
  apply and_congr_right
  intro hc
  rw [Square.grid, Grid.read_tabulate hc]
  cases F (Q.ox + i) (Q.oz + j) <;> decide

theorem find_center_spec (F : Field) (Q : Square) (min_size : Int) : ∃ best : Center.Best,
    find_center F Q min_size = some (best.result min_size) ∧
      (best = ⟨0, 0, 0⟩ ∧ Q.cells F = ∅ ∨ ∃ s C, FirstLargest Adj RowMajor (Q.cells F) s C ∧
        best = ⟨C.card, ∑ c ∈ C, (Q.ox + c.1), ∑ c ∈ C, (Q.oz + c.2)⟩) := by
  obtain ⟨best, hbest, -, hlargest, -⟩ := fast_find_center_largest Q (Q.grid F)
  rw [live_grid] at hlargest
  refine ⟨best, ?_, hlargest⟩
  rw [find_center, hbest]
  rfl

theorem exists_firstLargest (F : Field) (Q : Square) (h : (Q.cells F).Nonempty) :
    ∃ s C, FirstLargest Adj RowMajor (Q.cells F) s C := by
  obtain ⟨best, -, ⟨-, hempty⟩ | ⟨s, C, hC, -⟩⟩ := find_center_spec F Q 0
  · rw [hempty] at h
    exact absurd h Set.not_nonempty_empty
  · exact ⟨s, C, hC⟩

theorem isSome_result {best : Center.Best} : (best.result min_size).isSome ↔
    best.best_n ≠ 0 ∧ min_size ≤ wrap 32 (best.best_n * (Square.scale * Square.scale)) := by
  rw [Center.Best.result]
  split
  · next h => exact iff_of_false (by decide) fun hn => hn.1 h
  · next h =>
    dsimp only
    split
    · next harea => exact iff_of_true rfl ⟨h, harea⟩
    · next harea => exact iff_of_false (by decide) fun hn => harea hn.2

theorem isSome_find_center (F : Field) (Q : Square) (min_size : Int) : ∃ found,
    find_center F Q min_size = some found ∧
    (found.isSome ↔ LargeComponent F Q min_size) := by
  obtain ⟨best, hfind, ⟨rfl, hempty⟩ | ⟨s, C, hC, rfl⟩⟩ := find_center_spec F Q min_size
  · refine ⟨_, hfind, iff_of_false Bool.false_ne_true ?_⟩
    rintro ⟨s, C, hC, -⟩
    have hs := hC.mem
    rw [hempty] at hs
    exact hs
  · refine ⟨_, hfind, isSome_result.trans ?_⟩
    have harea : (C.card : Int) * (Square.scale * Square.scale) = 16 * C.card := Int.mul_comm _ _
    have hcard : C.card ≠ 0 := Finset.card_ne_zero_of_mem ((hC.comp s).2 (.refl hC.mem))
    dsimp only
    rw [harea]
    constructor
    · exact fun h => ⟨s, C, hC, h.2⟩
    · rintro ⟨t, C', hC', hle⟩
      refine ⟨by exact_mod_cast hcard, ?_⟩
      have hsize : C'.card = C.card :=
        Nat.le_antisymm (hC.largest t hC'.mem C' hC'.comp).1 (hC'.largest s hC.mem C hC.comp).1
      rwa [← hsize]

end Field

end Omission.Cpu
