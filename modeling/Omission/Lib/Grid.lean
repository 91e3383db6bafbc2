import Mathlib.Data.Int.Range
import Omission.Lib.Rect

namespace Omission.Lib
set_option autoImplicit true

/-- A square of `gw` by `gw` cells, stored row by row. -/
structure Grid (β : Type u) (gw : Int) where
  cells : Array β
  size_cells : cells.size = gw.toNat * gw.toNat

def Within (gw i j : Int) : Prop := 0 ≤ i ∧ i < gw ∧ 0 ≤ j ∧ j < gw

instance : Decidable (Within gw i j) := inferInstanceAs (Decidable (_ ∧ _))

namespace Grid

def fill (gw : Int) (v : β) : Grid β gw := ⟨Array.replicate (gw.toNat * gw.toNat) v, by simp⟩

/-- The cell at column `i` of row `j`; an index outside the storage has no value. -/
def read (g : Grid β gw) (i j : Int) : Option β :=
  if 0 ≤ j * gw + i then g.cells[(j * gw + i).toNat]? else none

def write (g : Grid β gw) (i j : Int) (v : β) : Option (Grid β gw) :=
  if h : 0 ≤ j * gw + i ∧ (j * gw + i).toNat < g.cells.size then
    some ⟨g.cells.set (j * gw + i).toNat v h.2, by rw [Array.size_set, g.size_cells]⟩
  else none

-- the cells of a grid are those of a square rectangle
theorem index_lt (h : Within gw i j) :
    0 ≤ j * gw + i ∧ (j * gw + i).toNat < gw.toNat * gw.toNat :=
  Rect.index_lt h

theorem index_inj (h : Within gw i j) (h' : Within gw i' j')
    (he : j * gw + i = j' * gw + i') : i = i' ∧ j = j' :=
  Rect.index_inj h h' he

theorem exists_read (g : Grid β gw) (h : Within gw i j) : ∃ v, g.read i j = some v := by
  obtain ⟨h0, hlt⟩ := index_lt h
  rw [← g.size_cells] at hlt
  exact ⟨g.cells[(j * gw + i).toNat], by rw [read, if_pos h0, Array.getElem?_eq_getElem hlt]⟩

theorem write_spec (g : Grid β gw) (h : Within gw i j) (v : β) :
    ∃ g', g.write i j v = some g' ∧ g'.read i j = some v ∧
      ∀ i' j', Within gw i' j' → (i', j') ≠ (i, j) → g'.read i' j' = g.read i' j' := by
  obtain ⟨h0, hlt⟩ := index_lt h
  rw [← g.size_cells] at hlt
  refine ⟨_, dif_pos ⟨h0, hlt⟩, ?_, ?_⟩
  · simp [read, h0]
  · intro i' j' h' hne
    obtain ⟨h0', -⟩ := index_lt h'
    have hidx : (j * gw + i).toNat ≠ (j' * gw + i').toNat := by
      intro he
      obtain ⟨rfl, rfl⟩ := index_inj h' h (by omega)
      exact hne rfl
    simp [read, h0', hidx]

def tabulate (gw : Int) (f : Int → Int → β) : Grid β gw :=
  ⟨Array.ofFn fun k : Fin (gw.toNat * gw.toNat) => f (k % gw) (k / gw), by simp⟩

theorem read_tabulate (h : Within gw i j) (f : Int → Int → β) :
    (tabulate gw f).read i j = some (f i j) := by
  obtain ⟨h0, hlt⟩ := index_lt h
  obtain ⟨hi, hi', -⟩ := h
  have hk : ((j * gw + i).toNat : Int) = i + j * gw := by omega
  have hmod : (i + j * gw) % gw = i := by
    rw [Int.add_mul_emod_self_right, Int.emod_eq_of_lt hi hi']
  have hdiv : (i + j * gw) / gw = j := by
    rw [Int.add_comm, Rect.index_div hi hi']
  simp only [read, if_pos h0, tabulate, Array.getElem?_ofFn, hlt, dif_pos, hk, hmod, hdiv]

end Grid

end Omission.Lib
