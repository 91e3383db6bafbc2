import Mathlib.Data.Finset.Card
import Mathlib.Data.Finset.Prod

namespace Omission.Lib
set_option autoImplicit true

/-- `w` by `h` cells, stored row by row. -/
structure Rect (β : Type u) (w h : Int) where
  cells : Array β
  size_cells : cells.size = w.toNat * h.toNat

def Inside (w h i j : Int) : Prop := 0 ≤ i ∧ i < w ∧ 0 ≤ j ∧ j < h

instance : Decidable (Inside w h i j) := inferInstanceAs (Decidable (_ ∧ _))

/-- All cells of the rectangle. -/
def cellsOf (w h : Int) : Finset (Int × Int) :=
  (Finset.range w.toNat ×ˢ Finset.range h.toNat).image fun c => (c.1, c.2)

theorem mem_cellsOf {c : Int × Int} : c ∈ cellsOf w h ↔ Inside w h c.1 c.2 := by
  obtain ⟨i, j⟩ := c
  simp only [cellsOf, Finset.mem_image, Finset.mem_product, Finset.mem_range, Prod.exists,
    Prod.mk.injEq, Inside]
  constructor
  · rintro ⟨k, l, ⟨hk, hl⟩, rfl, rfl⟩
    omega
  · rintro ⟨hi, hi', hj, hj'⟩
    exact ⟨i.toNat, j.toNat, by omega, by omega, by omega⟩

theorem card_cellsOf (w h : Int) : (cellsOf w h).card = w.toNat * h.toNat := by
  have hinj : Function.Injective fun c : Nat × Nat => ((c.1 : Int), (c.2 : Int)) := by
    rintro ⟨i, j⟩ ⟨k, l⟩ he
    simp only [Prod.mk.injEq] at he ⊢
    omega
  rw [cellsOf, Finset.card_image_of_injective _ hinj, Finset.card_product, Finset.card_range,
    Finset.card_range]

/-- Different cells are at most as many as there are in the rectangle. -/
theorem length_le_of_inside {l : List (Int × Int)} (hl : l.Nodup)
    (hin : ∀ c ∈ l, Inside w h c.1 c.2) : l.length ≤ w.toNat * h.toNat := by
  rw [← card_cellsOf, ← List.toFinset_card_of_nodup hl]
  apply Finset.card_le_card
  intro c hc
  exact mem_cellsOf.2 (hin c (List.mem_toFinset.1 hc))

/-- The cells in the order of two nested loops. -/
def rowsOf (w h : Int) : List (Int × Int) :=
  (List.range h.toNat).flatMap fun j : Nat =>
    (List.range w.toNat).map fun i : Nat => ((i : Int), (j : Int))

theorem mem_rowsOf {c : Int × Int} : c ∈ rowsOf w h ↔ Inside w h c.1 c.2 := by
  obtain ⟨i, j⟩ := c
  simp only [rowsOf, List.mem_flatMap, List.mem_map, List.mem_range, Prod.mk.injEq, Inside]
  constructor
  · rintro ⟨l, hl, k, hk, rfl, rfl⟩
    omega
  · rintro ⟨hi, hi', hj, hj'⟩
    exact ⟨j.toNat, by omega, i.toNat, by omega, by omega⟩

namespace Rect

def fill (w h : Int) (v : β) : Rect β w h := ⟨Array.replicate (w.toNat * h.toNat) v, by simp⟩

theorem index_lt (hin : Inside w h i j) :
    0 ≤ j * w + i ∧ (j * w + i).toNat < w.toNat * h.toNat := by
  obtain ⟨hi, hi', hj, hj'⟩ := hin
  have hw : 0 < w := hi.trans_lt hi'
  have hrow : 0 ≤ j * w := Int.mul_nonneg hj hw.le
  have hlast : (j + 1) * w ≤ h * w := Int.mul_le_mul_of_nonneg_right hj' hw.le
  rw [Int.add_mul, Int.one_mul] at hlast
  have hcast : (w.toNat * h.toNat : Nat) = (h * w).toNat := by
    rw [Int.toNat_mul (hj.trans hj'.le) hw.le, Nat.mul_comm]
  rw [hcast]
  omega

theorem index_div {i j : Int} (hi : 0 ≤ i) (hi' : i < w) : (j * w + i) / w = j := by
  rw [Int.add_comm, Int.add_mul_ediv_right _ _ (by omega), Int.ediv_eq_zero_of_lt hi hi',
    Int.zero_add]

theorem index_inj (hin : Inside w h i j) (hin' : Inside w h i' j')
    (he : j * w + i = j' * w + i') : i = i' ∧ j = j' := by
  have hj : j = j' := by
    rw [← index_div (w := w) (j := j) hin.1 hin.2.1, he, index_div hin'.1 hin'.2.1]
  subst hj
  exact ⟨by omega, rfl⟩

theorem index_lt_size (g : Rect β w h) (hin : Inside w h i j) :
    (j * w + i).toNat < g.cells.size := by
  rw [g.size_cells]
  exact (index_lt hin).2

/-- The cell at column `i` of row `j`; outside of the rectangle there is none. -/
def read (g : Rect β w h) (i j : Int) : Option β :=
  if Inside w h i j then g.cells[(j * w + i).toNat]? else none

def write (g : Rect β w h) (i j : Int) (v : β) : Option (Rect β w h) :=
  if hin : Inside w h i j then
    some ⟨g.cells.set (j * w + i).toNat v (g.index_lt_size hin), by
      rw [Array.size_set, g.size_cells]⟩
  else none

theorem exists_read (g : Rect β w h) (hin : Inside w h i j) : ∃ v, g.read i j = some v := by
  have hlt := g.index_lt_size hin
  exact ⟨g.cells[(j * w + i).toNat], by rw [read, if_pos hin, Array.getElem?_eq_getElem hlt]⟩

theorem inside_of_read {g : Rect β w h} (hv : g.read i j = some v) : Inside w h i j := by
  by_contra hin
  rw [read, if_neg hin] at hv
  cases hv

theorem write_spec (g : Rect β w h) (hin : Inside w h i j) (v : β) :
    ∃ g', g.write i j v = some g' ∧ g'.read i j = some v ∧
      ∀ i' j', (i', j') ≠ (i, j) → g'.read i' j' = g.read i' j' := by
  refine ⟨_, dif_pos hin, ?_, ?_⟩
  · simp only [read, if_pos hin, Array.getElem?_set_self]
  · intro i' j' hne
    by_cases hin' : Inside w h i' j'
    · obtain ⟨h0, -⟩ := index_lt hin
      obtain ⟨h0', -⟩ := index_lt hin'
      have hidx : (j * w + i).toNat ≠ (j' * w + i').toNat := by
        intro he
        obtain ⟨rfl, rfl⟩ := index_inj hin' hin (by omega)
        exact hne rfl
      simp only [read, if_pos hin', Array.getElem?_set_ne _ hidx]
    · rw [read, read, if_neg hin', if_neg hin']

/-- Writes one after the other, each inside the rectangle. -/
theorem writes_spec {cs : List (Int × Int)} (hcs : ∀ c ∈ cs, Inside w h c.1 c.2)
    (g : Rect β w h) (f : Int → Int → β) :
    ∃ g', cs.foldlM (fun g c => g.write c.1 c.2 (f c.1 c.2)) g = some g' ∧
      ∀ i j, g'.read i j = if (i, j) ∈ cs then some (f i j) else g.read i j := by
  induction cs generalizing g with
  | nil =>
    refine ⟨g, rfl, fun i j => ?_⟩
    rw [if_neg List.not_mem_nil]
  | cons c cs ih =>
    obtain ⟨hc, hcs⟩ := List.forall_mem_cons.1 hcs
    obtain ⟨g₁, hwrite, hself, hother⟩ := g.write_spec hc (f c.1 c.2)
    obtain ⟨g₂, hfold, hread⟩ := ih hcs g₁
    refine ⟨g₂, ?_, fun i j => ?_⟩
    · rw [List.foldlM_cons, hwrite]
      exact hfold
    · rw [hread]
      by_cases hmem : (i, j) ∈ cs
      · rw [if_pos hmem, if_pos (List.mem_cons_of_mem c hmem)]
      · by_cases he : (i, j) = c
        · subst he
          rw [if_neg hmem, if_pos List.mem_cons_self]
          exact hself
        · have hnot : (i, j) ∉ c :: cs := fun h => (List.mem_cons.1 h).elim he hmem
          rw [if_neg hmem, if_neg hnot, hother i j he]

/-- Two nested loops that write every cell. -/
def paint (g : Rect β w h) (f : Int → Int → β) : Option (Rect β w h) :=
  (rowsOf w h).foldlM (fun g c => g.write c.1 c.2 (f c.1 c.2)) g

theorem paint_spec (g : Rect β w h) (f : Int → Int → β) :
    ∃ g', g.paint f = some g' ∧ ∀ i j, Inside w h i j → g'.read i j = some (f i j) := by
  have hrows : ∀ c ∈ rowsOf w h, Inside w h c.1 c.2 := fun c => mem_rowsOf.1
  obtain ⟨g', hfold, hread⟩ := writes_spec hrows g f
  refine ⟨g', hfold, fun i j hin => ?_⟩
  rw [hread, if_pos (mem_rowsOf.2 hin)]

theorem read_fill (hin : Inside w h i j) (v : β) : (fill w h v).read i j = some v := by
  rw [read, if_pos hin, fill, Array.getElem?_replicate, if_pos (index_lt hin).2]

end Rect

end Omission.Lib
