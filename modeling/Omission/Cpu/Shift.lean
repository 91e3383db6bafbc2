import Omission.Cpu.FindCenter
import Omission.Cpu.Origin
import Omission.Lib.Dominant
import Omission.Lib.Trunc

namespace Omission.Cpu
open Omission.Lib
set_option autoImplicit true

/-- The field, or the predicate on blocks, that lies `a` further along x and `b` along z. -/
def Field.shift (F : Field) (a b : Int) : Field := fun x z => F (x - a) (z - b)

def Square.move (Q : Square) (a b : Int) : Square := ⟨Q.cx + 4 * a, Q.cz + 4 * b, Q.range⟩

def Window.move (W : Window) (a b : Int) : Window := ⟨W.cx + 4 * a, W.cz + 4 * b, W.radius⟩

def PosArea.move (p : PosArea) (a b : Int) : PosArea := ⟨p.x + 4 * a, p.z + 4 * b, p.area⟩

def Best.move (best : Best) (a b : Int) : Best :=
  { best with x := best.x + 4 * a, z := best.z + 4 * b }

theorem sum_move (C : Finset (Int × Int)) (f : Int × Int → Int) (o a : Int) :
    ∑ c ∈ C, (o + a + f c) = ∑ c ∈ C, (o + f c) + C.card * a := by
  rw [← nsmul_eq_mul, ← Finset.sum_const, ← Finset.sum_add_distrib]
  apply Finset.sum_congr rfl
  intro c _
  exact Int.add_right_comm ..

section Center

variable (F : Field) (Q : Square) (a b : Int) (min_size : Int)

def sumX (C : Finset (Int × Int)) : Int := ∑ c ∈ C, (Q.ox + c.1)
def sumZ (C : Finset (Int × Int)) : Int := ∑ c ∈ C, (Q.oz + c.2)

/-- What `fast_find_center` finds here and there differs by the move. -/
def Moves (F' : Field) (Q' : Square) : Prop :=
  (LargeComponent F Q min_size ↔ LargeComponent F' Q' min_size) ∧
    (LargeComponent F Q min_size → ∀ s C s' C', FirstLargest Adj RowMajor (Q.cells F) s C →
      FirstLargest Adj RowMajor (Q'.cells F') s' C' →
        wrap 32 (16 * C'.card) = wrap 32 (16 * C.card) ∧
        (sumX Q' C').tdiv C'.card = (sumX Q C).tdiv C.card + a ∧
        (sumZ Q' C').tdiv C'.card = (sumZ Q C).tdiv C.card + b)

/-- The origin of the square moves along on both axes. -/
def Aligned : Prop := Steady 4 (Q.cx - Q.range.tdiv 2) a ∧ Steady 4 (Q.cz - Q.range.tdiv 2) b

/-- How far the moved square lies from where the first one moves to. -/
def Square.slip : Int × Int ≃ Int × Int :=
  Equiv.addLeft ((Q.move a b).ox - a - Q.ox, (Q.move a b).oz - b - Q.oz)

/-- The cells of the moved square, by column and row of the first one. -/
def Square.slipped : Set (Int × Int) :=
  {c | Within Q.sx ((Q.slip a b).symm c).1 ((Q.slip a b).symm c).2 ∧
    F (Q.ox + c.1) (Q.oz + c.2) = true}

/-- Both squares have the same first largest component. -/
def SameIsland : Prop := ∃ s t C, FirstLargest Adj RowMajor (Q.cells F) s C ∧
  FirstLargest Adj RowMajor (Q.slipped F a b) t C

/-- An island in both squares is larger than all that reach into one of them only. -/
def Inner : Prop := ∃ K, Dominant Adj (Q.cells F) (Q.slipped F a b) K

/-- No island of the two squares together is large enough. -/
def AllSmall : Prop := ∀ s ∈ Q.cells F ∪ Q.slipped F a b, ∀ D,
  IsComp Adj (Q.cells F ∪ Q.slipped F a b) s D → 16 * (D.card : Int) < min_size

variable {F Q a b min_size}

theorem find_center_result (F : Field) (Q : Square) (min_size : Int) : ∃ found,
    find_center F Q min_size = some found ∧
      (found = none ∧ ¬ LargeComponent F Q min_size ∨
        LargeComponent F Q min_size ∧ ∃ s C, FirstLargest Adj RowMajor (Q.cells F) s C ∧
          found = some ⟨center (sumX Q C) C.card, center (sumZ Q C) C.card,
            wrap 32 (16 * C.card)⟩) := by
  obtain ⟨found, hfound, hsome⟩ := isSome_find_center F Q min_size
  refine ⟨found, hfound, ?_⟩
  cases found with
  | none => exact .inl ⟨rfl, hsome.not.1 Bool.false_ne_true⟩
  | some p =>
    obtain ⟨best, hbest, hlargest⟩ := find_center_spec F Q min_size
    have hp : best.result min_size = some p := Option.some.inj (hbest.symm.trans hfound)
    rcases hlargest with ⟨rfl, -⟩ | ⟨s, C, hC, rfl⟩
    · cases hp
    · refine .inr ⟨hsome.1 rfl, s, C, hC, ?_⟩
      have harea : (C.card : Int) * (Square.scale * Square.scale) = 16 * C.card := Int.mul_comm _ _
      rw [Center.Best.result] at hp
      dsimp only at hp
      rw [harea] at hp
      split at hp
      · cases hp
      split at hp
      · exact hp.symm
      · cases hp

theorem origin_move (h : Aligned Q a b) :
    (Q.move a b).ox = Q.ox + a ∧ (Q.move a b).oz = Q.oz + b := by
  have hshift : ∀ c r d : Int, c + 4 * d - r = c - r + 4 * d := fun c r d => by omega
  constructor
  · change (Q.cx + 4 * a - Q.range.tdiv 2).tdiv 4 = _
    rw [hshift]
    exact (tdiv_add_mul_iff (by decide)).2 h.1
  · change (Q.cz + 4 * b - Q.range.tdiv 2).tdiv 4 = _
    rw [hshift]
    exact (tdiv_add_mul_iff (by decide)).2 h.2

theorem center_eq_iff : center s n = center t m + 4 * a ↔ s.tdiv n = t.tdiv m + a := by
  have hcenter : ∀ s n, center s n = 4 * s.tdiv n + 2 := by
    intro s n
    rw [center, show (2 * s.tdiv n + 1) * Square.scale = 2 * (4 * s.tdiv n + 2) by
      rw [Square.scale]; ring, Int.mul_tdiv_cancel_left _ (by decide)]
  rw [hcenter, hcenter]
  omega

theorem find_center_moves_iff (F : Field) (Q : Square) (a b min_size : Int) : ∃ found found',
    find_center F Q min_size = some found ∧
      find_center (F.shift a b) (Q.move a b) min_size = some found' ∧
      (found' = found.map (·.move a b) ↔ Moves F Q a b min_size (F.shift a b) (Q.move a b)) := by
  obtain ⟨found, hfound, hres⟩ := find_center_result F Q min_size
  obtain ⟨found', hfound', hres'⟩ := find_center_result (F.shift a b) (Q.move a b) min_size
  refine ⟨found, found', hfound, hfound', ?_⟩
  rcases hres with ⟨rfl, hnot⟩ | ⟨hlarge, s, C, hC, rfl⟩ <;>
    rcases hres' with ⟨rfl, hnot'⟩ | ⟨hlarge', s', C', hC', rfl⟩
  · exact iff_of_true rfl ⟨iff_of_false hnot hnot', fun h => absurd h hnot⟩
  · exact iff_of_false nofun fun h => hnot (h.1.2 hlarge')
  · exact iff_of_false nofun fun h => hnot' (h.1.1 hlarge)
  · rw [Option.map_some, Option.some.injEq, PosArea.move, PosArea.mk.injEq, center_eq_iff,
      center_eq_iff]
    dsimp only
    constructor
    · rintro ⟨hx, hz, harea⟩
      refine ⟨iff_of_true hlarge hlarge', ?_⟩
      intro _ t D t' D' hD hD'
      rw [hD.unique RowMajor.total hC, hD'.unique RowMajor.total hC']
      exact ⟨harea, hx, hz⟩
    · intro h
      obtain ⟨harea, hx, hz⟩ := h.2 hlarge s C s' C' hC hC'
      exact ⟨hx, hz, harea⟩

theorem cells_move (ha : Aligned Q a b) : (Q.move a b).cells (F.shift a b) = Q.cells F := by
  obtain ⟨hx, hz⟩ := origin_move ha
  ext c
  apply and_congr_right
  intro _
  rw [Field.shift, hx, hz, show Q.ox + a + c.1 - a = Q.ox + c.1 by omega,
    show Q.oz + b + c.2 - b = Q.oz + c.2 by omega]

/-- Where the square moves along, its largest component does, and the sums decide. -/
theorem moves_iff_of_aligned (ha : Aligned Q a b) :
    Moves F Q a b min_size (F.shift a b) (Q.move a b) ↔ (LargeComponent F Q min_size →
      ∀ s C, FirstLargest Adj RowMajor (Q.cells F) s C →
        Steady C.card (sumX Q C) a ∧ Steady C.card (sumZ Q C) b) := by
  obtain ⟨hx, hz⟩ := origin_move ha
  have hsteady : ∀ C : Finset (Int × Int), C.Nonempty →
      ((sumX (Q.move a b) C).tdiv C.card = (sumX Q C).tdiv C.card + a ↔
        Steady C.card (sumX Q C) a) ∧
      ((sumZ (Q.move a b) C).tdiv C.card = (sumZ Q C).tdiv C.card + b ↔
        Steady C.card (sumZ Q C) b) := by
    intro C hC
    have hpos : (0 : Int) < C.card := by exact_mod_cast hC.card_pos
    simp only [sumX, sumZ, hx, hz, sum_move]
    exact ⟨tdiv_add_mul_iff hpos, tdiv_add_mul_iff hpos⟩
  rw [Moves, LargeComponent, LargeComponent, cells_move ha]
  constructor
  · rintro ⟨-, h⟩ hlarge s C hC
    obtain ⟨-, hmx, hmz⟩ := h hlarge s C s C hC hC
    obtain ⟨hsx, hsz⟩ := hsteady C ⟨s, (hC.comp s).2 (.refl hC.mem)⟩
    exact ⟨hsx.1 hmx, hsz.1 hmz⟩
  · intro h
    refine ⟨Iff.rfl, ?_⟩
    intro hlarge s C s' C' hC hC'
    obtain rfl := hC.unique RowMajor.total hC'
    obtain ⟨hsx, hsz⟩ := hsteady C ⟨s, (hC.comp s).2 (.refl hC.mem)⟩
    obtain ⟨hmx, hmz⟩ := h hlarge s C hC
    exact ⟨rfl, hsx.2 hmx, hsz.2 hmz⟩

theorem mem_cells_iff_slipped (c : Int × Int) :
    c ∈ (Q.move a b).cells (F.shift a b) ↔ Q.slip a b c ∈ Q.slipped F a b := by
  have hx : (Q.move a b).ox + c.1 - a = Q.ox + ((Q.move a b).ox - a - Q.ox + c.1) := by omega
  have hz : (Q.move a b).oz + c.2 - b = Q.oz + ((Q.move a b).oz - b - Q.oz + c.2) := by omega
  simp only [Square.cells, Square.slipped, Set.mem_ofPred_eq, Equiv.symm_apply_apply, Field.shift]
  rw [hx, hz]
  rfl

theorem adj_slip (c d : Int × Int) : Adj c d ↔ Adj (Q.slip a b c) (Q.slip a b d) := by
  simp only [Adj, Square.slip, Equiv.coe_addLeft, Prod.ext_iff, Prod.fst_add, Prod.snd_add]
  constructor
  · rintro ⟨e, he, hx, hz⟩
    exact ⟨e, he, by omega, by omega⟩
  · rintro ⟨e, he, hx, hz⟩
    exact ⟨e, he, by omega, by omega⟩

theorem rowMajor_slip (c d : Int × Int) :
    RowMajor c d ↔ RowMajor (Q.slip a b c) (Q.slip a b d) := by
  simp only [RowMajor, Square.slip, Equiv.coe_addLeft, Prod.fst_add, Prod.snd_add]
  omega

theorem firstLargest_slip
    (h : FirstLargest Adj RowMajor ((Q.move a b).cells (F.shift a b)) s C) :
    FirstLargest Adj RowMajor (Q.slipped F a b) (Q.slip a b s)
      (C.map (Q.slip a b).toEmbedding) :=
  h.map (Q.slip a b) adj_slip rowMajor_slip mem_cells_iff_slipped

theorem sum_slip (C : Finset (Int × Int)) :
    sumX (Q.move a b) C = sumX Q (C.map (Q.slip a b).toEmbedding) + C.card * a ∧
      sumZ (Q.move a b) C = sumZ Q (C.map (Q.slip a b).toEmbedding) + C.card * b := by
  simp only [sumX, sumZ, Finset.sum_map, Equiv.coe_toEmbedding, Square.slip, Equiv.coe_addLeft,
    Prod.fst_add, Prod.snd_add]
  rw [← sum_move, ← sum_move]
  constructor
  · exact Finset.sum_congr rfl fun c _ => by omega
  · exact Finset.sum_congr rfl fun c _ => by omega

theorem moves_iff_of_same (h : SameIsland F Q a b) :
    Moves F Q a b min_size (F.shift a b) (Q.move a b) ↔ (LargeComponent F Q min_size →
      ∀ s C, FirstLargest Adj RowMajor (Q.cells F) s C →
        Steady C.card (sumX Q C) a ∧ Steady C.card (sumZ Q C) b) := by
  obtain ⟨s, t, C, hC, hC'⟩ := h
  have hsame : ∀ s' C', FirstLargest Adj RowMajor ((Q.move a b).cells (F.shift a b)) s' C' →
      C'.map (Q.slip a b).toEmbedding = C ∧ C'.card = C.card := by
    intro s' C' hs
    have hmap := (firstLargest_slip hs).unique RowMajor.total hC'
    refine ⟨hmap, ?_⟩
    rw [← hmap, Finset.card_map]
  have hpos : (0 : Int) < C.card := by
    exact_mod_cast Finset.card_pos.2 ⟨s, (hC.comp s).2 (.refl hC.mem)⟩
  obtain ⟨s', C', hs'⟩ : ∃ s' C',
      FirstLargest Adj RowMajor ((Q.move a b).cells (F.shift a b)) s' C' := by
    refine ⟨_, _, hC'.map (Q.slip a b).symm ?_ ?_ ?_⟩
    · intro c d
      rw [adj_slip (Q := Q) (a := a) (b := b) ((Q.slip a b).symm c), Equiv.apply_symm_apply,
        Equiv.apply_symm_apply]
    · intro c d
      rw [rowMajor_slip (Q := Q) (a := a) (b := b) ((Q.slip a b).symm c), Equiv.apply_symm_apply,
        Equiv.apply_symm_apply]
    · intro c
      rw [mem_cells_iff_slipped, Equiv.apply_symm_apply]
  have hlarge : LargeComponent F Q min_size ↔
      LargeComponent (F.shift a b) (Q.move a b) min_size := by
    constructor
    · rintro ⟨t, D, hD, hle⟩
      obtain rfl := hD.unique RowMajor.total hC
      refine ⟨s', C', hs', ?_⟩
      rw [(hsame s' C' hs').2]
      exact hle
    · rintro ⟨t, D, hD, hle⟩
      refine ⟨s, C, hC, ?_⟩
      rw [← (hsame t D hD).2]
      exact hle
  have hsteady : ∀ s' C', FirstLargest Adj RowMajor ((Q.move a b).cells (F.shift a b)) s' C' →
      ((sumX (Q.move a b) C').tdiv C'.card = (sumX Q C).tdiv C.card + a ↔
        Steady C.card (sumX Q C) a) ∧
      ((sumZ (Q.move a b) C').tdiv C'.card = (sumZ Q C).tdiv C.card + b ↔
        Steady C.card (sumZ Q C) b) := by
    intro s' C' hs
    obtain ⟨hmap, hcard⟩ := hsame s' C' hs
    obtain ⟨hx, hz⟩ := sum_slip (Q := Q) (a := a) (b := b) C'
    rw [hx, hz, hmap, hcard]
    exact ⟨tdiv_add_mul_iff hpos, tdiv_add_mul_iff hpos⟩
  constructor
  · rintro ⟨-, hmoves⟩ hl t D hD
    obtain rfl := hD.unique RowMajor.total hC
    obtain ⟨-, hmx, hmz⟩ := hmoves hl s D s' C' hC hs'
    exact ⟨(hsteady s' C' hs').1.1 hmx, (hsteady s' C' hs').2.1 hmz⟩
  · intro hs
    refine ⟨hlarge, ?_⟩
    intro hl t D t' D' hD hD'
    obtain rfl := hD.unique RowMajor.total hC
    obtain ⟨hsx, hsz⟩ := hs hl s D hC
    exact ⟨by rw [(hsame t' D' hD').2], (hsteady t' D' hD').1.2 hsx, (hsteady t' D' hD').2.2 hsz⟩

theorem mem_bound (hc : c ∈ Q.cells F ∪ Q.slipped F a b) :
    c ∈ cellsOf Q.sx Q.sx ∪ (cellsOf Q.sx Q.sx).map (Q.slip a b).toEmbedding := by
  rw [Finset.mem_union]
  rcases hc with hc | hc
  · exact .inl (mem_cellsOf.2 hc.1)
  · refine .inr (Finset.mem_map.2 ⟨(Q.slip a b).symm c, mem_cellsOf.2 hc.1, ?_⟩)
    exact (Q.slip a b).apply_symm_apply c

theorem same_of_inner (h : Inner F Q a b) : SameIsland F Q a b := by
  obtain ⟨K, hK⟩ := h
  obtain ⟨t, ht, hcomp⟩ := hK.comp
  obtain ⟨hin, hin'⟩ := hK.inside ((hcomp t).2 (.refl ht))
  obtain ⟨s, C, hC⟩ := exists_firstLargest F Q ⟨t, hin⟩
  obtain ⟨s', C', hC'⟩ := exists_firstLargest (F.shift a b) (Q.move a b)
    ⟨(Q.slip a b).symm t, by rwa [mem_cells_iff_slipped, Equiv.apply_symm_apply]⟩
  have hslip := firstLargest_slip hC'
  have hsame := hK.unique (fun _ => mem_bound) RowMajor.total hC hslip
  rw [← hsame] at hslip
  exact ⟨s, _, C, hC, hslip⟩

theorem not_large_of_small {S T : Set (Int × Int)} (hST : S ⊆ T) {B : Finset (Int × Int)}
    (hB : ∀ c ∈ T, c ∈ B)
    (h : ∀ s ∈ T, ∀ D, IsComp Adj T s D → 16 * (D.card : Int) < min_size)
    (hC : FirstLargest Adj RowMajor S s C) : wrap 32 (16 * C.card) < min_size := by
  obtain ⟨D, hD⟩ := exists_isComp hB Adj s
  have hcard := hC.comp.card_le hST hD
  have hlt := h s (hST hC.mem) D hD
  obtain ⟨-, hbound⟩ := fits_wrap (w := 32) (by decide) (16 * (C.card : Int))
  by_cases hfit : 16 * (C.card : Int) < 2 ^ 31
  · have hfits : Fits 32 (16 * (C.card : Int)) := ⟨by omega, by omega⟩
    rw [(wrap_eq_iff (by decide)).2 hfits]
    omega
  · omega

theorem moves_of_small (h : AllSmall F Q a b min_size) :
    Moves F Q a b min_size (F.shift a b) (Q.move a b) := by
  have hnot : ¬ LargeComponent F Q min_size := by
    rintro ⟨s, C, hC, hle⟩
    have hlt := not_large_of_small Set.subset_union_left (fun _ => mem_bound) h hC
    omega
  have hnot' : ¬ LargeComponent (F.shift a b) (Q.move a b) min_size := by
    rintro ⟨s, C, hC, hle⟩
    have hlt := not_large_of_small Set.subset_union_right (fun _ => mem_bound) h
      (firstLargest_slip hC)
    rw [Finset.card_map] at hlt
    omega
  exact ⟨iff_of_false hnot hnot', fun hl => absurd hl hnot⟩

end Center

section Measure

variable (P : Field) (W : Window) (from_center : Bool)

/-- The cells of the window that are of the biome, by column and row. -/
def Window.cells : Set (Int × Int) :=
  {c | Within W.gw c.1 c.2 ∧ P (W.ox + c.1) (W.oz + c.2) = true}

/-- The component that `measure_1to1` reports. -/
def Measured (C : Finset (Int × Int)) : Prop :=
  if from_center then (W.radius, W.radius) ∈ W.cells P ∧
    IsComp Adj (W.cells P) (W.radius, W.radius) C
  else ∃ s, FirstLargest Adj RowMajor (W.cells P) s C

def blockSumX (C : Finset (Int × Int)) : Int := ∑ c ∈ C, (W.ox + c.1)
def blockSumZ (C : Finset (Int × Int)) : Int := ∑ c ∈ C, (W.oz + c.2)

structure Best.Reports (C : Finset (Int × Int)) (best : Best) : Prop where
  nonempty : C.Nonempty
  count : best.count = C.card
  x : best.x = (blockSumX W C).tdiv C.card
  z : best.z = (blockSumZ W C).tdiv C.card
  hit_edge : best.hit_edge = true ↔ ∃ c ∈ C, OnBorder W.gw c

variable {P W from_center}

theorem live_restrict : live (restrict P W) = W.cells P := by
  ext ⟨i, j⟩
  apply and_congr_right
  intro hc
  rw [restricts_restrict P W i j hc]
  cases P (W.ox + i) (W.oz + j) <;> decide

theorem Measured.unique {C D : Finset (Int × Int)} (h : Measured P W from_center C)
    (h' : Measured P W from_center D) : C = D := by
  cases from_center with
  | false =>
    obtain ⟨s, hs⟩ := h
    obtain ⟨t, ht⟩ := h'
    exact hs.unique RowMajor.total ht
  | true => exact h.2.unique h'.2

theorem measure_reports (P : Field) (W : Window) (from_center : Bool) :
    ∃ best, measure_1to1 W (restrict P W) from_center = some best ∧
      (best = ⟨0, W.cx, W.cz, false⟩ ∧ (∀ C, ¬ Measured P W from_center C) ∨
        ∃ C, Measured P W from_center C ∧ best.Reports W C) := by
  cases from_center with
  | false =>
    obtain ⟨best, hm, -, hbest, -⟩ := measure_1to1_largest W (restrict P W)
    rw [live_restrict] at hbest
    refine ⟨best, hm, ?_⟩
    rcases hbest with ⟨rfl, hempty⟩ | ⟨s, C, hC⟩
    · refine .inl ⟨rfl, ?_⟩
      rintro C ⟨s, hs⟩
      have hmem := hs.mem
      rw [hempty] at hmem
      exact hmem
    · exact .inr ⟨C, ⟨s, hC.comp⟩, ⟨s, (hC.comp.comp s).2 (.refl hC.comp.mem)⟩, hC.count, hC.x,
        hC.z, hC.hit_edge⟩
  | true =>
    obtain ⟨best, hm, ⟨hn, rfl⟩ | ⟨hl, C, hC⟩⟩ := measure_1to1_center_spec W (restrict P W)
    · rw [live_restrict] at hn
      exact ⟨_, hm, .inl ⟨rfl, fun C h => hn h.1⟩⟩
    · have hborder := hC.border
      rw [live_restrict] at hl hC
      exact ⟨best, hm, .inr ⟨C, ⟨hl, hC.comp⟩, ⟨_, (hC.comp _).2 (.refl hl)⟩, hC.count, hC.x, hC.z,
        hborder⟩⟩

variable {a b : Int}

theorem Window.cells_move : (W.move a b).cells (P.shift (4 * a) (4 * b)) = W.cells P := by
  ext c
  apply and_congr_right
  intro _
  have hx : W.cx + 4 * a - W.radius + c.1 - 4 * a = W.cx - W.radius + c.1 := by omega
  have hz : W.cz + 4 * b - W.radius + c.2 - 4 * b = W.cz - W.radius + c.2 := by omega
  simp only [Field.shift, Window.ox, Window.oz, Window.move, hx, hz]

theorem measured_move : Measured (P.shift (4 * a) (4 * b)) (W.move a b) from_center =
    Measured P W from_center := by
  unfold Measured
  rw [Window.cells_move]
  rfl

theorem Best.Reports.move_iff {best best' : Best} {C : Finset (Int × Int)}
    (h : best.Reports W C) (h' : best'.Reports (W.move a b) C) : best' = best.move a b ↔
      Steady C.card (blockSumX W C) (4 * a) ∧ Steady C.card (blockSumZ W C) (4 * b) := by
  have hpos : (0 : Int) < C.card := by exact_mod_cast h.nonempty.card_pos
  have hox : (W.move a b).ox = W.ox + 4 * a := add_sub_right_comm ..
  have hoz : (W.move a b).oz = W.oz + 4 * b := add_sub_right_comm ..
  have hedge : best'.hit_edge = best.hit_edge :=
    Bool.eq_iff_iff.2 (h'.hit_edge.trans h.hit_edge.symm)
  rw [← tdiv_add_mul_iff hpos, ← tdiv_add_mul_iff hpos, blockSumX, blockSumZ, ← sum_move,
    ← sum_move, ← hox, ← hoz, ← blockSumX, ← blockSumZ, ← blockSumX, ← blockSumZ, ← h.x, ← h.z,
    ← h'.x, ← h'.z]
  obtain ⟨count, x, z, edge⟩ := best
  obtain ⟨count', x', z', edge'⟩ := best'
  obtain rfl : count' = count := h'.count.trans h.count.symm
  obtain rfl : edge' = edge := hedge
  simp only [Best.move, Best.mk.injEq, true_and, and_true]

theorem measure_moves_iff (P : Field) (W : Window) (from_center : Bool) (a b : Int) :
    ∃ best best', measure_1to1 W (restrict P W) from_center = some best ∧
      measure_1to1 (W.move a b) (restrict (P.shift (4 * a) (4 * b)) (W.move a b)) from_center =
        some best' ∧
      (best' = best.move a b ↔ ∀ C, Measured P W from_center C →
        Steady C.card (blockSumX W C) (4 * a) ∧ Steady C.card (blockSumZ W C) (4 * b)) := by
  obtain ⟨best, hm, hbest⟩ := measure_reports P W from_center
  obtain ⟨best', hm', hbest'⟩ := measure_reports (P.shift (4 * a) (4 * b)) (W.move a b) from_center
  rw [measured_move] at hbest'
  refine ⟨best, best', hm, hm', ?_⟩
  rcases hbest with ⟨rfl, hnone⟩ | ⟨C, hC, hr⟩ <;> rcases hbest' with ⟨rfl, hnone'⟩ | ⟨C', hC', hr'⟩
  · exact iff_of_true rfl fun C hC => absurd hC (hnone C)
  · exact absurd hC' (hnone C')
  · exact absurd hC (hnone' C)
  · obtain rfl := hC.unique hC'
    rw [hr.move_iff hr']
    constructor
    · intro h D hD
      obtain rfl := hC.unique hD
      exact h
    · exact fun h => h C hC

end Measure

/-- Centres move with the world exactly where the truncated means do: their sums are multiples of
the number of cells, or stay on one side of zero. -/
theorem centers_move_iff (F P : Field) (Q : Square) (W : Window) (from_center : Bool)
    (a b min_size : Int) :
    (∃ found found', find_center F Q min_size = some found ∧
      find_center (F.shift a b) (Q.move a b) min_size = some found' ∧
      (Aligned Q a b ∨ SameIsland F Q a b → (found' = found.map (·.move a b) ↔
        (LargeComponent F Q min_size → ∀ s C, FirstLargest Adj RowMajor (Q.cells F) s C →
          Steady C.card (sumX Q C) a ∧ Steady C.card (sumZ Q C) b))) ∧
      (Inner F Q a b → SameIsland F Q a b) ∧
      (AllSmall F Q a b min_size → found' = found.map (·.move a b))) ∧
    ∃ best best', measure_1to1 W (restrict P W) from_center = some best ∧
      measure_1to1 (W.move a b) (restrict (P.shift (4 * a) (4 * b)) (W.move a b)) from_center =
        some best' ∧
      (best' = best.move a b ↔ ∀ C, Measured P W from_center C →
        Steady C.card (blockSumX W C) (4 * a) ∧ Steady C.card (blockSumZ W C) (4 * b)) := by
  refine ⟨?_, measure_moves_iff P W from_center a b⟩
  obtain ⟨found, found', hfound, hfound', h⟩ := find_center_moves_iff F Q a b min_size
  refine ⟨found, found', hfound, hfound', ?_, same_of_inner, ?_⟩
  · rintro (ha | hsame)
    · exact h.trans (moves_iff_of_aligned ha)
    · exact h.trans (moves_iff_of_same hsame)
  · exact fun hsmall => h.2 (moves_of_small hsmall)

/-- Two cells at the z axis. -/
def pair : Field := fun x z => (x = 0 ∨ x = 1) ∧ z = 0

/-- One cell further west the centre of the two cells is reported in the same place. -/
theorem pair_stays : ¬ ∀ (F : Field) (Q : Square) (a b min_size : Int) (found : Option PosArea),
    find_center F Q min_size = some found →
    find_center (F.shift a b) (Q.move a b) min_size = some (found.map (·.move a b)) := by
  intro h
  have hhere : find_center pair ⟨6, 6, 12⟩ 16 = some (some ⟨2, 2, 32⟩) := by decide
  have hthere : find_center (pair.shift (-1) 0) (Square.move ⟨6, 6, 12⟩ (-1) 0) 16 =
      some (some ⟨2, 2, 32⟩) := by
    decide
  have hmoved := h pair ⟨6, 6, 12⟩ (-1) 0 16 _ hhere
  rw [hthere] at hmoved
  exact absurd hmoved (by decide)

end Omission.Cpu
