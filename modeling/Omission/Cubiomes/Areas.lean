import Mathlib.Algebra.Order.Field.Basic
import Mathlib.Data.Rat.Defs
import Mathlib.Tactic.NormNum
import Omission.Cpu.Shift
import Omission.Cubiomes.Centers

namespace Omission.Cubiomes
open Omission.Lib Omission.Cpu
set_option autoImplicit true

/-- The side of the square that `process`, `process_origin` and `sizecheck` search. -/
def search_range (large_biomes : Bool) : Int := 12800 * (if large_biomes then 4 else 1)

def max_radius (large_biomes : Bool) : Int := if large_biomes then 24576 else 8192

/-- The products in `cubiomes_test_monte_carlo` one after the other. -/
def monte_carlo_areas (r : Range) : List Int :=
  [r.sx * r.sz, r.sx * r.sz * r.scale, r.sx * r.sz * r.scale * r.scale]

/-- The fraction that `monteCarloBiomes` gets. -/
def fraction (r : Range) (min_area : Int) : Rat :=
  min_area / (wrap 32 (wrap 32 (wrap 32 (r.sx * r.sz) * r.scale) * r.scale) : Int)

/-- No area that is computed in a search around `(cx, cz)` leaves the 32 bits, and the fraction is
that of the true area; `P` is the biome by blocks. -/
structure AreasFit (D : Type) [DoubleOps D] (large_biomes : Bool) (limits F P : Field)
    (cx cz : Int) : Prop where
  monte_carlo : ∀ v ∈ monte_carlo_areas (make_range cx cz (search_range large_biomes) 4), Fits 32 v
  fraction : ∀ min_area, 0 < min_area →
    min_area ≤ search_range large_biomes * search_range large_biomes →
      fraction (make_range cx cz (search_range large_biomes) 4) min_area =
        min_area / (search_range large_biomes * search_range large_biomes : Int) ∧
      0 < fraction (make_range cx cz (search_range large_biomes) 4) min_area ∧
      fraction (make_range cx cz (search_range large_biomes) 4) min_area ≤ 1
  centers : ∀ scale, scale = 4 ∨ scale = 16 → ∀ minsiz tol found,
    getBiomeCentersOpt D limits 1 (make_range cx cz (search_range large_biomes) scale)
      (fun x z => if F x z then mushroom_fields else -1) mushroom_fields minsiz tol 0 =
        some found → ∀ x ∈ found, Fits 32 (x.2 * (scale * scale))
  find_center : ∀ best,
    fast_find_center ⟨cx, cz, search_range large_biomes⟩ (Square.grid F _) = some best →
      Fits 32 (best.best_n * (Square.scale * Square.scale))
  count : ∀ W : Window, W.radius ≤ max_radius large_biomes → ∀ from_center best,
    measure_1to1 W (restrict P W) from_center = some best → Fits 32 best.count
  counts : ∀ W : Window, W.radius ≤ max_radius large_biomes →
    ∀ fill ∈ measure_1to1_fills W (restrict P W), Fits 32 fill.2.length

section Normal

variable {D : Type} [DoubleOps D] {info : Info}

theorem Found.le {starts : Int × Int → Prop} (h : Found D info starts minsiz x) :
    ∃ n : Nat, x.2 = n ∧ n ≤ info.r.sx.toNat * info.r.sz.toNat := by
  obtain ⟨ids, c, st, C, -, -, -, hC, rfl, -⟩ := h
  refine ⟨C.card, hC.n, ?_⟩
  rw [← card_cellsOf]
  apply Finset.card_le_card
  intro c hc
  exact mem_cellsOf.2 ((hC.mem c).1 hc).1.1.1

theorem centers_fit (F limits : Field) (cx cz : Int) (hscale : scale = 4 ∨ scale = 16)
    (hfound : getBiomeCentersOpt D limits 1 (make_range cx cz 12800 scale)
      (fun x z => if F x z then mushroom_fields else -1) mushroom_fields minsiz tol 0 = some found)
    (hx : x ∈ found) : Fits 32 (x.2 * (scale * scale)) := by
  obtain ⟨found', hfound', hall⟩ := getBiomeCentersOpt_spec D limits 1
    (make_range cx cz 12800 scale) (fun x z => if F x z then mushroom_fields else -1)
    mushroom_fields minsiz tol 0
  cases hfound.symm.trans hfound'
  obtain ⟨n, hn, hle⟩ := (hall x hx).le
  rw [hn]
  rcases hscale with rfl | rfl
  · have hle : n ≤ 3200 * 3200 := hle
    exact ⟨by omega, by omega⟩
  · have hle : n ≤ 800 * 800 := hle
    exact ⟨by omega, by omega⟩

theorem find_center_fits {best : Center.Best} (F : Field) (cx cz : Int)
    (hbest : fast_find_center ⟨cx, cz, 12800⟩ (Square.grid F _) = some best) :
    Fits 32 (best.best_n * (Square.scale * Square.scale)) := by
  obtain ⟨best', hbest', hle, hlargest, -⟩ :=
    fast_find_center_largest ⟨cx, cz, 12800⟩ (Square.grid F _)
  cases hbest.symm.trans hbest'
  have hle : best.best_n ≤ 3200 * 3200 := hle
  have hpos : 0 ≤ best.best_n := by
    rcases hlargest with ⟨rfl, -⟩ | ⟨s, C, -, rfl⟩
    · exact Int.le_refl 0
    · exact Int.natCast_nonneg C.card
  change Fits 32 (best.best_n * (4 * 4))
  exact ⟨by omega, by omega⟩

theorem Measured.card_le {C : Finset (Int × Int)} (h : Measured P W from_center C) :
    C.card ≤ W.gw.toNat * W.gw.toNat := by
  rw [← card_cellsOf]
  apply Finset.card_le_card
  intro c hc
  apply mem_cellsOf.2
  cases from_center with
  | false =>
    obtain ⟨s, hs⟩ := h
    exact ((hs.comp c).1 hc).right.1
  | true => exact ((h.2 c).1 hc).right.1

/-- So many cells of a window of the normal build can be counted. -/
theorem fits_count {W : Window} {n : Nat} (hW : W.radius ≤ 8192)
    (hn : n ≤ W.gw.toNat * W.gw.toNat) : Fits 32 n := by
  have hgw : W.gw.toNat ≤ 16384 := by
    rw [Window.gw]
    omega
  have hle : n ≤ 16384 * 16384 := hn.trans (Nat.mul_le_mul hgw hgw)
  exact ⟨by omega, by omega⟩

theorem count_fits {best : Best} (hW : W.radius ≤ 8192)
    (hbest : measure_1to1 W (restrict P W) from_center = some best) : Fits 32 best.count := by
  obtain ⟨best', hbest', ⟨rfl, -⟩ | ⟨C, hC, hr⟩⟩ := measure_reports P W from_center
  · cases hbest.symm.trans hbest'
    exact (by decide : Fits 32 0)
  · cases hbest.symm.trans hbest'
    rw [hr.count]
    exact fits_count hW (Measured.card_le hC)

theorem counts_fit {fill : List (Int × Int) × List (Int × Int)} (hW : W.radius ≤ 8192)
    (hfill : fill ∈ measure_1to1_fills W (restrict P W)) : Fits 32 fill.2.length := by
  obtain ⟨best, -, -, -, hcounted⟩ := measure_1to1_largest W (restrict P W)
  obtain ⟨hnodup, hperm⟩ := hcounted.popped fill hfill
  obtain ⟨s, -, hcomp⟩ := hcounted.comp fill hfill
  apply fits_count hW
  apply nodup_length_le (g := restrict P W) (hperm.nodup_iff.2 hnodup)
  intro c hc
  exact ((hcomp c).1 (List.mem_toFinset.2 hc)).right

theorem fraction_normal (cx cz min_area : Int) : fraction (make_range cx cz 12800 4) min_area =
    min_area / (12800 * 12800 : Int) := by
  have harea : wrap 32 (wrap 32 (wrap 32 (3200 * 3200) * 4) * 4) = 12800 * 12800 := by decide
  exact congrArg (fun v : Int => (min_area : Rat) / v) harea

theorem fraction_unit {min_area : Int} (hpos : 0 < min_area) (hle : min_area ≤ 12800 * 12800) :
    0 < (min_area : Rat) / (12800 * 12800 : Int) ∧
      (min_area : Rat) / (12800 * 12800 : Int) ≤ 1 := by
  have harea : (0 : Rat) < (12800 * 12800 : Int) := by norm_num
  refine ⟨div_pos (by exact_mod_cast hpos) harea, (div_le_one harea).2 ?_⟩
  exact_mod_cast hle

theorem areasFit_normal (D : Type) [DoubleOps D] (limits F P : Field) (cx cz : Int) :
    AreasFit D false limits F P cx cz := by
  constructor
  · change ∀ v ∈ [3200 * 3200, 3200 * 3200 * 4, 3200 * 3200 * 4 * 4], Fits 32 v
    decide
  · intro min_area hpos hle
    have hfraction := fraction_normal cx cz min_area
    obtain ⟨hlow, hhigh⟩ := fraction_unit hpos hle
    rw [← hfraction] at hlow hhigh
    exact ⟨hfraction, hlow, hhigh⟩
  · intro scale hscale minsiz tol found hfound x hx
    exact centers_fit F limits cx cz hscale hfound hx
  · exact fun best hbest => find_center_fits F cx cz hbest
  · exact fun W hW from_center best hbest => count_fits hW hbest
  · exact fun W hW fill hfill => counts_fit hW hfill

end Normal

/-- The area of the search is cut to 32 bits in the large build, and comes out negative. -/
theorem fraction_large (cx cz : Int) (hpos : 0 < min_area) :
    fraction (make_range cx cz (search_range true) 4) min_area < 0 := by
  have harea : wrap 32 (wrap 32 (wrap 32 (12800 * 12800) * 4) * 4) = -1673527296 := by decide
  have heq : fraction (make_range cx cz (search_range true) 4) min_area =
      (min_area : Rat) / (-1673527296 : Int) :=
    congrArg (fun v : Int => (min_area : Rat) / v) harea
  rw [heq]
  exact div_neg_of_pos_of_neg (by exact_mod_cast hpos) (by norm_num)

theorem not_fits_large (cx cz : Int) :
    ¬ ∀ v ∈ monte_carlo_areas (make_range cx cz (search_range true) 4), Fits 32 v := by
  change ¬ ∀ v ∈ [12800 * 12800, 12800 * 12800 * 4, 12800 * 12800 * 4 * 4], Fits 32 v
  decide

/-- The areas fit for every biome and centre in the normal build and for none in the large one,
where every positive size becomes a negative fraction. -/
theorem areasFit_iff (D : Type) [DoubleOps D] (large_biomes : Bool) (limits F P : Field)
    (cx cz : Int) : (AreasFit D large_biomes limits F P cx cz ↔ large_biomes = false) ∧
      (large_biomes = true → ∀ min_area, 0 < min_area →
        fraction (make_range cx cz (search_range large_biomes) 4) min_area < 0) := by
  cases large_biomes with
  | false =>
    exact ⟨iff_of_true (areasFit_normal D limits F P cx cz) rfl, fun h => absurd h (by decide)⟩
  | true =>
    refine ⟨iff_of_false (fun h => not_fits_large cx cz h.monte_carlo) (by decide), ?_⟩
    exact fun _ min_area hpos => fraction_large cx cz hpos

/-- A search around the origin in the large build, in a world without the biome. -/
theorem large_wraps : ¬ ∀ (large_biomes : Bool) (limits F P : Field) (cx cz : Int),
    AreasFit Rat large_biomes limits F P cx cz := by
  intro h
  have hlarge := (h true (fun _ _ => false) (fun _ _ => false) (fun _ _ => false) 0 0).monte_carlo
  have hlast := hlarge (12800 * 12800 * 4 * 4) (by decide)
  exact absurd hlast (by decide)

end Omission.Cubiomes
