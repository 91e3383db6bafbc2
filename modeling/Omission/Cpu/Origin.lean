import Mathlib.Algebra.Group.Prod
import Mathlib.Algebra.Group.Units.Equiv
import Omission.Cpu.Measure

namespace Omission.Cpu
open Omission.Lib
set_option autoImplicit true

def blocks (P : Int → Int → Bool) : Set (Int × Int) := {b | P b.1 b.2 = true}

def Restricts (P : Int → Int → Bool) (W : Window) (pass : Grid Int8 W.gw) : Prop :=
  ∀ i j, Within W.gw i j → pass.read i j = some (if P (W.ox + i) (W.oz + j) then 1 else 0)

/-- The array that steps 1 and 2 build is the restriction of one predicate on blocks. -/
theorem restricts_of_builds {W : Window} {sample : Int → Int → Int × Int}
    {biome4 : Grid (Int8 × Int8) W.gw4} {mush_mask : Grid Int8 W.gw4} {pass : Grid Int8 W.gw}
    (hr : 0 < W.radius) (hn : 1 ≤ nthreads)
    (hb : (spawn W.gw4 nthreads old4).Builds (biome4_entry W sample) biome4)
    (hm : dilate biome4 = some mush_mask)
    (hp : (spawn W.gw nthreads old).Builds
      (pass_entry W (voronoiAccess3D sha) biome4 mush_mask) pass) :
    Restricts (fun x z => block_lookup sample (voronoiAccess3D sha) x z = 1) W pass := by
  intro i j hc
  rw [read_of_builds hr hn hb hm hp hc]
  rcases block_lookup_bool sample (voronoiAccess3D sha) (W.ox + i) (W.oz + j) with h0 | h1
  · simp only [h0]
    rfl
  · simp only [h1]
    rfl

def seen (P : Int → Int → Bool) (W : Window) : Set (Int × Int) :=
  {b | Within W.gw (b.1 - W.ox) (b.2 - W.oz) ∧ P b.1 b.2 = true}

def Window.shift (W : Window) : Int × Int ≃ Int × Int := Equiv.addLeft (W.ox, W.oz)

theorem Window.shift_apply (W : Window) (c : Int × Int) : W.shift c = (W.ox + c.1, W.oz + c.2) :=
  rfl

theorem adj_shift (W : Window) (a b : Int × Int) : Adj a b ↔ Adj (W.shift a) (W.shift b) := by
  simp only [Adj, W.shift_apply, Prod.ext_iff]
  constructor
  · rintro ⟨d, hd, hx, hz⟩
    exact ⟨d, hd, by omega, by omega⟩
  · rintro ⟨d, hd, hx, hz⟩
    exact ⟨d, hd, by omega, by omega⟩

section Plane

variable {P : Int → Int → Bool} {W W' : Window} {pass : Grid Int8 W.gw}

theorem mem_live_iff (h : Restricts P W pass) (c : Int × Int) :
    c ∈ live pass ↔ W.shift c ∈ seen P W := by
  have hi : W.ox + c.1 - W.ox = c.1 := by omega
  have hj : W.oz + c.2 - W.oz = c.2 := by omega
  simp only [seen, W.shift_apply, Set.mem_ofPred_eq, hi, hj]
  constructor
  · rintro ⟨hc, hr⟩
    rw [h c.1 c.2 hc] at hr
    refine ⟨hc, ?_⟩
    by_contra hP
    rw [if_neg hP] at hr
    exact absurd (Option.some.inj hr) (by decide)
  · rintro ⟨hc, hP⟩
    exact ⟨hc, by rw [h c.1 c.2 hc, if_pos hP]⟩

theorem seen_subset_blocks (P : Int → Int → Bool) (W : Window) : seen P W ⊆ blocks P :=
  fun _ h => h.2

theorem seen_mono (P : Int → Int → Bool) {r R : Int} (h : r ≤ R) (cx cz : Int) :
    seen P ⟨cx, cz, r⟩ ⊆ seen P ⟨cx, cz, R⟩ := by
  rintro b ⟨⟨hi, hi', hj, hj'⟩, hP⟩
  refine ⟨⟨?_, ?_, ?_, ?_⟩, hP⟩ <;>
    simp only [Window.ox, Window.oz, Window.gw] at * <;> omega

/-- The component that an answer describes, as blocks of the plane. -/
structure Best.Area (P : Int → Int → Bool) (W : Window) (b : Int × Int) (D : Finset (Int × Int))
    (best : Best) : Prop where
  comp : IsComp Adj (seen P W) b D
  count : best.count = D.card
  hit_edge : best.hit_edge = true ↔
    ∃ a ∈ D, ∃ c, Adj a c ∧ ¬ Within W.gw (c.1 - W.ox) (c.2 - W.oz)

theorem Best.Describes.area (h : Restricts P W pass) {best : Best}
    (hd : best.Describes W (live pass) s C) :
    best.Area P W (W.shift s) (C.map W.shift.toEmbedding) := by
  refine ⟨hd.comp.map W.shift (adj_shift W) (mem_live_iff h), ?_, ?_⟩
  · rw [hd.count, Finset.card_map]
  · rw [hd.hit_edge]
    constructor
    · rintro ⟨a, ha, c, hac, hout⟩
      refine ⟨W.shift a, Finset.mem_map_of_mem _ ha, W.shift c, (adj_shift W a c).1 hac, ?_⟩
      rwa [W.shift_apply, add_sub_cancel_left, add_sub_cancel_left]
    · rintro ⟨a', ha', c', hac, hout⟩
      obtain ⟨a, ha, rfl⟩ := Finset.mem_map.1 ha'
      obtain ⟨c, rfl⟩ := W.shift.surjective c'
      refine ⟨a, ha, c, (adj_shift W a c).2 hac, ?_⟩
      rwa [W.shift_apply, add_sub_cancel_left, add_sub_cancel_left] at hout

theorem Best.Area.complete {best : Best} (h : best.Area P W b D) (hb : b ∈ seen P W)
    (hedge : best.hit_edge = false) (hsub : seen P W ⊆ T) (hT : T ⊆ blocks P) :
    IsComp Adj T b D := by
  apply h.comp.of_subset hsub hb
  intro a ha c hac hc
  refine ⟨?_, hT hc⟩
  by_contra hout
  rw [h.hit_edge.2 ⟨a, ha, c, hac, hout⟩] at hedge
  cases hedge

end Plane

structure CpuOutput where
  seed : BitVec 64
  x : Int
  z : Int
  area : Int
deriving DecidableEq

def MUSHROOM_FIELDS : Int := 14

section ProcessOrigin

-- the array that steps 1 and 2 of `measure_1to1` build for a window
variable (pass : (W : Window) → Grid Int8 W.gw)

/-- The growing loop of `process_origin`, for at most `fuel` rounds. -/
def grow (max_radius : Int) : Nat → Int → Best → Option (Int × Best)
  | 0, _, _ => none
  | fuel + 1, radius, best =>
    if best.hit_edge = true ∧ radius < max_radius then
      let next := min (radius * 2) max_radius
      if next = radius then some (radius, best)
      else do
        let best ← measure_1to1 ⟨0, 0, next⟩ (pass ⟨0, 0, next⟩) true
        grow max_radius fuel next best
    else some (radius, best)

/-- The outer `Option` is a fault or a loop that does not end, the inner one the answer. -/
def process_origin (large_biomes fast_cpu : Bool) (biome_at_block : Int → Int → Int → Int)
    (test_monte_carlo : Int → Bool) (min_size : Int) (seed : BitVec 64) :
    Option (Option CpuOutput) :=
  if biome_at_block 0 SEA_LEVEL 0 ≠ MUSHROOM_FIELDS then some none
  else if fast_cpu then
    let range := 12800 * (if large_biomes then 4 else 1)
    if test_monte_carlo range then some (some ⟨seed, 0, 0, min_size⟩) else some none
  else do
    let max_radius : Int := if large_biomes then 24576 else 8192
    let best ← measure_1to1 ⟨0, 0, 2048⟩ (pass ⟨0, 0, 2048⟩) true
    let (_, best) ← grow pass max_radius max_radius.toNat 2048 best
    some (if best.count ≥ min_size then some ⟨seed, best.x, best.z, best.count⟩ else none)

def max_radius (large_biomes : Bool) : Int := if large_biomes then 24576 else 8192

/-- The radius after so many rounds of the growing loop. -/
def doubled (max_radius radius : Int) (k : Nat) : Int := min (radius * 2 ^ k) max_radius

/-- The growing loop has stopped after `k` rounds: every measurement before hit the edge, and the
last one did not, unless there is no larger radius. -/
structure Grown (max_radius radius : Int) (k : Nat) (best : Best) : Prop where
  measured : measure_1to1 ⟨0, 0, doubled max_radius radius k⟩
    (pass ⟨0, 0, doubled max_radius radius k⟩) true = some best
  stopped : best.hit_edge = true → doubled max_radius radius k = max_radius
  cut : ∀ j < k, doubled max_radius radius j < max_radius ∧ ∃ short,
    measure_1to1 ⟨0, 0, doubled max_radius radius j⟩ (pass ⟨0, 0, doubled max_radius radius j⟩)
      true = some short ∧ short.hit_edge = true

end ProcessOrigin

section Area

variable {P : Int → Int → Bool} {pass : (W : Window) → Grid Int8 W.gw}

theorem measure_center_area (h : ∀ W, Restricts P W (pass W)) (W : Window) :
    ∃ best, measure_1to1 W (pass W) true = some best ∧
      ((W.cx, W.cz) ∉ seen P W ∧ best.count = 0 ∧ best.hit_edge = false ∨
        (W.cx, W.cz) ∈ seen P W ∧ ∃ D, best.Area P W (W.cx, W.cz) D) := by
  have hc : W.shift (W.radius, W.radius) = (W.cx, W.cz) := by
    rw [W.shift_apply, Window.ox, Window.oz]
    simp
  obtain ⟨best, hm, ⟨hn, rfl⟩ | ⟨hl, C, hd⟩⟩ := measure_1to1_center_spec W (pass W)
  · refine ⟨_, hm, .inl ⟨?_, rfl, rfl⟩⟩
    rwa [mem_live_iff (h W), hc] at hn
  · refine ⟨best, hm, .inr ⟨?_, C.map W.shift.toEmbedding, hc ▸ hd.area (h W)⟩⟩
    rwa [mem_live_iff (h W), hc] at hl

theorem measure_area (h : ∀ W, Restricts P W (pass W)) (W : Window) :
    ∃ best, measure_1to1 W (pass W) false = some best ∧
      (best.count = 0 ∧ best.hit_edge = false ∨
        ∃ b ∈ seen P W, ∃ D, best.Area P W b D) ∧
      ∀ b ∈ seen P W, ∀ D, IsComp Adj (seen P W) b D → D.card ≤ best.count := by
  obtain ⟨best, hm, hbest, hmax⟩ := measure_1to1_spec W (pass W)
  refine ⟨best, hm, ?_, ?_⟩
  · rcases hbest with ⟨rfl, -⟩ | ⟨s, hs, C, hd⟩
    · exact .inl ⟨rfl, rfl⟩
    · exact .inr ⟨_, (mem_live_iff (h W) s).1 hs, _, hd.area (h W)⟩
  · intro b hb D hD
    obtain ⟨s, rfl⟩ := W.shift.surjective b
    have hs : s ∈ live (pass W) := (mem_live_iff (h W) s).2 hb
    obtain ⟨st, -, l, -, -, -, hf⟩ := flood_spec hs
    have hmap := hf.comp.map W.shift (adj_shift W) (mem_live_iff (h W))
    rw [hD.unique hmap, Finset.card_map]
    exact hmax s hs _ hf.comp

theorem mem_component {best : Best} (h : best.Area P W b D) (hb : b ∈ seen P W) : b ∈ D :=
  (h.comp b).2 (.refl hb)

theorem measure_center_stable (h : ∀ W, Restricts P W (pass W)) {r R : Int} (hrR : r ≤ R)
    {best : Best} (hb : (cx, cz) ∈ seen P ⟨cx, cz, r⟩)
    (ha : best.Area P ⟨cx, cz, r⟩ (cx, cz) D) (hedge : best.hit_edge = false) :
    ∃ best', measure_1to1 ⟨cx, cz, R⟩ (pass ⟨cx, cz, R⟩) true = some best' ∧
      best'.count = best.count := by
  have hsub := seen_mono P hrR cx cz
  obtain ⟨best', hm, ⟨hn, -⟩ | ⟨-, D', ha'⟩⟩ := measure_center_area h ⟨cx, cz, R⟩
  · exact absurd (hsub hb) hn
  · refine ⟨best', hm, ?_⟩
    have hD := ha.complete hb hedge hsub (seen_subset_blocks P _)
    rw [ha'.count, ha.count, hD.unique ha'.comp]

theorem measure_mono (h : ∀ W, Restricts P W (pass W)) {r R : Int} (hrR : r ≤ R) (cx cz : Int) :
    ∃ best best', measure_1to1 ⟨cx, cz, r⟩ (pass ⟨cx, cz, r⟩) false = some best ∧
      measure_1to1 ⟨cx, cz, R⟩ (pass ⟨cx, cz, R⟩) false = some best' ∧
      best.count ≤ best'.count := by
  have hsub := seen_mono P hrR cx cz
  obtain ⟨best, hm, hbest, -⟩ := measure_area h ⟨cx, cz, r⟩
  obtain ⟨best', hm', hbest', hmax⟩ := measure_area h ⟨cx, cz, R⟩
  refine ⟨best, best', hm, hm', ?_⟩
  rcases hbest with ⟨h0, -⟩ | ⟨b, hb, D, ha⟩
  · rw [h0]
    rcases hbest' with ⟨h0', -⟩ | ⟨_, -, D', ha'⟩
    · omega
    · rw [ha'.count]
      omega
  · obtain ⟨D', hD'⟩ : ∃ D', IsComp Adj (seen P ⟨cx, cz, R⟩) b D' := by
      obtain ⟨s, rfl⟩ := (Window.mk cx cz R).shift.surjective b
      obtain ⟨st, -, l, -, -, -, hf⟩ := flood_spec ((mem_live_iff (h _) s).2 (hsub hb))
      exact ⟨_, hf.comp.map _ (adj_shift _) (mem_live_iff (h _))⟩
    have hcard := ha.comp.card_le hsub hD'
    have hle := hmax b (hsub hb) D' hD'
    rw [ha.count]
    omega

theorem doubled_succ {max_radius : Int} (hpos : 0 < max_radius) (radius : Int) (k : Nat) :
    doubled max_radius (min (radius * 2) max_radius) k = doubled max_radius radius (k + 1) := by
  have hone : (1 : Int) ≤ 2 ^ k := Int.pow_pos (by decide)
  have hstay : max_radius ≤ max_radius * 2 ^ k := le_mul_of_one_le_right hpos.le hone
  have hnext : radius * 2 ^ (k + 1) = radius * 2 * 2 ^ k := by
    rw [pow_succ, mul_comm (2 ^ k) 2, mul_assoc]
  rw [doubled, doubled, hnext]
  rcases le_total (radius * 2) max_radius with hle | hle
  · rw [min_eq_left hle]
  · have hcut : max_radius * 2 ^ k ≤ radius * 2 * 2 ^ k :=
      mul_le_mul_of_nonneg_right hle (by omega)
    rw [min_eq_right hle]
    omega

/-- The growing loop ends, with the answer of the radius it stopped at. -/
theorem grow_spec (h : ∀ W, Restricts P W (pass W)) {max_radius : Int} {fuel : Nat}
    (hfuel : max_radius - radius < fuel) (hpos : 0 < radius) (hle : radius ≤ max_radius)
    (hm : measure_1to1 ⟨0, 0, radius⟩ (pass ⟨0, 0, radius⟩) true = some best) :
    ∃ k best', grow pass max_radius fuel radius best =
        some (doubled max_radius radius k, best') ∧
      radius ≤ doubled max_radius radius k ∧ Grown pass max_radius radius k best' := by
  induction fuel generalizing radius best with
  | zero => omega
  | succ fuel ih =>
    rw [grow]
    split
    · next hcond =>
      have hgrow : radius < min (radius * 2) max_radius := by omega
      obtain ⟨next, hnext, -⟩ := measure_center_area h ⟨0, 0, min (radius * 2) max_radius⟩
      obtain ⟨k, best', hg, hr, hgrown⟩ :=
        ih (by omega) (by omega) (Int.min_le_right ..) hnext
      have hdoubled := doubled_succ (Int.lt_trans hpos hcond.2) radius
      have hzero : doubled max_radius radius 0 = radius := by
        rw [doubled, pow_zero, mul_one, min_eq_left hle]
      rw [hdoubled] at hg hr
      refine ⟨k + 1, best', ?_, by omega, ?_, ?_, ?_⟩
      · simp only [if_neg (Int.ne_of_gt hgrow), hnext, Option.bind_eq_bind, Option.bind_some, hg]
      · rw [← hdoubled]
        exact hgrown.measured
      · rw [← hdoubled]
        exact hgrown.stopped
      · intro j hj
        cases j with
        | zero =>
          rw [hzero]
          exact ⟨hcond.2, best, hm, hcond.1⟩
        | succ j =>
          rw [← hdoubled]
          exact hgrown.cut j (Nat.lt_of_succ_lt_succ hj)
    · next hcond =>
      have hzero : doubled max_radius radius 0 = radius := by
        rw [doubled, pow_zero, mul_one, min_eq_left hle]
      refine ⟨0, best, ?_, ?_, ?_, ?_, fun j hj => absurd hj (Nat.not_lt_zero j)⟩
      · rw [hzero]
      · rw [hzero]
      · rw [hzero]
        exact hm
      · intro hedge
        rw [hzero]
        by_contra hne
        exact hcond ⟨hedge, by omega⟩

end Area

theorem measure_1to1_component {pass : (W : Window) → Grid Int8 W.gw}
    (h : ∀ W, Restricts P W (pass W)) (W : Window) (from_center : Bool) :
    ∃ best, measure_1to1 W (pass W) from_center = some best ∧
      (best.hit_edge = false → 0 < best.count →
        ∃ b D, b ∈ D ∧ IsComp Adj (blocks P) b D ∧ best.count = D.card ∧
          (from_center = true → b = (W.cx, W.cz) ∧ ∀ R, W.radius ≤ R → ∃ best',
            measure_1to1 ⟨W.cx, W.cz, R⟩ (pass ⟨W.cx, W.cz, R⟩) true = some best' ∧
              best'.count = best.count)) := by
  obtain ⟨cx, cz, r⟩ := W
  cases from_center with
  | false =>
    obtain ⟨best, hm, hbest, -⟩ := measure_area h ⟨cx, cz, r⟩
    refine ⟨best, hm, ?_⟩
    intro hedge hpos
    rcases hbest with ⟨h0, -⟩ | ⟨b, hb, D, ha⟩
    · omega
    · have hD := ha.complete hb hedge (seen_subset_blocks P _) (Set.Subset.refl _)
      exact ⟨b, D, mem_component ha hb, hD, ha.count, fun hf => by cases hf⟩
  | true =>
    obtain ⟨best, hm, hbest⟩ := measure_center_area h ⟨cx, cz, r⟩
    refine ⟨best, hm, ?_⟩
    intro hedge hpos
    rcases hbest with ⟨-, h0, -⟩ | ⟨hb, D, ha⟩
    · omega
    · have hD := ha.complete hb hedge (seen_subset_blocks P _) (Set.Subset.refl _)
      refine ⟨_, D, mem_component ha hb, hD, ha.count, fun _ => ⟨rfl, ?_⟩⟩
      intro R hR
      exact measure_center_stable h hR hb ha hedge

theorem process_origin_component {pass : (W : Window) → Grid Int8 W.gw}
    (h : ∀ W, Restricts P W (pass W)) (large_biomes : Bool)
    (hbiome : biome_at_block 0 SEA_LEVEL 0 = MUSHROOM_FIELDS) : ∃ first k best,
      measure_1to1 ⟨0, 0, 2048⟩ (pass ⟨0, 0, 2048⟩) true = some first ∧
      grow pass (max_radius large_biomes) (max_radius large_biomes).toNat 2048 first =
        some (doubled (max_radius large_biomes) 2048 k, best) ∧
      2048 ≤ doubled (max_radius large_biomes) 2048 k ∧
      doubled (max_radius large_biomes) 2048 k ≤ max_radius large_biomes ∧
      Grown pass (max_radius large_biomes) 2048 k best ∧
      process_origin pass large_biomes false biome_at_block test_monte_carlo min_size seed =
        some (if best.count ≥ min_size then some ⟨seed, best.x, best.z, best.count⟩ else none) ∧
      (P 0 0 = true → best.hit_edge = false →
        ∃ D, IsComp Adj (blocks P) (0, 0) D ∧ best.count = D.card) := by
  have hroom : 2048 ≤ max_radius large_biomes := by
    rw [max_radius]
    split <;> decide
  obtain ⟨first, hm0, -⟩ := measure_center_area h ⟨0, 0, 2048⟩
  have hfuel : max_radius large_biomes - 2048 < (max_radius large_biomes).toNat := by omega
  obtain ⟨k, best, hg, hr, hgrown⟩ := grow_spec h hfuel (by decide) hroom hm0
  refine ⟨first, k, best, hm0, hg, hr, Int.min_le_right .., hgrown, ?_, ?_⟩
  · rw [max_radius] at hg
    simp only [process_origin, hbiome, hm0, hg, Option.bind_eq_bind, Option.bind_some]
    rfl
  · intro hP hedge
    obtain ⟨best', hm', hbest⟩ :=
      measure_center_area h ⟨0, 0, doubled (max_radius large_biomes) 2048 k⟩
    cases hgrown.measured.symm.trans hm'
    have hb : ((0 : Int), (0 : Int)) ∈
        seen P ⟨0, 0, doubled (max_radius large_biomes) 2048 k⟩ := by
      refine ⟨⟨?_, ?_, ?_, ?_⟩, hP⟩ <;> simp only [Window.ox, Window.oz, Window.gw] <;> omega
    rcases hbest with ⟨hn, -⟩ | ⟨-, D, ha⟩
    · exact absurd hb hn
    · exact ⟨D, ha.complete hb hedge (seen_subset_blocks P _) (Set.Subset.refl _), ha.count⟩

/-- An area measured without touching the edge is that of a whole component of the plane. -/
theorem exact_area (P : Int → Int → Bool) (pass : (W : Window) → Grid Int8 W.gw)
    (h : ∀ W, Restricts P W (pass W)) :
    (∀ W from_center, ∃ best, measure_1to1 W (pass W) from_center = some best ∧
      (best.hit_edge = false → 0 < best.count →
        ∃ b D, b ∈ D ∧ IsComp Adj (blocks P) b D ∧ best.count = D.card ∧
          (from_center = true → b = (W.cx, W.cz) ∧ ∀ R, W.radius ≤ R → ∃ best',
            measure_1to1 ⟨W.cx, W.cz, R⟩ (pass ⟨W.cx, W.cz, R⟩) true = some best' ∧
              best'.count = best.count))) ∧
    (∀ r R, r ≤ R → ∀ cx cz, ∃ best best',
      measure_1to1 ⟨cx, cz, r⟩ (pass ⟨cx, cz, r⟩) false = some best ∧
      measure_1to1 ⟨cx, cz, R⟩ (pass ⟨cx, cz, R⟩) false = some best' ∧
      best.count ≤ best'.count) ∧
    ∀ large_biomes biome_at_block test_monte_carlo min_size seed,
      biome_at_block 0 SEA_LEVEL 0 = MUSHROOM_FIELDS → ∃ first k best,
        measure_1to1 ⟨0, 0, 2048⟩ (pass ⟨0, 0, 2048⟩) true = some first ∧
        grow pass (max_radius large_biomes) (max_radius large_biomes).toNat 2048 first =
          some (doubled (max_radius large_biomes) 2048 k, best) ∧
        2048 ≤ doubled (max_radius large_biomes) 2048 k ∧
        doubled (max_radius large_biomes) 2048 k ≤ max_radius large_biomes ∧
        Grown pass (max_radius large_biomes) 2048 k best ∧
        process_origin pass large_biomes false biome_at_block test_monte_carlo min_size seed =
          some (if best.count ≥ min_size then some ⟨seed, best.x, best.z, best.count⟩ else none) ∧
        (P 0 0 = true → best.hit_edge = false →
          ∃ D, IsComp Adj (blocks P) (0, 0) D ∧ best.count = D.card) := by
  refine ⟨measure_1to1_component h, fun r R hrR => measure_mono h hrR, ?_⟩
  intro large_biomes biome_at_block test_monte_carlo min_size seed hbiome
  exact process_origin_component h large_biomes hbiome

def restrict (P : Int → Int → Bool) (W : Window) : Grid Int8 W.gw :=
  .tabulate W.gw fun i j => if P (W.ox + i) (W.oz + j) then 1 else 0

theorem restricts_restrict (P : Int → Int → Bool) (W : Window) : Restricts P W (restrict P W) :=
  fun _ _ hc => Grid.read_tabulate hc _

/-- An island of the two blocks `(0, 0)` and `(1, 0)`. -/
def island (x z : Int) : Bool := (x == 0 || x == 1) && z == 0

/-- The island is measured in full, in a small window and by `process_origin`. -/
theorem exact_area_island :
    (∃ b D, b ∈ D ∧ IsComp Adj (blocks island) b D ∧ D.card = 2) ∧
    ∃ x z, process_origin (restrict island) false false (fun _ _ _ => 14) (fun _ => true) 2 7 =
      some (some ⟨7, x, z, 2⟩) := by
  obtain ⟨hcomp, -, horigin⟩ := exact_area island (restrict island) (restricts_restrict island)
  obtain ⟨best, hm, harea⟩ := hcomp ⟨0, 0, 3⟩ true
  have heval : measure_1to1 ⟨0, 0, 3⟩ (restrict island ⟨0, 0, 3⟩) true =
      some ⟨2, 0, 0, false⟩ := by
    decide
  cases heval.symm.trans hm
  obtain ⟨b, D, hb, hD, hcount, hlarger⟩ := harea rfl (by decide)
  have htwo : (2 : Int) = D.card := hcount
  refine ⟨⟨b, D, hb, hD, by omega⟩, ?_⟩
  obtain ⟨first, k, last, -, -, hr, -, hgrown, hrun, -⟩ :=
    horigin false (fun _ _ _ => 14) (fun _ => true) 2 7 rfl
  have hthree : 3 ≤ doubled (max_radius false) 2048 k := Int.le_trans (by decide) hr
  obtain ⟨best', hm', hsame⟩ := (hlarger rfl).2 _ hthree
  cases hgrown.measured.symm.trans hm'
  have hlast : last.count = 2 := hsame
  refine ⟨last.x, last.z, ?_⟩
  rw [hrun, hlast]
  rfl

end Omission.Cpu
