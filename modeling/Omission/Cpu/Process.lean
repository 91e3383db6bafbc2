import Omission.Cpu.Origin
import Omission.Cpu.Shift
import Omission.Cubiomes.Centers
import Omission.Cubiomes.VoronoiSha

namespace Omission.Cpu
open Omission.Lib Omission.Cubiomes
set_option autoImplicit true

section Process

variable (pass : (W : Window) → Grid Int8 W.gw)

def retry_radius (exact_radius max_radius : Int) : Int := min ((exact_radius * 3).tdiv 2) max_radius

/-- The measurement of `process`, with one more in a larger window where the first hits the edge. -/
def exact_measure (exact_radius max_radius x z : Int) : Option Best := do
  let exact_best ← measure_1to1 ⟨x, z, exact_radius⟩ (pass ⟨x, z, exact_radius⟩) false
  if exact_best.hit_edge then
    let big_radius := retry_radius exact_radius max_radius
    if big_radius > exact_radius then do
      let big ← measure_1to1 ⟨x, z, big_radius⟩ (pass ⟨x, z, big_radius⟩) false
      some (if big.count > exact_best.count then big else exact_best)
    else some exact_best
  else some exact_best

def process_range (large_biomes : Bool) : Int := 12800 * (if large_biomes then 4 else 1)

-- the test of random cells, the cells of scale 16 and of scale 4, and the radius of a disc of
-- nine times an area with 512 blocks around it
variable (D : Type) [DoubleOps D] (large_biomes fast_cpu : Bool)
  (test_monte_carlo : Int → Int → Int → Bool) (limits F16 F : Field) (radius_of : Int → Int)
  (min_size : Int) (seed : BitVec 64) (x z : Int)

def exact_radius (area : Int) : Int := min (max (radius_of area) 512) (max_radius large_biomes)

/-- The outer `Option` is a fault, the inner one the answer. -/
def process : Option (Option CpuOutput) :=
  let range := process_range large_biomes
  if test_monte_carlo x z range = false then some none
  else do
    let tested ← cubiomes_test_biome_centers D limits F16 x z range min_size 16 4
    if tested = none then some none
    else do
      let found ← find_center F ⟨x, z, range⟩ min_size
      match found with
      | none => some none
      | some res =>
        if fast_cpu then some (some ⟨seed, res.x, res.z, res.area⟩)
        else do
          let best ← exact_measure pass (exact_radius large_biomes radius_of res.area)
            (max_radius large_biomes) res.x res.z
          some (if best.count ≥ min_size then some ⟨seed, best.x, best.z, best.count⟩ else none)

end Process

/-- What the threads of steps 1 and 2 of `measure_1to1` leave in `pass`. -/
def Built (sample : Int → Int → Int × Int) (sha : BitVec 64) (W : Window)
    (pass : Grid Int8 W.gw) : Prop :=
  ∃ nthreads old4 old biome4 mush_mask, 1 ≤ nthreads ∧
    (spawn W.gw4 nthreads old4).Builds (biome4_entry W sample) biome4 ∧
    dilate biome4 = some mush_mask ∧
    (spawn W.gw nthreads old).Builds (pass_entry W (voronoiAccess3D sha) biome4 mush_mask) pass

/-- The mushroom blocks of a world. -/
def mushroom_block (sample : Int → Int → Int × Int) (seed : BitVec 64) (x z : Int) : Bool :=
  block_lookup sample (voronoiAccess3D (getVoronoiSHA seed)) x z = 1

section Seen

variable {P : Int → Int → Bool} {W : Window}

/-- A component of the blocks of the window of which none is larger. -/
structure LargestSeen (P : Int → Int → Bool) (W : Window) (b : Int × Int)
    (D : Finset (Int × Int)) : Prop where
  mem : b ∈ seen P W
  comp : IsComp Adj (seen P W) b D
  largest : ∀ p ∈ seen P W, ∀ K, IsComp Adj (seen P W) p K → K.card ≤ D.card

/-- An `int32_t` counts the blocks of every component of the window. -/
def Countable (P : Int → Int → Bool) (W : Window) : Prop :=
  ∀ b ∈ seen P W, ∀ K, IsComp Adj (seen P W) b K → K.card < 2 ^ 31

/-- Some block beside the component lies outside the window. -/
def Reaches (W : Window) (D : Finset (Int × Int)) : Prop :=
  ∃ a ∈ D, ∃ c, Adj a c ∧ ¬ Within W.gw (c.1 - W.ox) (c.2 - W.oz)

structure Best.Counts (D : Finset (Int × Int)) (best : Best) : Prop where
  count : best.count = D.card
  x : best.x = (∑ a ∈ D, a.1).tdiv D.card
  z : best.z = (∑ a ∈ D, a.2).tdiv D.card

theorem LargestSeen.whole (h : LargestSeen P W b D) (hedge : ¬ Reaches W D) :
    IsComp Adj (blocks P) b D := by
  apply h.comp.of_subset (seen_subset_blocks P W) h.mem
  intro a ha c hac hc
  refine ⟨?_, hc⟩
  by_contra hout
  exact hedge ⟨a, ha, c, hac, hout⟩

theorem mem_cells_of_seen (hc : c ∈ seen P W) :
    c ∈ (cellsOf W.gw W.gw).map W.shift.toEmbedding := by
  obtain ⟨a, rfl⟩ := W.shift.surjective c
  refine Finset.mem_map_of_mem _ (mem_cellsOf.2 ?_)
  have hw := hc.1
  rwa [W.shift_apply, add_sub_cancel_left, add_sub_cancel_left] at hw

theorem exists_component (P : Int → Int → Bool) (W : Window) (b : Int × Int) :
    ∃ D, IsComp Adj (seen P W) b D :=
  exists_isComp (fun _ hc => mem_cells_of_seen hc) Adj b

theorem card_component_le (h : IsComp Adj (seen P W) b D) :
    D.card ≤ W.gw.toNat * W.gw.toNat := by
  rw [← card_cellsOf, ← Finset.card_map (s := cellsOf W.gw W.gw) W.shift.toEmbedding]
  apply Finset.card_le_card
  intro c hc
  exact mem_cells_of_seen ((h c).1 hc).right

/-- A window of `--large-biomes` can hold `2^31` blocks, the others cannot. -/
theorem countable_of_radius (P : Int → Int → Bool) (hr : W.radius ≤ max_radius false) :
    Countable P W := by
  intro b hb K hK
  have hgw : W.gw.toNat ≤ 16384 := by
    rw [Window.gw]
    rw [max_radius, if_neg (by decide)] at hr
    omega
  calc K.card ≤ W.gw.toNat * W.gw.toNat := card_component_le hK
    _ ≤ 16384 * 16384 := Nat.mul_le_mul hgw hgw
    _ < 2 ^ 31 := by decide

/-- In a larger window that has no larger component, a component of the smaller one stays one. -/
theorem LargestSeen.widen {r R : Int} (hrR : r ≤ R) (h : LargestSeen P ⟨cx, cz, r⟩ b D)
    (h' : LargestSeen P ⟨cx, cz, R⟩ b' D') (hle : D'.card ≤ D.card) :
    LargestSeen P ⟨cx, cz, R⟩ b D := by
  have hsub := seen_mono P hrR cx cz
  obtain ⟨K, hK⟩ := exists_component P ⟨cx, cz, R⟩ b
  have hDK : D ⊆ K := by
    intro q hq
    exact (hK q).2 (((h.comp q).1 hq).mono hsub)
  have hKD : K.card ≤ D.card := (h'.largest b (hsub h.mem) K hK).trans hle
  rw [Finset.eq_of_subset_of_card_le hDK hKD]
  refine ⟨hsub h.mem, hK, ?_⟩
  intro p hp L hL
  have hL' := h'.largest p hp L hL
  have hcard := Finset.card_le_card hDK
  omega

theorem sum_shift (W : Window) (C : Finset (Int × Int)) :
    ∑ a ∈ C.map W.shift.toEmbedding, a.1 = ∑ c ∈ C, (W.ox + c.1) ∧
      ∑ a ∈ C.map W.shift.toEmbedding, a.2 = ∑ c ∈ C, (W.oz + c.2) := by
  rw [Finset.sum_map, Finset.sum_map]
  exact ⟨rfl, rfl⟩

theorem measure_seen {g : Grid Int8 W.gw} (h : Restricts P W g) :
    ∃ best, measure_1to1 W g false = some best ∧
      (best = ⟨0, W.cx, W.cz, false⟩ ∧ seen P W = ∅ ∨
        ∃ b D, LargestSeen P W b D ∧ best.Counts D ∧
          (best.hit_edge = true ↔ Reaches W D)) := by
  have hlive := mem_live_iff h
  obtain ⟨best, hm, hbest, hmax⟩ := measure_1to1_spec W g
  refine ⟨best, hm, ?_⟩
  rcases hbest with ⟨rfl, hempty⟩ | ⟨s, hs, C, hd⟩
  · refine .inl ⟨rfl, Set.eq_empty_of_forall_notMem fun b hb => ?_⟩
    obtain ⟨c, rfl⟩ := W.shift.surjective b
    have hc := (hlive c).2 hb
    rw [hempty] at hc
    exact hc
  · have harea := hd.area h
    obtain ⟨hx, hz⟩ := sum_shift W C
    refine .inr ⟨_, _, ⟨(hlive s).1 hs, harea.comp, ?_⟩, ⟨harea.count, ?_, ?_⟩, harea.hit_edge⟩
    · intro p hp K hK
      have hsym : ∀ a b, Adj a b ↔ Adj (W.shift.symm a) (W.shift.symm b) := by
        intro a b
        have hadj := adj_shift W (W.shift.symm a) (W.shift.symm b)
        rw [Equiv.apply_symm_apply, Equiv.apply_symm_apply] at hadj
        exact hadj.symm
      have hmem : ∀ a, a ∈ seen P W ↔ W.shift.symm a ∈ live g := by
        intro a
        rw [hlive, Equiv.apply_symm_apply]
      have hle := hmax _ ((hmem p).1 hp) _ (hK.map W.shift.symm hsym hmem)
      rw [Finset.card_map, hd.count] at hle
      rw [Finset.card_map]
      exact_mod_cast hle
    · rw [hx, Finset.card_map, hd.x]
    · rw [hz, Finset.card_map, hd.z]

/-- What is measured around a centre: nothing, or a largest component `D` of the window. It is all
of an island, or reaches the border of the largest window there is. -/
def MeasuredLargest (P : Int → Int → Bool) (W : Window) (last : Int) (best : Best) : Prop :=
  best = ⟨0, W.cx, W.cz, false⟩ ∧ seen P W = ∅ ∨
    ∃ b D, LargestSeen P W b D ∧ best.Counts D ∧
      (IsComp Adj (blocks P) b D ∨ W.radius = last ∧ Reaches W D)

theorem LargestSeen.measured {best : Best} (h : LargestSeen P W b D) (hc : best.Counts D)
    (hedge : Reaches W D → W.radius = last) : MeasuredLargest P W last best := by
  refine .inr ⟨b, D, h, hc, ?_⟩
  by_cases hr : Reaches W D
  · exact .inr ⟨hedge hr, hr⟩
  · exact .inl (h.whole hr)

theorem MeasuredLargest.count_lt {best : Best} (h : MeasuredLargest P W last best)
    (hcount : Countable P W) : best.count < 2 ^ 31 := by
  rcases h with ⟨rfl, -⟩ | ⟨b, D, hD, hc, -⟩
  · exact show (0 : Int) < 2 ^ 31 by decide
  · rw [hc.count]
    exact_mod_cast hcount b hD.mem D hD.comp

end Seen

section Measure

variable {P : Int → Int → Bool} {pass : (W : Window) → Grid Int8 W.gw}

/-- The radius of the window that decides: the first one, or the retried one, where the first
measurement hits the edge and a larger window is allowed. -/
def Decides (pass : (W : Window) → Grid Int8 W.gw) (r m x z R : Int) : Prop :=
  ∃ first, measure_1to1 ⟨x, z, r⟩ (pass ⟨x, z, r⟩) false = some first ∧
    (R = r ∧ (first.hit_edge = true → r = m) ∨
      R = retry_radius r m ∧ first.hit_edge = true ∧ r < m)

theorem exact_measure_spec (h : ∀ W, 0 < W.radius → Restricts P W (pass W)) {r m : Int}
    (hr : 512 ≤ r) (hm : r ≤ m) (x z : Int) :
    ∃ R best, exact_measure pass r m x z = some best ∧ Decides pass r m x z R ∧
      MeasuredLargest P ⟨x, z, R⟩ (retry_radius r m) best := by
  have hpos : 0 < r := by omega
  have hlonger : r < (r * 3).tdiv 2 := by
    rw [Int.tdiv_eq_ediv_of_nonneg (by omega)]
    omega
  obtain ⟨best, hbest, ⟨rfl, hempty⟩ | ⟨b, D, hD, hc, hedge⟩⟩ :=
    measure_seen (h ⟨x, z, r⟩ hpos)
  · refine ⟨r, _, ?_, ⟨_, hbest, .inl ⟨rfl, fun hhit => ?_⟩⟩, .inl ⟨rfl, hempty⟩⟩
    · rw [exact_measure, hbest]
      rfl
    · cases hhit
  by_cases hhit : best.hit_edge = true
  · by_cases hgrow : retry_radius r m > r
    · have hwide := Int.le_of_lt hgrow
      have hroom : r < m := Int.lt_of_lt_of_le hgrow (Int.min_le_right ..)
      obtain ⟨big, hbig, hlarge⟩ := measure_seen (h ⟨x, z, retry_radius r m⟩
        (Int.lt_trans hpos hgrow))
      have hrun : exact_measure pass r m x z =
          some (if big.count > best.count then big else best) := by
        simp only [exact_measure, hbest, Option.bind_eq_bind, Option.bind_some, hhit, if_true,
          if_pos hgrow, hbig]
      rcases hlarge with ⟨-, hnone⟩ | ⟨b', D', hD', hc', -⟩
      · have hb := seen_mono P hwide x z hD.mem
        rw [hnone] at hb
        exact absurd hb (Set.notMem_empty b)
      refine ⟨_, _, hrun, ⟨best, hbest, .inr ⟨rfl, hhit, hroom⟩⟩, ?_⟩
      by_cases hmore : big.count > best.count
      · rw [if_pos hmore]
        exact hD'.measured hc' fun _ => rfl
      · rw [if_neg hmore]
        rw [hc.count, hc'.count] at hmore
        exact (hD.widen hwide hD' (by omega)).measured hc fun _ => rfl
    · have hlast : r = m := by
        rw [retry_radius] at hgrow
        omega
      refine ⟨r, best, ?_, ⟨best, hbest, .inl ⟨rfl, fun _ => hlast⟩⟩,
        hD.measured hc fun _ => ?_⟩
      · simp only [exact_measure, hbest, Option.bind_eq_bind, Option.bind_some, hhit, if_true,
          if_neg hgrow]
      · rw [retry_radius]
        dsimp only
        omega
  · refine ⟨r, best, ?_, ⟨best, hbest, .inl ⟨rfl, fun hedge' => absurd hedge' hhit⟩⟩,
      hD.measured hc fun hreach => absurd (hedge.2 hreach) hhit⟩
    rw [exact_measure, hbest, Option.bind_eq_bind, Option.bind_some, if_neg hhit]

theorem Decides.bounds {r m : Int} (h : Decides pass r m x z R) (hr : 0 ≤ r) (hm : r ≤ m) :
    r ≤ R ∧ R ≤ m := by
  obtain ⟨first, -, ⟨rfl, -⟩ | ⟨rfl, -⟩⟩ := h
  · exact ⟨Int.le_refl _, hm⟩
  · have hlonger : r ≤ (r * 3).tdiv 2 := by
      rw [Int.tdiv_eq_ediv_of_nonneg (by omega)]
      omega
    exact ⟨Int.le_min.2 ⟨hlonger, hm⟩, Int.min_le_right ..⟩

end Measure

/-- What `fast_find_center` reports of a component. -/
def reported (Q : Square) (C : Finset (Int × Int)) : PosArea :=
  ⟨center (sumX Q C) C.card, center (sumZ Q C) C.card, wrap 32 (16 * C.card)⟩

section Answer

variable (pass : (W : Window) → Grid Int8 W.gw) (D : Type) [DoubleOps D]
  (large_biomes fast_cpu : Bool) (test_monte_carlo : Int → Int → Int → Bool)
  (limits F16 F : Field) (radius_of : Int → Int) (min_size : Int) (seed : BitVec 64) (x z : Int)

def searched : Square := ⟨x, z, process_range large_biomes⟩

/-- The three tests before the measurement. -/
structure Passes : Prop where
  monte_carlo : test_monte_carlo x z (process_range large_biomes) = true
  centers : ∃ p, cubiomes_test_biome_centers D limits F16 x z (process_range large_biomes)
    min_size 16 4 = some (some p)
  large : LargeComponent F (searched large_biomes x z) min_size

theorem exists_tested (F : Field) (x z range min_area scale tol : Int) :
    ∃ tested, cubiomes_test_biome_centers D limits F x z range min_area scale tol =
      some tested := by
  obtain ⟨found, hfound, -⟩ := getBiomeCentersOpt_spec D limits 1 (make_range x z range scale)
    (fun x z => if F x z then mushroom_fields else -1) mushroom_fields
    (min_area.tdiv (scale * scale)) tol 0
  rw [cubiomes_test_biome_centers, hfound, Option.bind_eq_bind, Option.bind_some]
  split
  · exact ⟨_, rfl⟩
  · exact ⟨_, rfl⟩

theorem exact_radius_bounds (large_biomes : Bool) (radius_of : Int → Int) (area : Int) :
    512 ≤ exact_radius large_biomes radius_of area ∧
      exact_radius large_biomes radius_of area ≤ max_radius large_biomes := by
  have hmax : 512 ≤ max_radius large_biomes := by
    rw [max_radius]
    split <;> decide
  rw [exact_radius]
  omega

theorem process_eq (hmc : test_monte_carlo x z (process_range large_biomes) = true)
    (htested : cubiomes_test_biome_centers D limits F16 x z (process_range large_biomes)
      min_size 16 4 = some (some p))
    (hfind : find_center F (searched large_biomes x z) min_size = some (some res)) :
    process pass D large_biomes fast_cpu test_monte_carlo limits F16 F radius_of min_size seed
        x z =
      if fast_cpu then some (some ⟨seed, res.x, res.z, res.area⟩)
      else (exact_measure pass (exact_radius large_biomes radius_of res.area)
        (max_radius large_biomes) res.x res.z).bind fun best =>
          some (if best.count ≥ min_size then some ⟨seed, best.x, best.z, best.count⟩
            else none) := by
  rw [searched] at hfind
  simp only [process, hmc, htested, hfind, Option.bind_eq_bind, Option.bind_some, reduceCtorEq,
    if_false]

theorem process_of_not_passes
    (h : ¬ Passes D large_biomes test_monte_carlo limits F16 F min_size x z) :
    process pass D large_biomes fast_cpu test_monte_carlo limits F16 F radius_of min_size seed
      x z = some none := by
  obtain ⟨tested, htested⟩ := exists_tested D limits F16 x z (process_range large_biomes)
    min_size 16 4
  obtain ⟨found, hfind, hfound⟩ := find_center_result F (searched large_biomes x z) min_size
  rw [searched] at hfind
  by_cases hmc : test_monte_carlo x z (process_range large_biomes) = true
  case neg => rw [process, if_pos (Bool.eq_false_iff.2 hmc)]
  cases tested with
  | none =>
    simp only [process, hmc, htested, Option.bind_eq_bind, Option.bind_some, if_true]
    rfl
  | some p =>
    rcases hfound with ⟨rfl, -⟩ | ⟨hlarge, -⟩
    · simp only [process, hmc, htested, hfind, Option.bind_eq_bind, Option.bind_some]
      rfl
    · exact absurd ⟨hmc, ⟨p, htested⟩, hlarge⟩ h

/-- The CPU's answer for a candidate, on what the threads of `measure_1to1` leave: with an island
that passes the tests, what is measured around its centre. -/
theorem process_spec (sample : Int → Int → Int × Int)
    (hpass : ∀ W, 0 < W.radius → Built sample (getVoronoiSHA seed) W (pass W))
    (hcount : large_biomes = true → ∀ W, W.radius ≤ max_radius true →
      Countable (mushroom_block sample seed) W) :
    ∃ answer, process pass D large_biomes fast_cpu test_monte_carlo limits F16 F radius_of
        min_size seed x z = some answer ∧
      (¬ Passes D large_biomes test_monte_carlo limits F16 F min_size x z → answer = none) ∧
      (Passes D large_biomes test_monte_carlo limits F16 F min_size x z → ∃ s C res,
        FirstLargest Adj RowMajor ((searched large_biomes x z).cells F) s C ∧
        res = reported (searched large_biomes x z) C ∧
        (fast_cpu = true → answer = some ⟨seed, res.x, res.z, res.area⟩) ∧
        (fast_cpu = false → ∃ r R best, r = exact_radius large_biomes radius_of res.area ∧
          Decides pass r (max_radius large_biomes) res.x res.z R ∧
          MeasuredLargest (mushroom_block sample seed) ⟨res.x, res.z, R⟩
            (retry_radius r (max_radius large_biomes)) best ∧
          best.count < 2 ^ 31 ∧
          answer = if best.count ≥ min_size then some ⟨seed, best.x, best.z, best.count⟩
            else none)) := by
  have hrestrict : ∀ W, 0 < W.radius →
      Restricts (mushroom_block sample seed) W (pass W) := by
    intro W hr
    obtain ⟨nthreads, old4, old, biome4, mush_mask, hn, hb, hm, hp⟩ := hpass W hr
    exact restricts_of_builds hr hn hb hm hp
  by_cases hpasses : Passes D large_biomes test_monte_carlo limits F16 F min_size x z
  case neg =>
    exact ⟨none, process_of_not_passes pass D large_biomes fast_cpu test_monte_carlo limits F16 F
      radius_of min_size seed x z hpasses, fun _ => rfl, fun h => absurd h hpasses⟩
  obtain ⟨hmc, ⟨p, htested⟩, hlarge⟩ := hpasses
  obtain ⟨found, hfind, ⟨-, hnone⟩ | ⟨-, s, C, hC, rfl⟩⟩ :=
    find_center_result F (searched large_biomes x z) min_size
  · exact absurd hlarge hnone
  obtain ⟨hr, hr'⟩ := exact_radius_bounds large_biomes radius_of
    (reported (searched large_biomes x z) C).area
  obtain ⟨R, best, hbest, hR, hmeasured⟩ := exact_measure_spec hrestrict hr hr'
    (reported (searched large_biomes x z) C).x (reported (searched large_biomes x z) C).z
  have heq := process_eq pass D large_biomes fast_cpu test_monte_carlo limits F16 F radius_of
    min_size seed x z hmc htested hfind
  have hpasses : Passes D large_biomes test_monte_carlo limits F16 F min_size x z :=
    ⟨hmc, ⟨p, htested⟩, hlarge⟩
  cases fast_cpu with
  | true =>
    refine ⟨_, ?_, fun h => absurd hpasses h, fun _ => ⟨s, C, _, hC, rfl, fun _ => rfl, ?_⟩⟩
    · rw [heq, if_pos rfl]
      rfl
    · exact fun h => absurd h (by decide)
  | false =>
    refine ⟨if best.count ≥ min_size then some ⟨seed, best.x, best.z, best.count⟩ else none, ?_,
      fun h => absurd hpasses h, fun _ => ⟨s, C, _, hC, rfl, ?_, ?_⟩⟩
    · rw [heq, if_neg (by decide)]
      exact congrArg (Option.bind · _) hbest
    · exact fun h => absurd h (by decide)
    · have hcountable : ∀ cx cz, Countable (mushroom_block sample seed) ⟨cx, cz, R⟩ := by
        intro cx cz
        have hmax := (hR.bounds (Int.le_trans (by decide) hr) hr').2
        cases large_biomes with
        | true => exact hcount rfl _ hmax
        | false => exact countable_of_radius _ hmax
      exact fun _ => ⟨_, R, best, rfl, hR, hmeasured, hmeasured.count_lt (hcountable _ _), rfl⟩

end Answer

theorem exists_built (sample : Int → Int → Int × Int) (sha : BitVec 64) :
    ∃ pass : (W : Window) → Grid Int8 W.gw,
      ∀ W, 0 < W.radius → Built sample sha W (pass W) := by
  have hbuilt : ∀ W : Window, ∃ pass : Grid Int8 W.gw,
      0 < W.radius → Built sample sha W pass := by
    intro W
    by_cases hr : 0 < W.radius
    · obtain ⟨biome4, hb⟩ := exists_biome4 W (show 1 ≤ 2 by decide) sample (0, 0)
      obtain ⟨mush_mask, hm⟩ := exists_dilate biome4
      obtain ⟨pass, hp⟩ := exists_pass hr (by decide) sha hb hm 0
      exact ⟨pass, fun _ => ⟨2, (0, 0), 0, biome4, mush_mask, by decide, hb, hm, hp⟩⟩
    · exact ⟨.fill W.gw 0, fun h => absurd h hr⟩
  choose pass hpass using hbuilt
  exact ⟨pass, hpass⟩

/-- Four cells of scale 4. -/
def islet (x4 z4 : Int) : Int × Int :=
  if (x4 = 0 ∨ x4 = 1) ∧ (z4 = 0 ∨ z4 = 1) then (14, 14) else (0, 0)

theorem islet_block (seed : BitVec 64) : mushroom_block islet seed 2 2 = true := by
  have hnear := voronoiAccess3D_near (getVoronoiSHA seed) 2 SEA_LEVEL 2
  rw [mushroom_block, block_lookup]
  generalize voronoiAccess3D (getVoronoiSHA seed) 2 SEA_LEVEL 2 = c at hnear ⊢
  obtain ⟨x4, y4, z4⟩ := c
  have hin : (x4 = 0 ∨ x4 = 1) ∧ (z4 = 0 ∨ z4 = 1) := ⟨hnear.1, hnear.2.2⟩
  simp only [islet, if_pos hin, ite_self]
  rfl

/-- The blocks of the four cells lie around them. -/
theorem islet_bounds (seed : BitVec 64) {x z : Int} (h : mushroom_block islet seed x z = true) :
    -2 ≤ x ∧ x ≤ 9 ∧ -2 ≤ z ∧ z ≤ 9 := by
  have hnear := voronoiAccess3D_near (getVoronoiSHA seed) x SEA_LEVEL z
  have hcell := of_decide_eq_true h
  rw [block_lookup] at hcell
  generalize voronoiAccess3D (getVoronoiSHA seed) x SEA_LEVEL z = c at hnear hcell
  obtain ⟨x4, y4, z4⟩ := c
  by_cases hin : (x4 = 0 ∨ x4 = 1) ∧ (z4 = 0 ∨ z4 = 1)
  · obtain ⟨hx, -, hz⟩ := hnear
    simp only [sar2, Int.shiftRight_eq_div_pow] at hx hz
    omega
  · simp only [islet, if_neg hin, ite_self] at hcell
    exact absurd hcell (by decide)

def lone : Field := fun x z => x = 0 ∧ z = 0

theorem mem_lone : c ∈ (searched false 0 0).cells lone ↔ c = (1600, 1600) := by
  have hox : (searched false 0 0).ox = -1600 := rfl
  have hoz : (searched false 0 0).oz = -1600 := rfl
  have hsx : (searched false 0 0).sx = 3200 := rfl
  simp only [Square.cells, Set.mem_ofPred_eq, hox, hoz, hsx, Within, lone, decide_eq_true_eq,
    Prod.ext_iff]
  omega

theorem lone_component (h : FirstLargest Adj RowMajor ((searched false 0 0).cells lone) s C) :
    C = {(1600, 1600)} := by
  obtain rfl := mem_lone.1 h.mem
  apply Finset.eq_singleton_iff_unique_mem.2
  exact ⟨(h.comp _).2 (.refl h.mem), fun c hc => mem_lone.1 ((h.comp c).1 hc).right⟩

theorem passes_lone : Passes Rat false (fun _ _ _ => true) (fun _ _ => true) (fun _ _ => true)
    lone 1 0 0 := by
  have hzero : (0 : Int) ∈ strided 800 (sampleStep 1 0) :=
    mem_strided.2 ⟨by decide, Int.zero_emod _⟩
  have hstart : Start (make_range 0 0 12800 16) (fun _ _ => true) (sampleStep 1 0) (0, 0) :=
    ⟨List.mem_flatMap.2 ⟨0, hzero, List.mem_map.2 ⟨0, hzero, rfl⟩⟩, rfl⟩
  refine ⟨rfl, tested_of_cell Rat _ _ (by decide) hstart rfl (by decide), ?_⟩
  obtain ⟨s, C, hC⟩ := exists_firstLargest lone (searched false 0 0) ⟨_, mem_lone.2 rfl⟩
  refine ⟨s, C, hC, ?_⟩
  rw [lone_component hC]
  decide

/-- The islet is measured as a whole. -/
theorem process_spec_islet : ∃ (pass : (W : Window) → Grid Int8 W.gw) (out : CpuOutput) (b : _)
    (D : Finset (Int × Int)), process pass Rat false false (fun _ _ _ => true) (fun _ _ => true)
        (fun _ _ => true) lone id 1 7 0 0 = some (some out) ∧
      IsComp Adj (blocks (mushroom_block islet 7)) b D ∧ out.area = D.card ∧ 0 < out.area := by
  obtain ⟨pass, hpass⟩ := exists_built islet (getVoronoiSHA 7)
  obtain ⟨answer, hanswer, -, hmeasure⟩ := process_spec pass Rat false false (fun _ _ _ => true)
    (fun _ _ => true) (fun _ _ => true) lone id 1 7 0 0 islet hpass fun h => absurd h (by decide)
  obtain ⟨s, C, res, hC, rfl, -, hexact⟩ := hmeasure passes_lone
  obtain rfl := lone_component hC
  have hres : reported (searched false 0 0) {(1600, 1600)} = ⟨2, 2, 16⟩ := by decide
  rw [hres] at hexact
  obtain ⟨r, R, best, rfl, hR, hlargest, -, rfl⟩ := hexact rfl
  obtain ⟨hr, hr'⟩ := exact_radius_bounds false id 16
  have hroom : 512 ≤ R := hr.trans (hR.bounds (Int.le_trans (by decide) hr) hr').1
  have hseen : ((2 : Int), (2 : Int)) ∈ seen (mushroom_block islet 7) ⟨2, 2, R⟩ := by
    refine ⟨⟨?_, ?_, ?_, ?_⟩, islet_block 7⟩ <;> simp only [Window.ox, Window.oz, Window.gw] <;>
      omega
  rcases hlargest with ⟨-, hempty⟩ | ⟨b, D, hD, hc, hwhole⟩
  · rw [hempty] at hseen
    exact absurd hseen (Set.notMem_empty _)
  have hpos : 0 < D.card := Finset.card_pos.2 ⟨b, (hD.comp b).2 (.refl hD.mem)⟩
  have hcount : best.count ≥ 1 := by
    rw [hc.count]
    omega
  rw [if_pos hcount] at hanswer
  refine ⟨pass, _, b, D, hanswer, ?_, hc.count, hcount⟩
  rcases hwhole with hwhole | ⟨-, a, ha, c, ⟨d, hd, rfl⟩, hout⟩
  · exact hwhole
  · have hbounds := islet_bounds 7 ((hD.comp a).1 ha).right.2
    have hdir := dirs_bound d hd
    refine absurd ⟨?_, ?_, ?_, ?_⟩ hout <;> simp only [Window.ox, Window.oz, Window.gw] <;> omega

end Omission.Cpu
