import Omission.Cpu.Voronoi
import Omission.Lib.Pool

namespace Omission.Cpu
open Omission.Lib
set_option autoImplicit true

def SEA_LEVEL : Int := 62

/-- The square of blocks that `measure_1to1` looks at, and its scale-4 grid. -/
structure Window where
  cx : Int
  cz : Int
  radius : Int
deriving DecidableEq

namespace Window

variable (W : Window)

def gw : Int := 2 * W.radius
def ox : Int := W.cx - W.radius
def oz : Int := W.cz - W.radius
def gw4 : Int := W.gw.tdiv 4 + 4
def ox4 : Int := (W.ox - 8).tdiv 4
def oz4 : Int := (W.oz - 8).tdiv 4

end Window

/-- The row ranges of the threads; a thread without rows ends the loop that starts them. -/
def row_ranges (gw : Int) (nthreads : Nat) : List (Int × Int) :=
  let rows_per := (gw + nthreads - 1).tdiv nthreads
  ((List.range nthreads).map fun t : Nat =>
    ((t : Int) * rows_per, min ((t : Int) * rows_per + rows_per) gw)).takeWhile
      fun r => r.1 < r.2

def visits (gw : Int) (r : Int × Int) : List (Int × Int) :=
  (Int.range r.1 r.2).flatMap fun j => (Int.range 0 gw).map fun i => (i, j)

/-- The threads of one step of `measure_1to1`, over a new array. -/
def spawn (gw : Int) (nthreads : Nat) (zero : β) : Pool β gw :=
  ⟨.fill gw zero, fun t => ((row_ranges gw nthreads)[t]?.map (visits gw)).getD []⟩

section Steps

-- the biomes at `y4 = 15` and `y4 = 16` of a scale-4 column
variable (W : Window) (cubiomes_sample_biome_2y : Int → Int → Int × Int)

/-- What step 1 stores in `biome4a` and in `biome4b`. -/
def biome4_entry (i j : Int) : Option (Int8 × Int8) :=
  let (a, b) := cubiomes_sample_biome_2y (W.ox4 + i) (W.oz4 + j)
  some (if a = 14 then 1 else 0, if b = 14 then 1 else 0)

def mark_row (i nj : Int) (mush_mask : Grid Int8 gw4) : Option (Grid Int8 gw4) :=
  [-1, 0, 1].foldlM (fun mush_mask di =>
    let ni := i + di
    if ni < 0 ∨ ni ≥ gw4 then some mush_mask else mush_mask.write ni nj 1) mush_mask

/-- Mark a cell and its neighbours, those outside the grid left out. -/
def mark (i j : Int) (mush_mask : Grid Int8 gw4) : Option (Grid Int8 gw4) :=
  [-1, 0, 1].foldlM (fun mush_mask dj =>
    let nj := j + dj
    if nj < 0 ∨ nj ≥ gw4 then some mush_mask else mark_row i nj mush_mask) mush_mask

def dilate_cell (biome4 : Grid (Int8 × Int8) gw4) (mush_mask : Grid Int8 gw4) (c : Int × Int) :
    Option (Grid Int8 gw4) := do
  let (a, b) ← biome4.read c.1 c.2
  if a = 0 ∧ b = 0 then some mush_mask else mark c.1 c.2 mush_mask

def dilate (biome4 : Grid (Int8 × Int8) gw4) : Option (Grid Int8 gw4) :=
  (visits gw4 (0, gw4)).foldlM (dilate_cell biome4) (.fill gw4 0)

variable (cubiomes_voronoi_map : Int → Int → Int → Int × Int × Int)
  (biome4 : Grid (Int8 × Int8) W.gw4) (mush_mask : Grid Int8 W.gw4)

/-- What step 2 stores in `pass`. -/
def pass_entry (i j : Int) : Option Int8 :=
  let naive_x4 := sar2 (W.ox + i - 2)
  let naive_z4 := sar2 (W.oz + j - 2)
  let gi := naive_x4 - W.ox4
  let gj := naive_z4 - W.oz4
  if gi < 0 ∨ gi ≥ W.gw4 ∨ gj < 0 ∨ gj ≥ W.gw4 then some 0
  else do
    let m ← mush_mask.read gi gj
    if m = 0 then some 0
    else
      let (x4, y4, z4) := cubiomes_voronoi_map (W.ox + i) SEA_LEVEL (W.oz + j)
      let gx := x4 - W.ox4
      let gz := z4 - W.oz4
      if gx < 0 ∨ gx ≥ W.gw4 ∨ gz < 0 ∨ gz ≥ W.gw4 then some 0
      else do
        let (a, b) ← biome4.read gx gz
        some (if y4 ≤ 15 then a else b)

/-- The plain lookup of block `(x, z)`: the mushroom field of its cell at `y4`. -/
def block_lookup (x z : Int) : Int8 :=
  let (x4, y4, z4) := cubiomes_voronoi_map x SEA_LEVEL z
  let (a, b) := cubiomes_sample_biome_2y x4 z4
  if (if y4 = 15 then a else b) = 14 then 1 else 0

end Steps

theorem getElem?_takeWhile {q : α → Bool} {l : List α} {t : Nat}
    (h : ∀ k ≤ t, ∃ x, l[k]? = some x ∧ q x = true) : (l.takeWhile q)[t]? = l[t]? := by
  induction l generalizing t with
  | nil => rfl
  | cons a l ih =>
    obtain ⟨x, hx, hq⟩ := h 0 (Nat.zero_le t)
    cases hx
    rw [List.takeWhile_cons_of_pos hq]
    cases t with
    | zero => rfl
    | succ t =>
      simp only [List.getElem?_cons_succ]
      apply ih
      intro k hk
      exact h (k + 1) (Nat.succ_le_succ hk)

theorem mem_visits : (i, j) ∈ visits gw r ↔ (r.1 ≤ j ∧ j < r.2) ∧ 0 ≤ i ∧ i < gw := by
  simp only [visits, List.mem_flatMap, List.mem_map, Int.mem_range_iff, Prod.mk.injEq]
  constructor
  · rintro ⟨j', hj, i', hi, rfl, rfl⟩
    exact ⟨hj, hi⟩
  · rintro ⟨hj, hi⟩
    exact ⟨j, hj, i, hi, rfl, rfl⟩

theorem exists_row_range {gw j : Int} {nthreads : Nat} (hn : 1 ≤ nthreads) (hj : 0 ≤ j)
    (hj' : j < gw) : ∃ (t : Nat) (r : Int × Int), (row_ranges gw nthreads)[t]? = some r ∧
      r.1 ≤ j ∧ j < r.2 := by
  have hn' : (0 : Int) < nthreads := by omega
  have hediv : (gw + nthreads - 1).tdiv nthreads = (gw + nthreads - 1) / nthreads :=
    Int.tdiv_eq_ediv_of_nonneg (by omega)
  have hceil := Int.lt_ediv_add_one_mul_self (gw + nthreads - 1) hn'
  have hpos : 1 ≤ (gw + nthreads - 1) / (nthreads : Int) := by
    rw [Int.le_ediv_iff_mul_le hn']
    omega
  simp only [row_ranges, hediv]
  generalize (gw + nthreads - 1) / (nthreads : Int) = rows_per at hceil hpos
  have hlow := Int.ediv_mul_le j (show rows_per ≠ 0 by omega)
  have hhigh := Int.lt_ediv_add_one_mul_self j (show 0 < rows_per by omega)
  have hquot : 0 ≤ j / rows_per := Int.ediv_nonneg hj (by omega)
  have hthread : j / rows_per < nthreads := by
    rw [Int.ediv_lt_iff_lt_mul (by omega), Int.mul_comm]
    rw [Int.add_mul, Int.one_mul] at hceil
    omega
  have hget : ∀ k ≤ (j / rows_per).toNat,
      ((List.range nthreads).map fun t : Nat =>
        ((t : Int) * rows_per, min ((t : Int) * rows_per + rows_per) gw))[k]? =
          some (k * rows_per, min (k * rows_per + rows_per) gw) := by
    intro k hk
    have hk' : k < nthreads := by omega
    simp [hk']
  refine ⟨(j / rows_per).toNat, _, (getElem?_takeWhile ?_).trans (hget _ (Nat.le_refl _)), ?_, ?_⟩
  · intro k hk
    refine ⟨_, hget k hk, ?_⟩
    have hmono : (k : Int) * rows_per ≤ j / rows_per * rows_per :=
      Int.mul_le_mul_of_nonneg_right (by omega) (by omega)
    simp only [decide_eq_true_eq]
    omega
  · rw [Int.toNat_of_nonneg hquot]
    exact hlow
  · rw [Int.toNat_of_nonneg hquot]
    rw [Int.add_mul, Int.one_mul] at hhigh
    simp only
    omega

theorem row_ranges_bounds {gw : Int} {r : Int × Int} (h : r ∈ row_ranges gw nthreads)
    (hgw : 0 < gw) : 0 ≤ r.1 ∧ r.2 ≤ gw := by
  obtain ⟨t, ht, rfl⟩ := List.mem_map.1 ((List.takeWhile_sublist _).mem h)
  have hn : 0 < nthreads := (Nat.zero_le t).trans_lt (List.mem_range.1 ht)
  have hrows : 0 ≤ (gw + nthreads - 1).tdiv nthreads := Int.tdiv_nonneg (by omega) (by omega)
  exact ⟨Int.mul_nonneg (by omega) hrows, Int.min_le_right ..⟩

theorem spawn_inv (gw : Int) (hn : 1 ≤ nthreads) (zero : β) (value : Int → Int → β) :
    (spawn gw nthreads zero).Inv value := by
  constructor
  · rintro t ⟨i, j⟩ hc
    simp only [spawn] at hc
    cases hr : (row_ranges gw nthreads)[t]? with
    | none => simp [hr] at hc
    | some r =>
      rw [hr] at hc
      obtain ⟨hj, hi⟩ := mem_visits.1 hc
      obtain ⟨hlow, hhigh⟩ := row_ranges_bounds (List.mem_of_getElem? hr) (by omega)
      exact ⟨hi.1, hi.2, by omega, by omega⟩
  · rintro i j ⟨hi, hi', hj, hj'⟩
    obtain ⟨t, r, ht, hr⟩ := exists_row_range hn hj hj'
    refine .inr ⟨t, ?_⟩
    simp only [spawn, ht, Option.map_some, Option.getD_some]
    exact mem_visits.2 ⟨hr, hi, hi'⟩

section Dilate

variable {gw i j i' j' nj : Int}

theorem write_keeps (hc : Within gw i' j') (hw : Within gw i j) (mush_mask : Grid Int8 gw) :
    ∃ m, mush_mask.write i j 1 = some m ∧
      (mush_mask.read i' j' = some 1 → m.read i' j' = some 1) := by
  obtain ⟨m, hm, hread, hother⟩ := mush_mask.write_spec hw 1
  refine ⟨m, hm, fun h => ?_⟩
  by_cases he : (i', j') = (i, j)
  · cases he
    exact hread
  · rw [hother i' j' hc he, h]

theorem mark_row_keeps (hc : Within gw i' j') (hj : 0 ≤ nj ∧ nj < gw) (i : Int)
    (mush_mask : Grid Int8 gw) : ∃ m, mark_row i nj mush_mask = some m ∧
      (mush_mask.read i' j' = some 1 → m.read i' j' = some 1) := by
  apply foldlM_keeps
  intro m di _
  dsimp only
  split
  · exact ⟨m, rfl, id⟩
  · exact write_keeps hc ⟨by omega, by omega, hj.1, hj.2⟩ m

theorem mark_keeps (hc : Within gw i' j') (i j : Int) (mush_mask : Grid Int8 gw) :
    ∃ m, mark i j mush_mask = some m ∧
      (mush_mask.read i' j' = some 1 → m.read i' j' = some 1) := by
  apply foldlM_keeps
  intro m dj _
  dsimp only
  split
  · exact ⟨m, rfl, id⟩
  · exact mark_row_keeps hc ⟨by omega, by omega⟩ i m

theorem mem_steps {a b : Int} (h : a - 1 ≤ b ∧ b ≤ a + 1) : b - a ∈ [(-1 : Int), 0, 1] := by
  simp only [List.mem_cons, List.not_mem_nil, or_false]
  omega

theorem mark_row_spec (hc : Within gw i' j') (hi : i - 1 ≤ i' ∧ i' ≤ i + 1)
    (mush_mask : Grid Int8 gw) :
    ∃ m, mark_row i j' mush_mask = some m ∧ m.read i' j' = some 1 := by
  have hwithin := hc
  obtain ⟨hi0, hi1, hj⟩ := hwithin
  apply foldlM_reaches ?_ (mem_steps hi)
  · intro m
    obtain ⟨m', hm', hread, -⟩ := m.write_spec hc 1
    refine ⟨m', ?_, hread⟩
    dsimp only
    rw [show i + (i' - i) = i' by omega, if_neg (by omega), hm']
  · intro m di _
    dsimp only
    split
    · exact ⟨m, rfl, id⟩
    · exact write_keeps hc ⟨by omega, by omega, hj.1, hj.2⟩ m

theorem mark_spec (hc : Within gw i' j') (hi : i - 1 ≤ i' ∧ i' ≤ i + 1)
    (hj : j - 1 ≤ j' ∧ j' ≤ j + 1) (mush_mask : Grid Int8 gw) :
    ∃ m, mark i j mush_mask = some m ∧ m.read i' j' = some 1 := by
  apply foldlM_reaches ?_ (mem_steps hj)
  · intro m
    obtain ⟨m', hm', hread⟩ := mark_row_spec hc hi m
    obtain ⟨-, -, hj0, hj1⟩ := hc
    refine ⟨m', ?_, hread⟩
    dsimp only
    rw [show j + (j' - j) = j' by omega, if_neg (by omega), hm']
  · intro m dj _
    dsimp only
    split
    · exact ⟨m, rfl, id⟩
    · exact mark_row_keeps hc ⟨by omega, by omega⟩ i m

theorem dilate_cell_keeps (biome4 : Grid (Int8 × Int8) gw) (hc : Within gw i' j')
    {c : Int × Int} (hmem : c ∈ visits gw (0, gw)) (mush_mask : Grid Int8 gw) :
    ∃ m, dilate_cell biome4 mush_mask c = some m ∧
      (mush_mask.read i' j' = some 1 → m.read i' j' = some 1) := by
  obtain ⟨i, j⟩ := c
  obtain ⟨⟨hj, hj'⟩, hi, hi'⟩ := mem_visits.1 hmem
  obtain ⟨b, hb⟩ := biome4.exists_read ⟨hi, hi', hj, hj'⟩
  simp only [dilate_cell, hb, Option.bind_eq_bind, Option.bind_some]
  split
  · exact ⟨mush_mask, rfl, id⟩
  · exact mark_keeps hc i j mush_mask

theorem dilate_marks (biome4 : Grid (Int8 × Int8) gw) (hw : Within gw i j)
    (hc : Within gw i' j') (hi : i - 1 ≤ i' ∧ i' ≤ i + 1) (hj : j - 1 ≤ j' ∧ j' ≤ j + 1)
    (hb : biome4.read i j = some b) (hmush : ¬ (b.1 = 0 ∧ b.2 = 0)) :
    ∃ mush_mask, dilate biome4 = some mush_mask ∧ mush_mask.read i' j' = some 1 := by
  have hmem : (i, j) ∈ visits gw (0, gw) := by
    obtain ⟨hi0, hi1, hj0, hj1⟩ := hw
    exact mem_visits.2 ⟨⟨hj0, hj1⟩, hi0, hi1⟩
  apply foldlM_reaches (fun m c hmem => dilate_cell_keeps biome4 hc hmem m) hmem
  intro m
  simp only [dilate_cell, hb, Option.bind_eq_bind, Option.bind_some, if_neg hmush]
  exact mark_spec hc hi hj m

theorem exists_dilate (biome4 : Grid (Int8 × Int8) gw) :
    ∃ mush_mask, dilate biome4 = some mush_mask := by
  obtain ⟨m, hm, -⟩ := foldlM_keeps (f := dilate_cell biome4) (Q := fun _ => True)
    (l := visits gw (0, gw)) (by
      rintro m ⟨i, j⟩ hmem
      obtain ⟨⟨hj, hj'⟩, hi, hi'⟩ := mem_visits.1 hmem
      obtain ⟨m', hm', -⟩ := dilate_cell_keeps biome4 ⟨hi, hi', hj, hj'⟩ hmem m
      exact ⟨m', hm', fun _ => trivial⟩) (.fill gw 0)
  exact ⟨m, hm⟩

theorem dilate_zero {biome4 : Grid (Int8 × Int8) gw} (hm : dilate biome4 = some mush_mask)
    (hw : Within gw i j) (hc : Within gw i' j') (hi : i - 1 ≤ i' ∧ i' ≤ i + 1)
    (hj : j - 1 ≤ j' ∧ j' ≤ j + 1) (hzero : mush_mask.read i' j' = some 0)
    (hb : biome4.read i j = some b) : b.1 = 0 ∧ b.2 = 0 := by
  by_contra hmush
  obtain ⟨m, hm', hone⟩ := dilate_marks biome4 hw hc hi hj hb hmush
  cases hm.symm.trans hm'
  rw [hzero] at hone
  exact absurd hone (by decide)

end Dilate

theorem naive_within (hr : 0 < r) (o : Int) (hi : 0 ≤ i) (hi' : i < 2 * r) :
    0 ≤ sar2 (o + i - 2) - (o - 8).tdiv 4 ∧
      sar2 (o + i - 2) - (o - 8).tdiv 4 + 1 < (2 * r).tdiv 4 + 4 := by
  have hshift : sar2 (o + i - 2) = (o + i - 2) / 4 := Int.shiftRight_eq_div_pow _ 2
  have hgw : (2 * r).tdiv 4 = 2 * r / 4 := Int.tdiv_eq_ediv_of_nonneg (by omega)
  have horigin : (o - 8).tdiv 4 = (o - 8) / 4 ∨ (o - 8).tdiv 4 = (o - 8) / 4 + 1 ∧ o < 8 := by
    rw [Int.tdiv_eq_ediv]
    split
    · exact .inl (Int.add_zero _)
    · next h => exact .inr ⟨rfl, by omega⟩
  rw [hshift, hgw]
  omega

section Entry

variable {W : Window} {sample : Int → Int → Int × Int} {voronoi : Int → Int → Int → Int × Int × Int}
  {biome4 : Grid (Int8 × Int8) W.gw4} {mush_mask : Grid Int8 W.gw4}

def Sampled (W : Window) (sample : Int → Int → Int × Int) (biome4 : Grid (Int8 × Int8) W.gw4) :
    Prop :=
  ∀ i j, Within W.gw4 i j → biome4.read i j = biome4_entry W sample i j

theorem pass_entry_spec (hr : 0 < W.radius) (hs : Sampled W sample biome4)
    (hnear : ∀ x y z : Int, Near (sar2 (x - 2), sar2 (y - 2), sar2 (z - 2)) (voronoi x y z))
    (hm : dilate biome4 = some mush_mask) (hc : Within W.gw i j) :
    pass_entry W voronoi biome4 mush_mask i j =
      some (block_lookup sample voronoi (W.ox + i) (W.oz + j)) := by
  obtain ⟨hi, hi', hj, hj'⟩ := hc
  obtain ⟨hgi, hgi'⟩ : 0 ≤ sar2 (W.ox + i - 2) - W.ox4 ∧
      sar2 (W.ox + i - 2) - W.ox4 + 1 < W.gw4 := naive_within hr W.ox hi hi'
  obtain ⟨hgj, hgj'⟩ : 0 ≤ sar2 (W.oz + j - 2) - W.oz4 ∧
      sar2 (W.oz + j - 2) - W.oz4 + 1 < W.gw4 := naive_within hr W.oz hj hj'
  have hv := hnear (W.ox + i) SEA_LEVEL (W.oz + j)
  simp only [pass_entry, block_lookup]
  generalize voronoi (W.ox + i) SEA_LEVEL (W.oz + j) = v at hv ⊢
  generalize sar2 (W.ox + i - 2) = naive_x4 at *
  generalize sar2 (W.oz + j - 2) = naive_z4 at *
  obtain ⟨x4, y4, z4⟩ := v
  obtain ⟨hx4, hy4, hz4⟩ := hv
  change y4 = 15 ∨ y4 = 16 at hy4
  dsimp only at hx4 hz4 ⊢
  have hnaive : Within W.gw4 (naive_x4 - W.ox4) (naive_z4 - W.oz4) :=
    ⟨hgi, by omega, hgj, by omega⟩
  have hcell : Within W.gw4 (x4 - W.ox4) (z4 - W.oz4) := ⟨by omega, by omega, by omega, by omega⟩
  obtain ⟨m, hmask⟩ := mush_mask.exists_read hnaive
  have hb := hs _ _ hcell
  rw [biome4_entry, show W.ox4 + (x4 - W.ox4) = x4 by omega,
    show W.oz4 + (z4 - W.oz4) = z4 by omega] at hb
  rw [if_neg (by omega), hmask, Option.bind_eq_bind, Option.bind_some]
  by_cases hm0 : m = 0
  · -- the mask says that the whole neighbourhood is no mushroom
    subst hm0
    obtain ⟨ha, hb'⟩ := dilate_zero hm hcell hnaive ⟨by omega, by omega⟩
      ⟨by omega, by omega⟩ hmask hb
    rw [if_pos rfl]
    rcases hy4 with rfl | rfl <;> simp_all
  · rw [if_neg hm0, if_neg (by omega), hb, Option.bind_eq_bind, Option.bind_some]
    rcases hy4 with rfl | rfl <;> rfl

theorem block_lookup_bool (sample : Int → Int → Int × Int)
    (voronoi : Int → Int → Int → Int × Int × Int) (x z : Int) :
    block_lookup sample voronoi x z = 0 ∨ block_lookup sample voronoi x z = 1 := by
  simp only [block_lookup]
  generalize voronoi x SEA_LEVEL z = v
  generalize (if v.2.1 = 15 then (sample v.1 v.2.2).1 else (sample v.1 v.2.2).2) = b
  by_cases hb : b = 14
  · exact .inr (if_pos hb)
  · exact .inl (if_neg hb)

theorem sampled_of_builds (hn : 1 ≤ nthreads) {zero : Int8 × Int8}
    (hb : (spawn W.gw4 nthreads zero).Builds (biome4_entry W sample) biome4) :
    Sampled W sample biome4 := by
  intro i j hc
  exact (spawn_inv W.gw4 hn zero _).builds_read (fun _ _ _ => rfl) hb hc

theorem pass_entry_of_builds (hr : 0 < W.radius) (hn : 1 ≤ nthreads) {sha : BitVec 64}
    {old4 : Int8 × Int8} (hb : (spawn W.gw4 nthreads old4).Builds (biome4_entry W sample) biome4)
    (hm : dilate biome4 = some mush_mask) (i j : Int) (hc : Within W.gw i j) :
    pass_entry W (voronoiAccess3D sha) biome4 mush_mask i j =
      some (block_lookup sample (voronoiAccess3D sha) (W.ox + i) (W.oz + j)) :=
  pass_entry_spec hr (sampled_of_builds hn hb) (voronoiAccess3D_near sha) hm hc

/-- Whatever the order of the threads in both steps, an entry is the plain lookup. -/
theorem read_of_builds (hr : 0 < W.radius) (hn : 1 ≤ nthreads) {sha : BitVec 64}
    {old4 : Int8 × Int8} {old : Int8} {pass : Grid Int8 W.gw}
    (hb : (spawn W.gw4 nthreads old4).Builds (biome4_entry W sample) biome4)
    (hm : dilate biome4 = some mush_mask)
    (hp : (spawn W.gw nthreads old).Builds
      (pass_entry W (voronoiAccess3D sha) biome4 mush_mask) pass)
    (hc : Within W.gw i j) : pass.read i j =
      some (block_lookup sample (voronoiAccess3D sha) (W.ox + i) (W.oz + j)) :=
  (spawn_inv W.gw hn old _).builds_read (pass_entry_of_builds hr hn hb hm) hp hc

theorem todo_spawn (gw : Int) (hn : nthreads ≤ t) (zero : β) :
    (spawn gw nthreads zero).todo t = [] := by
  have hlen : (row_ranges gw nthreads).length ≤ nthreads :=
    ((List.takeWhile_sublist _).length_le).trans (by simp)
  simp [spawn, List.getElem?_eq_none (hlen.trans hn)]

theorem exists_biome4 (W : Window) (hn : 1 ≤ nthreads) (sample : Int → Int → Int × Int)
    (old4 : Int8 × Int8) :
    ∃ biome4, (spawn W.gw4 nthreads old4).Builds (biome4_entry W sample) biome4 :=
  (spawn_inv W.gw4 hn old4 _).exists_builds (fun _ _ _ => rfl) fun _ ht => todo_spawn W.gw4 ht old4

theorem exists_pass (hr : 0 < W.radius) (hn : 1 ≤ nthreads) (sha : BitVec 64)
    {old4 : Int8 × Int8} (hb : (spawn W.gw4 nthreads old4).Builds (biome4_entry W sample) biome4)
    (hm : dilate biome4 = some mush_mask) (old : Int8) :
    ∃ pass, (spawn W.gw nthreads old).Builds
      (pass_entry W (voronoiAccess3D sha) biome4 mush_mask) pass :=
  (spawn_inv W.gw hn old _).exists_builds (pass_entry_of_builds hr hn hb hm)
    fun _ ht => todo_spawn W.gw ht old

end Entry

/-- Whatever the arrays held before and in whatever order the threads run, both steps end
without an access outside an array, and each entry of `pass` is the plain lookup of its block. -/
theorem measure_pass (W : Window) (hr : 0 < W.radius) (nthreads : Nat) (hn : 1 ≤ nthreads)
    (sha : BitVec 64) (sample : Int → Int → Int × Int) (old4 : Int8 × Int8) (old : Int8) :
    (spawn W.gw4 nthreads old4).Faultless (biome4_entry W sample) ∧
      (∃ biome4, (spawn W.gw4 nthreads old4).Builds (biome4_entry W sample) biome4) ∧
        ∀ biome4, (spawn W.gw4 nthreads old4).Builds (biome4_entry W sample) biome4 →
          ∃ mush_mask, dilate biome4 = some mush_mask ∧
            (spawn W.gw nthreads old).Faultless
              (pass_entry W (voronoiAccess3D sha) biome4 mush_mask) ∧
            (∃ pass, (spawn W.gw nthreads old).Builds
              (pass_entry W (voronoiAccess3D sha) biome4 mush_mask) pass) ∧
            ∀ pass, (spawn W.gw nthreads old).Builds
                (pass_entry W (voronoiAccess3D sha) biome4 mush_mask) pass →
              ∀ i j, Within W.gw i j →
                ((voronoiAccess3D sha (W.ox + i) SEA_LEVEL (W.oz + j)).2.1 = 15 ∨
                  (voronoiAccess3D sha (W.ox + i) SEA_LEVEL (W.oz + j)).2.1 = 16) ∧
                pass.read i j =
                  some (block_lookup sample (voronoiAccess3D sha) (W.ox + i) (W.oz + j)) := by
  refine ⟨(spawn_inv W.gw4 hn old4 _).faultless fun _ _ _ => rfl,
    exists_biome4 W hn sample old4, ?_⟩
  intro biome4 hb
  obtain ⟨mush_mask, hm⟩ := exists_dilate biome4
  refine ⟨mush_mask, hm, ?_, exists_pass hr hn sha hb hm old, ?_⟩
  · exact (spawn_inv W.gw hn old _).faultless (pass_entry_of_builds hr hn hb hm)
  · intro pass hp i j hc
    exact ⟨(voronoiAccess3D_near sha (W.ox + i) SEA_LEVEL (W.oz + j)).2.1,
      read_of_builds hr hn hb hm hp hc⟩

/-- Two threads on a window that lies on both sides of both axes; every column is mushroom at
`y4 = 15` only. -/
theorem measure_pass_two_threads : ∃ biome4 mush_mask pass,
    (spawn (Window.mk 0 1 2).gw4 2 (0, 0)).Builds
      (biome4_entry ⟨0, 1, 2⟩ fun _ _ => (14, 0)) biome4 ∧
    dilate biome4 = some mush_mask ∧
    (spawn (Window.mk 0 1 2).gw 2 0).Builds
      (pass_entry ⟨0, 1, 2⟩ (voronoiAccess3D 7) biome4 mush_mask) pass ∧
    pass.read 0 0 = some (block_lookup (fun _ _ => (14, 0)) (voronoiAccess3D 7) (-2) (-1)) := by
  obtain ⟨-, ⟨biome4, hb⟩, h⟩ :=
    measure_pass ⟨0, 1, 2⟩ (by decide) 2 (by decide) 7 (fun _ _ => (14, 0)) (0, 0) 0
  obtain ⟨mush_mask, hm, -, ⟨pass, hp⟩, hread⟩ := h biome4 hb
  exact ⟨biome4, mush_mask, pass, hb, hm, hp, (hread pass hp 0 0 (by decide)).2⟩

end Omission.Cpu
