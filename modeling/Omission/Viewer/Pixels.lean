import Mathlib.Tactic.Ring
import Omission.Cpu.Voronoi
import Omission.Lib.Rect
import Omission.Lib.Trunc
import Omission.Viewer.Workers

namespace Omission.Viewer
open Omission.Cpu Omission.Lib Omission.SeedText
set_option autoImplicit true

/-- A row of `colors`. -/
structure Rgb where
  r : UInt8
  g : UInt8
  b : UInt8
deriving DecidableEq

/-- The variables of `main` in `render_map.cpp` that place the pixels, once `y` has its default. -/
structure Sampling where
  cx : Int
  cz : Int
  scale : Int
  width : Int
  height : Int
  y : Int
  zoom : Int
deriving DecidableEq

def sampling (a : RenderMap) : Sampling where
  cx := a.cx.toInt
  cz := a.cz.toInt
  scale := a.scale.toInt
  width := a.width.toInt
  height := a.height.toInt
  y := if a.y.toInt < 0 then if a.scale.toInt = 1 then 62 else 15 else a.y.toInt
  zoom := a.zoom.toInt

/-- The bytes that a tile stores for a biome, alpha last. -/
def tile_color (colors : Nat → Rgb) (id : Int) : Rgb × UInt8 :=
  let id := if id < 0 ∨ id > 255 then 0 else id
  (colors id.toNat, 255)

def map_color (colors : Nat → Rgb) (id : Int) : Rgb :=
  if 0 ≤ id ∧ id < 256 then colors id.toNat else ⟨0, 0, 0⟩

section Loops

variable (getBiomeAt : Int → Int → Int → Int → Int) (colors : Nat → Rgb)

def cubiomes_sample_tile (t : Tile) (out_rgba : Rect (Rgb × UInt8) t.w t.h) :
    Option (Rect (Rgb × UInt8) t.w t.h) :=
  out_rgba.paint fun i j =>
    let bx := t.originX + i * t.stride
    let bz := t.originZ + j * t.stride
    tile_color colors (getBiomeAt 4 (bx.tdiv 4) t.y4 (bz.tdiv 4))

/-- The branch of `main` for `--sample`. -/
def Sampling.sample (m : Sampling) (pixels : Rect Rgb m.width m.height) :
    Option (Rect Rgb m.width m.height) :=
  let stride := m.scale * m.zoom
  let block_half_w := (m.width * stride).tdiv 2
  let block_half_h := (m.height * stride).tdiv 2
  let start_x := m.cx - block_half_w + stride.tdiv 2
  let start_z := m.cz - block_half_h + stride.tdiv 2
  pixels.paint fun i j =>
    let wx := start_x + i * stride
    let wz := start_z + j * stride
    map_color colors (getBiomeAt m.scale (wx.tdiv m.scale) m.y (wz.tdiv m.scale))

end Loops

/-- The block at pixel `i` of a side with `n` pixels around `c`, as `sample` computes it. -/
def Sampling.block (m : Sampling) (c n i : Int) : Int :=
  c - (n * (m.scale * m.zoom)).tdiv 2 + (m.scale * m.zoom).tdiv 2 + i * (m.scale * m.zoom)

/-- Whatever the world and the colours, pixel `(i, j)` is that of the cell `(x, z)`. -/
def Tile.Shows (t : Tile) (i j x z : Int) : Prop :=
  ∀ (getBiomeAt : Int → Int → Int → Int → Int) (colors : Nat → Rgb) (out_rgba),
    ∃ image, cubiomes_sample_tile getBiomeAt colors t out_rgba = some image ∧
      image.read i j = some (tile_color colors (getBiomeAt 4 x t.y4 z))

def Sampling.Shows (m : Sampling) (i j x z : Int) : Prop :=
  ∀ (getBiomeAt : Int → Int → Int → Int → Int) (colors : Nat → Rgb) (pixels),
    ∃ image, m.sample getBiomeAt colors pixels = some image ∧
      image.read i j = some (map_color colors (getBiomeAt m.scale x m.y z))

def Tile.move (t : Tile) (a b : Int) : Tile :=
  { t with originX := t.originX + 4 * a, originZ := t.originZ + 4 * b }

def Sampling.move (m : Sampling) (a b : Int) : Sampling :=
  { m with cx := m.cx + 4 * a, cz := m.cz + 4 * b }

/-- The `int`s computed for the pixel `(i, j)` of a tile. -/
def Tile.ints (t : Tile) (i j : Int) : List Int :=
  [i * t.stride, j * t.stride, t.originX + i * t.stride, t.originZ + j * t.stride]

/-- The `int`s computed for one axis of a pixel in the branch for `--sample`. -/
def Sampling.ints (m : Sampling) (c n i : Int) : List Int :=
  let stride := m.scale * m.zoom
  [stride, n * stride, c - (n * stride).tdiv 2, c - (n * stride).tdiv 2 + stride.tdiv 2,
    i * stride, m.block c n i]

/-- The axis has room for `n` pixels on both sides of `c`. -/
def Roomy (c n stride : Int) : Prop := -2 ^ 31 ≤ c - n * stride ∧ c + n * stride < 2 ^ 31

instance : Decidable (Roomy c n k) := inferInstanceAs (Decidable (_ ∧ _))

/-- The block is on the positive side of its axis, or the first one of its cell. -/
def Floored (block : Int) : Prop := 0 ≤ block ∨ 4 ∣ block

instance : Decidable (Floored block) := inferInstanceAs (Decidable (_ ∨ _))

theorem sar2_eq (x : Int) : sar2 x = x / 4 := Int.shiftRight_eq_div_pow x 2

theorem sar2_eq_tdiv_iff (block : Int) : sar2 block = block.tdiv 4 ↔ Floored block := by
  rw [sar2_eq, eq_comm]
  exact tdiv_eq_ediv_iff (by decide)

/-- Pixels that are painted by the biomes of their cells tell all cells apart. -/
theorem painted_iff (color : (Nat → Rgb) → Int → β)
    (hcolor : ∃ colors, color colors 0 ≠ color colors 1) {n y : Int} (cx cz : Int → Int)
    (hin : Inside w h i j) (x z : Int) :
    (∀ (getBiomeAt : Int → Int → Int → Int → Int) (colors : Nat → Rgb) (pixels : Rect β w h),
      ∃ image, pixels.paint (fun i j => color colors (getBiomeAt n (cx i) y (cz j))) = some image ∧
        image.read i j = some (color colors (getBiomeAt n x y z))) ↔ x = cx i ∧ z = cz j := by
  constructor
  · intro hshows
    obtain ⟨colors, hne⟩ := hcolor
    by_contra hcell
    -- a world that has its own biome in the sampled cell
    let getBiomeAt (_ x' _ z' : Int) : Int := if x' = cx i ∧ z' = cz j then 0 else 1
    obtain ⟨image, hpaint, hread⟩ := hshows getBiomeAt colors (.fill w h (color colors 0))
    obtain ⟨image', hpaint', hread'⟩ := (Rect.fill w h (color colors 0)).paint_spec
      fun i j => color colors (getBiomeAt n (cx i) y (cz j))
    obtain rfl := Option.some.inj (hpaint.symm.trans hpaint')
    have hsampled := Option.some.inj ((hread' i j hin).symm.trans hread)
    rw [show getBiomeAt n x y z = 1 from if_neg hcell] at hsampled
    rw [show getBiomeAt n (cx i) y (cz j) = 0 from if_pos ⟨rfl, rfl⟩] at hsampled
    exact hne hsampled
  · rintro ⟨rfl, rfl⟩ getBiomeAt colors pixels
    obtain ⟨image, hpaint, hread⟩ := pixels.paint_spec
      fun i j => color colors (getBiomeAt n (cx i) y (cz j))
    exact ⟨image, hpaint, hread i j hin⟩

/-- Where each image shows one cell, the second one moves along if the cells do. -/
theorem moved_iff {shows shows' : Int → Int → Prop} (h : ∀ x z, shows x z ↔ x = p ∧ z = q)
    (h' : ∀ x z, shows' x z ↔ x = p' ∧ z = q') :
    (∀ x z, shows x z → shows' (x + a) (z + b)) ↔ p' = p + a ∧ q' = q + b := by
  simp only [h, h']
  constructor
  · intro hmoves
    obtain ⟨hp, hq⟩ := hmoves p q ⟨rfl, rfl⟩
    exact ⟨hp.symm, hq.symm⟩
  · rintro ⟨rfl, rfl⟩ x z ⟨rfl, rfl⟩
    exact ⟨rfl, rfl⟩

/-- The pixels of a side are less than its length apart. -/
theorem mul_bounds {i n stride : Int} (hstride : 1 ≤ stride) (hi : 0 ≤ i) (hin : i < n) :
    0 ≤ i * stride ∧ i * stride + stride ≤ n * stride := by
  have hpos : 0 ≤ stride := Int.le_trans (by decide) hstride
  have hnext := Int.mul_le_mul_of_nonneg_right (Int.add_one_le_of_lt hin) hpos
  rw [Int.add_mul, Int.one_mul] at hnext
  exact ⟨Int.mul_nonneg hi hpos, hnext⟩

theorem Roomy.fits {c n i stride : Int} (h : Roomy c n stride) (hstride : 1 ≤ stride) (hi : 0 ≤ i) (hin : i < n) :
    Fits 32 (i * stride) ∧ Fits 32 (c + i * stride) := by
  have hbounds := mul_bounds hstride hi hin
  unfold Roomy at h
  unfold Fits
  omega

theorem Tile.fits_ints {t : Tile} (hstride : 1 ≤ t.stride) (hx : Roomy t.originX t.w t.stride)
    (hz : Roomy t.originZ t.h t.stride) (hin : Inside t.w t.h i j) :
    ∀ v ∈ t.ints i j, Fits 32 v := by
  obtain ⟨hi, hi', hj, hj'⟩ := hin
  have hcol := hx.fits hstride hi hi'
  have hrow := hz.fits hstride hj hj'
  simp only [Tile.ints, List.mem_cons, List.not_mem_nil, or_false, forall_eq_or_imp, forall_eq]
  exact ⟨hcol.1, hrow.1, hcol.2, hrow.2⟩

theorem Sampling.fits_axis {m : Sampling} (hstride : 1 ≤ m.scale * m.zoom)
    (h : Roomy c n (m.scale * m.zoom)) (hi : 0 ≤ i) (hin : i < n) :
    ∀ v ∈ m.ints c n i, Fits 32 v := by
  simp only [Sampling.ints, Sampling.block, List.mem_cons, List.not_mem_nil, or_false,
    forall_eq_or_imp, forall_eq]
  generalize m.scale * m.zoom = stride at hstride h ⊢
  have hbounds := mul_bounds hstride hi hin
  have hborder : (n * stride).tdiv 2 = n * stride / 2 :=
    Int.tdiv_eq_ediv_of_nonneg (by omega)
  have hhalf : stride.tdiv 2 = stride / 2 := Int.tdiv_eq_ediv_of_nonneg (by omega)
  rw [hborder, hhalf]
  unfold Roomy at h
  unfold Fits
  omega

theorem Sampling.fits_ints {m : Sampling} (hscale : m.scale = 4) (hzoom : 1 ≤ m.zoom)
    (hx : Roomy m.cx m.width (4 * m.zoom)) (hz : Roomy m.cz m.height (4 * m.zoom))
    (hin : Inside m.width m.height i j) :
    ∀ v ∈ m.ints m.cx m.width i ++ m.ints m.cz m.height j, Fits 32 v := by
  have hstride : 1 ≤ m.scale * m.zoom := by
    rw [hscale]
    omega
  rw [← hscale] at hx hz
  obtain ⟨hi, hi', hj, hj'⟩ := hin
  exact List.forall_mem_append.2
    ⟨Sampling.fits_axis hstride hx hi hi', Sampling.fits_axis hstride hz hj hj'⟩

theorem Tile.shows_iff (t : Tile) (hin : Inside t.w t.h i j) (x z : Int) : t.Shows i j x z ↔
    x = (t.originX + i * t.stride).tdiv 4 ∧ z = (t.originZ + j * t.stride).tdiv 4 :=
  painted_iff tile_color ⟨fun k => ⟨UInt8.ofNat k, 0, 0⟩, by decide⟩
    (fun i => (t.originX + i * t.stride).tdiv 4)
    (fun j => (t.originZ + j * t.stride).tdiv 4) hin x z

theorem Tile.moves_iff (t : Tile) (hin : Inside t.w t.h i j) (a b : Int) :
    (∀ x z, t.Shows i j x z → (t.move a b).Shows i j (x + a) (z + b)) ↔
      Steady 4 (t.originX + i * t.stride) a ∧ Steady 4 (t.originZ + j * t.stride) b := by
  rw [moved_iff (t.shows_iff hin) ((t.move a b).shows_iff hin), ← tdiv_add_mul_iff (by decide),
    ← tdiv_add_mul_iff (by decide)]
  simp only [Tile.move, Int.add_right_comm]

namespace Sampling

variable {m : Sampling}

/-- Both halvings are exact at scale 4. -/
theorem block_eq (hscale : m.scale = 4) (c n i : Int) :
    m.block c n i = c + 2 * m.zoom * (2 * i + 1 - n) := by
  have hhalf : ∀ k : Int, (2 * k).tdiv 2 = k := fun k => Int.mul_tdiv_cancel_left k (by decide)
  have hborder : n * (4 * m.zoom) = 2 * (2 * m.zoom * n) := by ring
  have hstride : 4 * m.zoom = 2 * (2 * m.zoom) := by ring
  rw [block, hscale, hborder, hhalf, hstride, hhalf]
  ring

theorem shows_iff (m : Sampling) (hin : Inside m.width m.height i j) (x z : Int) :
    m.Shows i j x z ↔ x = (m.block m.cx m.width i).tdiv m.scale ∧
      z = (m.block m.cz m.height j).tdiv m.scale :=
  painted_iff map_color ⟨fun k => ⟨UInt8.ofNat k, 0, 0⟩, by decide⟩
    (fun i => (m.block m.cx m.width i).tdiv m.scale)
    (fun j => (m.block m.cz m.height j).tdiv m.scale) hin x z

theorem moves_iff (m : Sampling) (hscale : m.scale = 4) (hin : Inside m.width m.height i j)
    (a b : Int) : (∀ x z, m.Shows i j x z → (m.move a b).Shows i j (x + a) (z + b)) ↔
      Steady 4 (m.block m.cx m.width i) a ∧ Steady 4 (m.block m.cz m.height j) b := by
  have hscale' : (m.move a b).scale = 4 := hscale
  rw [moved_iff (m.shows_iff hin) ((m.move a b).shows_iff hin), hscale, hscale',
    ← tdiv_add_mul_iff (by decide), ← tdiv_add_mul_iff (by decide), block_eq hscale,
    block_eq hscale, block_eq hscale', block_eq hscale']
  simp only [Sampling.move, Int.add_right_comm]

end Sampling

/-- A pixel of the map and one of a thumbnail show the cell that their block lies in exactly where
truncation is floor, and they move along with whole cells exactly where no axis is crossed. No `int`
overflows where the axes have room. -/
theorem pixels_on_cell_iff (t : Tile) (m : Sampling) (hscale : m.scale = 4) (i j a b : Int) :
    (Inside t.w t.h i j →
      (t.Shows i j (sar2 (t.originX + i * t.stride)) (sar2 (t.originZ + j * t.stride)) ↔
        Floored (t.originX + i * t.stride) ∧ Floored (t.originZ + j * t.stride)) ∧
      ((∀ x z, t.Shows i j x z → (t.move a b).Shows i j (x + a) (z + b)) ↔
        Steady 4 (t.originX + i * t.stride) a ∧ Steady 4 (t.originZ + j * t.stride) b) ∧
      (1 ≤ t.stride → Roomy t.originX t.w t.stride → Roomy t.originZ t.h t.stride →
        ∀ v ∈ t.ints i j, Fits 32 v)) ∧
    (Inside m.width m.height i j →
      (m.Shows i j (sar2 (m.block m.cx m.width i)) (sar2 (m.block m.cz m.height j)) ↔
        Floored (m.cx + 2 * m.zoom * (2 * i + 1 - m.width)) ∧
        Floored (m.cz + 2 * m.zoom * (2 * j + 1 - m.height))) ∧
      ((∀ x z, m.Shows i j x z → (m.move a b).Shows i j (x + a) (z + b)) ↔
        Steady 4 (m.cx + 2 * m.zoom * (2 * i + 1 - m.width)) a ∧
        Steady 4 (m.cz + 2 * m.zoom * (2 * j + 1 - m.height)) b) ∧
      (1 ≤ m.zoom → Roomy m.cx m.width (4 * m.zoom) → Roomy m.cz m.height (4 * m.zoom) →
        ∀ v ∈ m.ints m.cx m.width i ++ m.ints m.cz m.height j, Fits 32 v)) := by
  refine ⟨fun hin => ⟨?_, t.moves_iff hin a b, ?_⟩, fun hin => ⟨?_, ?_, ?_⟩⟩
  · rw [t.shows_iff hin, sar2_eq_tdiv_iff, sar2_eq_tdiv_iff]
  · exact fun hstride hx hz => Tile.fits_ints hstride hx hz hin
  · rw [m.shows_iff hin, hscale, sar2_eq_tdiv_iff, sar2_eq_tdiv_iff, Sampling.block_eq hscale,
      Sampling.block_eq hscale]
  · rw [m.moves_iff hscale hin, Sampling.block_eq hscale, Sampling.block_eq hscale]
  · exact fun hzoom hx hz => Sampling.fits_ints hscale hzoom hx hz hin

/-- One block west of the axis, the tile shows the cell on the other side. -/
theorem west_pixel_off_cell :
    ¬ (⟨-1, 0, 15, 1, 256, 256⟩ : Tile).Shows 0 0 (sar2 (-1)) (sar2 0) ∧
    (⟨-1, 0, 15, 1, 256, 256⟩ : Tile).Shows 0 0 0 0 ∧
    ¬ (⟨-1, 0, 4, 256, 256, 15, 8⟩ : Sampling).Shows 127 0 (sar2 (-17)) (sar2 (-4080)) := by
  refine ⟨?_, ?_, ?_⟩
  · rw [Tile.shows_iff _ (by decide)]
    decide
  · rw [Tile.shows_iff _ (by decide)]
    decide
  · rw [Sampling.shows_iff _ (by decide)]
    decide

theorem pixels_on_cell_iff_four :
    (⟨-4, 0, 15, 1, 256, 256⟩ : Tile).Shows 127 0 (sar2 123) (sar2 0) ∧
    (⟨0, 0, 4, 256, 256, 15, 8⟩ : Sampling).Shows 127 0 (sar2 (-16)) (sar2 (-4080)) := by
  have h := pixels_on_cell_iff ⟨-4, 0, 15, 1, 256, 256⟩ ⟨0, 0, 4, 256, 256, 15, 8⟩ rfl 127 0 0 0
  exact ⟨(h.1 (by decide)).1.2 (by decide), (h.2 (by decide)).1.2 (by decide)⟩

/-- An `int` is read as it was written. -/
theorem strtol32_toInt (v : BitVec 32) : (strtol32 (signedDecimal v.toInt)).toInt = v.toInt := by
  rw [strtol32_signedDecimal (fits_toInt (by decide) v)]
  exact (wrap_eq_iff (by decide)).2 (fits_toInt (Nat.le_refl 32) v)

/-- What `render_thumb` asks for. -/
theorem render_thumb_sampling (column : BitVec 64) (x z : BitVec 32) (large : Bool) :
    (RenderMap.scan ⟨0, 0, 0, 4, 512, 512, -1, false, 1, false, none⟩
      (render_args column x.toInt z.toInt large)).map sampling =
      some ⟨x.toInt, z.toInt, 4, 256, 256, 15, 8⟩ := by
  have hx := strtol32_toInt x
  have hz := strtol32_toInt z
  have hscale : (strtol32 ['4']).toInt = 4 := by decide
  have hside : (strtol32 ['2', '5', '6']).toInt = 256 := by decide
  have hzoom : (strtol32 ['8']).toInt = 8 := by decide
  cases large <;>
    simp [render_args, RenderMap.scan, RenderMap.option, RenderMap.flag, sampling, hx, hz, hscale,
      hside, hzoom]

/-- The blocks of a thumbnail have the residue of its centre, so all of its pixels are right where
that is a multiple of four; the `int`s fit unless the centre is within 8192 blocks of their end. -/
theorem render_thumb_shows {x z : BitVec 32} (hx : 4 ∣ x.toInt) (hz : 4 ∣ z.toInt)
    (hroom : Roomy x.toInt 256 32 ∧ Roomy z.toInt 256 32) (hin : Inside 256 256 i j)
    (column : BitVec 64) (large : Bool) :
    ∃ m, (RenderMap.scan ⟨0, 0, 0, 4, 512, 512, -1, false, 1, false, none⟩
        (render_args column x.toInt z.toInt large)).map sampling = some m ∧
      m.Shows i j (sar2 (m.block m.cx m.width i)) (sar2 (m.block m.cz m.height j)) ∧
      ∀ v ∈ m.ints m.cx m.width i ++ m.ints m.cz m.height j, Fits 32 v := by
  have hzoom : (1 : Int) ≤ 8 := by decide
  refine ⟨_, render_thumb_sampling column x z large, ?_,
    Sampling.fits_ints rfl hzoom hroom.1 hroom.2 hin⟩
  have hblock : ∀ {c : Int} k, 4 ∣ c →
      Floored ((⟨x.toInt, z.toInt, 4, 256, 256, 15, 8⟩ : Sampling).block c 256 k) := by
    intro c k hc
    have hstride : (4 : Int) ∣ 2 * 8 := by decide
    rw [Sampling.block_eq rfl]
    exact .inr (Int.dvd_add hc (hstride.mul_right _))
  exact (Sampling.shows_iff _ hin _ _).2
    ⟨(sar2_eq_tdiv_iff _).2 (hblock i hx), (sar2_eq_tdiv_iff _).2 (hblock j hz)⟩

end Omission.Viewer
