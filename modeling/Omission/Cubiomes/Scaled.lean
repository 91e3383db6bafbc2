import Omission.Cpu.Voronoi
import Omission.Cubiomes.BiomeTree
import Omission.Lib.Blocks
import Omission.Lib.Wrap

namespace Omission.Cubiomes
open Omission.Lib
open Omission.Cpu (voronoiAccess3D voronoiAccess3D_near sar2)
set_option autoImplicit true

/-- The cells that the blocks of a volume may read; another scale ends the program. -/
def getVoronoiSrcRange (r : Volume) : Option Volume :=
  if r.scale ≠ 1 then none
  else
    let x := r.x - 2
    let z := r.z - 2
    let ty := r.y - 2
    some {
      scale := 4
      x := sar2 x
      z := sar2 z
      sx := sar2 (x + r.sx) - sar2 x + 2
      sz := sar2 (z + r.sz) - sar2 z + 2
      y := if r.sy < 1 then 0 else sar2 ty
      sy := if r.sy < 1 then 0 else sar2 (ty + r.sy) - sar2 ty + 2 }

def readAt (mem : List Int) (idx : Int) : Option Int :=
  if 0 ≤ idx then mem[idx.toNat]? else none

def Touple.of (c : Int × Int × Int) : Touple := ⟨c.1, c.2.1, c.2.2⟩

/-- The cell of a block of the volume. -/
def cellOf (sha : BitVec 64) (r : Volume) (t : Touple) : Touple :=
  .of (voronoiAccess3D sha (r.x + t.x) (r.y + t.y) (r.z + t.z))

/-- The biome of a block: from the copy of the source behind the first `siz` entries, if there is
one. -/
def block_biome (sample : Sampler) (sha : BitVec 64) (r s : Volume) (siz : Nat) (out : List Int)
    (t : Touple) : Option Int :=
  let c := cellOf sha r t
  if siz > 1 then
    readAt out (siz + ((c.y - s.y) * s.sx * s.sz + (c.z - s.z) * s.sx + (c.x - s.x)))
  else (sample 0 c none).map Prod.fst

def write_ids (ids : List Int) (p : Nat) (out : List Int) : Option (List Int) :=
  storeFrom (fun _ id => some id) ids p out

def copy_source (sample : Sampler) (s : Volume) (siz : Nat) (out : List Int) :
    Option (List Int) :=
  if siz > 1 then do
    let ids ← genBiomeNoise3D sample s false
    write_ids ids siz out
  else some out

def genBiomeNoiseScaled (sample : Sampler) (out : List Int) (r : Volume) (sha : BitVec 64) :
    Option (List Int) :=
  let r := r.flat
  let siz := r.size
  if r.scale = 1 then do
    let s ← getVoronoiSrcRange r
    let out ← copy_source sample s siz out
    storeFrom (block_biome sample sha r s siz) (fill_buffer r) 0 out
  else do
    let ids ← genBiomeNoise3D sample r (decide (r.scale > 4))
    write_ids ids 0 out

/-- `((n+3) >> 2) + 2` -/
def sourceSide (n : Int) : Int := sar2 (n + 3) + 2

/-- The size for the overworld from version 1.18 on. -/
def getMinCacheSize (scale sx sy sz : Int) : Nat :=
  let sy := if sy = 0 then 1 else sy
  let len := BitVec.ofInt 64 sx * BitVec.ofInt 64 sz * BitVec.ofInt 64 sy
  if scale ≤ 1 then
    (len + BitVec.ofInt 64 (wrap 32 (sourceSide sx * sourceSide sy * sourceSide sz))).toNat
  else len.toNat

def getBiomeAt (sample : Sampler) (sha : BitVec 64) (scale x y z : Int) : Option Int := do
  let ids := List.replicate (getMinCacheSize scale 1 1 1) 0
  let ids ← genBiomeNoiseScaled sample ids ⟨⟨scale, x, z, 1, 1⟩, y, 1⟩ sha
  ids[0]?

theorem getElem?_range (h0 : 0 ≤ k) (hk : k < n) : (Int.range 0 n)[k.toNat]? = some k := by
  rw [Int.range, List.getElem?_map, List.getElem?_range (by omega), Option.map_some]
  congr 1
  omega

/-- Where a cell lies in the order of the loops. -/
def indexOf (r : Volume) (t : Touple) : Int := (t.y * r.sz + t.z) * r.sx + t.x

theorem length_row (r : Volume) (j k : Int) :
    ((Int.range 0 r.sx).map fun i => (⟨i, k, j⟩ : Touple)).length = r.sx.toNat := by
  rw [List.length_map, length_range]

theorem length_layer (r : Volume) (k : Int) :
    ((Int.range 0 r.sz).flatMap fun j =>
      (Int.range 0 r.sx).map fun i => (⟨i, k, j⟩ : Touple)).length = r.sz.toNat * r.sx.toNat := by
  simp only [List.length_flatMap, length_row, List.map_const', List.sum_replicate, length_range,
    smul_eq_mul]

/-- The index as the loops count it. -/
theorem indexOf_toNat {r : Volume} {t : Touple} (ht : InVolume r t) :
    0 ≤ indexOf r t ∧ (indexOf r t).toNat =
      t.y.toNat * (r.sz.toNat * r.sx.toNat) + (t.z.toNat * r.sx.toNat + t.x.toNat) := by
  obtain ⟨⟨hx, hx'⟩, ⟨hy, hy'⟩, hz, hz'⟩ := ht
  have hsx : 0 ≤ r.sx := hx.trans hx'.le
  have hsz : 0 ≤ r.sz := hz.trans hz'.le
  have hrow : 0 ≤ t.y * r.sz + t.z := Int.add_nonneg (Int.mul_nonneg hy hsz) hz
  have h0 : 0 ≤ indexOf r t := Int.add_nonneg (Int.mul_nonneg hrow hsx) hx
  refine ⟨h0, ?_⟩
  zify
  rw [Int.toNat_of_nonneg h0, Int.toNat_of_nonneg hx, Int.toNat_of_nonneg hy,
    Int.toNat_of_nonneg hz, Int.toNat_of_nonneg hsx, Int.toNat_of_nonneg hsz, indexOf]
  ring

theorem getElem?_fill_buffer {r : Volume} {t : Touple} (ht : InVolume r t) :
    (fill_buffer r)[(indexOf r t).toNat]? = some t := by
  rw [(indexOf_toNat ht).2]
  obtain ⟨⟨hx, hx'⟩, ⟨hy, hy'⟩, hz, hz'⟩ := ht
  have hin : t.x.toNat < r.sx.toNat := by omega
  have hlast : t.z.toNat * r.sx.toNat + t.x.toNat < r.sz.toNat * r.sx.toNat := by
    calc t.z.toNat * r.sx.toNat + t.x.toNat
      _ < (t.z.toNat + 1) * r.sx.toNat := by rw [Nat.succ_mul]; omega
      _ ≤ r.sz.toNat * r.sx.toNat := Nat.mul_le_mul_right _ (by omega)
  rw [fill_buffer, getElem?_flatMap_block (fun k _ => length_layer r k) hlast,
    getElem?_range hy hy', Option.bind_some,
    getElem?_flatMap_block (fun j _ => length_row r j t.y) hin, getElem?_range hz hz',
    Option.bind_some, List.getElem?_map, getElem?_range hx hx', Option.map_some]

/-- The biome of a cell without hints. -/
def plain (sample : Sampler) (t : Touple) : Option Int := (sample 0 t none).map Prod.fst

/-- The tables give each of the cells a biome. -/
def Complete (sample : Sampler) (ts : List Touple) : Prop :=
  ∀ t ∈ ts, ∃ id, sample 0 t none = some (id, none)

def biomeOf (sample : Sampler) (t : Touple) : Int := (plain sample t).getD 0

theorem plain_eq {sample : Sampler} (h : ∃ id, sample 0 t none = some (id, none)) :
    plain sample t = some (biomeOf sample t) := by
  obtain ⟨id, he⟩ := h
  rw [biomeOf, plain, he, Option.map_some, Option.getD_some]

theorem sample_each_plain {sample : Sampler} {ts : List Touple} (h : Complete sample ts) :
    sample_each sample 0 ts none = some (ts.map (biomeOf sample)) := by
  induction ts with
  | nil => rfl
  | cons t ts ih =>
    obtain ⟨⟨id, ht⟩, hts⟩ := List.forall_mem_cons.1 h
    have hid : biomeOf sample t = id := by
      rw [biomeOf, plain, ht, Option.map_some, Option.getD_some]
    rw [sample_each, ht, Option.bind_eq_bind, Option.bind_some]
    simp only [ih hts, Option.bind_eq_bind, Option.bind_some, List.map_cons, hid]

theorem sar2_eq (x : Int) : sar2 x = x / 4 := Int.shiftRight_eq_div_pow x 2

/-- The source of a volume of blocks. -/
structure Source (r s : Volume) : Prop where
  scale : s.scale = 4
  x : s.x = (r.x - 2) / 4
  y : s.y = (r.y - 2) / 4
  z : s.z = (r.z - 2) / 4
  sx : s.sx = (r.x - 2 + r.sx) / 4 - (r.x - 2) / 4 + 2
  sy : s.sy = (r.y - 2 + r.sy) / 4 - (r.y - 2) / 4 + 2
  sz : s.sz = (r.z - 2 + r.sz) / 4 - (r.z - 2) / 4 + 2

theorem getVoronoiSrcRange_eq {r : Volume} (hscale : r.scale = 1) (hsy : 0 < r.sy) :
    ∃ s, getVoronoiSrcRange r = some s ∧ Source r s := by
  refine ⟨_, if_neg (fun h => h hscale), ?_⟩
  have hy : ¬ r.sy < 1 := by omega
  constructor <;> simp only [sar2_eq, if_neg hy]

/-- A cell, seen from the corner of the source. -/
def fromCorner (s : Volume) (c : Touple) : Touple := ⟨c.x - s.x, c.y - s.y, c.z - s.z⟩

theorem source_axis {x t n c : Int} (ht : 0 ≤ t ∧ t < n)
    (hc : c = sar2 (x + t - 2) ∨ c = sar2 (x + t - 2) + 1) :
    0 ≤ c - (x - 2) / 4 ∧ c - (x - 2) / 4 < (x - 2 + n) / 4 - (x - 2) / 4 + 2 := by
  rw [sar2_eq] at hc
  omega

theorem Source.mem_of_near (h : Source r s) (ht : InVolume r t)
    (hc : Cpu.Near (sar2 (r.x + t.x - 2), sar2 (r.y + t.y - 2), sar2 (r.z + t.z - 2)) c) :
    InVolume s (fromCorner s (.of c)) := by
  obtain ⟨hx, hy, hz⟩ := ht
  obtain ⟨hnx, hny, hnz⟩ := hc
  rw [InVolume, h.sx, h.sy, h.sz, fromCorner, h.x, h.y, h.z]
  exact ⟨source_axis hx hnx, source_axis hy hny, source_axis hz hnz⟩

/-- The cell of a block is one of the source. -/
theorem Source.cellOf_mem (h : Source r s) (sha : BitVec 64) (ht : InVolume r t) :
    InVolume s (fromCorner s (cellOf sha r t)) :=
  h.mem_of_near ht (voronoiAccess3D_near sha (r.x + t.x) (r.y + t.y) (r.z + t.z))

theorem cells3D_source (h : s.scale = 4) :
    cells3D s = (fill_buffer s).map fun t => ⟨s.x + t.x, s.y + t.y, s.z + t.z⟩ := by
  have h4 : ¬ s.scale > 4 := by omega
  have hmid : (1 : Int).tdiv 2 = 0 := by decide
  rw [cells3D, if_neg h4]
  apply List.map_congr_left
  intro t _
  rw [hmid, Int.mul_one, Int.mul_one, Int.add_zero, Int.add_zero]

theorem getElem?_cells3D (h : s.scale = 4) (hc : InVolume s (fromCorner s c)) :
    (cells3D s)[(indexOf s (fromCorner s c)).toNat]? = some c := by
  rw [cells3D_source h, List.getElem?_map, getElem?_fill_buffer hc, Option.map_some]
  simp only [fromCorner, Option.some.injEq]
  obtain ⟨x, y, z⟩ := c
  simp only [Touple.mk.injEq]
  omega

/-- The volumes whose cache has a size that is computed without overflow. -/
structure Blocks (r : Volume) : Prop where
  sx : 0 < r.sx
  sy : 0 < r.sy
  sz : 0 < r.sz
  source : sourceSide r.sx * sourceSide r.sy * sourceSide r.sz < 2 ^ 31

theorem sourceSide_bounds {n : Int} (hn : 0 < n) : 3 ≤ sourceSide n ∧ n ≤ 4 * sourceSide n := by
  rw [sourceSide, sar2_eq]
  omega

theorem sides_lt {a b c : Int} (ha : 3 ≤ a) (hb : 3 ≤ b) (hc : 3 ≤ c) (h : a * b * c < 2 ^ 31) :
    4 * a < 2 ^ 31 ∧ 4 * b < 2 ^ 31 ∧ 4 * c < 2 ^ 31 := by
  have hab : 9 ≤ a * b := by nlinarith
  have hbc : 9 ≤ b * c := by nlinarith
  have hac : 9 ≤ a * c := by nlinarith
  refine ⟨?_, ?_, ?_⟩ <;> nlinarith

theorem product_le {a b c a' b' c' : Int} (ha : 0 < a ∧ a ≤ a') (hb : 0 < b ∧ b ≤ b')
    (hc : 0 < c ∧ c ≤ c') : a * b * c ≤ a' * b' * c' := by
  have ha' : 0 < a' := ha.1.trans_le ha.2
  have hb' : 0 < b' := hb.1.trans_le hb.2
  apply Int.mul_le_mul _ hc.2 hc.1.le (Int.mul_nonneg ha'.le hb'.le)
  exact Int.mul_le_mul ha.2 hb.2 hb.1.le ha'.le

theorem Blocks.sides (h : Blocks r) : Sides r ∧ r.sx * r.sy * r.sz < 2 ^ 37 := by
  obtain ⟨hx, hx'⟩ := sourceSide_bounds h.sx
  obtain ⟨hy, hy'⟩ := sourceSide_bounds h.sy
  obtain ⟨hz, hz'⟩ := sourceSide_bounds h.sz
  obtain ⟨hx2, hy2, hz2⟩ := sides_lt hx hy hz h.source
  have hle := product_le ⟨h.sx, hx'⟩ ⟨h.sy, hy'⟩ ⟨h.sz, hz'⟩
  have hsize : r.sx * r.sy * r.sz < 2 ^ 37 := by
    have hs := h.source
    calc r.sx * r.sy * r.sz
      _ ≤ 4 * sourceSide r.sx * (4 * sourceSide r.sy) * (4 * sourceSide r.sz) := hle
      _ = 64 * (sourceSide r.sx * sourceSide r.sy * sourceSide r.sz) := by ring
      _ < 2 ^ 37 := by omega
  refine ⟨⟨⟨h.sx, ?_⟩, ⟨h.sy, ?_⟩, ⟨h.sz, ?_⟩, ?_⟩, hsize⟩ <;> omega

theorem source_side {x n m : Int} (hn : 0 < n)
    (hm : m = (x - 2 + n) / 4 - (x - 2) / 4 + 2) : 0 < m ∧ m ≤ sourceSide n := by
  rw [hm, sourceSide, sar2_eq]
  omega

theorem Source.bounds (h : Source r s) (hr : Blocks r) :
    Sides s ∧ s.sx * s.sy * s.sz ≤ sourceSide r.sx * sourceSide r.sy * sourceSide r.sz := by
  have hx := source_side hr.sx h.sx
  have hy := source_side hr.sy h.sy
  have hz := source_side hr.sz h.sz
  obtain ⟨hx2, hy2, hz2⟩ := sides_lt (sourceSide_bounds hr.sx).1 (sourceSide_bounds hr.sy).1
    (sourceSide_bounds hr.sz).1 hr.source
  have hle := product_le hx hy hz
  have hs := hr.source
  refine ⟨⟨⟨hx.1, ?_⟩, ⟨hy.1, ?_⟩, ⟨hz.1, ?_⟩, ?_⟩, hle⟩ <;> omega

/-- The cache has room for the blocks and their source. -/
theorem getMinCacheSize_eq (hr : Blocks r) :
    getMinCacheSize 1 r.sx r.sy r.sz =
      r.size + (sourceSide r.sx * sourceSide r.sy * sourceSide r.sz).toNat := by
  obtain ⟨hsides, hlt⟩ := hr.sides
  have hsy : r.sy ≠ 0 := hr.sy.ne'
  have hs := hr.source
  have ha := (sourceSide_bounds hr.sx).1
  have hb := (sourceSide_bounds hr.sy).1
  have hc := (sourceSide_bounds hr.sz).1
  have hpos : 0 ≤ sourceSide r.sx * sourceSide r.sy * sourceSide r.sz := by positivity
  have hwrap : wrap 32 (sourceSide r.sx * sourceSide r.sy * sourceSide r.sz) =
      sourceSide r.sx * sourceSide r.sy * sourceSide r.sz := by
    rw [wrap_eq_iff (by decide)]
    unfold Fits
    omega
  have hcomm : r.sx * r.sz * r.sy = r.sx * r.sy * r.sz := by ring
  have hpos' : 0 ≤ r.sx * r.sy * r.sz :=
    Int.mul_nonneg (Int.mul_nonneg hr.sx.le hr.sy.le) hr.sz.le
  rw [getMinCacheSize, if_neg hsy, if_pos (by decide), hwrap, ← BitVec.ofInt_mul,
    ← BitVec.ofInt_mul, hcomm, ← BitVec.ofInt_add, BitVec.toNat_ofInt, hsides.size_eq]
  rw [Int.emod_eq_of_lt (by omega) (by omega)]
  omega

theorem length_cells3D (h : Sides s) : (cells3D s).length = s.size := by
  rw [cells3D, List.length_map, length_fill_buffer h]

/-- The source lies behind the first `siz` entries, if there is more than one block. -/
def Copied (sample : Sampler) (s : Volume) (siz : Nat) (out : List Int) : Prop :=
  siz > 1 → Complete sample (cells3D s) ∧
    ∃ rest, out.drop siz = (cells3D s).map (biomeOf sample) ++ rest

theorem write_ids_eq {ids out : List Int} (h : p + ids.length ≤ out.length) :
    write_ids ids p out = some (out.take p ++ ids ++ out.drop (p + ids.length)) := by
  have hw : write_ids ids p out = _ := storeFrom_eq id h (Nat.le_refl _) fun _ _ _ _ => rfl
  rwa [List.map_id] at hw

theorem copy_source_eq {sample : Sampler} (hs : Sides s)
    (hc : siz > 1 → Complete sample (cells3D s)) (hlen : siz + s.size ≤ out.length) :
    ∃ out', copy_source sample s siz out = some out' ∧ out'.length = out.length ∧
      Copied sample s siz out' := by
  rw [copy_source]
  split
  · next hsiz =>
    have hids : ((cells3D s).map (biomeOf sample)).length = s.size := by
      rw [List.length_map, length_cells3D hs]
    rw [genBiomeNoise3D, if_neg (by decide), if_neg (by decide), sample_each_plain (hc hsiz),
      Option.bind_eq_bind, Option.bind_some, write_ids_eq (hids ▸ hlen)]
    refine ⟨_, rfl, ?_, fun _ => ⟨hc hsiz, out.drop (siz + s.size), ?_⟩⟩
    · simp only [List.length_append, List.length_take, List.length_drop, hids]
      omega
    · rw [List.append_assoc, List.drop_append_of_le_length, hids]
      · rw [List.drop_take, Nat.sub_self, List.take_zero, List.nil_append]
      · rw [List.length_take]
        omega
  · next hsiz => exact ⟨out, rfl, rfl, fun h => absurd h hsiz⟩

theorem indexOf_fromCorner (s : Volume) (c : Touple) :
    (c.y - s.y) * s.sx * s.sz + (c.z - s.z) * s.sx + (c.x - s.x) = indexOf s (fromCorner s c) := by
  rw [indexOf, fromCorner]
  ring

/-- A cell of the source is read from the copy. -/
theorem Copied.readAt (hc : Copied sample s siz out) (hsiz : siz > 1) (hs : s.scale = 4)
    (hin : InVolume s (fromCorner s c)) :
    readAt out (siz + indexOf s (fromCorner s c)) = some (biomeOf sample c) := by
  obtain ⟨-, rest, hrest⟩ := hc hsiz
  have h0 := (indexOf_toNat hin).1
  have hcell : ((cells3D s).map (biomeOf sample))[(indexOf s (fromCorner s c)).toNat]? =
      some (biomeOf sample c) := by
    rw [List.getElem?_map, getElem?_cells3D hs hin, Option.map_some]
  have hlt := (List.getElem?_eq_some_iff.1 hcell).1
  have hsum : ((siz : Int) + indexOf s (fromCorner s c)).toNat =
      siz + (indexOf s (fromCorner s c)).toNat := by
    omega
  rw [Cubiomes.readAt, if_pos (by omega), hsum, ← List.getElem?_drop, hrest,
    List.getElem?_append_left hlt, hcell]

theorem block_biome_eq {sample : Sampler} (h : Source r s) (ht : InVolume r t)
    (hc : Copied sample s siz out)
    (hone : ∃ id, sample 0 (cellOf sha r t) none = some (id, none)) :
    block_biome sample sha r s siz out t = some (biomeOf sample (cellOf sha r t)) := by
  rw [block_biome]
  split
  · next hsiz =>
    rw [indexOf_fromCorner]
    exact hc.readAt hsiz h.scale (h.cellOf_mem sha ht)
  · exact plain_eq hone

/-- What the blocks of a volume need of the tables: their cells, or the whole source where it is
copied. -/
structure Tabled (sample : Sampler) (sha : BitVec 64) (r : Volume) : Prop where
  cell : ∀ t, InVolume r t → ∃ id, sample 0 (cellOf sha r t) none = some (id, none)
  source : 1 < r.size → ∀ s, getVoronoiSrcRange r = some s → Complete sample (cells3D s)

theorem genBiomeNoiseScaled_eq {sample : Sampler} (hr : Blocks r) (hscale : r.scale = 1)
    (hs : Tabled sample sha r) (hlen : out.length = getMinCacheSize 1 r.sx r.sy r.sz) :
    ∃ rest, genBiomeNoiseScaled sample out r sha =
        some ((fill_buffer r).map (fun t => biomeOf sample (cellOf sha r t)) ++ rest) ∧
      r.size + rest.length = out.length := by
  obtain ⟨hsides, -⟩ := hr.sides
  obtain ⟨s, hsrc, hsource⟩ := getVoronoiSrcRange_eq hscale hr.sy
  obtain ⟨hss, hprod⟩ := hsource.bounds hr
  have hflat : r.flat = r := if_neg hr.sy.ne'
  have hroom : r.size + s.size ≤ out.length := by
    rw [hlen, getMinCacheSize_eq hr, hss.size_eq]
    omega
  obtain ⟨out1, hcopy, hlen1, hcopied⟩ :=
    copy_source_eq hss (fun h => hs.source h s hsrc) hroom
  have hbuf := length_fill_buffer hsides
  have hvalue : ∀ t ∈ fill_buffer r, ∀ mem : List Int, mem.drop r.size = out1.drop r.size →
      block_biome sample sha r s r.size mem t = some (biomeOf sample (cellOf sha r t)) := by
    intro t ht mem hmem
    have hin := mem_fill_buffer.1 ht
    refine block_biome_eq hsource hin (fun h => ?_) (hs.cell t hin)
    rw [hmem]
    exact hcopied h
  have hfits : 0 + (fill_buffer r).length ≤ out1.length := by omega
  have hbefore : 0 + (fill_buffer r).length ≤ r.size := by omega
  have hstore := storeFrom_eq _ hfits hbefore hvalue
  refine ⟨out1.drop (0 + (fill_buffer r).length), ?_, ?_⟩
  · simp only [genBiomeNoiseScaled, hflat]
    rw [if_pos hscale, hsrc, Option.bind_eq_bind, Option.bind_some, hcopy, Option.bind_eq_bind,
      Option.bind_some, hstore, List.take_zero, List.nil_append]
  · rw [List.length_drop]
    omega

/-- The volume of one block. -/
def oneBlock (x y z : Int) : Volume := ⟨⟨1, x, z, 1, 1⟩, y, 1⟩

theorem blocks_oneBlock (x y z : Int) : Blocks (oneBlock x y z) :=
  ⟨Int.one_pos, Int.one_pos, Int.one_pos,
    (by decide : sourceSide 1 * sourceSide 1 * sourceSide 1 < 2 ^ 31)⟩

theorem eq_of_inVolume_oneBlock (ht : InVolume (oneBlock x y z) t) : t = ⟨0, 0, 0⟩ := by
  obtain ⟨tx, ty, tz⟩ := t
  simp only [InVolume, oneBlock] at ht
  simp only [Touple.mk.injEq]
  omega

theorem getBiomeAt_eq {sample : Sampler} (x y z : Int)
    (hone : ∃ id, sample 0 (.of (voronoiAccess3D sha x y z)) none = some (id, none)) :
    getBiomeAt sample sha 1 x y z = plain sample (.of (voronoiAccess3D sha x y z)) := by
  have hcell : cellOf sha (oneBlock x y z) ⟨0, 0, 0⟩ = .of (voronoiAccess3D sha x y z) := by
    simp only [cellOf, oneBlock, Int.add_zero]
  have hs : Tabled sample sha (oneBlock x y z) := by
    refine ⟨fun t ht => ?_, fun h => ?_⟩
    · rwa [eq_of_inVolume_oneBlock ht, hcell]
    · have hsize : (oneBlock x y z).size = 1 :=
        (by decide : (BitVec.ofInt 64 1 * BitVec.ofInt 64 1 * BitVec.ofInt 64 1).toNat = 1)
      omega
  have hin : InVolume (oneBlock x y z) ⟨0, 0, 0⟩ :=
    ⟨⟨le_rfl, Int.one_pos⟩, ⟨le_rfl, Int.one_pos⟩, le_rfl, Int.one_pos⟩
  have hidx : (indexOf (oneBlock x y z) ⟨0, 0, 0⟩).toNat = 0 := by
    simp only [indexOf, Int.zero_mul, Int.add_zero, Int.toNat_zero]
  have hget := getElem?_fill_buffer hin
  rw [hidx] at hget
  have hlen : (List.replicate (getMinCacheSize 1 1 1 1) (0 : Int)).length =
      getMinCacheSize 1 (oneBlock x y z).sx (oneBlock x y z).sy (oneBlock x y z).sz :=
    List.length_replicate
  obtain ⟨rest, he, -⟩ := genBiomeNoiseScaled_eq (blocks_oneBlock x y z) rfl hs hlen
  rw [getBiomeAt]
  change (genBiomeNoiseScaled sample _ (oneBlock x y z) sha).bind _ = _
  rw [he, Option.bind_some, List.getElem?_append_left, List.getElem?_map, hget, Option.map_some,
    hcell, plain_eq hone]
  rw [List.length_map]
  exact (List.getElem?_eq_some_iff.1 hget).1

theorem getMinCacheSize_flat (r : Volume) :
    getMinCacheSize r.scale r.sx r.sy r.sz = getMinCacheSize r.scale r.sx r.flat.sy r.sz := by
  rw [Volume.flat]
  split
  · next h0 => rw [h0]; rfl
  · rfl

/-- Only the height differs. -/
theorem Volume.flat_fields (r : Volume) :
    r.flat.scale = r.scale ∧ r.flat.x = r.x ∧ r.flat.y = r.y ∧ r.flat.z = r.z ∧
      r.flat.sx = r.sx ∧ r.flat.sz = r.sz := by
  rw [Volume.flat]
  split <;> exact ⟨rfl, rfl, rfl, rfl, rfl, rfl⟩

theorem genBiomeNoiseScaled_flat {r : Volume} (h : r.flat.flat = r.flat) :
    genBiomeNoiseScaled sample out r sha = genBiomeNoiseScaled sample out r.flat sha := by
  rw [genBiomeNoiseScaled, genBiomeNoiseScaled, h]

/-- Tables in which every climate can be searched give the blocks of a volume what they need. -/
theorem tabled_of_tree {trees : BiomeTrees} {mc : Int} {sha : BitVec 64} {r : Volume}
    {climate : BitVec 32 → Touple → Vector Int 6}
    (h : ∀ t, (trees.of mc).Searchable (climate 0 t) none) :
    Tabled (sample_climate trees mc climate) sha r := by
  have hone : ∀ t, ∃ id, sample_climate trees mc climate 0 t none = some (id, none) := by
    intro t
    obtain ⟨idx, -, he, -⟩ := climateToBiome_spec (h t)
    exact ⟨_, he⟩
  exact ⟨fun t _ => hone _, fun _ s _ t _ => hone t⟩

/-- A volume of blocks gets the same biomes as its blocks one by one, those of their cells, within
a cache of the size that is allocated for it. -/
theorem genBiomeNoiseScaled_spec (sample : Sampler) (sha : BitVec 64) (r : Volume)
    (out : List Int) (hr : Blocks r.flat) (hscale : r.scale = 1) (hs : Tabled sample sha r.flat)
    (hlen : out.length = getMinCacheSize r.scale r.sx r.sy r.sz) :
    ∃ out', genBiomeNoiseScaled sample out r sha = some out' ∧ out'.length = out.length ∧
      ∀ t, InVolume r.flat t → ∃ id, out'[(indexOf r t).toNat]? = some id ∧
        getBiomeAt sample sha 1 (r.x + t.x) (r.y + t.y) (r.z + t.z) = some id ∧
        plain sample (cellOf sha r.flat t) = some id := by
  have hflat : r.flat.flat = r.flat := if_neg hr.sy.ne'
  obtain ⟨h1, hx, hy, hz, hsx, hsz⟩ := r.flat_fields
  rw [getMinCacheSize_flat, hscale, ← hsx, ← hsz] at hlen
  obtain ⟨rest, he, hrest⟩ := genBiomeNoiseScaled_eq hr (h1.trans hscale) hs hlen
  have hbuf := length_fill_buffer hr.sides.1
  refine ⟨_, (genBiomeNoiseScaled_flat hflat).trans he, ?_, fun t ht => ?_⟩
  · rw [List.length_append, List.length_map, hbuf, hrest]
  · have hget := getElem?_fill_buffer ht
    have hidx : indexOf r t = indexOf r.flat t := by rw [indexOf, indexOf, hsx, hsz]
    have hlt := (List.getElem?_eq_some_iff.1 hget).1
    have hone := hs.cell t ht
    have hcell : cellOf sha r.flat t =
        .of (voronoiAccess3D sha (r.x + t.x) (r.y + t.y) (r.z + t.z)) := by
      rw [cellOf, hx, hy, hz]
    refine ⟨biomeOf sample (cellOf sha r.flat t), ?_, ?_, plain_eq hone⟩
    · rw [hidx, List.getElem?_append_left (by rwa [List.length_map]), List.getElem?_map, hget,
        Option.map_some]
    · rw [getBiomeAt_eq _ _ _ (hcell ▸ hone), ← hcell, plain_eq hone]

theorem genBiomeNoiseScaled_spec_six :
    ∃ out', genBiomeNoiseScaled (sample_climate exampleTrees 28 fun _ => exampleClimate)
        (List.replicate (getMinCacheSize 1 3 0 2) 0) ⟨⟨1, -3, 5, 3, 2⟩, 62, 0⟩ 7 = some out' ∧
      out'.length = (List.replicate (getMinCacheSize 1 3 0 2) (0 : Int)).length ∧
      ∀ t, InVolume ⟨⟨1, -3, 5, 3, 2⟩, 62, 1⟩ t →
        ∃ id, out'[(indexOf ⟨⟨1, -3, 5, 3, 2⟩, 62, 0⟩ t).toNat]? = some id ∧
          getBiomeAt (sample_climate exampleTrees 28 fun _ => exampleClimate) 7 1 (-3 + t.x)
            (62 + t.y) (5 + t.z) = some id ∧
          plain (sample_climate exampleTrees 28 fun _ => exampleClimate)
            (cellOf 7 ⟨⟨1, -3, 5, 3, 2⟩, 62, 1⟩ t) = some id := by
  have hsearch : ∀ t, (exampleTrees.of 28).Searchable (exampleClimate t) none := by
    intro t
    exact ⟨exampleTree_sound, by decide, exampleClimate_moderate t,
      fun d hd => (Option.not_mem_none d hd).elim⟩
  exact genBiomeNoiseScaled_spec (sample_climate exampleTrees 28 fun _ => exampleClimate) 7
    ⟨⟨1, -3, 5, 3, 2⟩, 62, 0⟩ _ ⟨by decide, by decide, by decide, by decide⟩ rfl
    (tabled_of_tree hsearch) List.length_replicate

end Omission.Cubiomes
