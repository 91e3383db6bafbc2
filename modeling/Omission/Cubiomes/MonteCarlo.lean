import Omission.Cubiomes.Centers
import Omission.Cubiomes.Climate
import Omission.Cubiomes.JavaNext
import Omission.Lib.Exchange

namespace Omission.Cubiomes
open Omission.Lib
open Doubles
set_option autoImplicit true

/-- A range with its vertical part. -/
structure Volume extends Range where
  y : Int
  sy : Int

structure Touple where
  x : Int
  y : Int
  z : Int
deriving DecidableEq

/-- The cells in the order in which they are put into the buffer. -/
def fill_buffer (r : Volume) : List Touple :=
  (Int.range 0 r.sy).flatMap fun k => (Int.range 0 r.sz).flatMap fun j =>
    (Int.range 0 r.sx).map fun i => ⟨i, k, j⟩

/-- One draw with `j` cells to go: from the first `j` of the buffer, where the last of them takes
the place of what is drawn, or of three coordinates. -/
def draw_cell (fuel : Nat) (r : Volume) (j : Nat) (buf : Option (List Touple))
    (rng : BitVec 64) : Option (Touple × Option (List Touple) × BitVec 64) :=
  match buf with
  | some buf => do
    let (k, rng) ← nextInt fuel rng (BitVec.ofNat 32 j)
    let t ← buf[k.toNat]?
    if k.toNat ≠ j - 1 then do
      let last ← buf[j - 1]?
      some (t, some ((buf.set k.toNat last).set (j - 1) t), rng)
    else some (t, some buf, rng)
  | none => do
    let (x, rng) ← nextInt fuel rng (BitVec.ofInt 32 r.sx)
    let (y, rng) ← nextInt fuel rng (BitVec.ofInt 32 r.sy)
    let (z, rng) ← nextInt fuel rng (BitVec.ofInt 32 r.sz)
    some (⟨x.toInt, y.toInt, z.toInt⟩, none, rng)

section MonteCarlo

variable {D : Type} [Add D] [Sub D] [Mul D] [Div D] [Doubles D] (sqrt : D → D) (FLT_EPSILON : D)

def wilson (n p z : D) : D × D :=
  let s := z * z / n
  let t := lit 1 / (lit 1 + s)
  let w := t * (p + lit (1 / 2) * s)
  let d := t * z * sqrt ((p * (lit 1 - p) + lit (1 / 4) * s) / n) + FLT_EPSILON
  (w - d, w + d)

-- the bounds for the number of samples wanted, and the status of a cell
variable (coverage zscore wlo whi : D)

/-- What a status makes of the numbers of samples and successes: the answer, or new numbers. -/
def judge (status : Int) (m x : D) : Int ⊕ D × D :=
  if status = -1 then .inr (m, x)
  else if status = 0 ∨ status = 1 then
    let x := if status = 1 then x + lit 1 else x
    let m := m + lit 1
    let per_m := lit 1 / m
    let (lo, hi) := wilson sqrt FLT_EPSILON m (x * per_m) zscore
    if lt coverage (lo - per_m) then .inl 1
    else if lt (hi + per_m) coverage then .inl 0
    else if lt (hi - lo) (whi - wlo) then .inl (if lt coverage (x * per_m) then 1 else 0)
    else .inr (m, x)
  else .inl 0

/-- The loop of `monteCarloBiomes` with `left` cells to go: the answer and the cells sampled. -/
def sample_cells (fuel : Nat) (r : Volume) (eval : Int → Int → Int → Int) :
    Nat → Option (List Touple) → BitVec 64 → D → D → Option (Int × List Touple)
  | 0, _, _, _, _ => some (1, [])
  | left + 1, buf, rng, m, x => do
    let (t, buf, rng) ← draw_cell fuel r (left + 1) buf rng
    match judge sqrt FLT_EPSILON coverage zscore wlo whi
      (eval (r.x + t.x) (r.y + t.y) (r.z + t.z)) m x with
    | .inl ret => some (ret, [t])
    | .inr (m, x) => do
      let (ret, ts) ← sample_cells fuel r eval left buf rng m x
      some (ret, t :: ts)

/-- `n` as a `size_t` -/
def Volume.size (r : Volume) : Nat :=
  (BitVec.ofInt 64 r.sx * BitVec.ofInt 64 r.sy * BitVec.ofInt 64 r.sz).toNat

def Volume.flat (r : Volume) : Volume := if r.sy = 0 then { r with sy := 1 } else r

/-- Whether the cells are shuffled in a buffer; `malloc` may fail. -/
def buffered (malloc : Nat → Bool) (n : Nat) : Bool :=
  lt (ofInt n) (lit 4 * (zscore * sqrt (ofInt n))) && decide ((n : Int) < INT_MAX) && malloc n

/-- The answer and the cells sampled; `zscore` is that of the confidence. -/
def monteCarloBiomes (fuel : Nat) (malloc : Nat → Bool) (eval : Int → Int → Int → Int)
    (r : Volume) (rng : BitVec 64) : Option (Int × List Touple) :=
  let r := r.flat
  let n := r.size
  let wn := zscore * sqrt (ofInt n)
  let w := wilson sqrt FLT_EPSILON wn coverage zscore
  let buf := if buffered sqrt zscore malloc n then some (fill_buffer r) else none
  sample_cells sqrt FLT_EPSILON coverage zscore w.1 w.2 fuel r eval n buf rng (lit 0) (lit 0)

end MonteCarlo

def InVolume (r : Volume) (t : Touple) : Prop :=
  (0 ≤ t.x ∧ t.x < r.sx) ∧ (0 ≤ t.y ∧ t.y < r.sy) ∧ 0 ≤ t.z ∧ t.z < r.sz

/-- The sides of a range, of which there are no more cells than a `size_t` counts. -/
structure Sides (r : Volume) : Prop where
  sx : 0 < r.sx ∧ r.sx < 2 ^ 31
  sy : 0 < r.sy ∧ r.sy < 2 ^ 31
  sz : 0 < r.sz ∧ r.sz < 2 ^ 31
  size : r.sx * r.sy * r.sz < 2 ^ 64

/-- What is left to draw: the first cells of the buffer, or any cell of the range. -/
def Left (r : Volume) (left : Nat) (buf : Option (List Touple)) (t : Touple) : Prop :=
  match buf with
  | some buf => ∃ i < left, buf[i]? = some t
  | none => InVolume r t

def Intact (left : Nat) (buf : Option (List Touple)) : Prop :=
  match buf with
  | some buf => left ≤ buf.length ∧ left < 2 ^ 31 ∧ buf.Nodup
  | none => True

theorem toInt_ofInt (h : 0 < v) (h' : v < 2 ^ 31) : (BitVec.ofInt 32 v).toInt = v := by
  rw [BitVec.toInt_ofInt]
  exact Int.bmod_eq_of_le (by omega) (by omega)

theorem exists_coordinate (h : 0 < v) (h' : v < 2 ^ 31) (rng : BitVec 64) :
    ∃ c rng', nextInt (2 ^ 48) rng (BitVec.ofInt 32 v) = some (c, rng') ∧
      0 ≤ c.toInt ∧ c.toInt < v := by
  have hv := toInt_ofInt h h'
  have hpos : 0 < (BitVec.ofInt 32 v).toInt := by rwa [hv]
  obtain ⟨c, rng', hc, hlt⟩ := exists_nextInt hpos rng
  obtain ⟨-, hsmall⟩ := toNat_of_pos hpos
  have hcond := BitVec.toInt_eq_toNat_cond (BitVec.ofInt 32 v)
  have hcond' := BitVec.toInt_eq_toNat_cond c
  refine ⟨c, rng', hc, ?_⟩
  rw [if_pos (by omega)] at hcond hcond'
  omega

theorem exists_draw (hr : Sides r) {left : Nat} {buf : Option (List Touple)}
    (hbuf : Intact (left + 1) buf) (rng : BitVec 64) :
    ∃ t buf' rng', draw_cell (2 ^ 48) r (left + 1) buf rng = some (t, buf', rng') ∧
      Left r (left + 1) buf t ∧ Intact left buf' ∧ buf'.isSome = buf.isSome ∧
      ∀ t', Left r left buf' t' → Left r (left + 1) buf t' ∧ (buf.isSome → t' ≠ t) := by
  cases buf with
  | none =>
    obtain ⟨x, rng, hx, hx'⟩ := exists_coordinate hr.sx.1 hr.sx.2 rng
    obtain ⟨y, rng, hy, hy'⟩ := exists_coordinate hr.sy.1 hr.sy.2 rng
    obtain ⟨z, rng, hz, hz'⟩ := exists_coordinate hr.sz.1 hr.sz.2 rng
    refine ⟨⟨x.toInt, y.toInt, z.toInt⟩, none, rng, ?_, ⟨hx', hy', hz'⟩, trivial, rfl, ?_⟩
    · simp only [draw_cell, hx, hy, hz, Option.bind_eq_bind, Option.bind_some]
    · exact fun t' ht' => ⟨ht', fun h => absurd h (by decide)⟩
  | some buf =>
    obtain ⟨hlen, hsmall, hnodup⟩ := hbuf
    have hbound : (BitVec.ofNat 32 (left + 1)).toNat = left + 1 := by
      rw [BitVec.toNat_ofNat]
      omega
    have hpos : 0 < (BitVec.ofNat 32 (left + 1)).toInt := by
      have hcond := BitVec.toInt_eq_toNat_cond (BitVec.ofNat 32 (left + 1))
      rw [if_pos (by omega)] at hcond
      omega
    obtain ⟨k, rng', hk, hlt⟩ := exists_nextInt hpos rng
    have hkl : k.toNat ≤ left := by omega
    have hkb : k.toNat < buf.length := by omega
    have hlast : left < buf.length := by omega
    refine ⟨buf[k.toNat], some ((buf.set k.toNat buf[left]).set left buf[k.toNat]), rng', ?_,
      ⟨k.toNat, by omega, List.getElem?_eq_getElem hkb⟩, ⟨?_, by omega, ?_⟩, rfl, ?_⟩
    · simp only [draw_cell, hk, Option.bind_eq_bind, Option.bind_some,
        List.getElem?_eq_getElem hkb, Nat.add_sub_cancel, List.getElem?_eq_getElem hlast]
      split
      · rfl
      · next he =>
        simp only [not_not.1 he, List.set_getElem_self]
    · rw [List.length_set, List.length_set]
      omega
    · exact (List.set_set_perm hkb hlast).nodup_iff.2 hnodup
    · rintro t' ⟨i, hi, ht'⟩
      obtain ⟨i', hi', hne, he⟩ := getElem?_exchange hkl hlast hi
      rw [he] at ht'
      refine ⟨⟨i', by omega, ht'⟩, fun _ heq => hne ?_⟩
      rw [heq, ← List.getElem?_eq_getElem hkb] at ht'
      exact (List.getElem?_inj (by omega) hnodup).1 ht'

/-- The sampling ends with the first status that decides, or else when `left` are taken. -/
structure Decided (tally : List Int → Int ⊕ D × D) (left : Nat) (statuses : List Int)
    (ret : Int) : Prop where
  length : statuses.length ≤ left
  open_before : ∀ k < statuses.length, (tally (statuses.take k)).isRight
  answer : tally statuses = .inl ret ∨
    statuses.length = left ∧ ret = 1 ∧ (tally statuses).isRight

def Volume.status (r : Volume) (eval : Int → Int → Int → Int) (t : Touple) : Int :=
  eval (r.x + t.x) (r.y + t.y) (r.z + t.z)

theorem Decided.stop {tally : List Int → Int ⊕ D × D} (hone : tally [status] = .inl ret)
    (hnil : (tally []).isRight) (left : Nat) : Decided tally (left + 1) [status] ret := by
  refine ⟨Nat.succ_le_succ (Nat.zero_le _), fun k hk => ?_, .inl hone⟩
  rw [Nat.lt_one_iff.1 hk]
  exact hnil

theorem Decided.go {tally tally' : List Int → Int ⊕ D × D} (hnil : (tally []).isRight)
    (hcons : ∀ statuses, tally (status :: statuses) = tally' statuses)
    (h : Decided tally' left statuses ret) : Decided tally (left + 1) (status :: statuses) ret := by
  refine ⟨Nat.succ_le_succ h.length, fun k hk => ?_, ?_⟩
  · cases k with
    | zero => exact hnil
    | succ k =>
      rw [List.take_succ_cons, hcons]
      exact h.open_before k (Nat.lt_of_succ_lt_succ hk)
  · rw [hcons]
    exact h.answer.imp_right fun h => ⟨congrArg Nat.succ h.1, h.2⟩

section Sampled

variable {D : Type} [Add D] [Sub D] [Mul D] [Div D] [Doubles D] {sqrt : D → D}
  {FLT_EPSILON coverage zscore wlo whi : D} {r : Volume} {eval : Int → Int → Int → Int}

/-- The statuses in order up to the first that decides. -/
def tally (sqrt : D → D) (FLT_EPSILON coverage zscore wlo whi : D) :
    List Int → D → D → Int ⊕ D × D
  | [], m, x => .inr (m, x)
  | status :: statuses, m, x =>
    match judge sqrt FLT_EPSILON coverage zscore wlo whi status m x with
    | .inl ret => .inl ret
    | .inr (m, x) => tally sqrt FLT_EPSILON coverage zscore wlo whi statuses m x

theorem judge_inl {m x : D}
    (h : judge sqrt FLT_EPSILON coverage zscore wlo whi status m x = .inl ret) :
    ret = 0 ∨ ret = 1 := by
  unfold judge at h
  split at h
  · cases h
  split at h
  · generalize (if status = 1 then x + lit 1 else x) = x at h
    dsimp only at h
    split at h
    · exact .inr (Sum.inl.inj h).symm
    split at h
    · exact .inl (Sum.inl.inj h).symm
    split at h
    · rw [← Sum.inl.inj h]
      split
      · exact .inr rfl
      · exact .inl rfl
    · cases h
  · exact .inl (Sum.inl.inj h).symm

theorem tally_inl {statuses : List Int} {m x : D}
    (h : tally sqrt FLT_EPSILON coverage zscore wlo whi statuses m x = .inl ret) :
    ret = 0 ∨ ret = 1 := by
  induction statuses generalizing m x with
  | nil => cases h
  | cons status statuses ih =>
    rw [tally] at h
    split at h
    · next hj =>
      cases h
      exact judge_inl hj
    · exact ih h

variable (sqrt FLT_EPSILON coverage zscore wlo whi) in
theorem sample_cells_spec (hr : Sides r) (eval : Int → Int → Int → Int) {left : Nat}
    {buf : Option (List Touple)} (hbuf : Intact left buf) (rng : BitVec 64) (m x : D) :
    ∃ ret ts, sample_cells sqrt FLT_EPSILON coverage zscore wlo whi (2 ^ 48) r eval left buf rng
        m x = some (ret, ts) ∧ (∀ t ∈ ts, Left r left buf t) ∧ (buf.isSome → ts.Nodup) ∧
      Decided (tally sqrt FLT_EPSILON coverage zscore wlo whi · m x) left
        (ts.map (r.status eval)) ret := by
  induction left generalizing buf rng m x with
  | zero =>
    refine ⟨1, [], rfl, List.forall_mem_nil _, fun _ => List.nodup_nil, Nat.le_refl 0, ?_, ?_⟩
    · exact fun k hk => absurd hk (Nat.not_lt_zero k)
    · exact .inr ⟨rfl, rfl, rfl⟩
  | succ left ih =>
    obtain ⟨t, buf', rng', hdraw, ht, hbuf', hsome, hleft⟩ := exists_draw hr hbuf rng
    cases hj : judge sqrt FLT_EPSILON coverage zscore wlo whi (r.status eval t) m x with
    | inl ret =>
      refine ⟨ret, [t], ?_, ?_, fun _ => List.nodup_singleton t, .stop ?_ rfl left⟩
      · rw [Volume.status] at hj
        simp only [sample_cells, hdraw, hj, Option.bind_eq_bind, Option.bind_some]
      · exact List.forall_mem_singleton.2 ht
      · rw [tally, hj]
    | inr p =>
      obtain ⟨m', x'⟩ := p
      obtain ⟨ret, ts, hrun, hts, hnodup, hdecided⟩ := ih hbuf' rng' m' x'
      refine ⟨ret, t :: ts, ?_, ?_, fun h => List.nodup_cons.2 ⟨fun hmem => ?_, ?_⟩, .go rfl ?_
        hdecided⟩
      · rw [Volume.status] at hj
        simp only [sample_cells, hdraw, hj, hrun, Option.bind_eq_bind, Option.bind_some]
      · exact List.forall_mem_cons.2 ⟨ht, fun t' ht' => (hleft t' (hts t' ht')).1⟩
      · exact (hleft t (hts t hmem)).2 h rfl
      · exact hnodup (hsome.trans h)
      · intro statuses
        rw [tally, hj]

end Sampled

theorem mem_fill_buffer {r : Volume} {t : Touple} : t ∈ fill_buffer r ↔ InVolume r t := by
  obtain ⟨x, y, z⟩ := t
  simp only [fill_buffer, List.mem_flatMap, List.mem_map, Int.mem_range_iff, InVolume,
    Touple.mk.injEq]
  constructor
  · rintro ⟨k, hk, j, hj, i, hi, rfl, rfl, rfl⟩
    exact ⟨hi, hk, hj⟩
  · rintro ⟨hx, hy, hz⟩
    exact ⟨y, hy, z, hz, x, hx, rfl, rfl, rfl⟩

theorem nodup_range (a b : Int) : (Int.range a b).Nodup := by
  rw [Int.range]
  refine List.Nodup.map (fun m n hmn => ?_) List.nodup_range
  exact Int.ofNat.inj (Int.add_left_cancel hmn)

theorem nodup_fill_buffer (r : Volume) : (fill_buffer r).Nodup := by
  rw [fill_buffer, List.nodup_flatMap]
  refine ⟨fun k _ => ?_, (nodup_range 0 r.sy).imp fun hkk t ht ht' => hkk ?_⟩
  · rw [List.nodup_flatMap]
    refine ⟨fun j _ => ?_, (nodup_range 0 r.sz).imp fun hjj t ht ht' => hjj ?_⟩
    · exact (nodup_range 0 r.sx).map fun i i' h => congrArg Touple.x h
    · obtain ⟨i, -, rfl⟩ := List.mem_map.1 ht
      obtain ⟨i', -, h⟩ := List.mem_map.1 ht'
      exact (congrArg Touple.z h).symm
  · obtain ⟨j, -, ht⟩ := List.mem_flatMap.1 ht
    obtain ⟨i, -, rfl⟩ := List.mem_map.1 ht
    obtain ⟨j', -, ht'⟩ := List.mem_flatMap.1 ht'
    obtain ⟨i', -, h⟩ := List.mem_map.1 ht'
    exact (congrArg Touple.y h).symm

theorem Sides.size_eq {r : Volume} (hr : Sides r) : r.size = (r.sx * r.sy * r.sz).toNat := by
  have hpos : 0 ≤ r.sx * r.sy * r.sz :=
    Int.mul_nonneg (Int.mul_nonneg hr.sx.1.le hr.sy.1.le) hr.sz.1.le
  have hsize := hr.size
  rw [Volume.size, ← BitVec.ofInt_mul, ← BitVec.ofInt_mul, BitVec.toNat_ofInt,
    Int.emod_eq_of_lt hpos (by exact_mod_cast hsize)]

theorem length_range (n : Int) : (Int.range 0 n).length = n.toNat := by
  rw [Int.range, List.length_map, List.length_range, Int.sub_zero]

theorem length_fill_buffer {r : Volume} (hr : Sides r) : (fill_buffer r).length = r.size := by
  simp only [fill_buffer, List.length_flatMap, List.length_map, length_range, List.map_const',
    List.sum_replicate, smul_eq_mul, hr.size_eq]
  rw [Int.toNat_mul (Int.mul_nonneg hr.sx.1.le hr.sy.1.le) hr.sz.1.le,
    Int.toNat_mul hr.sx.1.le hr.sy.1.le, Nat.mul_comm r.sz.toNat, ← Nat.mul_assoc,
    Nat.mul_comm r.sy.toNat]

section Spec

variable {D : Type} [Add D] [Sub D] [Mul D] [Div D] [Doubles D] (sqrt : D → D)
  (FLT_EPSILON coverage zscore : D) (malloc : Nat → Bool) (eval : Int → Int → Int → Int)
  (r : Volume) (rng : BitVec 64)

/-- The answer for statuses with the interval that the loop of `monteCarloBiomes` aims at. -/
def verdict (n : Nat) (statuses : List Int) : Int ⊕ D × D :=
  let w := wilson sqrt FLT_EPSILON (zscore * sqrt (ofInt n)) coverage zscore
  tally sqrt FLT_EPSILON coverage zscore w.1 w.2 statuses (lit 0) (lit 0)

/-- The sampling ends; it stays inside the range, takes no cell twice from the buffer, and answers
with the first status that decides. -/
theorem monteCarloBiomes_spec (hr : Sides r.flat) :
    ∃ ret ts, monteCarloBiomes sqrt FLT_EPSILON coverage zscore (2 ^ 48) malloc eval r rng =
        some (ret, ts) ∧ (ret = 0 ∨ ret = 1) ∧
      (∀ t ∈ ts, InVolume r.flat t) ∧
      (buffered sqrt zscore malloc r.flat.size = true → ts.Nodup ∧
        (ts.length = r.flat.size → ∀ t, InVolume r.flat t → t ∈ ts)) ∧
      Decided (verdict sqrt FLT_EPSILON coverage zscore r.flat.size) r.flat.size
        (ts.map (r.status eval)) ret := by
  have hflat : r.flat.status eval = r.status eval := by
    rw [Volume.flat]
    split <;> rfl
  obtain ⟨buf, hbuf⟩ : ∃ buf, buf = if buffered sqrt zscore malloc r.flat.size then
      some (fill_buffer r.flat) else none := ⟨_, rfl⟩
  have hlen := length_fill_buffer hr
  have hintact : Intact r.flat.size buf := by
    rw [hbuf]
    split
    · next hb =>
      have hsmall : (r.flat.size : Int) < INT_MAX := by
        rw [buffered, Bool.and_eq_true, Bool.and_eq_true, decide_eq_true_eq] at hb
        exact hb.1.2
      rw [INT_MAX] at hsmall
      exact ⟨hlen.ge, by omega, nodup_fill_buffer r.flat⟩
    · trivial
  obtain ⟨ret, ts, hrun, hts, hnodup, hdecided⟩ := sample_cells_spec sqrt FLT_EPSILON coverage
    zscore (wilson sqrt FLT_EPSILON (zscore * sqrt (ofInt r.flat.size)) coverage zscore).1
    (wilson sqrt FLT_EPSILON (zscore * sqrt (ofInt r.flat.size)) coverage zscore).2 hr eval hintact
    rng (lit 0) (lit 0)
  have hin : ∀ t ∈ ts, InVolume r.flat t := by
    intro t ht
    have hleft := hts t ht
    rw [hbuf] at hleft
    split at hleft
    · obtain ⟨i, -, hi⟩ := hleft
      exact mem_fill_buffer.1 (List.mem_of_getElem? hi)
    · exact hleft
  have hret : ret = 0 ∨ ret = 1 := by
    rcases hdecided.answer with hinl | ⟨-, hone, -⟩
    · exact tally_inl hinl
    · exact .inr hone
  refine ⟨ret, ts, ?_, hret, hin, fun hb => ?_, hflat ▸ hdecided⟩
  · rw [monteCarloBiomes, ← hbuf]
    exact hrun
  · rw [if_pos hb] at hbuf
    have hts' : ts.Nodup := hnodup (by rw [hbuf]; rfl)
    refine ⟨hts', fun hall t ht => ?_⟩
    have hsub : ts.Subperm (fill_buffer r.flat) :=
      List.subperm_of_subset hts' fun t ht => mem_fill_buffer.2 (hin t ht)
    exact (hsub.perm_of_length_le (by omega)).mem_iff.2 (mem_fill_buffer.2 ht)

end Spec

section Test

variable {D Spline : Type} [Add D] [Sub D] [Mul D] [Div D] [Neg D] [Doubles D] (sqrt : D → D)
  (FLT_EPSILON zscore : D) (malloc : Nat → Bool) (bn : BiomeNoise D Spline) (seed : BitVec 64)
  (x z range min_area : Int)

/-- The status of a cell: whether its continentalness is low enough. -/
def eval_cell (x _y z : Int) : Int :=
  let px : D := ofInt x + sampleDoublePerlin (bn.climate .SHIFT) (ofInt x) (lit 0) (ofInt z) * lit 4
  let pz : D := ofInt z + sampleDoublePerlin (bn.climate .SHIFT) (ofInt z) (ofInt x) (lit 0) * lit 4
  if lt (sampleDoublePerlin (bn.climate .CONTINENTALNESS) px (lit 0) pz) (lit (-105 / 100)) then 1
  else 0

/-- `make_range(x, z, range, 4)` with its vertical part -/
def test_range : Volume :=
  { make_range x z range 4 with
    y := 64
    sy := 1 }

/-- The share of the cells that have to be of the biome. -/
def test_fraction (D : Type) [Div D] [Doubles D] (x z range min_area : Int) : D :=
  let r := test_range x z range
  ofInt min_area / ofInt (wrap 32 (r.sx * r.sz * r.scale * r.scale))

def cubiomes_test_monte_carlo : Option (Int × List Touple) :=
  monteCarloBiomes sqrt FLT_EPSILON (test_fraction D x z range min_area) zscore (2 ^ 48) malloc
    (eval_cell bn) (test_range x z range) seed

theorem sides_test_range (hlo : 4 ≤ range) (hhi : range < 2 ^ 31) :
    Sides (test_range x z range) := by
  have hside : 0 < range.tdiv 4 ∧ range.tdiv 4 < 2 ^ 29 := by
    rw [Int.tdiv_eq_ediv_of_nonneg (by omega)]
    omega
  have hsmall : range.tdiv 4 < 2 ^ 31 := hside.2.trans (by decide)
  have hone : (0 : Int) < 1 ∧ (1 : Int) < 2 ^ 31 := by decide
  refine ⟨⟨hside.1, hsmall⟩, hone, ⟨hside.1, hsmall⟩, ?_⟩
  change range.tdiv 4 * 1 * range.tdiv 4 < 2 ^ 64
  nlinarith only [hside]

/-- The test ends for every range; it looks at cells of the range only, at none twice where they
are shuffled, and answers with the first status that decides. -/
theorem test_monte_carlo_spec (hlo : 4 ≤ range) (hhi : range < 2 ^ 31) :
    ∃ ret ts, cubiomes_test_monte_carlo sqrt FLT_EPSILON zscore malloc bn seed x z range min_area =
        some (ret, ts) ∧ (ret = 0 ∨ ret = 1) ∧
      (∀ t ∈ ts, InVolume (test_range x z range) t) ∧
      (buffered sqrt zscore malloc (test_range x z range).size = true → ts.Nodup ∧
        (ts.length = (test_range x z range).size → ∀ t, InVolume (test_range x z range) t →
          t ∈ ts)) ∧
      Decided (verdict sqrt FLT_EPSILON (test_fraction D x z range min_area) zscore
          (test_range x z range).size) (test_range x z range).size
        (ts.map ((test_range x z range).status (eval_cell bn))) ret :=
  monteCarloBiomes_spec sqrt FLT_EPSILON _ zscore malloc (eval_cell bn) (test_range x z range) seed
    (sides_test_range x z range hlo hhi)

end Test

/-- Three cells of the biome decide for all four. `sqrt` is rounded down to six places, and
`329 / 100` is for a confidence of 0.999. -/
theorem test_monte_carlo_spec_island :
    let sqrt (v : Rat) : Rat := Nat.sqrt ⌊v * 10 ^ 12⌋.toNat / 10 ^ 6
    let ts : List Touple := [⟨0, 0, 0⟩, ⟨0, 0, 1⟩, ⟨1, 0, 0⟩]
    cubiomes_test_monte_carlo sqrt (1 / 2 ^ 23) (329 / 100) (fun _ => true) island 7 48 16 8 32 =
      some (1, ts) ∧
    ts.map ((test_range 48 16 8).status (eval_cell island)) = [1, 1, 1] ∧
    (∀ t ∈ ts, InVolume (test_range 48 16 8) t) ∧
    Decided (verdict sqrt (1 / 2 ^ 23) (test_fraction Rat 48 16 8 32) (329 / 100) 4) 4 [1, 1, 1]
      1 := by
  intro sqrt ts
  have hrun : cubiomes_test_monte_carlo sqrt (1 / 2 ^ 23) (329 / 100) (fun _ => true) island 7 48 16
      8 32 = some (1, ts) := by decide +kernel
  have hstatus : ts.map ((test_range 48 16 8).status (eval_cell island)) = [1, 1, 1] := by
    decide +kernel
  obtain ⟨ret, ts', hrun', -, hin, -, hdecided⟩ := test_monte_carlo_spec sqrt (1 / 2 ^ 23)
    (329 / 100) (fun _ => true) island 7 48 16 8 32 (by decide) (by decide)
  obtain ⟨rfl, rfl⟩ := Prod.mk.inj (Option.some.inj (hrun.symm.trans hrun'))
  rw [hstatus] at hdecided
  exact ⟨hrun, hstatus, hin, hdecided⟩

end Omission.Cubiomes
