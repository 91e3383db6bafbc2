import Mathlib.Data.Nat.Sqrt
import Omission.Cpu.FindCenter
import Omission.Cubiomes.Region

namespace Omission.Cubiomes
open Omission.Lib Omission.Cpu
set_option autoImplicit true

def make_range (x z range scale : Int) : Range where
  scale := scale
  x := (x - range.tdiv 2).tdiv scale
  z := (z - range.tdiv 2).tdiv scale
  sx := range.tdiv scale
  sz := range.tdiv scale

def mushroom_fields : Int := 14

/-- `k = 0; k < n; k += step` -/
def strided (n step : Int) : List Int := (Int.range 0 n).filter fun k => k % step = 0

def stridedCells (r : Range) (step : Int) : List (Int × Int) :=
  (strided r.sz step).flatMap fun j => (strided r.sx step).map fun i => (i, j)

section Centers

-- whether the climate of a cell lies between the limits of the biome
variable (D : Type) [DoubleOps D] (info : Info) (limits : Field)

def filterCell (ids : Rect Int info.r.sx info.r.sz) (c : Int × Int) :
    Option (Rect Int info.r.sx info.r.sz) :=
  if limits (info.r.x + c.1) (info.r.z + c.2) then some ids else ids.write c.1 c.2 (-2)

/-- The last loop of `getBiomeCentersOpt` over the cells that are left, after the centres found. -/
def scan (minsiz : Int) (nmax : Nat) (found : List (Pos × Int)) :
    List (Int × Int) → Rect Int info.r.sx info.r.sz → Option (List (Pos × Int))
  | [], _ => some found
  | c :: cells, ids => do
    let id ← ids.read c.1 c.2
    if id ≠ -1 then scan minsiz nmax found cells ids
    else do
      let st ← floodFillGen info ids c.1 c.2
      if st.n ≥ minsiz then
        let found := found ++ [(st.center D, st.n)]
        if found.length ≥ nmax then some found else scan minsiz nmax found cells st.ids
      else scan minsiz nmax found cells st.ids

/-- What `step` is set to; the last case is `1 + floor(sqrt(minsiz) * 0.5)`. -/
def sampleStep (minsiz step : Int) : Int :=
  let step := if step ≤ 0 then 1 else step
  if step = 1 then 1 + ((minsiz.toNat.sqrt / 2 : Nat) : Int) else step

/-- The branch for 1.18 and later; `evaluate` is `fast_eval`, or else `getBiomeAt`. -/
def getBiomeCentersOpt (nmax : Nat) (r : Range) (evaluate : Int → Int → Int)
    (target minsiz tol step : Int) : Option (List (Pos × Int)) := do
  let minsiz := if minsiz ≤ 0 then 1 else minsiz
  let tol := if tol ≤ 0 then 1 else tol
  let info : Info := ⟨r, target, tol, some evaluate⟩
  let step := sampleStep minsiz step
  let ids ← (stridedCells r step).foldlM (filterCell info limits) (Rect.fill r.sx r.sz (-1))
  scan D info minsiz nmax [] (stridedCells r step) ids

/-- The outer `Option` is a fault, the inner one the answer; `F` is `fast_mushroom_eval`. -/
def cubiomes_test_biome_centers (F : Field) (x z range min_area scale tol : Int) :
    Option (Option PosArea) := do
  let minsiz := min_area.tdiv (scale * scale)
  let found ← getBiomeCentersOpt D limits 1 (make_range x z range scale)
    (fun x z => if F x z then mushroom_fields else -1) mushroom_fields minsiz tol 0
  match found with
  | [(pos, siz)] => some (some ⟨pos.x, pos.z, wrap 32 (siz * (scale * scale))⟩)
  | _ => some none

end Centers

theorem mem_strided : k ∈ strided n step ↔ (0 ≤ k ∧ k < n) ∧ k % step = 0 := by
  rw [strided, List.mem_filter, Int.mem_range_iff, decide_eq_true_eq]

theorem inside_of_strided {r : Range} {c : Int × Int} (hc : c ∈ stridedCells r step) :
    Inside r.sx r.sz c.1 c.2 := by
  obtain ⟨j, hj, hc⟩ := List.mem_flatMap.1 hc
  obtain ⟨i, hi, rfl⟩ := List.mem_map.1 hc
  have hi := (mem_strided.1 hi).1
  have hj := (mem_strided.1 hj).1
  exact ⟨hi.1, hi.2, hj.1, hj.2⟩

section Scan

variable {D : Type} [DoubleOps D] {info : Info} {cells : List (Int × Int)}

/-- The sampled cells of which the climate is within the limits. -/
def Start (r : Range) (limits : Field) (step : Int) (c : Int × Int) : Prop :=
  c ∈ stridedCells r step ∧ limits (r.x + c.1) (r.z + c.2) = true

theorem filterCell_spec (info : Info) (limits : Field) {c : Int × Int}
    (hc : Inside info.r.sx info.r.sz c.1 c.2) (ids : Rect Int info.r.sx info.r.sz) :
    ∃ ids', filterCell info limits ids c = some ids' ∧ ∀ x, ids'.read x.1 x.2 =
      if x = c ∧ limits (info.r.x + x.1) (info.r.z + x.2) = false then some (-2)
      else ids.read x.1 x.2 := by
  rw [filterCell]
  split
  · next hlimits =>
    refine ⟨ids, rfl, fun x => (if_neg ?_).symm⟩
    rintro ⟨rfl, hx⟩
    exact Bool.false_ne_true (hx.symm.trans hlimits)
  · next hlimits =>
    obtain ⟨ids', hwrite, hself, hother⟩ := ids.write_spec hc (-2)
    refine ⟨ids', hwrite, fun x => ?_⟩
    by_cases hx : x = c
    · rw [hx, hself, if_pos ⟨rfl, Bool.eq_false_iff.2 hlimits⟩]
    · rw [hother x.1 x.2 hx, if_neg fun h => hx h.1]

theorem filter_spec (info : Info) (limits : Field)
    (hcells : ∀ c ∈ cells, Inside info.r.sx info.r.sz c.1 c.2)
    (ids : Rect Int info.r.sx info.r.sz) :
    ∃ ids', cells.foldlM (filterCell info limits) ids = some ids' ∧ ∀ x, ids'.read x.1 x.2 =
      if x ∈ cells ∧ limits (info.r.x + x.1) (info.r.z + x.2) = false then some (-2)
      else ids.read x.1 x.2 := by
  induction cells generalizing ids with
  | nil => exact ⟨ids, rfl, fun x => (if_neg fun h => absurd h.1 List.not_mem_nil).symm⟩
  | cons c cells ih =>
    obtain ⟨hc, hcells⟩ := List.forall_mem_cons.1 hcells
    obtain ⟨ids₁, hfilter, hread₁⟩ := filterCell_spec info limits hc ids
    obtain ⟨ids', hrest, hread⟩ := ih hcells ids₁
    refine ⟨ids', by rw [List.foldlM_cons, hfilter]; exact hrest, fun x => ?_⟩
    rw [hread, hread₁]
    by_cases hlimits : limits (info.r.x + x.1) (info.r.z + x.2) = false
    · by_cases hx : x ∈ cells
      · rw [if_pos ⟨hx, hlimits⟩, if_pos ⟨List.mem_cons_of_mem c hx, hlimits⟩]
      · rw [if_neg fun h => hx h.1]
        simp only [hlimits, and_true, List.mem_cons, hx, or_false]
    · rw [if_neg fun h => hlimits h.2, if_neg fun h => hlimits h.2, if_neg fun h => hlimits h.2]

/-- After the first loop the sampled cells with `-1` are those that the last loop starts from. -/
theorem exists_filter (info : Info) (limits : Field) (step : Int) :
    ∃ ids, (stridedCells info.r step).foldlM (filterCell info limits)
        (Rect.fill info.r.sx info.r.sz (-1)) = some ids ∧
      (∀ c ∈ stridedCells info.r step, ids.read c.1 c.2 = some (-1) ↔
        Start info.r limits step c) ∧ ∀ c, ¬ Marked ids c := by
  obtain ⟨ids, hids, hread⟩ := filter_spec info limits (fun _ => inside_of_strided)
    (Rect.fill info.r.sx info.r.sz (-1))
  refine ⟨ids, hids, ?_, ?_⟩
  · intro c hc
    rw [hread, Rect.read_fill (inside_of_strided hc)]
    cases hlimits : limits (info.r.x + c.1) (info.r.z + c.2) with
    | true =>
      rw [if_neg fun h => Bool.false_ne_true h.2.symm]
      exact iff_of_true rfl ⟨hc, hlimits⟩
    | false =>
      rw [if_pos ⟨hc, rfl⟩]
      exact iff_of_false (by decide) fun h => Bool.false_ne_true (hlimits.symm.trans h.2)
  · intro c hm
    rw [Marked, hread] at hm
    split at hm
    · exact absurd (Option.some.inj hm) (by decide)
    · exact not_marked_fill (by decide) c hm

theorem open_of_read {ids : Rect Int w h} {c : Int × Int} (hc : ids.read c.1 c.2 = some (-1)) :
    Open ids c := by
  refine ⟨Rect.inside_of_read hc, fun hm => ?_⟩
  rw [Marked, hc] at hm
  exact absurd (Option.some.inj hm) (by decide)

/-- A centre comes from a fill of at least `minsiz` cells. -/
def Found (D : Type) [DoubleOps D] (info : Info) (starts : Int × Int → Prop) (minsiz : Int)
    (x : Pos × Int) : Prop :=
  ∃ (ids : Rect Int info.r.sx info.r.sz) (c : Int × Int) (st : FloodGen info.r)
    (C : Finset (Int × Int)), starts c ∧ Open ids c ∧ floodFillGen info ids c.1 c.2 = some st ∧
      FloodGen.Counted ids c st C ∧ x = (st.center D, st.n) ∧ minsiz ≤ st.n

/-- A fill leaves no candidate that was none before. -/
theorem FloodGen.Inv.candidates {starts : Int × Int → Prop} {ids : Rect Int info.r.sx info.r.sz}
    {st : FloodGen info.r} (h : st.Inv ids c)
    (hstarts : ∀ x ∈ cells, ids.read x.1 x.2 = some (-1) → starts x) :
    ∀ x ∈ cells, st.ids.read x.1 x.2 = some (-1) → starts x := by
  intro x hx hread
  apply hstarts x hx
  rw [← h.read x (open_of_read hread).2]
  exact hread

theorem scan_spec {starts : Int × Int → Prop}
    (hcells : ∀ c ∈ cells, Inside info.r.sx info.r.sz c.1 c.2)
    (ids : Rect Int info.r.sx info.r.sz)
    (hstarts : ∀ c ∈ cells, ids.read c.1 c.2 = some (-1) → starts c) {found : List (Pos × Int)}
    (hfound : ∀ x ∈ found, Found D info starts minsiz x) :
    ∃ found', scan D info minsiz nmax found cells ids = some found' ∧
      ∀ x ∈ found', Found D info starts minsiz x := by
  induction cells generalizing ids found with
  | nil => exact ⟨found, rfl, hfound⟩
  | cons c cells ih =>
    obtain ⟨hc, hcells⟩ := List.forall_mem_cons.1 hcells
    obtain ⟨hstart, hstarts⟩ := List.forall_mem_cons.1 hstarts
    obtain ⟨id, hid⟩ := ids.exists_read hc
    rw [scan, hid, Option.bind_eq_bind, Option.bind_some]
    split
    · exact ih hcells ids hstarts hfound
    next hcand =>
    rw [not_not.1 hcand] at hid
    have hopen := open_of_read hid
    obtain ⟨st, C, hst, -, hinv, hC⟩ := FloodGen.exists_counted info ids hopen
    have hstarts' := hinv.candidates hstarts
    rw [hst, Option.bind_eq_bind, Option.bind_some]
    split
    · next hn =>
      have hfound' : ∀ x ∈ found ++ [(st.center D, st.n)], Found D info starts minsiz x := by
        intro x hx
        rcases List.mem_append.1 hx with hx | hx
        · exact hfound x hx
        · exact ⟨ids, c, st, C, hstart hid, hopen, hst, hC, List.mem_singleton.1 hx, hn⟩
      dsimp only
      split
      · exact ⟨_, rfl, hfound'⟩
      · exact ih hcells st.ids hstarts' hfound'
    · exact ih hcells st.ids hstarts' hfound

/-- Where a fill from `c` takes all cells of `K` or none, and has enough cells when it takes them,
the scan finds a centre if it comes to a candidate in `K`. -/
theorem scan_finds {K : Set (Int × Int)}
    (hcells : ∀ c ∈ cells, Inside info.r.sx info.r.sz c.1 c.2)
    (hfill : ∀ (ids : Rect Int info.r.sx info.r.sz) c st, (∀ k ∈ K, ¬ Marked ids k) →
      Open ids c → floodFillGen info ids c.1 c.2 = some st → (∃ k ∈ K, Marked st.ids k) →
      minsiz ≤ st.n)
    (ids : Rect Int info.r.sx info.r.sz) (hK : ∀ k ∈ K, ¬ Marked ids k) (hsK : s ∈ K)
    (hs : s ∈ cells) (hread : ids.read s.1 s.2 = some (-1)) :
    ∃ x, scan D info minsiz 1 [] cells ids = some [x] := by
  induction cells generalizing ids with
  | nil => exact absurd hs List.not_mem_nil
  | cons c cells ih =>
    obtain ⟨hc, hcells⟩ := List.forall_mem_cons.1 hcells
    obtain ⟨id, hid⟩ := ids.exists_read hc
    rw [scan, hid, Option.bind_eq_bind, Option.bind_some]
    split
    · next hother =>
      refine ih hcells ids hK ((List.mem_cons.1 hs).resolve_left ?_) hread
      rintro rfl
      exact hother (Option.some.inj (hid.symm.trans hread))
    next hcand =>
    rw [not_not.1 hcand] at hid
    have hopen := open_of_read hid
    obtain ⟨st, C, hst, hqueue, hinv, -⟩ := FloodGen.exists_counted info ids hopen
    rw [hst, Option.bind_eq_bind, Option.bind_some]
    split
    · exact ⟨_, rfl⟩
    next hfew =>
    have hkept : ∀ k ∈ K, ¬ Marked st.ids k := by
      intro k hk hm
      exact hfew (hfill ids c st hK hopen hst ⟨k, hk, hm⟩)
    refine ih hcells st.ids hkept ((List.mem_cons.1 hs).resolve_left ?_) ?_
    · rintro rfl
      exact hkept s hsK (hinv.marked_start hqueue)
    · rw [hinv.read s (hkept s hsK)]
      exact hread

theorem getBiomeCentersOpt_spec (D : Type) [DoubleOps D] (limits : Field) (nmax : Nat) (r : Range)
    (evaluate : Int → Int → Int) (target minsiz tol step : Int) :
    ∃ found, getBiomeCentersOpt D limits nmax r evaluate target minsiz tol step = some found ∧
      ∀ x ∈ found, Found D ⟨r, target, if tol ≤ 0 then 1 else tol, some evaluate⟩
        (Start r limits (sampleStep (max 1 minsiz) step)) (max 1 minsiz) x := by
  have hminsiz : (if minsiz ≤ 0 then 1 else minsiz) = max 1 minsiz := by
    split <;> omega
  simp only [getBiomeCentersOpt, hminsiz]
  generalize sampleStep (max 1 minsiz) step = step
  generalize (if tol ≤ 0 then 1 else tol) = tol
  obtain ⟨ids, hids, hstarts, -⟩ := exists_filter ⟨r, target, tol, some evaluate⟩ limits step
  rw [hids]
  exact scan_spec (fun _ => inside_of_strided) ids (fun c hc => (hstarts c hc).1)
    (List.forall_mem_nil _)

/-- A start in a set that fills take as a whole leads to a centre. -/
theorem getBiomeCentersOpt_finds (D : Type) [DoubleOps D] (limits : Field) (info : Info)
    (evaluate : Int → Int → Int) (hinfo : info.evaluate = some evaluate) (htol : 0 < info.tol)
    {minsiz : Int} {K : Set (Int × Int)}
    (hfill : ∀ (ids : Rect Int info.r.sx info.r.sz) c st, (∀ k ∈ K, ¬ Marked ids k) →
      Open ids c → floodFillGen info ids c.1 c.2 = some st → (∃ k ∈ K, Marked st.ids k) →
      max 1 minsiz ≤ st.n)
    (hsK : s ∈ K) (hs : Start info.r limits (sampleStep (max 1 minsiz) step) s) :
    ∃ x, getBiomeCentersOpt D limits 1 info.r evaluate info.target minsiz info.tol step =
      some [x] := by
  obtain ⟨r, target, tol, f⟩ := info
  cases hinfo
  change 0 < tol at htol
  have hminsiz : (if minsiz ≤ 0 then 1 else minsiz) = max 1 minsiz := by
    split <;> omega
  obtain ⟨ids, hids, hstarts, hfresh⟩ := exists_filter ⟨r, target, tol, some evaluate⟩ limits
    (sampleStep (max 1 minsiz) step)
  simp only [getBiomeCentersOpt, hminsiz]
  generalize hsame : (if tol ≤ 0 then 1 else tol) = tol'
  rw [if_neg (Int.not_le.2 htol)] at hsame
  subst hsame
  rw [hids]
  exact scan_finds (fun _ => inside_of_strided) hfill ids (fun k _ => hfresh k) hsK hs.1
    ((hstarts s hs.1).2 hs)

/-- A sampled cell of the biome is a centre for the smallest size. -/
theorem tested_of_cell (D : Type) [DoubleOps D] (limits F : Field) {x z range min_area scale : Int}
    (hsmall : min_area.tdiv (scale * scale) ≤ 1)
    (hs : Start (make_range x z range scale) limits (sampleStep 1 0) s)
    (hF : F ((make_range x z range scale).x + s.1) ((make_range x z range scale).z + s.2) = true)
    {tol : Int} (htol : 0 < tol) :
    ∃ p, cubiomes_test_biome_centers D limits F x z range min_area scale tol = some (some p) := by
  have hone : max 1 (min_area.tdiv (scale * scale)) = 1 := by omega
  obtain ⟨⟨pos, siz⟩, hfound⟩ := getBiomeCentersOpt_finds D limits
    ⟨make_range x z range scale, mushroom_fields, tol, _⟩ (K := {s})
    (fun x z => if F x z then mushroom_fields else -1) rfl htol
    (fun ids c st hfresh hopen hfill ⟨k, hk, hm⟩ => by
      obtain ⟨st', C, hst, -, -, hC⟩ := FloodGen.exists_counted _ ids hopen
      cases hfill.symm.trans hst
      cases hk
      have hin := inside_of_strided hs.1
      obtain ⟨v, hv⟩ := ids.exists_read hin
      have hmem : s ∈ C := by
        refine (hC.mem s).2 ⟨⟨⟨hin, hfresh s rfl⟩, v, hv, ?_⟩, hm⟩
        exact if_pos hF
      have hpos := Finset.card_pos.2 ⟨s, hmem⟩
      rw [hone, hC.n]
      omega)
    rfl (by rwa [hone])
  refine ⟨⟨pos.x, pos.z, wrap 32 (siz * (scale * scale))⟩, ?_⟩
  rw [cubiomes_test_biome_centers, hfound]
  rfl

end Scan

end Omission.Cubiomes
