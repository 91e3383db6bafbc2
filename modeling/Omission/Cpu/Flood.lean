import Mathlib.Algebra.BigOperators.Group.Finset.Basic
import Mathlib.Data.Int.Interval
import Omission.Cpu.Pass
import Omission.Lib.Fill

namespace Omission.Cpu
open Omission.Lib
set_option autoImplicit true

/-- The state of one flood fill of `measure_1to1`; the top of the stack comes first. -/
structure Flood (gw : Int) where
  pass : Grid Int8 gw
  stack : List (Int × Int)
  sum_x : Int
  sum_z : Int
  count : Int
  edge : Bool

/-- The pairs `(di[k], dj[k])`. -/
def dirs : List (Int × Int) := [(0, -1), (0, 1), (-1, 0), (1, 0)]

def look (e : Int × Int) (st : Flood gw) (d : Int × Int) : Option (Flood gw) :=
  let ni := e.1 + d.1
  let nj := e.2 + d.2
  if ni < 0 ∨ ni ≥ gw ∨ nj < 0 ∨ nj ≥ gw then some { st with edge := true }
  else do
    let v ← st.pass.read ni nj
    if v = 1 then do
      let pass ← st.pass.write ni nj (-1)
      some { st with pass := pass, stack := (ni, nj) :: st.stack }
    else some st

/-- `while (!stack.empty())`, for at most `fuel` rounds. -/
def flood_loop (W : Window) : Nat → Flood W.gw → Option (Flood W.gw)
  | 0, _ => none
  | fuel + 1, st =>
    match st.stack with
    | [] => some st
    | e :: stack => do
      let st ← dirs.foldlM (look e) { st with
        stack := stack
        sum_x := st.sum_x + (W.ox + e.1)
        sum_z := st.sum_z + (W.oz + e.2)
        count := st.count + 1 }
      flood_loop W fuel st

/-- A round pops a cell that is never pushed again, so there are as many as there are cells. -/
def flood (W : Window) (pass : Grid Int8 W.gw) (si sj : Int) : Option (Flood W.gw) := do
  let pass ← pass.write si sj (-1)
  flood_loop W (W.gw.toNat * W.gw.toNat + 1) ⟨pass, [(si, sj)], 0, 0, 0, false⟩

structure Best where
  count : Int
  x : Int
  z : Int
  hit_edge : Bool
deriving DecidableEq

def Flood.best (st : Flood gw) : Best :=
  ⟨st.count, st.sum_x.tdiv st.count, st.sum_z.tdiv st.count, st.edge⟩

def scan_cell (W : Window) (s : Grid Int8 W.gw × Best) (c : Int × Int) :
    Option (Grid Int8 W.gw × Best) := do
  let v ← s.1.read c.1 c.2
  if v ≠ 1 then some s
  else do
    let st ← flood W s.1 c.1 c.2
    some (st.pass, if st.count > s.2.count then st.best else s.2)

/-- Step 3 of `measure_1to1`. -/
def measure_1to1 (W : Window) (pass : Grid Int8 W.gw) (from_center : Bool) : Option Best :=
  if from_center then do
    let si := W.cx - W.ox
    let sj := W.cz - W.oz
    if si ≥ 0 ∧ si < W.gw ∧ sj ≥ 0 ∧ sj < W.gw then do
      let v ← pass.read si sj
      if v = 1 then do
        let st ← flood W pass si sj
        some st.best
      else some ⟨0, W.cx, W.cz, false⟩
    else some ⟨0, W.cx, W.cz, false⟩
  else do
    let (_, best) ← (visits W.gw (0, W.gw)).foldlM (scan_cell W) (pass, ⟨0, W.cx, W.cz, false⟩)
    some best

def live (g : Grid Int8 gw) : Set (Int × Int) := {c | Within gw c.1 c.2 ∧ g.read c.1 c.2 = some 1}

theorem not_live {g : Grid Int8 gw} (hv : g.read i j = some v) (h1 : ¬ v = 1) :
    g.read i j ≠ some 1 := by
  rw [hv]
  exact fun he => h1 (Option.some.inj he)

def Adj (p q : Int × Int) : Prop := ∃ d ∈ dirs, q = (p.1 + d.1, p.2 + d.2)

theorem adj_symm (p q : Int × Int) (h : Adj p q) : Adj q p := by
  obtain ⟨d, hd, rfl⟩ := h
  refine ⟨(-d.1, -d.2), ?_, ?_⟩
  · revert d
    decide
  · simp

def neighbours (e : Int × Int) : List (Int × Int) := dirs.map fun d => (e.1 + d.1, e.2 + d.2)

theorem mem_neighbours (e b : Int × Int) : b ∈ neighbours e ↔ Adj e b := by
  simp only [neighbours, List.mem_map, Adj]
  exact ⟨fun ⟨d, hd, he⟩ => ⟨d, hd, he.symm⟩, fun ⟨d, hd, he⟩ => ⟨d, hd, he.symm⟩⟩

theorem nodup_length_le {gw : Int} {g : Grid Int8 gw} {l : List (Int × Int)} (hl : l.Nodup)
    (h : ∀ c ∈ l, c ∈ live g) : l.length ≤ gw.toNat * gw.toNat := by
  have hsub : l.toFinset ⊆ Finset.Ico 0 gw ×ˢ Finset.Ico 0 gw := by
    intro c hc
    obtain ⟨hi, hi', hj, hj'⟩ := (h c (List.mem_toFinset.1 hc)).1
    exact Finset.mem_product.2 ⟨Finset.mem_Ico.2 ⟨hi, hi'⟩, Finset.mem_Ico.2 ⟨hj, hj'⟩⟩
  have hcard := Finset.card_le_card hsub
  rwa [Finset.card_product, Int.card_Ico, Int.sub_zero, List.toFinset_card_of_nodup hl] at hcard

/-- The array and the stack of a fill over `g` from `s`: what has been pushed holds -1. -/
structure Held (g : Grid Int8 gw) (s : Int × Int) (todo : List (Int × Int))
    (F : Fill (Int × Int)) (pass : Grid Int8 gw) (stack : List (Int × Int)) : Prop where
  inv : F.Inv Adj (live g) s todo
  read : ∀ c : Int × Int, Within gw c.1 c.2 →
    pass.read c.1 c.2 = if c ∈ F.pushed then some (-1) else g.read c.1 c.2
  stack : stack = F.stack

section Held

variable {g g' : Grid Int8 gw} {F : Fill (Int × Int)} {b s : Int × Int} {stk : List (Int × Int)}

theorem Held.pass (h : Held g s (b :: ds) F g' stk) (hb : b ∈ live g → b ∈ F.pushed) :
    Held g s ds (F.pass b) g' stk :=
  ⟨h.inv.pass hb, h.read, h.stack⟩

theorem Held.outside (h : Held g s (b :: ds) F g' stk) (hb : ¬ Within gw b.1 b.2) :
    Held g s ds (F.pass b) g' stk :=
  h.pass fun hl => absurd hl.1 hb

theorem Held.dead (h : Held g s (b :: ds) F g' stk) (hb : g'.read b.1 b.2 = some v)
    (hv : v ≠ 1) : Held g s ds (F.pass b) g' stk := by
  apply h.pass
  rintro ⟨hw, hl⟩
  by_contra hn
  rw [h.read b hw, if_neg hn, hl] at hb
  exact hv (Option.some.inj hb).symm

theorem Held.push (h : Held g s (b :: ds) F g' stk) (hw : Within gw b.1 b.2)
    (hb : g'.read b.1 b.2 = some 1) : ∃ g'', g'.write b.1 b.2 (-1) = some g'' ∧
      Held g s ds (F.push b) g'' (b :: stk) := by
  obtain ⟨g'', hg, hread, hother⟩ := g'.write_spec hw (-1)
  have hn : b ∉ F.pushed := by
    intro hn
    rw [h.read b hw, if_pos hn] at hb
    cases hb
  have hl : b ∈ live g := by
    rw [h.read b hw, if_neg hn] at hb
    exact ⟨hw, hb⟩
  refine ⟨g'', hg, h.inv.push hl hn, ?_, congrArg (b :: ·) h.stack⟩
  rintro ⟨i, j⟩ hc
  by_cases he : (i, j) = b
  · subst he
    exact hread.trans (if_pos List.mem_cons_self).symm
  · rw [hother i j hc he, h.read (i, j) hc]
    simp only [Fill.push, List.mem_cons, he, false_or]

theorem Held.pop {rest : List (Int × Int)} (h : Held g s [] F g' stk) (hF : F.stack = e :: rest) :
    Held g s (neighbours e) (F.pop e rest) g' rest :=
  ⟨h.inv.pop hF (mem_neighbours e), h.read, rfl⟩

theorem held_start (hs : s ∈ live g) : ∃ g', g.write s.1 s.2 (-1) = some g' ∧
    Held g s [] (Fill.start s) g' [s] := by
  obtain ⟨g', hg, hread, hother⟩ := g.write_spec hs.1 (-1)
  refine ⟨g', hg, Fill.inv_start hs, ?_, rfl⟩
  rintro ⟨i, j⟩ hc
  by_cases he : (i, j) = s
  · subst he
    exact hread.trans (if_pos (List.mem_singleton_self _)).symm
  · rw [hother i j hc he]
    exact (if_neg fun hm => he (List.mem_singleton.1 hm)).symm

theorem Held.live_iff (h : Held g s todo F g' stk) (c : Int × Int) :
    c ∈ live g' ↔ c ∈ live g ∧ c ∉ F.pushed := by
  constructor
  · rintro ⟨hc, hr⟩
    rw [h.read c hc] at hr
    split at hr
    · cases hr
    · next hn => exact ⟨⟨hc, hr⟩, hn⟩
  · rintro ⟨⟨hc, hr⟩, hn⟩
    exact ⟨hc, by rw [h.read c hc, if_neg hn, hr]⟩

end Held

def flood_round (W : Window) (st : Flood W.gw) : Option (Flood W.gw) :=
  match st.stack with
  | [] => some st
  | e :: stack => dirs.foldlM (look e) { st with
      stack := stack
      sum_x := st.sum_x + (W.ox + e.1)
      sum_z := st.sum_z + (W.oz + e.2)
      count := st.count + 1 }

theorem flood_loop_eq (W : Window) (n : Nat) (st : Flood W.gw) :
    flood_loop W n st = loop Flood.stack (flood_round W) n st := by
  induction n generalizing st with
  | zero => rfl
  | succ n ih =>
    cases hst : st.stack with
    | nil => simp only [flood_loop, loop, hst]
    | cons e rest =>
      simp only [flood_loop, loop, flood_round, hst, Option.bind_eq_bind]
      congr 1
      funext st'
      exact ih st'

/-- The state of a flood fill of `measure_1to1` that follows the fill `F`. -/
structure Flood.Tracks (W : Window) (g : Grid Int8 W.gw) (s : Int × Int) (todo : List (Int × Int))
    (F : Fill (Int × Int)) (st : Flood W.gw) : Prop where
  held : Held g s todo F st.pass st.stack
  sum_x : st.sum_x = (F.popped.map fun c => W.ox + c.1).sum
  sum_z : st.sum_z = (F.popped.map fun c => W.oz + c.2).sum
  count : st.count = F.popped.length
  edge : st.edge = true ↔ ∃ b ∈ F.met, ¬ Within W.gw b.1 b.2

section Fill

variable {W : Window} {g : Grid Int8 W.gw} {s : Int × Int} {F : Fill (Int × Int)}
  {st : Flood W.gw}

theorem Flood.Tracks.look {d : Int × Int}
    (h : st.Tracks W g s ((e.1 + d.1, e.2 + d.2) :: ds) F) :
    ∃ st' F' new, look e st d = some st' ∧ st'.Tracks W g s ds F' ∧ F.Looked F' new := by
  have hmet : ∀ b : Int × Int, Within W.gw b.1 b.2 →
      ((∃ c ∈ b :: F.met, ¬ Within W.gw c.1 c.2) ↔ ∃ c ∈ F.met, ¬ Within W.gw c.1 c.2) := by
    intro b hb
    rw [List.exists_mem_cons_iff]
    exact or_iff_right (not_not.2 hb)
  by_cases hw : Within W.gw (e.1 + d.1) (e.2 + d.2)
  · have hin : ¬ (e.1 + d.1 < 0 ∨ e.1 + d.1 ≥ W.gw ∨ e.2 + d.2 < 0 ∨ e.2 + d.2 ≥ W.gw) := by
      unfold Within at hw
      omega
    obtain ⟨v, hv⟩ := st.pass.exists_read hw
    by_cases h1 : v = 1
    · subst h1
      obtain ⟨g', hg, hheld⟩ := h.held.push hw hv
      refine ⟨{ st with pass := g', stack := _ :: st.stack }, _, _, ?_,
        ⟨hheld, h.sum_x, h.sum_z, h.count, h.edge.trans (hmet _ hw).symm⟩, .push F _⟩
      simp only [Cpu.look, if_neg hin, hv, Option.bind_eq_bind, Option.bind_some, if_true, hg]
    · refine ⟨st, _, _, ?_, ⟨h.held.dead hv h1, h.sum_x, h.sum_z, h.count,
        h.edge.trans (hmet _ hw).symm⟩, .pass F _⟩
      simp only [Cpu.look, if_neg hin, hv, Option.bind_eq_bind, Option.bind_some, if_neg h1]
  · have hout : e.1 + d.1 < 0 ∨ e.1 + d.1 ≥ W.gw ∨ e.2 + d.2 < 0 ∨ e.2 + d.2 ≥ W.gw := by
      unfold Within at hw
      omega
    refine ⟨{ st with edge := true }, _, _, if_pos hout,
      ⟨h.held.outside hw, h.sum_x, h.sum_z, h.count, ?_⟩, .pass F _⟩
    exact ⟨fun _ => ⟨_, List.mem_cons_self, hw⟩, fun _ => rfl⟩

theorem Flood.Tracks.round {rest : List (Int × Int)} (h : st.Tracks W g s [] F)
    (hF : F.stack = e :: rest) :
    ∃ st' F' new, flood_round W st = some st' ∧ st'.Tracks W g s [] F' ∧
      (F.pop e rest).Looked F' new := by
  have hst : st.stack = e :: rest := h.held.stack.trans hF
  simp only [flood_round, hst]
  apply Fill.looks (R := fun todo F st => Flood.Tracks W g s todo F st)
    fun _ _ _ _ => Flood.Tracks.look
  refine ⟨h.held.pop hF, ?_, ?_, ?_, h.edge⟩
  · rw [Fill.pop, List.map_cons, List.sum_cons, ← h.sum_x]
    exact Int.add_comm _ _
  · rw [Fill.pop, List.map_cons, List.sum_cons, ← h.sum_z]
    exact Int.add_comm _ _
  · rw [h.count, Fill.pop, List.length_cons]
    rfl

structure Filled (W : Window) (g : Grid Int8 W.gw) (s : Int × Int) (l : List (Int × Int))
    (st : Flood W.gw) : Prop where
  comp : IsComp Adj (live g) s l.toFinset
  nodup : l.Nodup
  live : ∀ c, c ∈ live st.pass ↔ c ∈ live g ∧ c ∉ l
  sum_x : st.sum_x = (l.map fun c => W.ox + c.1).sum
  sum_z : st.sum_z = (l.map fun c => W.oz + c.2).sum
  count : st.count = l.length
  edge : st.edge = true ↔ ∃ a ∈ l, ∃ b, Adj a b ∧ ¬ Within W.gw b.1 b.2

def flood_log (W : Window) (pass : Grid Int8 W.gw) (s : Int × Int) :
    Option (List (Int × Int) × List (Int × Int)) :=
  (pass.write s.1 s.2 (-1)).map fun pass =>
    let n := W.gw.toNat * W.gw.toNat + 1
    let st : Flood W.gw := ⟨pass, [s], 0, 0, 0, false⟩
    (pushes Flood.stack (flood_round W) n st [s], pops Flood.stack (flood_round W) n st [])

theorem flood_spec (hs : s ∈ live g) :
    ∃ st pushed popped, flood W g s.1 s.2 = some st ∧ flood_log W g s = some (pushed, popped) ∧
      popped.Perm pushed ∧ Filled W g s popped st := by
  obtain ⟨g', hg, hheld⟩ := held_start hs
  have hstart : (Flood.mk g' [s] 0 0 0 false).Tracks W g s [] (Fill.start s) := by
    refine ⟨hheld, rfl, rfl, rfl, ?_⟩
    constructor
    · intro he
      cases he
    · rintro ⟨b, hb, -⟩
      cases hb
  obtain ⟨st, F, hloop, ht, hend, hpop, hpush⟩ := loop_spec
    (fun F st (h : Flood.Tracks W g s [] F st) => ⟨h.held.inv, h.held.stack⟩)
    (fun l => nodup_length_le) (fun F st e rest h hF => h.round hF) hstart
    (n := W.gw.toNat * W.gw.toNat + 1) (Nat.lt_add_left _ (Nat.lt_succ_self _))
  have hperm := ht.held.inv.popped_perm hend
  refine ⟨st, F.pushed, F.popped, ?_, ?_, hperm, ?_⟩
  · rw [flood, hg]
    exact (flood_loop_eq W _ _).trans hloop
  · rw [flood_log, hg, Option.map_some, hpop, hpush]
    rfl
  · refine ⟨ht.held.inv.isComp hend, hperm.nodup_iff.2 ht.held.inv.nodup, ?_, ht.sum_x, ht.sum_z,
      ht.count, ?_⟩
    · intro c
      rw [ht.held.live_iff, hperm.mem_iff]
    · rw [ht.edge]
      have hmet := ht.held.inv.met
      simp only [List.not_mem_nil, or_false] at hmet
      constructor
      · rintro ⟨b, hb, hout⟩
        obtain ⟨a, ha, hab⟩ := (hmet b).1 hb
        exact ⟨a, ha, b, hab, hout⟩
      · rintro ⟨a, ha, b, hab, hout⟩
        exact ⟨b, (hmet b).2 ⟨a, ha, hab⟩, hout⟩

end Fill

end Omission.Cpu
