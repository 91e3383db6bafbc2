import Omission.Cpu.Measure

namespace Omission.Cpu
open Omission.Lib
set_option autoImplicit true

/-- The square of scale-4 cells that `fast_find_center` looks at. -/
structure Square where
  cx : Int
  cz : Int
  range : Int

namespace Square

variable (Q : Square)

def scale : Int := 4
def sx : Int := Q.range.tdiv scale
def ox : Int := (Q.cx - Q.range.tdiv 2).tdiv scale
def oz : Int := (Q.cz - Q.range.tdiv 2).tdiv scale

end Square

/-- The state of one flood fill of `fast_find_center`; the top of the stack comes first. -/
structure Center (sx : Int) where
  grid : Grid Int8 sx
  pstack : List (Int × Int)
  sumx : Int
  sumz : Int
  n : Int

namespace Center

def look (e : Int × Int) (st : Center sx) (d : Int × Int) : Option (Center sx) :=
  let ni := e.1 + d.1
  let nj := e.2 + d.2
  if ni < 0 ∨ ni ≥ sx ∨ nj < 0 ∨ nj ≥ sx then some st
  else do
    let v ← st.grid.read ni nj
    if v = 1 then do
      let grid ← st.grid.write ni nj (-1)
      some { st with grid := grid, pstack := (ni, nj) :: st.pstack }
    else some st

def round (Q : Square) (st : Center Q.sx) : Option (Center Q.sx) :=
  match st.pstack with
  | [] => some st
  | e :: pstack => dirs.foldlM (look e) { st with
      pstack := pstack
      sumx := st.sumx + (Q.ox + e.1)
      sumz := st.sumz + (Q.oz + e.2)
      n := st.n + 1 }

/-- There are at most as many rounds as cells, and one look at the empty stack. -/
def rounds (Q : Square) : Nat := Q.sx.toNat * Q.sx.toNat + 1

def fill (Q : Square) (grid : Grid Int8 Q.sx) (s : Int × Int) : Option (Center Q.sx) := do
  let grid ← grid.write s.1 s.2 (-1)
  loop pstack (round Q) (rounds Q) ⟨grid, [s], 0, 0, 0⟩

structure Best where
  best_n : Int
  best_sx : Int
  best_sz : Int
deriving DecidableEq

def scan_cell (Q : Square) (t : Grid Int8 Q.sx × Best) (c : Int × Int) :
    Option (Grid Int8 Q.sx × Best) := do
  let v ← t.1.read c.1 c.2
  if v ≠ 1 then some t
  else do
    let st ← fill Q t.1 c
    some (st.grid, if st.n > t.2.best_n then ⟨st.n, st.sumx, st.sumz⟩ else t.2)

end Center

def fast_find_center (Q : Square) (grid : Grid Int8 Q.sx) : Option Center.Best := do
  let (_, best) ← (visits Q.sx (0, Q.sx)).foldlM (Center.scan_cell Q) (grid, ⟨0, 0, 0⟩)
  some best

namespace Center

/-- The cells that a fill pushes and those that it pops. -/
def fill_log (Q : Square) (grid : Grid Int8 Q.sx) (s : Int × Int) :
    Option (List (Int × Int) × List (Int × Int)) :=
  (grid.write s.1 s.2 (-1)).map fun grid =>
    (pushes pstack (round Q) (rounds Q) ⟨grid, [s], 0, 0, 0⟩ [s],
      pops pstack (round Q) (rounds Q) ⟨grid, [s], 0, 0, 0⟩ [])

def scan_cell_log (Q : Square) (t : Grid Int8 Q.sx × Best) (c : Int × Int) :
    Option (List (Int × Int) × List (Int × Int)) :=
  if t.1.read c.1 c.2 = some 1 then fill_log Q t.1 c else none

structure Tracks (Q : Square) (g : Grid Int8 Q.sx) (s : Int × Int) (todo : List (Int × Int))
    (F : Fill (Int × Int)) (st : Center Q.sx) : Prop where
  held : Held g s todo F st.grid st.pstack
  sumx : st.sumx = (F.popped.map fun c => Q.ox + c.1).sum
  sumz : st.sumz = (F.popped.map fun c => Q.oz + c.2).sum
  n : st.n = F.popped.length

structure Filled (Q : Square) (g : Grid Int8 Q.sx) (s : Int × Int) (l : List (Int × Int))
    (st : Center Q.sx) : Prop where
  comp : IsComp Adj (live g) s l.toFinset
  nodup : l.Nodup
  live : ∀ c, c ∈ live st.grid ↔ c ∈ live g ∧ c ∉ l
  sumx : st.sumx = (l.map fun c => Q.ox + c.1).sum
  sumz : st.sumz = (l.map fun c => Q.oz + c.2).sum
  n : st.n = l.length

section Fill

variable {Q : Square} {g : Grid Int8 Q.sx} {s : Int × Int} {F : Fill (Int × Int)}
  {st : Center Q.sx} {best : Best}

theorem Tracks.look {d : Int × Int} (h : st.Tracks Q g s ((e.1 + d.1, e.2 + d.2) :: ds) F) :
    ∃ st' F' new, st.look e d = some st' ∧ st'.Tracks Q g s ds F' ∧ F.Looked F' new := by
  by_cases hw : Within Q.sx (e.1 + d.1) (e.2 + d.2)
  · have hin : ¬ (e.1 + d.1 < 0 ∨ e.1 + d.1 ≥ Q.sx ∨ e.2 + d.2 < 0 ∨ e.2 + d.2 ≥ Q.sx) := by
      unfold Within at hw
      omega
    obtain ⟨v, hv⟩ := st.grid.exists_read hw
    by_cases h1 : v = 1
    · subst h1
      obtain ⟨g', hg, hheld⟩ := h.held.push hw hv
      refine ⟨{ st with grid := g', pstack := _ :: st.pstack }, _, _, ?_,
        ⟨hheld, h.sumx, h.sumz, h.n⟩, .push F _⟩
      simp only [Center.look, if_neg hin, hv, Option.bind_eq_bind, Option.bind_some, if_true, hg]
    · refine ⟨st, _, _, ?_, ⟨h.held.dead hv h1, h.sumx, h.sumz, h.n⟩, .pass F _⟩
      simp only [Center.look, if_neg hin, hv, Option.bind_eq_bind, Option.bind_some, if_neg h1]
  · have hout : e.1 + d.1 < 0 ∨ e.1 + d.1 ≥ Q.sx ∨ e.2 + d.2 < 0 ∨ e.2 + d.2 ≥ Q.sx := by
      unfold Within at hw
      omega
    exact ⟨st, _, _, if_pos hout, ⟨h.held.outside hw, h.sumx, h.sumz, h.n⟩, .pass F _⟩

theorem Tracks.round {rest : List (Int × Int)} (h : st.Tracks Q g s [] F)
    (hF : F.stack = e :: rest) :
    ∃ st' F' new, round Q st = some st' ∧ st'.Tracks Q g s [] F' ∧
      (F.pop e rest).Looked F' new := by
  have hst : st.pstack = e :: rest := h.held.stack.trans hF
  simp only [Center.round, hst]
  apply Fill.looks (R := fun todo F st => Tracks Q g s todo F st) fun _ _ _ _ => Tracks.look
  refine ⟨h.held.pop hF, ?_, ?_, ?_⟩
  · rw [Fill.pop, List.map_cons, List.sum_cons, ← h.sumx]
    exact Int.add_comm _ _
  · rw [Fill.pop, List.map_cons, List.sum_cons, ← h.sumz]
    exact Int.add_comm _ _
  · rw [h.n, Fill.pop, List.length_cons]
    rfl

theorem fill_spec (hs : s ∈ Cpu.live g) :
    ∃ st pushed popped, fill Q g s = some st ∧ fill_log Q g s = some (pushed, popped) ∧
      popped.Perm pushed ∧ Filled Q g s popped st := by
  obtain ⟨g', hg, hheld⟩ := held_start hs
  have hstart : (Center.mk g' [s] 0 0 0).Tracks Q g s [] (Fill.start s) :=
    ⟨hheld, rfl, rfl, rfl⟩
  obtain ⟨st, F, hloop, ht, hend, hpop, hpush⟩ := loop_spec
    (fun F st (h : Tracks Q g s [] F st) => ⟨h.held.inv, h.held.stack⟩)
    (fun l => nodup_length_le) (fun F st e rest h hF => h.round hF) hstart
    (n := rounds Q) (Nat.lt_add_left _ (Nat.lt_succ_self _))
  have hperm := ht.held.inv.popped_perm hend
  refine ⟨st, F.pushed, F.popped, ?_, ?_, hperm, ?_⟩
  · rw [fill, hg]
    exact hloop
  · rw [fill_log, hg, Option.map_some, hpop, hpush]
    rfl
  · refine ⟨ht.held.inv.isComp hend, hperm.nodup_iff.2 ht.held.inv.nodup, ?_, ht.sumx, ht.sumz,
      ht.n⟩
    intro c
    rw [ht.held.live_iff, hperm.mem_iff]

/-- The size and the sums are those of the best fill so far. -/
def Best.Of (Q : Square) (found : Option ((Int × Int) × List (Int × Int))) (best : Best) : Prop :=
  best = ⟨(found.elim 0 (·.2.length) : Nat), (found.elim [] (·.2.map fun c => Q.ox + c.1)).sum,
    (found.elim [] (·.2.map fun c => Q.oz + c.2)).sum⟩

theorem scan_cell_follows (Q : Square) :
    Follows Adj (scan_cell Q) (scan_cell_log Q)
      (fun t S' found => Cpu.live t.1 = S' ∧ t.2.Of Q found) (visits Q.sx (0, Q.sx)) := by
  rintro ⟨g, best⟩ S' found ⟨i, j⟩ hc ⟨rfl, hbest⟩
  obtain ⟨⟨hj, hj'⟩, hi, hi'⟩ := mem_visits.1 hc
  have hw : Within Q.sx i j := ⟨hi, hi', hj, hj'⟩
  obtain ⟨v, hv⟩ := g.exists_read hw
  by_cases h1 : v = 1
  · subst h1
    obtain ⟨st, pushed, popped, hfill, hlog, hperm, hf⟩ :=
      fill_spec (show (i, j) ∈ Cpu.live g from ⟨hw, hv⟩)
    refine .inr ⟨⟨hw, hv⟩,
      (st.grid, if st.n > best.best_n then ⟨st.n, st.sumx, st.sumz⟩ else best), pushed, popped, ?_,
      (if_pos hv).trans hlog, hperm, hf.nodup, hf.comp, Set.ext hf.live, ?_⟩
    · simp only [scan_cell, hv, hfill, Option.bind_eq_bind, Option.bind_some]
      rfl
    · have hn : best.best_n = (found.elim 0 (·.2.length) : Nat) := congrArg Best.best_n hbest
      rw [hn, hf.n, hf.sumx, hf.sumz, better]
      simp only [gt_iff_lt, Nat.cast_lt]
      split
      · rfl
      · exact hbest
  · have hne := not_live hv h1
    refine .inl ⟨fun hl => hne hl.2, ?_, if_neg hne⟩
    simp only [scan_cell, hv, Option.bind_eq_bind, Option.bind_some]
    exact if_pos h1

end Fill

end Center

def fast_find_center_fills (Q : Square) (g : Grid Int8 Q.sx) :
    List (List (Int × Int) × List (Int × Int)) :=
  fills (Center.scan_cell Q) (Center.scan_cell_log Q) (visits Q.sx (0, Q.sx)) (g, ⟨0, 0, 0⟩)

theorem fast_find_center_searched (Q : Square) (g : Grid Int8 Q.sx) :
    ∃ best S' found first, fast_find_center Q g = some best ∧ best.Of Q first ∧
      Searched Adj RowMajor (live g) (visits Q.sx (0, Q.sx)) S' found first ∧
      found.map (·.2) = (fast_find_center_fills Q g).map (·.2) ∧
      ∀ x ∈ fast_find_center_fills Q g, x.2.Perm x.1 := by
  obtain ⟨⟨g', best⟩, S', found, first, hscan, ⟨-, hbest⟩, hs, hfound, hperm⟩ :=
    search_spec (t := (g, ⟨0, 0, 0⟩)) (Center.scan_cell_follows Q) adj_symm RowMajor.asymm
      (pairwise_visits _ _) (fun c hc => mem_visits_live hc) ⟨rfl, rfl⟩
  exact ⟨best, S', found, first, by simp only [fast_find_center, hscan]; rfl, hbest, hs, hfound,
    hperm⟩

end Omission.Cpu
