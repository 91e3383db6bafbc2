import Omission.Cubiomes.FloodGen
import Omission.Lib.Tokens

namespace Omission.Cubiomes
open Omission.Lib
set_option autoImplicit true

/-- The entry of the cell is `INT_MAX`. -/
def Marked (ids : Rect Int w h) (c : Int × Int) : Prop := ids.read c.1 c.2 = some INT_MAX

/-- The cell can be pushed. -/
def Open (ids : Rect Int w h) (c : Int × Int) : Prop := Inside w h c.1 c.2 ∧ ¬ Marked ids c

instance : DecidablePred (Marked (w := w) (h := h) ids) := fun c =>
  inferInstanceAs (Decidable (ids.read c.1 c.2 = some INT_MAX))

instance (ids : Rect Int w h) : DecidablePred (Open ids) := fun c =>
  inferInstanceAs (Decidable (Inside w h c.1 c.2 ∧ ¬ Marked ids c))

/-- The array `ids'` is `ids` with the cell marked. -/
structure Marks (ids : Rect Int w h) (c : Int × Int) (ids' : Rect Int w h) : Prop where
  self : Marked ids' c
  other : ∀ x, x ≠ c → ids'.read x.1 x.2 = ids.read x.1 x.2

theorem Marks.iff (h : Marks ids c ids') (x : Int × Int) :
    Marked ids' x ↔ Marked ids x ∨ x = c := by
  by_cases hx : x = c
  · rw [hx]
    exact iff_of_true h.self (.inr rfl)
  · rw [Marked, h.other x hx]
    exact (or_iff_left hx).symm

theorem write_mark (ids : Rect Int w h) (c : Int × Int) (hc : Inside w h c.1 c.2) :
    ∃ ids', ids.write c.1 c.2 INT_MAX = some ids' ∧ Marks ids c ids' := by
  obtain ⟨ids', hwrite, hself, hother⟩ := ids.write_spec hc INT_MAX
  exact ⟨ids', hwrite, hself, fun x => hother x.1 x.2⟩

/-- The entries that a cell pushes, the last one first. -/
def fresh (ids : Rect Int w h) (i j d : Int) : List Entry :=
  ((FloodGen.next i j d).filter fun e => Open ids e.cell).reverse

/-- What the entry of a cell is compared with the biome for. -/
def Info.value (info : Info) (c : Int × Int) (id : Int) : Int :=
  (info.evaluate.map fun f => f (info.r.x + c.1) (info.r.z + c.2)).getD id

namespace FloodGen

variable {info : Info} {st : FloodGen info.r} {e : Entry}

theorem look_of_not_open (h : ¬ Open st.ids e.cell) : look st e = some st := by
  unfold look
  split
  · rfl
  · next hin =>
    have hin : Inside info.r.sx info.r.sz e.i e.j := by
      simp only [not_or, not_lt, ge_iff_le, not_le] at hin
      exact hin
    have hread : st.ids.read e.i e.j = some INT_MAX := by
      by_contra hne
      exact h ⟨hin, hne⟩
    simp only [hread, Option.bind_eq_bind, Option.bind_some, if_true]

theorem look_of_open (h : Open st.ids e.cell) : look st e = st.push e := by
  obtain ⟨hin, hne⟩ := h
  obtain ⟨id, hread⟩ := st.ids.exists_read hin
  have hid : id ≠ INT_MAX := fun he => hne (by rw [Marked, hread, he])
  have hbounds : ¬ (e.i < 0 ∨ e.i ≥ info.r.sx ∨ e.j < 0 ∨ e.j ≥ info.r.sz) := by
    simp only [not_or, not_lt, ge_iff_le, not_le]
    exact hin
  rw [look, if_neg hbounds]
  change (st.ids.read e.cell.1 e.cell.2).bind _ = _
  rw [hread]
  exact if_neg hid

theorem foldlM_look (es : List Entry) (st : FloodGen info.r)
    (hcap : (es.filter fun e => Open st.ids e.cell).length + st.queue.length ≤
      info.r.sx.toNat * info.r.sz.toNat) : es.foldlM look st =
    some { st with queue := (es.filter fun e => Open st.ids e.cell).reverse ++ st.queue } := by
  induction es generalizing st with
  | nil => rfl
  | cons e es ih =>
    rw [List.foldlM_cons]
    by_cases h : Open st.ids e.cell
    · rw [look_of_open h]
      rw [List.filter_cons, if_pos (decide_eq_true h)] at hcap ⊢
      rw [List.length_cons] at hcap
      have hlt : st.queue.length < info.r.sx.toNat * info.r.sz.toNat := by omega
      rw [push, if_pos hlt, Option.bind_eq_bind, Option.bind_some, ih]
      · rw [List.reverse_cons, List.append_assoc]
        rfl
      · change (es.filter fun e => decide (Open st.ids e.cell)).length + (st.queue.length + 1) ≤ _
        omega
    · rw [look_of_not_open h, Option.bind_eq_bind, Option.bind_some]
      rw [List.filter_cons, if_neg (by rwa [decide_eq_true_eq])] at hcap ⊢
      exact ih st hcap

theorem not_marked_of_read {ids : Rect Int w h} {v : Int} (hread : ids.read e.i e.j = some v)
    (hv : v ≠ INT_MAX) : ¬ Marked ids e.cell := by
  intro hm
  rw [Marked, Entry.cell, hread] at hm
  exact hv (Option.some.inj hm)

/-- What one round does with the entry. -/
inductive Round (info : Info) (st : FloodGen info.r) (e : Entry) : FloodGen info.r → Prop where
  | seen (hm : Marked st.ids e.cell) : Round info st e st
  | hit {ids : Rect Int info.r.sx info.r.sz} {v : Int}
      (hread : st.ids.read e.i e.j = some v) (hv : v ≠ INT_MAX)
      (hids : Marks st.ids e.cell ids)
      (hval : info.value e.cell v = info.target) :
      Round info st e ⟨ids, fresh ids e.i e.j 0 ++ st.queue, st.sumx + (info.r.x + e.i),
        st.sumz + (info.r.z + e.j), st.n + 1⟩
  | stop {ids : Rect Int info.r.sx info.r.sz} {v : Int}
      (hread : st.ids.read e.i e.j = some v) (hv : v ≠ INT_MAX)
      (hids : Marks st.ids e.cell ids)
      (hval : info.value e.cell v ≠ info.target) (hd : info.tol ≤ e.d + 1) :
      Round info st e { st with ids := ids }
  | miss {ids : Rect Int info.r.sx info.r.sz} {v : Int}
      (hread : st.ids.read e.i e.j = some v) (hv : v ≠ INT_MAX)
      (hids : Marks st.ids e.cell ids)
      (hval : info.value e.cell v ≠ info.target) (hd : e.d + 1 < info.tol) :
      Round info st e { st with ids := ids, queue := fresh ids e.i e.j (e.d + 1) ++ st.queue }

theorem round_spec (hin : Inside info.r.sx info.r.sz e.i e.j)
    (hcap : ∀ (ids : Rect Int info.r.sx info.r.sz) d, ¬ Marked st.ids e.cell →
      Marks st.ids e.cell ids →
      (fresh ids e.i e.j d ++ st.queue).length ≤ info.r.sx.toNat * info.r.sz.toNat) :
    ∃ st', round info st e = some st' ∧ Round info st e st' := by
  obtain ⟨id, hread⟩ := st.ids.exists_read hin
  by_cases hid : id = INT_MAX
  · refine ⟨st, ?_, .seen (by rw [Marked, Entry.cell, hread, hid])⟩
    rw [round, hread]
    exact if_pos hid
  have hm := not_marked_of_read hread hid
  obtain ⟨ids, hwrite, hids⟩ := write_mark st.ids e.cell hin
  have hlook (d : Int) (sumx sumz n : Int) : (next e.i e.j d).foldlM look
      (⟨ids, st.queue, sumx, sumz, n⟩ : FloodGen info.r) =
      some ⟨ids, fresh ids e.i e.j d ++ st.queue, sumx, sumz, n⟩ := by
    apply foldlM_look
    have hlen := hcap ids d hm hids
    rwa [List.length_append, fresh, List.length_reverse] at hlen
  have hround : round info st e = if info.value e.cell id = info.target then
      (next e.i e.j 0).foldlM look ⟨ids, st.queue, st.sumx + (info.r.x + e.i),
        st.sumz + (info.r.z + e.j), st.n + 1⟩
    else if e.d + 1 ≥ info.tol then some { st with ids := ids }
    else (next e.i e.j (e.d + 1)).foldlM look { st with ids := ids } := by
    have hwrite' : st.ids.write e.i e.j INT_MAX = some ids := hwrite
    rw [round, hread, Option.bind_eq_bind, Option.bind_some, if_neg hid, hwrite']
    rfl
  rw [hround]
  by_cases hv : info.value e.cell id = info.target
  · rw [if_pos hv, hlook]
    exact ⟨_, rfl, .hit hread hid hids hv⟩
  rw [if_neg hv]
  by_cases hd : e.d + 1 ≥ info.tol
  · rw [if_pos hd]
    exact ⟨_, rfl, .stop hread hid hids hv hd⟩
  · rw [if_neg hd]
    refine ⟨_, hlook _ _ _ _, .miss hread hid hids hv (Int.not_le.1 hd)⟩

/-- The entries of the queue hold tokens. -/
def Bounded (st : FloodGen info.r) : Prop :=
  ∃ g, Tokens info.r.sx info.r.sz (Marked st.ids) g ∧ st.queue.map Entry.cell = g.map Prod.fst

theorem fresh_map_cell (ids : Rect Int w h) (i j d : Int) (τ : Int × Int) :
    (fresh ids i j d).map Entry.cell =
      ((Tokens.pushes h (i, j) τ).filter fun p => decide (Open ids p.1)).reverse.map Prod.fst := by
  have hnext : (next i j d).map Entry.cell = (Tokens.pushes h (i, j) τ).map Prod.fst := rfl
  rw [fresh, List.map_reverse, List.map_reverse, ← Function.comp_def (fun c => decide (Open ids c))
    Entry.cell, ← List.filter_map, hnext, List.filter_map]
  rfl

/-- The entries that a newly marked cell pushes get tokens as well. -/
theorem Bounded.fresh {ids : Rect Int info.r.sx info.r.sz}
    (hb : Bounded { st with queue := e :: st.queue }) (hm : ¬ Marked st.ids e.cell)
    (hids : Marks st.ids e.cell ids) (d sumx sumz n : Int) :
    Bounded (⟨ids, fresh ids e.i e.j d ++ st.queue, sumx, sumz, n⟩ : FloodGen info.r) := by
  obtain ⟨g, hg, hcells⟩ := hb
  cases g with
  | nil => cases hcells
  | cons p g =>
    obtain ⟨c, τ⟩ := p
    obtain ⟨rfl, htail⟩ := List.cons.inj hcells
    have hlive : ∀ x, decide (Open ids x) = true →
        Inside info.r.sx info.r.sz x.1 x.2 ∧ ¬ Marked st.ids x := by
      intro x hx
      obtain ⟨hin, hx⟩ := of_decide_eq_true hx
      exact ⟨hin, fun h => hx ((hids.iff x).2 (.inl h))⟩
    refine ⟨_, hg.expand hm hlive fun x hx => (hids.iff x).2 hx, ?_⟩
    rw [List.map_append, List.map_append, htail, fresh_map_cell ids e.i e.j d τ]
    rfl

theorem Bounded.drop {ids : Rect Int info.r.sx info.r.sz}
    (hb : Bounded { st with queue := e :: st.queue })
    (hids : ∀ x, Marked st.ids x → Marked ids x) : Bounded { st with ids := ids } := by
  obtain ⟨g, hg, hcells⟩ := hb
  cases g with
  | nil => cases hcells
  | cons p g => exact ⟨g, hg.drop.mono hids, (List.cons.inj hcells).2⟩

theorem Bounded.inside (hb : Bounded { st with queue := e :: st.queue }) :
    Inside info.r.sx info.r.sz e.i e.j := by
  obtain ⟨g, hg, hcells⟩ := hb
  cases g with
  | nil => cases hcells
  | cons p g =>
    have hcell : e.cell = p.1 := (List.cons.inj hcells).1
    have hin := hg.cells p List.mem_cons_self
    rwa [← hcell] at hin

theorem Bounded.length_le (hb : Bounded st) :
    st.queue.length ≤ info.r.sx.toNat * info.r.sz.toNat := by
  obtain ⟨g, hg, hcells⟩ := hb
  rw [← List.length_map Entry.cell, hcells, List.length_map]
  exact hg.length_le

def unmarked (ids : Rect Int w h) : Finset (Int × Int) :=
  (cellsOf w h).filter fun c => ¬ Marked ids c

theorem card_unmarked {ids ids' : Rect Int w h} {c : Int × Int} (hc : Open ids c)
    (hids : Marks ids c ids') :
    (unmarked ids').card + 1 = (unmarked ids).card := by
  have he : unmarked ids' = (unmarked ids).erase c := by
    ext x
    rw [unmarked, unmarked, Finset.mem_erase, Finset.mem_filter, Finset.mem_filter, hids.iff,
      not_or]
    exact ⟨fun h => ⟨h.2.2, h.1, h.2.1⟩, fun h => ⟨h.2.1, h.2.2, h.1⟩⟩
  rw [he]
  exact Finset.card_erase_add_one (Finset.mem_filter.2 ⟨mem_cellsOf.2 hc.1, hc.2⟩)

/-- What bounds the rounds that are left. -/
def measure (st : FloodGen info.r) : Nat := 4 * (unmarked st.ids).card + st.queue.length

theorem fresh_length_le (ids : Rect Int w h) (i j d : Int) : (fresh ids i j d).length ≤ 4 := by
  rw [fresh, List.length_reverse]
  exact List.length_filter_le _ _

theorem Round.step {st' : FloodGen info.r} (hr : Round info st e st')
    (hb : Bounded { st with queue := e :: st.queue }) : Bounded st' ∧
      st'.measure < ({ st with queue := e :: st.queue } : FloodGen info.r).measure := by
  have hlen : (e :: st.queue).length = st.queue.length + 1 := rfl
  have hopen {v : Int} (hread : st.ids.read e.i e.j = some v) (hv : v ≠ INT_MAX) :
      Open st.ids e.cell :=
    ⟨hb.inside, not_marked_of_read hread hv⟩
  have hpush {ids : Rect Int info.r.sx info.r.sz} {v : Int}
      (hread : st.ids.read e.i e.j = some v) (hv : v ≠ INT_MAX)
      (hids : Marks st.ids e.cell ids) (d sumx sumz n : Int) :
      Bounded (⟨ids, Cubiomes.fresh ids e.i e.j d ++ st.queue, sumx, sumz, n⟩ : FloodGen info.r) ∧
      (⟨ids, Cubiomes.fresh ids e.i e.j d ++ st.queue, sumx, sumz, n⟩ : FloodGen info.r).measure <
        ({ st with queue := e :: st.queue } : FloodGen info.r).measure := by
    refine ⟨hb.fresh (hopen hread hv).2 hids d sumx sumz n, ?_⟩
    have hcard := card_unmarked (hopen hread hv) hids
    have hfour := fresh_length_le ids e.i e.j d
    simp only [measure, List.length_append, hlen]
    omega
  cases hr with
  | seen hm =>
    refine ⟨hb.drop fun x hx => hx, ?_⟩
    simp only [measure, hlen]
    omega
  | hit hread hv hids hval => exact hpush hread hv hids 0 _ _ _
  | stop hread hv hids hval hd =>
    refine ⟨hb.drop fun x hx => (hids.iff x).2 (.inl hx), ?_⟩
    have hcard := card_unmarked (hopen hread hv) hids
    simp only [measure, hlen]
    omega
  | miss hread hv hids hval hd => exact hpush hread hv hids _ _ _ _

theorem Bounded.exists_round (hb : Bounded { st with queue := e :: st.queue }) :
    ∃ st', round info st e = some st' ∧ Round info st e st' :=
  round_spec hb.inside fun _ d hm hids => (hb.fresh hm hids d 0 0 0).length_le

/-- The loop ends, and what each round keeps holds at the end. -/
theorem loop_spec {I : FloodGen info.r → Prop} {fuel : Nat}
    (hI : ∀ st e st', I { st with queue := e :: st.queue } → Round info st e st' → I st')
    (hb : Bounded st) (hst : I st) (hfuel : st.measure < fuel) :
    ∃ st', loop info fuel st = some st' ∧ st'.queue = [] ∧ I st' := by
  induction fuel generalizing st with
  | zero => omega
  | succ fuel ih =>
    obtain ⟨ids, queue, sumx, sumz, n⟩ := st
    cases queue with
    | nil => exact ⟨_, rfl, rfl, hst⟩
    | cons e queue =>
      let st : FloodGen info.r := ⟨ids, queue, sumx, sumz, n⟩
      have hb : Bounded { st with queue := e :: st.queue } := hb
      obtain ⟨st', hround, hr⟩ := hb.exists_round
      obtain ⟨hb', hlt⟩ := hr.step hb
      have hfuel' : st'.measure < fuel := Nat.lt_of_lt_of_le hlt (Nat.le_of_lt_succ hfuel)
      obtain ⟨u, hu, hend⟩ := ih hb' (hI st e st' hst hr) hfuel'
      refine ⟨u, ?_, hend⟩
      change (round info st e).bind (loop info fuel) = some u
      rw [hround]
      exact hu

/-- From a cell of the window the flood fill ends: no entry is written behind the queue, and no
cell outside of the window is read or marked. What each round keeps holds at the end. -/
theorem floodFillGen_spec (I : FloodGen info.r → Prop) {ids : Rect Int info.r.sx info.r.sz}
    {i j : Int} (hin : Inside info.r.sx info.r.sz i j)
    (hI : ∀ st e st', I { st with queue := e :: st.queue } → Round info st e st' → I st')
    (hstart : I (.start info ids i j)) :
    ∃ st, floodFillGen info ids i j = some st ∧ st.queue = [] ∧ I st := by
  apply loop_spec hI
  · exact ⟨[((i, j), (0, info.r.sz - 1))], Tokens.start hin, rfl⟩
  · exact hstart
  · have hcard : (unmarked ids).card ≤ info.r.sx.toNat * info.r.sz.toNat := by
      rw [← card_cellsOf]
      exact Finset.card_filter_le _ _
    change 4 * (unmarked ids).card + 1 < _
    omega

end FloodGen

/-- `floodFillGen` ends from every start, whatever the array holds. -/
theorem floodFillGen_total (info : Info) (ids : Rect Int info.r.sx info.r.sz) (i j : Int)
    (hin : Inside info.r.sx info.r.sz i j) : ∃ st, floodFillGen info ids i j = some st := by
  obtain ⟨st, hst, -⟩ := FloodGen.floodFillGen_spec (fun _ => True) hin
    (fun _ _ _ _ _ => trivial) trivial
  exact ⟨st, hst⟩

theorem floodFillGen_total_two : ∃ st, floodFillGen ⟨⟨4, 0, 0, 2, 2⟩, 14, 2, none⟩
    (Rect.fill 2 2 14) 1 0 = some st :=
  floodFillGen_total _ _ 1 0 (by decide)

end Omission.Cubiomes
