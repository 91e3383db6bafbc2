import Mathlib.Algebra.BigOperators.Group.Finset.Basic
import Omission.Cpu.Flood
import Omission.Cubiomes.Capacity
import Omission.Lib.Tolerant

namespace Omission.Cubiomes
open Omission.Lib Omission.Cpu
set_option autoImplicit true

section Region

variable (info : Info) (ids : Rect Int info.r.sx info.r.sz)

/-- The cells that no fill before has taken. -/
def window : Set (Int × Int) := {c | Open ids c}

/-- The cell is of the biome that is looked for. -/
def Match (c : Int × Int) : Prop :=
  c ∈ window info ids ∧ ∃ v, ids.read c.1 c.2 = some v ∧ info.value c v = info.target

/-- The cells of the window besides the matching ones. -/
def gaps : Set (Int × Int) := {c | c ∈ window info ids ∧ ¬ Match info ids c}

/-- A path of neighbours leads from `s` to `c` with fewer than `tol` other cells in a row. -/
def Reachable (s c : Int × Int) : Prop :=
  Tolerates Adj (window info ids) (Match info ids) info.tol s c

/-- The cell lies in a gap that has fewer than `tol` cells. -/
def Narrow (c : Int × Int) : Prop :=
  c ∈ gaps info ids ∧ ∃ K : Finset (Int × Int), IsComp Adj (gaps info ids) c K ∧
    (K.card : Int) < info.tol

/-- A path through matching cells and narrow gaps leads from `s` to `c`. -/
def Near (s c : Int × Int) : Prop := Conn Adj {c | Match info ids c ∨ Narrow info ids c} s c

end Region

theorem not_marked_fill (hv : v ≠ INT_MAX) (c : Int × Int) : ¬ Marked (Rect.fill w h v) c := by
  intro hm
  have hread := Rect.read_fill (Rect.inside_of_read hm) v
  rw [Marked, hread] at hm
  exact hv (Option.some.inj hm)

theorem next_eq (i j d : Int) :
    FloodGen.next i j d = (neighbours (i, j)).map fun c => ⟨c.1, c.2, d⟩ := by
  simp only [FloodGen.next, neighbours, dirs, List.map_cons, List.map_nil, Int.add_zero,
    Int.sub_eq_add_neg]

theorem mem_fresh {ids : Rect Int w h} {e : Entry} : e ∈ fresh ids i j d ↔
    Adj (i, j) e.cell ∧ Open ids e.cell ∧ e.d = d := by
  rw [fresh, List.mem_reverse, List.mem_filter, decide_eq_true_eq, next_eq, List.mem_map]
  constructor
  · rintro ⟨⟨c, hc, rfl⟩, hopen⟩
    exact ⟨(mem_neighbours _ _).1 hc, hopen, rfl⟩
  · rintro ⟨hadj, hopen, rfl⟩
    exact ⟨⟨e.cell, (mem_neighbours _ _).2 hadj, rfl⟩, hopen⟩

namespace FloodGen

variable {info : Info} {ids₀ : Rect Int info.r.sx info.r.sz} {st st' : FloodGen info.r}
  {e : Entry} {s : Int × Int}

/-- Where an entry comes from: the start, or a walk to a neighbour that ends with `d` misses. They
are marked and, if the cell is one as well, they lie in its gap. -/
structure Entered (ids₀ : Rect Int info.r.sx info.r.sz) (s : Int × Int)
    (ids : Rect Int info.r.sx info.r.sz) (e : Entry) : Prop where
  inside : e.cell ∈ window info ids₀
  walk : e.cell = s ∧ e.d = 0 ∨
    ∃ p, Walk Adj (window info ids₀) (Match info ids₀) info.tol s p e.d ∧ Adj p e.cell
  run : ∃ l : List (Int × Int), l.Nodup ∧ (l.length : Int) = e.d ∧ ∀ x ∈ l, Marked ids x ∧
    x ∈ gaps info ids₀ ∧ (e.cell ∈ gaps info ids₀ → Conn Adj (gaps info ids₀) e.cell x)

/-- The marked cells that match have been counted. -/
structure Counted (ids₀ : Rect Int info.r.sx info.r.sz) (s : Int × Int) (st : FloodGen info.r)
    (C : Finset (Int × Int)) : Prop where
  mem : ∀ c, c ∈ C ↔ Match info ids₀ c ∧ Marked st.ids c
  n : st.n = C.card
  sumx : st.sumx = ∑ c ∈ C, (info.r.x + c.1)
  sumz : st.sumz = ∑ c ∈ C, (info.r.z + c.2)
  walk : ∀ c ∈ C, ∃ d, Walk Adj (window info ids₀) (Match info ids₀) info.tol s c d

structure Inv (ids₀ : Rect Int info.r.sx info.r.sz) (s : Int × Int) (st : FloodGen info.r) :
    Prop where
  read : ∀ c, ¬ Marked st.ids c → st.ids.read c.1 c.2 = ids₀.read c.1 c.2
  counted : ∃ C, Counted ids₀ s st C
  entered : ∀ e ∈ st.queue, Entered ids₀ s st.ids e
  start : Marked st.ids s ∨ ∃ e ∈ st.queue, e.cell = s
  closed : ∀ u, Marked st.ids u → Match info ids₀ u ∨ Narrow info ids₀ u →
    ∀ v, Adj u v → v ∈ window info ids₀ → Marked st.ids v ∨ ∃ e ∈ st.queue, e.cell = v

theorem Entered.mono {ids ids' : Rect Int info.r.sx info.r.sz} (h : Entered ids₀ s ids e)
    (hids : ∀ x, Marked ids x → Marked ids' x) : Entered ids₀ s ids' e := by
  obtain ⟨l, hnodup, hlen, hl⟩ := h.run
  exact ⟨h.inside, h.walk, l, hnodup, hlen, fun x hx => ⟨hids x (hl x hx).1, (hl x hx).2⟩⟩

theorem Entered.hit {ids : Rect Int info.r.sx info.r.sz} (h : Entered ids₀ s ids e)
    (hm : Match info ids₀ e.cell) :
    Walk Adj (window info ids₀) (Match info ids₀) info.tol s e.cell 0 := by
  rcases h.walk with ⟨hs, -⟩ | ⟨p, hp, hadj⟩
  · rw [← hs]
    exact .start_hit h.inside hm
  · exact hp.hit hadj h.inside hm

theorem Entered.miss {ids : Rect Int info.r.sx info.r.sz} (h : Entered ids₀ s ids e)
    (hm : ¬ Match info ids₀ e.cell) (hd : e.d + 1 < info.tol) :
    Walk Adj (window info ids₀) (Match info ids₀) info.tol s e.cell (e.d + 1) := by
  rcases h.walk with ⟨hs, hzero⟩ | ⟨p, hp, hadj⟩
  · rw [hzero] at hd ⊢
    rw [← hs]
    exact .start_miss h.inside hm hd
  · exact hp.miss hadj h.inside hm hd

/-- The misses up to a cell that has just been popped, itself the first of them. -/
theorem Entered.gap {ids : Rect Int info.r.sx info.r.sz} (h : Entered ids₀ s ids e)
    (hopen : ¬ Marked ids e.cell) (hgap : e.cell ∈ gaps info ids₀) :
    ∃ l : List (Int × Int), l.Nodup ∧ (l.length : Int) = e.d + 1 ∧
      ∀ x ∈ l, (Marked ids x ∨ x = e.cell) ∧ Conn Adj (gaps info ids₀) e.cell x := by
  obtain ⟨l, hnodup, hlen, hl⟩ := h.run
  refine ⟨e.cell :: l, List.nodup_cons.2 ⟨fun hx => hopen (hl _ hx).1, hnodup⟩, ?_, ?_⟩
  · rw [List.length_cons, Nat.cast_add, hlen]
    rfl
  · intro x hx
    rcases List.mem_cons.1 hx with rfl | hx
    · exact ⟨.inr rfl, .refl hgap⟩
    · exact ⟨.inl (hl x hx).1, (hl x hx).2.2 hgap⟩

/-- A cell at which the fill stops lies in a gap of `tol` cells or more. -/
theorem Entered.not_narrow {ids : Rect Int info.r.sx info.r.sz} (h : Entered ids₀ s ids e)
    (hopen : ¬ Marked ids e.cell) (hd : info.tol ≤ e.d + 1) : ¬ Narrow info ids₀ e.cell := by
  rintro ⟨hgap, K, hK, hcard⟩
  obtain ⟨l, hnodup, hlen, hl⟩ := h.gap hopen hgap
  have hle : l.length ≤ K.card := by
    rw [← List.toFinset_card_of_nodup hnodup]
    apply Finset.card_le_card
    intro x hx
    exact (hK x).2 (hl x (List.mem_toFinset.1 hx)).2
  omega

variable {ids : Rect Int info.r.sx info.r.sz} {d : Int} {C : Finset (Int × Int)}

/-- The neighbours of a cell that is expanded are marked, or they are pushed. -/
theorem fresh_covers (e : Entry) (queue : List Entry) {v : Int × Int} (hadj : Adj e.cell v)
    (hv : v ∈ window info ids₀) :
    Marked ids v ∨ ∃ f ∈ Cubiomes.fresh ids e.i e.j d ++ queue, f.cell = v := by
  by_cases hm : Marked ids v
  · exact .inl hm
  · exact .inr ⟨⟨v.1, v.2, d⟩, List.mem_append_left _ (mem_fresh.2 ⟨hadj, ⟨hv.1, hm⟩, rfl⟩), rfl⟩

theorem fresh_entered (hold : ∀ x, Marked ids₀ x → Marked ids x)
    (hwalk : Walk Adj (window info ids₀) (Match info ids₀) info.tol s e.cell d)
    (hrun : ∃ l : List (Int × Int), l.Nodup ∧ (l.length : Int) = d ∧
      ∀ x ∈ l, Marked ids x ∧ Conn Adj (gaps info ids₀) e.cell x) :
    ∀ f ∈ Cubiomes.fresh ids e.i e.j d, Entered ids₀ s ids f := by
  intro f hf
  obtain ⟨hadj, hopen, rfl⟩ := mem_fresh.1 hf
  obtain ⟨l, hnodup, hlen, hl⟩ := hrun
  have hin : f.cell ∈ window info ids₀ := ⟨hopen.1, fun hm => hopen.2 (hold _ hm)⟩
  refine ⟨hin, .inr ⟨e.cell, hwalk, hadj⟩, l, hnodup, hlen, ?_⟩
  intro x hx
  obtain ⟨hm, hconn⟩ := hl x hx
  refine ⟨hm, hconn.right, fun hgap => ?_⟩
  exact ((Conn.refl hgap).tail (adj_symm _ _ hadj) hconn.left).trans hconn

/-- What was marked before the fill still is. -/
theorem Inv.marked (h : Inv ids₀ s st) {x : Int × Int} (hx : Marked ids₀ x) : Marked st.ids x := by
  by_contra hn
  have hread := h.read x hn
  rw [Marked, hread] at hn
  exact hn hx

/-- A round that marks a cell keeps the invariant. -/
theorem Inv.advance (h : Inv ids₀ s { st with queue := e :: st.queue })
    (hids : Marks st.ids e.cell st'.ids) (hold : ∀ f ∈ st.queue, f ∈ st'.queue)
    (hnew : ∀ f ∈ st'.queue, f ∈ st.queue ∨ Entered ids₀ s st'.ids f)
    (hclosed : Match info ids₀ e.cell ∨ Narrow info ids₀ e.cell → ∀ v, Adj e.cell v →
      v ∈ window info ids₀ → Marked st'.ids v ∨ ∃ f ∈ st'.queue, f.cell = v)
    (hcounted : ∃ C, Counted ids₀ s st' C) : Inv ids₀ s st' := by
  have hpending : ∀ x, (Marked st.ids x ∨ ∃ f ∈ e :: st.queue, f.cell = x) →
      Marked st'.ids x ∨ ∃ f ∈ st'.queue, f.cell = x := by
    rintro x (hx | ⟨f, hf, rfl⟩)
    · exact .inl ((hids.iff x).2 (.inl hx))
    · rcases List.mem_cons.1 hf with rfl | hf
      · exact .inl hids.self
      · exact .inr ⟨f, hold f hf, rfl⟩
  constructor
  · intro x hx
    rw [hids.iff, not_or] at hx
    rw [hids.other x hx.2]
    exact h.read x hx.1
  · exact hcounted
  · intro f hf
    rcases hnew f hf with hf | hf
    · exact (h.entered f (List.mem_cons_of_mem _ hf)).mono fun x hx => (hids.iff x).2 (.inl hx)
    · exact hf
  · exact hpending s h.start
  · intro u hu hnear v hadj hv
    rcases (hids.iff u).1 hu with hu | rfl
    · exact hpending v (h.closed u hu hnear v hadj hv)
    · exact hclosed hnear v hadj hv

theorem Counted.insert (h : Counted ids₀ s st C) (hm : ¬ Marked st.ids e.cell)
    (hmatch : Match info ids₀ e.cell) (hids : Marks st.ids e.cell ids)
    (hwalk : Walk Adj (window info ids₀) (Match info ids₀) info.tol s e.cell 0)
    (queue : List Entry) :
    Counted ids₀ s ⟨ids, queue, st.sumx + (info.r.x + e.i), st.sumz + (info.r.z + e.j), st.n + 1⟩
      (insert e.cell C) := by
  have hnot : e.cell ∉ C := fun hc => hm ((h.mem _).1 hc).2
  constructor
  · intro c
    rw [Finset.mem_insert, h.mem, hids.iff]
    constructor
    · rintro (rfl | ⟨hc, hmc⟩)
      · exact ⟨hmatch, .inr rfl⟩
      · exact ⟨hc, .inl hmc⟩
    · rintro ⟨hc, hmc | rfl⟩
      · exact .inr ⟨hc, hmc⟩
      · exact .inl rfl
  · rw [Finset.card_insert_of_notMem hnot, h.n, Nat.cast_add]
    rfl
  · rw [Finset.sum_insert hnot, ← h.sumx]
    exact Int.add_comm _ _
  · rw [Finset.sum_insert hnot, ← h.sumz]
    exact Int.add_comm _ _
  · intro c hc
    rcases Finset.mem_insert.1 hc with rfl | hc
    · exact ⟨0, hwalk⟩
    · exact h.walk c hc

theorem Counted.keep (h : Counted ids₀ s st C) (hmatch : ¬ Match info ids₀ e.cell)
    (hids : Marks st.ids e.cell ids) (queue : List Entry) :
    Counted ids₀ s ⟨ids, queue, st.sumx, st.sumz, st.n⟩ C := by
  refine ⟨fun c => ?_, h.n, h.sumx, h.sumz, h.walk⟩
  rw [h.mem, hids.iff]
  refine and_congr_right fun hc => (or_iff_left ?_).symm
  rintro rfl
  exact hmatch hc

/-- A cell that is not marked reads as it did before the fill. -/
theorem Inv.match_iff (h : Inv ids₀ s st) (hin : e.cell ∈ window info ids₀) {v : Int}
    (hread : st.ids.read e.i e.j = some v) (hv : v ≠ INT_MAX) :
    Match info ids₀ e.cell ↔ info.value e.cell v = info.target := by
  have hread₀ := h.read e.cell (not_marked_of_read hread hv)
  change st.ids.read e.i e.j = _ at hread₀
  rw [Match, ← hread₀, hread]
  constructor
  · rintro ⟨-, w, hw, hval⟩
    cases hw
    exact hval
  · exact fun hval => ⟨hin, v, rfl, hval⟩

/-- An entry whose cell is marked is dropped. -/
theorem Inv.seen (h : Inv ids₀ s { st with queue := e :: st.queue }) (hm : Marked st.ids e.cell) :
    Inv ids₀ s st := by
  obtain ⟨C, hC⟩ := h.counted
  have hpending : ∀ x, (Marked st.ids x ∨ ∃ f ∈ e :: st.queue, f.cell = x) →
      Marked st.ids x ∨ ∃ f ∈ st.queue, f.cell = x := by
    rintro x (hx | ⟨f, hf, rfl⟩)
    · exact .inl hx
    · rcases List.mem_cons.1 hf with rfl | hf
      · exact .inl hm
      · exact .inr ⟨f, hf, rfl⟩
  constructor
  · exact h.read
  · exact ⟨C, hC.mem, hC.n, hC.sumx, hC.sumz, hC.walk⟩
  · exact fun f hf => h.entered f (List.mem_cons_of_mem _ hf)
  · exact hpending s h.start
  · exact fun u hu hnear v hadj hv => hpending v (h.closed u hu hnear v hadj hv)

theorem Inv.step (h : Inv ids₀ s { st with queue := e :: st.queue })
    (hr : Round info st e st') : Inv ids₀ s st' := by
  have hentered := h.entered e List.mem_cons_self
  obtain ⟨C, hC⟩ := h.counted
  have hC : Counted ids₀ s st C := ⟨hC.mem, hC.n, hC.sumx, hC.sumz, hC.walk⟩
  have hold {ids : Rect Int info.r.sx info.r.sz} (hids : Marks st.ids e.cell ids) :
      ∀ x, Marked ids₀ x → Marked ids x :=
    fun x hx => (hids.iff x).2 (.inl (h.marked hx))
  cases hr with
  | seen hm => exact h.seen hm
  | hit hread hv hids hval =>
    have hhit := (h.match_iff hentered.inside hread hv).2 hval
    have hwalk := hentered.hit hhit
    apply h.advance hids
    · exact fun f hf => List.mem_append_right _ hf
    · intro f hf
      rcases List.mem_append.1 hf with hf | hf
      · exact .inr (fresh_entered (hold hids) hwalk
          ⟨[], List.nodup_nil, rfl, List.forall_mem_nil _⟩ f hf)
      · exact .inl hf
    · exact fun _ v hadj hwin => fresh_covers e st.queue hadj hwin
    · exact ⟨_, hC.insert (not_marked_of_read hread hv) hhit hids hwalk _⟩
  | stop hread hv hids hval hd =>
    have hmiss := (h.match_iff hentered.inside hread hv).not.2 hval
    apply h.advance hids
    · exact fun f hf => hf
    · exact fun f hf => .inl hf
    · intro hnear
      exact absurd (hnear.resolve_left hmiss) (hentered.not_narrow (not_marked_of_read hread hv) hd)
    · exact ⟨_, hC.keep hmiss hids _⟩
  | miss hread hv hids hval hd =>
    have hmiss := (h.match_iff hentered.inside hread hv).not.2 hval
    apply h.advance hids
    · exact fun f hf => List.mem_append_right _ hf
    · intro f hf
      rcases List.mem_append.1 hf with hf | hf
      · obtain ⟨l, hnodup, hlen, hl⟩ :=
          hentered.gap (not_marked_of_read hread hv) ⟨hentered.inside, hmiss⟩
        refine .inr (fresh_entered (hold hids) (hentered.miss hmiss hd)
          ⟨l, hnodup, hlen, fun x hx => ?_⟩ f hf)
        exact ⟨(hids.iff x).2 (hl x hx).1, (hl x hx).2⟩
      · exact .inl hf
    · exact fun _ v hadj hwin => fresh_covers e st.queue hadj hwin
    · exact ⟨_, hC.keep hmiss hids _⟩

theorem Inv.first (hopen : Open ids₀ (i, j)) : Inv ids₀ (i, j) (.start info ids₀ i j) := by
  constructor
  · exact fun c _ => rfl
  · refine ⟨∅, ?_, rfl, rfl, rfl, fun c hc => absurd hc (Finset.notMem_empty c)⟩
    exact fun c => iff_of_false (Finset.notMem_empty c) fun h => h.1.1.2 h.2
  · intro e he
    cases List.mem_singleton.1 he
    exact ⟨hopen, .inl ⟨rfl, rfl⟩, [], List.nodup_nil, rfl, List.forall_mem_nil _⟩
  · exact .inr ⟨_, List.mem_cons_self, rfl⟩
  · rintro u hu (hm | hm)
    · exact absurd hu hm.1.2
    · exact absurd hu hm.1.1.2

theorem Inv.marked_of_pending (hqueue : st.queue = []) {x : Int × Int}
    (hx : Marked st.ids x ∨ ∃ f ∈ st.queue, f.cell = x) : Marked st.ids x := by
  rcases hx with hx | ⟨f, hf, -⟩
  · exact hx
  · rw [hqueue] at hf
    cases hf

theorem Inv.marked_start (h : Inv ids₀ s st) (hqueue : st.queue = []) : Marked st.ids s :=
  marked_of_pending hqueue h.start

/-- At the end every cell near the start is marked. -/
theorem Inv.marked_of_near (h : Inv ids₀ s st) (hqueue : st.queue = []) {c : Int × Int}
    (hc : Near info ids₀ s c) : Marked st.ids c := by
  have hin {x : Int × Int} (hx : Match info ids₀ x ∨ Narrow info ids₀ x) :
      x ∈ window info ids₀ := by
    rcases hx with hx | hx
    · exact hx.1
    · exact hx.1.1
  have hmem := Conn.mem_of_closed
    (R := {x | (Match info ids₀ x ∨ Narrow info ids₀ x) ∧ Marked st.ids x}) hc
    ⟨hc.left, h.marked_start hqueue⟩ fun a ha b hadj hb =>
      ⟨hb, marked_of_pending hqueue (h.closed a ha.2 ha.1 b hadj (hin hb))⟩
  exact hmem.2

/-- A fill from a cell that is not marked. -/
theorem exists_counted (info : Info) (ids : Rect Int info.r.sx info.r.sz)
    (hopen : Open ids (i, j)) :
    ∃ (st : FloodGen info.r) (C : Finset (Int × Int)), floodFillGen info ids i j = some st ∧
      st.queue = [] ∧ Inv ids (i, j) st ∧ Counted ids (i, j) st C := by
  obtain ⟨st, hst, hqueue, h⟩ := floodFillGen_spec (Inv ids (i, j)) hopen.1
    (fun _ _ _ h hr => h.step hr) (Inv.first hopen)
  obtain ⟨C, hC⟩ := h.counted
  exact ⟨st, C, hst, hqueue, h, hC⟩

end FloodGen

/-- The matching cells of a window with a gap that is one cell wide in its last column. -/
def shore : List (Int × Int) := [(2, 0), (0, 1), (0, 2), (1, 2), (2, 2)]

def shoreInfo : Info :=
  ⟨⟨4, 0, 0, 3, 3⟩, 14, 2, some fun x z => if (x, z) ∈ shore then 14 else -1⟩

/-- What `floodFillGen` counts are cells that a path with fewer than `tol` other cells in a row
reaches, among them all that are reached through narrow gaps; for a tolerance of one they are all
that are reached. -/
theorem floodFillGen_region (D : Type) [DoubleOps D] (info : Info)
    (ids : Rect Int info.r.sx info.r.sz) (i j : Int) (hin : Inside info.r.sx info.r.sz i j)
    (htol : 1 ≤ info.tol) (hfresh : ∀ c, ¬ Marked ids c) :
    ∃ (st : FloodGen info.r) (C : Finset (Int × Int)), floodFillGen info ids i j = some st ∧
      st.n = C.card ∧ st.center D = meanPos D info.r (∑ c ∈ C, (info.r.x + c.1))
        (∑ c ∈ C, (info.r.z + c.2)) C.card ∧
      (∀ c ∈ C, Match info ids c ∧ Reachable info ids (i, j) c) ∧
      (∀ c, Match info ids c → Near info ids (i, j) c → c ∈ C) ∧
      (info.tol = 1 → ∀ c, Match info ids c → Reachable info ids (i, j) c → c ∈ C) := by
  obtain ⟨st, C, hst, hqueue, h, hC⟩ :=
    FloodGen.exists_counted info ids ⟨hin, hfresh (i, j)⟩
  have hnear : ∀ c, Match info ids c → Near info ids (i, j) c → c ∈ C := fun c hm hc =>
    (hC.mem c).2 ⟨hm, h.marked_of_near hqueue hc⟩
  refine ⟨st, C, hst, hC.n, ?_, ?_, hnear, ?_⟩
  · rw [FloodGen.center, hC.sumx, hC.sumz, hC.n]
  · intro c hc
    obtain ⟨d, hwalk⟩ := hC.walk c hc
    exact ⟨((hC.mem c).1 hc).1, hwalk.tolerates htol⟩
  · intro hone c hm hc
    exact hnear c hm (Conn.mono (fun x hx => .inl hx.2) (Tolerates.conn hone hc))

/-- The fill from the lower left corner of `shoreInfo`. -/
theorem floodFillGen_region_shore : ∃ (st : FloodGen shoreInfo.r) (C : Finset (Int × Int)),
    floodFillGen shoreInfo (Rect.fill 3 3 (-1)) 0 1 = some st ∧ st.n = C.card ∧
      ∀ c ∈ C, Reachable shoreInfo (Rect.fill 3 3 (-1)) (0, 1) c := by
  obtain ⟨st, C, hst, hn, -, hC, -⟩ := floodFillGen_region Rat shoreInfo (Rect.fill 3 3 (-1)) 0 1
    (by decide) (by decide) (not_marked_fill (by decide))
  exact ⟨st, C, hst, hn, fun c hc => (hC c hc).2⟩

theorem shore_inside : ∀ c ∈ (2, 1) :: shore, Inside 3 3 c.1 c.2 := by decide

theorem mem_shore_window (hc : c ∈ (2, 1) :: shore) :
    c ∈ window shoreInfo (Rect.fill 3 3 (-1)) :=
  ⟨shore_inside c hc, not_marked_fill (by decide) c⟩

theorem match_shore : Match shoreInfo (Rect.fill 3 3 (-1)) c ↔ c ∈ shore := by
  have hval : ∀ v, shoreInfo.value c v = if c ∈ shore then 14 else -1 := by
    intro v
    simp only [Info.value, shoreInfo, Option.map_some, Option.getD_some, Int.zero_add]
  constructor
  · rintro ⟨-, v, -, hv⟩
    rw [hval] at hv
    by_contra hc
    rw [if_neg hc] at hv
    exact absurd hv (by decide)
  · intro hc
    have hin : Inside 3 3 c.1 c.2 := shore_inside c (List.mem_cons_of_mem _ hc)
    exact ⟨⟨hin, not_marked_fill (by decide) c⟩, -1, Rect.read_fill hin (-1), by
      rw [hval, if_pos hc]
      rfl⟩

/-- From the lower left the gap is entered along the row above, and the cell behind it is lost. -/
theorem shore_lost : ¬ ∀ (info : Info) (ids : Rect Int info.r.sx info.r.sz) (i j : Int)
    (st : FloodGen info.r) (C : Finset (Int × Int)), Inside info.r.sx info.r.sz i j →
    1 ≤ info.tol → (∀ c, ¬ Marked ids c) → floodFillGen info ids i j = some st →
    (∀ c, c ∈ C ↔ Match info ids c ∧ Reachable info ids (i, j) c) → st.n = C.card := by
  intro h
  let W := Walk Adj (window shoreInfo (Rect.fill 3 3 (-1)))
    (Match shoreInfo (Rect.fill 3 3 (-1))) 2 (0, 1)
  have h01 : W (0, 1) 0 := .start_hit (mem_shore_window (by decide)) (match_shore.2 (by decide))
  have h02 : W (0, 2) 0 := h01.hit ⟨(0, 1), by decide, rfl⟩
    (mem_shore_window (by decide)) (match_shore.2 (by decide))
  have h12 : W (1, 2) 0 := h02.hit ⟨(1, 0), by decide, rfl⟩
    (mem_shore_window (by decide)) (match_shore.2 (by decide))
  have h22 : W (2, 2) 0 := h12.hit ⟨(1, 0), by decide, rfl⟩
    (mem_shore_window (by decide)) (match_shore.2 (by decide))
  have h21 : W (2, 1) (0 + 1) := h22.miss ⟨(0, -1), by decide, rfl⟩
    (mem_shore_window (by decide)) (match_shore.not.2 (by decide)) (by decide)
  have h20 : W (2, 0) 0 := h21.hit ⟨(0, -1), by decide, rfl⟩
    (mem_shore_window (by decide)) (match_shore.2 (by decide))
  have hreach : ∀ c ∈ shore, Reachable shoreInfo (Rect.fill 3 3 (-1)) (0, 1) c := by
    intro c hc
    simp only [shore, List.mem_cons, List.not_mem_nil, or_false] at hc
    rcases hc with rfl | rfl | rfl | rfl | rfl
    · exact h20.tolerates (by decide)
    · exact h01.tolerates (by decide)
    · exact h02.tolerates (by decide)
    · exact h12.tolerates (by decide)
    · exact h22.tolerates (by decide)
  have hfour : (floodFillGen shoreInfo (Rect.fill 3 3 (-1)) 0 1).map FloodGen.n = some 4 := by
    decide
  obtain ⟨st, hst, hn⟩ := Option.map_eq_some_iff.1 hfour
  have hfive := h shoreInfo (Rect.fill 3 3 (-1)) 0 1 st shore.toFinset (by decide) (by decide)
    (not_marked_fill (by decide)) hst fun c => by
      rw [List.mem_toFinset, match_shore]
      exact ⟨fun hc => ⟨hc, hreach c hc⟩, And.left⟩
  rw [hn] at hfive
  exact absurd hfive (by decide)

end Omission.Cubiomes
