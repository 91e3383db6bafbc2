import Omission.Cpu.Flood

namespace Omission.Cpu
open Omission.Lib
set_option autoImplicit true

/-- The answer describes the component `C` of `s` among the cells `S` of the window. -/
structure Best.Describes (W : Window) (S : Set (Int × Int)) (s : Int × Int)
    (C : Finset (Int × Int)) (best : Best) : Prop where
  comp : IsComp Adj S s C
  count : best.count = C.card
  x : best.x = (∑ c ∈ C, (W.ox + c.1)).tdiv C.card
  z : best.z = (∑ c ∈ C, (W.oz + c.2)).tdiv C.card
  hit_edge : best.hit_edge = true ↔ ∃ a ∈ C, ∃ b, Adj a b ∧ ¬ Within W.gw b.1 b.2

def RowMajor (p q : Int × Int) : Prop := p.2 < q.2 ∨ p.2 = q.2 ∧ p.1 < q.1

theorem RowMajor.asymm (p q : Int × Int) (h : RowMajor p q) : ¬ RowMajor q p := by
  unfold RowMajor at *
  omega

theorem RowMajor.trans (p q r : Int × Int) (h : RowMajor p q) (h' : RowMajor q r) :
    RowMajor p r := by
  unfold RowMajor at *
  omega

theorem RowMajor.total (p q : Int × Int) : RowMajor p q ∨ p = q ∨ RowMajor q p := by
  rw [Prod.ext_iff]
  unfold RowMajor
  omega

theorem pairwise_range (a b : Int) : (Int.range a b).Pairwise (· < ·) := by
  rw [Int.range, List.pairwise_map]
  refine List.pairwise_lt_range.imp ?_
  intro k l hkl
  omega

theorem pairwise_visits (gw : Int) (r : Int × Int) : (visits gw r).Pairwise RowMajor := by
  rw [visits, List.pairwise_flatMap]
  constructor
  · intro j _
    rw [List.pairwise_map]
    exact (pairwise_range 0 gw).imp fun h => .inr ⟨rfl, h⟩
  · refine (pairwise_range r.1 r.2).imp ?_
    intro j j' h p hp q hq
    obtain ⟨i, -, rfl⟩ := List.mem_map.1 hp
    obtain ⟨i', -, rfl⟩ := List.mem_map.1 hq
    exact .inl h

theorem mem_visits_live {g : Grid Int8 gw} (h : c ∈ live g) : c ∈ visits gw (0, gw) := by
  obtain ⟨⟨hi, hi', hj, hj'⟩, -⟩ := h
  exact mem_visits.2 ⟨⟨hj, hj'⟩, hi, hi'⟩

section Scan

variable {W : Window} {g g' : Grid Int8 W.gw} {best : Best}

structure Best.Measures (W : Window) (l : List (Int × Int)) (best : Best) : Prop where
  count : best.count = l.length
  x : best.x = (l.map fun c => W.ox + c.1).sum.tdiv l.length
  z : best.z = (l.map fun c => W.oz + c.2).sum.tdiv l.length
  hit_edge : best.hit_edge = true ↔ ∃ a ∈ l, ∃ b, Adj a b ∧ ¬ Within W.gw b.1 b.2

theorem Filled.measures (h : Filled W g s l st) : st.best.Measures W l := by
  refine ⟨h.count, ?_, ?_, h.edge⟩
  · rw [Flood.best, h.sum_x, h.count]
  · rw [Flood.best, h.sum_z, h.count]

theorem Best.Measures.describes (h : best.Measures W l) (hl : l.Nodup)
    (hcomp : IsComp Adj S s l.toFinset) : best.Describes W S s l.toFinset := by
  have hcard := List.toFinset_card_of_nodup hl
  refine ⟨hcomp, ?_, ?_, ?_, ?_⟩
  · rw [hcard, h.count]
  · rw [List.sum_toFinset _ hl, hcard, h.x]
  · rw [List.sum_toFinset _ hl, hcard, h.z]
  · simp only [List.mem_toFinset]
    exact h.hit_edge

/-- The answer of a search in which `found` is the best fill so far. -/
def Best.Of (W : Window) : Option ((Int × Int) × List (Int × Int)) → Best → Prop
  | none, best => best = ⟨0, W.cx, W.cz, false⟩
  | some x, best => best.Measures W x.2

theorem Best.Of.count {found : Option ((Int × Int) × List (Int × Int))} (h : best.Of W found) :
    best.count = (found.elim 0 (·.2.length) : Nat) := by
  cases found with
  | none => exact congrArg Best.count h
  | some x => exact Best.Measures.count h

def scan_cell_log (W : Window) (s : Grid Int8 W.gw × Best) (c : Int × Int) :
    Option (List (Int × Int) × List (Int × Int)) :=
  if s.1.read c.1 c.2 = some 1 then flood_log W s.1 c else none

def measure_1to1_fills (W : Window) (g : Grid Int8 W.gw) :
    List (List (Int × Int) × List (Int × Int)) :=
  fills (scan_cell W) (scan_cell_log W) (visits W.gw (0, W.gw)) (g, ⟨0, W.cx, W.cz, false⟩)

theorem scan_cell_follows (W : Window) :
    Follows Adj (scan_cell W) (scan_cell_log W) (fun s S' found => live s.1 = S' ∧ s.2.Of W found)
      (visits W.gw (0, W.gw)) := by
  rintro ⟨g, best⟩ S' found ⟨i, j⟩ hc ⟨rfl, hbest⟩
  obtain ⟨⟨hj, hj'⟩, hi, hi'⟩ := mem_visits.1 hc
  have hw : Within W.gw i j := ⟨hi, hi', hj, hj'⟩
  obtain ⟨v, hv⟩ := g.exists_read hw
  by_cases h1 : v = 1
  · subst h1
    obtain ⟨st, pushed, popped, hflood, hlog, hperm, hf⟩ :=
      flood_spec (show (i, j) ∈ live g from ⟨hw, hv⟩)
    refine .inr ⟨⟨hw, hv⟩, (st.pass, if st.count > best.count then st.best else best), pushed,
      popped, ?_, (if_pos hv).trans hlog, hperm, hf.nodup, hf.comp, Set.ext hf.live, ?_⟩
    · simp only [scan_cell, hv, hflood, Option.bind_eq_bind, Option.bind_some]
      rfl
    · rw [hbest.count, hf.count, better]
      simp only [gt_iff_lt, Nat.cast_lt]
      split
      · exact hf.measures
      · exact hbest
  · have hne := not_live hv h1
    refine .inl ⟨fun hl => hne hl.2, ?_, if_neg hne⟩
    simp only [scan_cell, hv, Option.bind_eq_bind, Option.bind_some]
    exact if_pos h1

theorem measure_1to1_searched (W : Window) (g : Grid Int8 W.gw) :
    ∃ best S' found first, measure_1to1 W g false = some best ∧ best.Of W first ∧
      Searched Adj RowMajor (live g) (visits W.gw (0, W.gw)) S' found first ∧
      found.map (·.2) = (measure_1to1_fills W g).map (·.2) ∧
      ∀ x ∈ measure_1to1_fills W g, x.2.Perm x.1 := by
  obtain ⟨⟨g', best⟩, S', found, first, hscan, ⟨-, hbest⟩, hs, hfound, hperm⟩ :=
    search_spec (t := (g, ⟨0, W.cx, W.cz, false⟩)) (scan_cell_follows W) adj_symm RowMajor.asymm
      (pairwise_visits _ _) (fun c hc => mem_visits_live hc) ⟨rfl, rfl⟩
  exact ⟨best, S', found, first, by simp only [measure_1to1, hscan]; rfl, hbest, hs, hfound, hperm⟩

theorem measure_1to1_spec (W : Window) (g : Grid Int8 W.gw) :
    ∃ best, measure_1to1 W g false = some best ∧
      (best = ⟨0, W.cx, W.cz, false⟩ ∧ live g = ∅ ∨
        ∃ s ∈ live g, ∃ C, best.Describes W (live g) s C) ∧
      ∀ s ∈ live g, ∀ C, IsComp Adj (live g) s C → C.card ≤ best.count := by
  obtain ⟨best, S', found, first, hm, hbest, hs, -, -⟩ := measure_1to1_searched W g
  refine ⟨best, hm, ?_⟩
  rcases hs.result adj_symm RowMajor.trans (fun c hc => mem_visits_live hc) with
    ⟨rfl, hempty⟩ | ⟨s, l, rfl, hl, hC⟩
  · refine ⟨.inl ⟨hbest, hempty⟩, ?_⟩
    intro s hs
    rw [hempty] at hs
    cases hs
  · have hdesc := Best.Measures.describes hbest hl hC.comp
    refine ⟨.inr ⟨s, hC.mem, _, hdesc⟩, ?_⟩
    intro p hp D hD
    rw [hdesc.count]
    exact Int.ofNat_le.2 (hC.largest p hp D hD).1

theorem measure_1to1_center_spec (W : Window) (g : Grid Int8 W.gw) :
    ∃ best, measure_1to1 W g true = some best ∧
      ((W.radius, W.radius) ∉ live g ∧ best = ⟨0, W.cx, W.cz, false⟩ ∨
        (W.radius, W.radius) ∈ live g ∧
          ∃ C, best.Describes W (live g) (W.radius, W.radius) C) := by
  have hx : W.cx - W.ox = W.radius := by
    rw [Window.ox]
    omega
  have hz : W.cz - W.oz = W.radius := by
    rw [Window.oz]
    omega
  simp only [measure_1to1, hx, hz, if_true]
  by_cases hc : Within W.gw W.radius W.radius
  · rw [if_pos (by unfold Within at hc; omega)]
    obtain ⟨v, hv⟩ := g.exists_read hc
    by_cases h1 : v = 1
    · subst h1
      have hs : (W.radius, W.radius) ∈ live g := ⟨hc, hv⟩
      obtain ⟨st, pushed, popped, hflood, -, -, hf⟩ := flood_spec hs
      refine ⟨st.best, ?_, .inr ⟨hs, _, hf.measures.describes hf.nodup hf.comp⟩⟩
      rw [hv, Option.bind_eq_bind, Option.bind_some, if_pos rfl, hflood]
      rfl
    · refine ⟨_, ?_, .inl ⟨?_, rfl⟩⟩
      · rw [hv, Option.bind_eq_bind, Option.bind_some, if_neg h1]
      · rintro ⟨-, hr⟩
        exact h1 (Option.some.inj (hv.symm.trans hr))
  · refine ⟨_, if_neg ?_, .inl ⟨fun hl => hc hl.1, rfl⟩⟩
    intro h
    exact hc ⟨h.1, h.2.1, h.2.2.1, h.2.2.2⟩

end Scan

end Omission.Cpu
