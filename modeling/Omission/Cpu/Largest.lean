import Omission.Cpu.Center

namespace Omission.Cpu
open Omission.Lib
set_option autoImplicit true

def OnBorder (gw : Int) (c : Int × Int) : Prop :=
  c.1 = 0 ∨ c.1 = gw - 1 ∨ c.2 = 0 ∨ c.2 = gw - 1

theorem dirs_bound : ∀ d ∈ dirs, -1 ≤ d.1 ∧ d.1 ≤ 1 ∧ -1 ≤ d.2 ∧ d.2 ≤ 1 := by decide

theorem onBorder_iff {c : Int × Int} (h : Within gw c.1 c.2) :
    OnBorder gw c ↔ ∃ b, Adj c b ∧ ¬ Within gw b.1 b.2 := by
  obtain ⟨hi, hi', hj, hj'⟩ := h
  constructor
  · intro hb
    rcases hb with hb | hb | hb | hb
    · exact ⟨(c.1 + -1, c.2 + 0), ⟨(-1, 0), by decide, rfl⟩, fun hw => by have := hw.1; omega⟩
    · exact ⟨(c.1 + 1, c.2 + 0), ⟨(1, 0), by decide, rfl⟩, fun hw => by have := hw.2.1; omega⟩
    · exact ⟨(c.1 + 0, c.2 + -1), ⟨(0, -1), by decide, rfl⟩, fun hw => by have := hw.2.2.1; omega⟩
    · exact ⟨(c.1 + 0, c.2 + 1), ⟨(0, 1), by decide, rfl⟩, fun hw => by have := hw.2.2.2; omega⟩
  · rintro ⟨b, ⟨d, hd, rfl⟩, hout⟩
    have hd' := dirs_bound d hd
    unfold Within at hout
    unfold OnBorder
    simp only at hout
    omega

/-- The fills of a search take every cell of `S` once, component by component, and pop what they
push. -/
structure CountedOnce (S : Set (Int × Int)) (fs : List (List (Int × Int) × List (Int × Int))) :
    Prop where
  popped : ∀ x ∈ fs, x.1.Nodup ∧ x.2.Perm x.1
  comp : ∀ x ∈ fs, ∃ s ∈ S, IsComp Adj S s x.2.toFinset
  nodup : (fs.map (·.2)).flatten.Nodup
  mem : ∀ c, c ∈ (fs.map (·.2)).flatten ↔ c ∈ S

section Searched

variable {gw : Int} {g : Grid Int8 gw} {fs : List (List (Int × Int) × List (Int × Int))}

theorem countedOnce_of_searched
    (h : Searched Adj RowMajor (live g) (visits gw (0, gw)) S' found first)
    (hfs : found.map (·.2) = fs.map (·.2)) (hperm : ∀ x ∈ fs, x.2.Perm x.1) :
    CountedOnce (live g) fs := by
  have hfound : ∀ x ∈ fs, ∃ y ∈ found, y.2 = x.2 := by
    intro x hx
    have hmem : x.2 ∈ found.map (·.2) := by
      rw [hfs]
      exact List.mem_map_of_mem hx
    exact List.mem_map.1 hmem
  refine ⟨?_, ?_, hfs ▸ h.nodup, ?_⟩
  · intro x hx
    obtain ⟨y, hy, he⟩ := hfound x hx
    exact ⟨(hperm x hx).nodup_iff.1 (he ▸ h.nodup_of_mem hy), hperm x hx⟩
  · intro x hx
    obtain ⟨y, hy, he⟩ := hfound x hx
    exact ⟨y.1, (h.comp y hy).1, he ▸ (h.comp y hy).2⟩
  · intro c
    rw [← hfs]
    exact h.mem_flatten (fun c hc => mem_visits_live hc) c

theorem card_le_cells (h : FirstLargest Adj RowMajor (live g) s C) :
    C.card ≤ gw.toNat * gw.toNat := by
  rw [← Finset.length_toList]
  apply nodup_length_le C.nodup_toList
  intro c hc
  exact ((h.comp c).1 (Finset.mem_toList.1 hc)).right

end Searched

/-- The answer of `measure_1to1` for a largest component of the cells `S`. -/
structure Best.Largest (W : Window) (S : Set (Int × Int)) (s : Int × Int) (C : Finset (Int × Int))
    (best : Best) : Prop where
  comp : FirstLargest Adj RowMajor S s C
  count : best.count = C.card
  x : best.x = (∑ c ∈ C, (W.ox + c.1)).tdiv C.card
  z : best.z = (∑ c ∈ C, (W.oz + c.2)).tdiv C.card
  hit_edge : best.hit_edge = true ↔ ∃ c ∈ C, OnBorder W.gw c

theorem Best.Describes.border {W : Window} {g : Grid Int8 W.gw} {best : Best}
    (h : best.Describes W (live g) s C) : best.hit_edge = true ↔ ∃ c ∈ C, OnBorder W.gw c := by
  refine h.hit_edge.trans (exists_congr fun c => and_congr_right fun hc => ?_)
  exact (onBorder_iff ((h.comp c).1 hc).right.1).symm

theorem Best.Describes.largest {W : Window} {g : Grid Int8 W.gw} {best : Best}
    (h : best.Describes W (live g) s C) (hC : FirstLargest Adj RowMajor (live g) s C) :
    best.Largest W (live g) s C :=
  ⟨hC, h.count, h.x, h.z, h.border⟩

theorem measure_1to1_largest (W : Window) (g : Grid Int8 W.gw) : ∃ best,
    measure_1to1 W g false = some best ∧ best.count ≤ W.gw.toNat * W.gw.toNat ∧
      (best = ⟨0, W.cx, W.cz, false⟩ ∧ live g = ∅ ∨ ∃ s C, best.Largest W (live g) s C) ∧
      CountedOnce (live g) (measure_1to1_fills W g) := by
  obtain ⟨best, S', found, first, hm, hbest, hs, hfs, hperm⟩ := measure_1to1_searched W g
  have hcounted := countedOnce_of_searched hs hfs hperm
  rcases hs.result adj_symm RowMajor.trans (fun c hc => mem_visits_live hc) with
    ⟨rfl, hempty⟩ | ⟨s, l, rfl, hl, hC⟩
  · cases hbest
    exact ⟨_, hm, by positivity, .inl ⟨rfl, hempty⟩, hcounted⟩
  · have hdesc := Best.Measures.describes hbest hl hC.comp
    refine ⟨best, hm, ?_, .inr ⟨s, _, hdesc.largest hC⟩, hcounted⟩
    rw [hdesc.count]
    exact_mod_cast card_le_cells hC

theorem fast_find_center_largest (Q : Square) (g : Grid Int8 Q.sx) : ∃ best,
    fast_find_center Q g = some best ∧ best.best_n ≤ Q.sx.toNat * Q.sx.toNat ∧
      (best = ⟨0, 0, 0⟩ ∧ live g = ∅ ∨ ∃ s C, FirstLargest Adj RowMajor (live g) s C ∧
        best = ⟨C.card, ∑ c ∈ C, (Q.ox + c.1), ∑ c ∈ C, (Q.oz + c.2)⟩) ∧
      CountedOnce (live g) (fast_find_center_fills Q g) := by
  obtain ⟨best, S', found, first, hm, hbest, hs, hfs, hperm⟩ := fast_find_center_searched Q g
  have hcounted := countedOnce_of_searched hs hfs hperm
  rcases hs.result adj_symm RowMajor.trans (fun c hc => mem_visits_live hc) with
    ⟨rfl, hempty⟩ | ⟨s, l, rfl, hl, hC⟩
  · cases hbest
    exact ⟨_, hm, by positivity, .inl ⟨rfl, hempty⟩, hcounted⟩
  · have hsum : best = ⟨l.toFinset.card, ∑ c ∈ l.toFinset, (Q.ox + c.1),
        ∑ c ∈ l.toFinset, (Q.oz + c.2)⟩ := by
      rw [List.toFinset_card_of_nodup hl, List.sum_toFinset _ hl, List.sum_toFinset _ hl]
      exact hbest
    refine ⟨best, hm, ?_, .inr ⟨s, _, hC, hsum⟩, hcounted⟩
    have hle := card_le_cells hC
    rw [hsum]
    change (l.toFinset.card : Int) ≤ _
    exact_mod_cast hle

/-- Both searches end with a largest component of the cells that are 1, the first one in row-major
order; every such cell is counted in one component, and every cell pushed is popped once. -/
theorem largest_component :
    (∀ (W : Window) (g : Grid Int8 W.gw), ∃ best, measure_1to1 W g false = some best ∧
      best.count ≤ W.gw.toNat * W.gw.toNat ∧
      (best = ⟨0, W.cx, W.cz, false⟩ ∧ live g = ∅ ∨ ∃ s C, best.Largest W (live g) s C) ∧
      CountedOnce (live g) (measure_1to1_fills W g)) ∧
    ∀ (Q : Square) (g : Grid Int8 Q.sx), ∃ best, fast_find_center Q g = some best ∧
      best.best_n ≤ Q.sx.toNat * Q.sx.toNat ∧
      (best = ⟨0, 0, 0⟩ ∧ live g = ∅ ∨ ∃ s C, FirstLargest Adj RowMajor (live g) s C ∧
        best = ⟨C.card, ∑ c ∈ C, (Q.ox + c.1), ∑ c ∈ C, (Q.oz + c.2)⟩) ∧
      CountedOnce (live g) (fast_find_center_fills Q g) :=
  ⟨measure_1to1_largest, fast_find_center_largest⟩

end Omission.Cpu
