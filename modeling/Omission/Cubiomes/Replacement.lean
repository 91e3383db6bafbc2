import Omission.Cubiomes.Centers

namespace Omission.Cubiomes
open Omission.Lib Omission.Cpu
set_option autoImplicit true

section Replacement

variable (F : Field) (Q : Square)

/-- No cell of another biome in the square has neighbours in two components. -/
def Unbridged : Prop := ∀ m, Within Q.sx m.1 m.2 → m ∉ Q.cells F → ∀ a ∈ Q.cells F,
  ∀ b ∈ Q.cells F, Adj m a → Adj m b → Conn Adj (Q.cells F) a b

/-- What the fills of the call with scale 4 and tolerance 2 look at. -/
def squareInfo : Info where
  r := make_range Q.cx Q.cz Q.range 4
  target := mushroom_fields
  tol := 2
  evaluate := some fun x z => if F x z then mushroom_fields else -1

/-- The cells that a path from `s` reaches without two others of the square in a row. -/
def reach (s : Int × Int) : Set (Int × Int) := {c | c ∈ Q.cells F ∧
  Tolerates Adj {c | Within Q.sx c.1 c.2} (· ∈ Q.cells F) 2 s c}

/-- The cells, and the others of the square that have cells on all sides. -/
def linked : Set (Int × Int) := {c | c ∈ Q.cells F ∨
  Within Q.sx c.1 c.2 ∧ ∀ d, Adj c d → Within Q.sx d.1 d.2 → d ∈ Q.cells F}

/-- The cells that a path from `s` through cells and their single holes reaches. -/
def beside (s : Int × Int) : Set (Int × Int) := {c | c ∈ Q.cells F ∧ Conn Adj (linked F Q) s c}

def Many (S : Set (Int × Int)) (n : Int) : Prop := ∃ K : Finset (Int × Int), ↑K ⊆ S ∧ n ≤ K.card

/-- A fill of at least so many cells starts from these. -/
def Sampled (limits : Field) (n : Int) : Int × Int → Prop :=
  Start (make_range Q.cx Q.cz Q.range 4) limits (sampleStep n 0)

/-- The fills start in cells and their holes, and what a wider gap joins is joined without it. -/
structure Settled (limits : Field) (n : Int) : Prop where
  starts : ∀ s, Sampled Q limits n s → s ∈ linked F Q
  joined : ∀ m, Within Q.sx m.1 m.2 → m ∉ linked F Q → ∀ a ∈ Q.cells F, ∀ b ∈ Q.cells F,
    Adj m a → Adj m b → Conn Adj (linked F Q) a b

variable {F Q}

theorem match_iff {ids : Rect Int (squareInfo F Q).r.sx (squareInfo F Q).r.sz} {c : Int × Int}
    (hc : c ∈ window (squareInfo F Q) ids) : Match (squareInfo F Q) ids c ↔ c ∈ Q.cells F := by
  have hval : ∀ v, (squareInfo F Q).value c v =
      if F (Q.ox + c.1) (Q.oz + c.2) then mushroom_fields else -1 := fun _ => rfl
  constructor
  · rintro ⟨-, v, -, hv⟩
    refine ⟨hc.1, ?_⟩
    by_contra hF
    rw [hval, if_neg hF] at hv
    exact absurd hv (show (-1 : Int) ≠ mushroom_fields by decide)
  · intro hF
    obtain ⟨v, hv⟩ := ids.exists_read hc.1
    exact ⟨hc, v, hv, by rw [hval, if_pos hF.2]; rfl⟩

/-- Without a bridge a fill counts cells of one component. -/
theorem card_le_of_counted {ids : Rect Int (squareInfo F Q).r.sx (squareInfo F Q).r.sz}
    {st : FloodGen (squareInfo F Q).r} {C D : Finset (Int × Int)} (hbridge : Unbridged F Q)
    (hC : FloodGen.Counted ids s st C)
    (hD : ∀ t ∈ Q.cells F, ∀ K, IsComp Adj (Q.cells F) t K → K.card ≤ D.card) :
    C.card ≤ D.card := by
  rcases C.eq_empty_or_nonempty with rfl | ⟨p, hp⟩
  · exact Nat.zero_le _
  have hcell {c : Int × Int} (hc : c ∈ C) : c ∈ Q.cells F :=
    (match_iff ((hC.mem c).1 hc).1.1).1 ((hC.mem c).1 hc).1
  obtain ⟨K, hK⟩ := exists_isComp (D := cellsOf Q.sx Q.sx) (S := Q.cells F)
    (fun c hc => mem_cellsOf.2 hc.1) Adj p
  refine (Finset.card_le_card fun c hc => ?_).trans (hD p (hcell hp) K hK)
  obtain ⟨d, hwalk⟩ := hC.walk c hc
  obtain ⟨e, hstart⟩ := hC.walk p hp
  refine (hK c).2 (hstart.conn_of_unbridged adj_symm rfl ?_ ?_ hwalk ((hC.mem p).1 hp).1
    ((hC.mem c).1 hc).1)
  · exact fun x hx hm => (match_iff hx).1 hm
  · exact fun m hm hmiss => hbridge m hm.1 ((match_iff hm).not.1 hmiss)

section Fill

variable {ids : Rect Int (squareInfo F Q).r.sx (squareInfo F Q).r.sz}
  {st : FloodGen (squareInfo F Q).r} {C : Finset (Int × Int)}

theorem mem_cells_of_counted (hC : FloodGen.Counted ids s st C) (hc : c ∈ C) :
    c ∈ Q.cells F :=
  (match_iff ((hC.mem c).1 hc).1.1).1 ((hC.mem c).1 hc).1

theorem counted_subset_reach (hC : FloodGen.Counted ids s st C) : ↑C ⊆ reach F Q s := by
  intro c hc
  obtain ⟨d, hwalk⟩ := hC.walk c hc
  refine ⟨mem_cells_of_counted hC hc, ?_⟩
  have htol : 0 < (squareInfo F Q).tol := show (0 : Int) < 2 by decide
  exact (hwalk.tolerates htol).mono (fun x hx => hx.1) fun x hx hm => (match_iff hx).1 hm

theorem within_of_linked (hc : c ∈ linked F Q) : Within Q.sx c.1 c.2 := by
  rcases hc with hc | hc
  · exact hc.1
  · exact hc.1

/-- A position that is neither a cell nor a hole has cells beside it only. -/
theorem cell_beside (hm : Within Q.sx m.1 m.2) (hcell : m ∉ Q.cells F) (ha : a ∈ linked F Q)
    (hadj : Adj m a) : a ∈ Q.cells F := by
  rcases ha with ha | ⟨-, hall⟩
  · exact ha
  · exact absurd (hall m (adj_symm _ _ hadj) hm) hcell

theorem counted_subset_beside (h : Settled F Q limits n) (hs : Sampled Q limits n s)
    (hC : FloodGen.Counted ids s st C) : ↑C ⊆ beside F Q s := by
  have hbridge : ∀ m ∈ window (squareInfo F Q) ids, ¬ Match (squareInfo F Q) ids m →
      ∀ a ∈ linked F Q, ∀ b ∈ linked F Q, Adj m a → Adj m b → Conn Adj (linked F Q) a b := by
    intro m hm hmiss a ha b hb hma hmb
    have hcell := (match_iff hm).not.1 hmiss
    by_cases hlinked : m ∈ linked F Q
    · exact (Conn.refl ha).tail (adj_symm _ _ hma) hlinked |>.tail hmb hb
    · exact h.joined m hm.1 hlinked a (cell_beside hm.1 hcell ha hma) b
        (cell_beside hm.1 hcell hb hmb) hma hmb
  intro c hc
  obtain ⟨d, hwalk⟩ := hC.walk c hc
  obtain ⟨a, ⟨ha, hroot⟩, hconn⟩ := (hwalk.rooted adj_symm rfl
    (fun x hx hm => .inl ((match_iff hx).1 hm)) hbridge).2.1 ((hC.mem c).1 hc).1
  refine ⟨mem_cells_of_counted hC hc, ?_⟩
  rcases hroot with ⟨rfl, -⟩ | ⟨-, hadj⟩
  · exact hconn
  · exact ((Conn.refl (h.starts s hs)).tail hadj ha).trans hconn

/-- Until a fill takes them, the holes are narrow gaps. -/
theorem match_or_narrow (hc : c ∈ linked F Q) (hopen : Open ids c) :
    Match (squareInfo F Q) ids c ∨ Narrow (squareInfo F Q) ids c := by
  by_cases hcell : c ∈ Q.cells F
  · exact .inl ((match_iff hopen).2 hcell)
  · have hmiss := (match_iff hopen).not.2 hcell
    refine .inr ⟨⟨hopen, hmiss⟩, {c}, ?_, show (1 : Int) < 2 by decide⟩
    apply isComp_of_closed (Finset.mem_singleton_self c)
    · intro q hq
      rw [Finset.mem_singleton.1 hq]
      exact .refl ⟨hopen, hmiss⟩
    · intro a ha b hadj hb
      rw [Finset.mem_singleton.1 ha] at hadj
      have hbcell := (hc.resolve_left hcell).2 b hadj hb.1.1
      exact absurd ((match_iff hb.1).2 hbcell) hb.2

/-- A fill that comes to one of the cells beside `s` counts them all. -/
theorem fill_takes {s c : Int × Int} (hmany : Many (beside F Q s) n)
    (hfresh : ∀ k, Conn Adj (linked F Q) s k → ¬ Marked ids k) (hopen : Open ids c)
    (hfill : floodFillGen (squareInfo F Q) ids c.1 c.2 = some st)
    (htaken : ∃ k, Conn Adj (linked F Q) s k ∧ Marked st.ids k) : n ≤ st.n := by
  obtain ⟨st', C, hst, hqueue, hinv, hC⟩ := FloodGen.exists_counted (squareInfo F Q) ids hopen
  cases hfill.symm.trans hst
  obtain ⟨k, hk, hm⟩ := htaken
  have hopened : ∀ x, Conn Adj (linked F Q) s x → Open ids x :=
    fun x hx => ⟨within_of_linked hx.right, hfresh x hx⟩
  have hall : ∀ x, Conn Adj (linked F Q) s x → Marked st.ids x := by
    intro x hx
    have hmem := Conn.mem_of_closed
      (R := {a | Conn Adj (linked F Q) s a ∧ Marked st.ids a}) ((hk.symm adj_symm).trans hx)
      ⟨hk, hm⟩ fun a ha b hadj hb => by
        have hsb : Conn Adj (linked F Q) s b := ha.1.tail hadj hb
        have hkind := match_or_narrow ha.1.right (hopened a ha.1)
        exact ⟨hsb, FloodGen.Inv.marked_of_pending hqueue
          (hinv.closed a ha.2 hkind b hadj (hopened b hsb))⟩
    exact hmem.2
  obtain ⟨K, hK, hn⟩ := hmany
  have hsub : K ⊆ C := by
    intro x hx
    obtain ⟨hcell, hconn⟩ := hK hx
    exact (hC.mem x).2 ⟨(match_iff (hopened x hconn)).2 hcell, hall x hconn⟩
  have hcard := Finset.card_le_card hsub
  rw [hC.n]
  omega

end Fill

theorem isSome_test (D : Type) [DoubleOps D] (limits : Field) (F : Field) (Q : Square)
    {n : Int} (hn : 0 < n) : ∃ tested,
      cubiomes_test_biome_centers D limits F Q.cx Q.cz Q.range (16 * n) 4 2 = some tested ∧
        (tested.isSome → ∃ x, Found D (squareInfo F Q) (Sampled Q limits n) n x) ∧
        (∀ s ∈ linked F Q, Sampled Q limits n s → Many (beside F Q s) n → tested.isSome) := by
  have hsize : (16 * n).tdiv (4 * 4) = n := Int.mul_tdiv_cancel_left n (by decide)
  have hmax : max 1 n = n := by omega
  obtain ⟨found, hfound, hall⟩ := getBiomeCentersOpt_spec D limits 1
    (make_range Q.cx Q.cz Q.range 4) (fun x z => if F x z then mushroom_fields else -1)
    mushroom_fields n 2 0
  rw [hmax] at hall
  have hfinds : ∀ s ∈ linked F Q, Sampled Q limits n s → Many (beside F Q s) n →
      ∃ x, found = [x] := by
    intro s hs hsampled hmany
    obtain ⟨x, hx⟩ := getBiomeCentersOpt_finds D limits (squareInfo F Q) _ rfl
      (show (0 : Int) < 2 by decide) (K := {k | Conn Adj (linked F Q) s k})
      (fun ids c st hfresh hopen hfill htaken =>
        hmax.symm ▸ fill_takes hmany hfresh hopen hfill htaken)
      (Conn.refl hs) (hmax.symm ▸ hsampled)
    exact ⟨x, Option.some.inj (hfound.symm.trans hx)⟩
  rw [cubiomes_test_biome_centers, hsize, hfound, Option.bind_eq_bind, Option.bind_some]
  split
  · next pos siz =>
    exact ⟨_, rfl, fun _ => ⟨_, hall _ List.mem_cons_self⟩, fun _ _ _ _ => rfl⟩
  · next hother =>
    refine ⟨none, rfl, fun h => absurd h (by decide), ?_⟩
    intro s hs hsampled hmany
    obtain ⟨⟨pos, siz⟩, rfl⟩ := hfinds s hs hsampled hmany
    exact absurd rfl (hother pos siz)

theorem large_of_unbridged {D : Type} [DoubleOps D] (hbridge : Unbridged F Q)
    (hsmall : ∀ s C, IsComp Adj (Q.cells F) s C → C.card < 2 ^ 27) (hn : 0 < n)
    (hx : Found D (squareInfo F Q) starts n x) : LargeComponent F Q (16 * n) := by
  obtain ⟨ids, c, st, C, -, -, -, hC, -, hle⟩ := hx
  rw [hC.n] at hle
  obtain ⟨best, -, ⟨-, hempty⟩ | ⟨s, K, hK, -⟩⟩ := find_center_spec F Q (16 * n)
  · have hnone : ∀ x, x ∉ C := by
      intro x hx
      have hcell := mem_cells_of_counted hC hx
      rw [hempty] at hcell
      exact hcell
    rw [Finset.eq_empty_of_forall_notMem hnone, Finset.card_empty] at hle
    omega
  · have hcard := card_le_of_counted hbridge hC fun t ht K' hK' => (hK.largest t ht K' hK').1
    have hlt := hsmall s K hK.comp
    refine ⟨s, K, hK, ?_⟩
    rw [(wrap_eq_iff (by decide)).2 ⟨by omega, by omega⟩]
    omega

/-- The strict search finds what the tolerant one accepts if the largest component is large enough
on its own or no fill reaches that many cells over gaps of one cell; the converse holds of the
cells that a start is joined with through holes. -/
theorem find_center_replaces (D : Type) [DoubleOps D] (limits F : Field) (Q : Square) (n : Int)
    (hn : 0 < n) : ∃ tested found,
      cubiomes_test_biome_centers D limits F Q.cx Q.cz Q.range (16 * n) 4 2 = some tested ∧
      find_center F Q (16 * n) = some found ∧
      (LargeComponent F Q (16 * n) ∨ (∀ s, Sampled Q limits n s → ¬ Many (reach F Q s) n) →
        tested.isSome → found.isSome) ∧
      ((tested.isSome → found.isSome) → LargeComponent F Q (16 * n) ∨
        ∀ s ∈ linked F Q, Sampled Q limits n s → ¬ Many (beside F Q s) n) ∧
      (Settled F Q limits n → ((tested.isSome → found.isSome) ↔ LargeComponent F Q (16 * n) ∨
        ∀ s, Sampled Q limits n s → ¬ Many (beside F Q s) n)) ∧
      (Unbridged F Q → (∀ s C, IsComp Adj (Q.cells F) s C → C.card < 2 ^ 27) →
        tested.isSome → found.isSome) := by
  obtain ⟨tested, htest, hsome, hfinds⟩ := isSome_test D limits F Q hn
  obtain ⟨found, hfound, hlarge⟩ := isSome_find_center F Q (16 * n)
  have hneeded : (tested.isSome → found.isSome) → LargeComponent F Q (16 * n) ∨
      ∀ s ∈ linked F Q, Sampled Q limits n s → ¬ Many (beside F Q s) n := by
    intro hkept
    by_cases hl : LargeComponent F Q (16 * n)
    · exact .inl hl
    · refine .inr fun s hs hsampled hmany => hl (hlarge.1 (hkept ?_))
      exact hfinds s hs hsampled hmany
  refine ⟨tested, found, htest, hfound, ?_, hneeded, ?_, ?_⟩
  · rintro (hl | hfew) htested
    · exact hlarge.2 hl
    · obtain ⟨x, ids, s, st, C, hs, -, -, hC, -, hle⟩ := hsome htested
      rw [hC.n] at hle
      exact absurd ⟨C, counted_subset_reach hC, hle⟩ (hfew s hs)
  · intro hsettled
    constructor
    · intro hkept
      exact (hneeded hkept).imp_right fun h s hs => h s (hsettled.starts s hs) hs
    · rintro (hl | hfew) htested
      · exact hlarge.2 hl
      · obtain ⟨x, ids, s, st, C, hs, -, -, hC, -, hle⟩ := hsome htested
        rw [hC.n] at hle
        exact absurd ⟨C, counted_subset_beside hsettled hs hC, hle⟩ (hfew s hs)
  · intro hbridge hsmall htested
    obtain ⟨x, hx⟩ := hsome htested
    exact hlarge.2 (large_of_unbridged hbridge hsmall hn hx)

end Replacement

/-- Every second cell, so that all others are holes. -/
def chessboard : Field := fun x z => (x + z) % 2 = 1

theorem mem_linked_chessboard (hc : Within Q.sx c.1 c.2) : c ∈ linked chessboard Q := by
  have hcell : ∀ d : Int × Int, chessboard (Q.ox + d.1) (Q.oz + d.2) = true ↔
      (Q.ox + d.1 + (Q.oz + d.2)) % 2 = 1 := fun d => decide_eq_true_iff
  by_cases h : (Q.ox + c.1 + (Q.oz + c.2)) % 2 = 1
  · exact .inl ⟨hc, (hcell c).2 h⟩
  · refine .inr ⟨hc, fun d hadj hd => ⟨hd, (hcell d).2 ?_⟩⟩
    rw [← mem_neighbours] at hadj
    simp only [neighbours, dirs, List.map_cons, List.map_nil, List.mem_cons, List.not_mem_nil,
      or_false] at hadj
    rcases hadj with rfl | rfl | rfl | rfl <;> dsimp only <;> omega

theorem settled_chessboard (limits : Field) (n : Int) : Settled chessboard Q limits n where
  starts := fun _ hs => mem_linked_chessboard
    (by obtain ⟨hi, hi', hj, hj'⟩ := inside_of_strided hs.1; exact ⟨hi, hi', hj, hj'⟩)
  joined := fun _ hm hn => absurd (mem_linked_chessboard hm) hn

/-- The four cells of a chessboard around a hole are lost. -/
theorem find_center_replaces_chessboard : ∃ tested found,
    cubiomes_test_biome_centers Rat (fun _ _ => true) chessboard 6 6 12 64 4 2 = some tested ∧
      find_center chessboard ⟨6, 6, 12⟩ 64 = some found ∧ tested.isSome ∧ ¬ found.isSome := by
  obtain ⟨tested, found, htested, hfound, -, -, hiff, -⟩ :=
    find_center_replaces Rat (fun _ _ => true) chessboard ⟨6, 6, 12⟩ 4 (by decide)
  have hnone : find_center chessboard ⟨6, 6, 12⟩ 64 = some none := by decide
  have hsmall : ¬ LargeComponent chessboard ⟨6, 6, 12⟩ 64 := by
    obtain ⟨found', hfound', hlarge⟩ := isSome_find_center chessboard ⟨6, 6, 12⟩ 64
    cases hnone.symm.trans hfound'
    exact hlarge.not.1 (by decide)
  have hin : ∀ c ∈ [(0, 0), (1, 0), (0, 1), (1, 1), (1, 2), (2, 1)],
      c ∈ linked chessboard ⟨6, 6, 12⟩ := by
    intro c hc
    have hwithin : ∀ c ∈ [((0 : Int), (0 : Int)), (1, 0), (0, 1), (1, 1), (1, 2), (2, 1)],
        Within (Square.mk 6 6 12).sx c.1 c.2 := by decide
    exact mem_linked_chessboard (hwithin c hc)
  have hstart : Sampled ⟨6, 6, 12⟩ (fun _ _ => true) 4 (0, 0) := by
    have hzero : (0 : Int) ∈ strided 3 (sampleStep 4 0) :=
      mem_strided.2 ⟨by decide, Int.zero_emod _⟩
    exact ⟨List.mem_flatMap.2 ⟨0, hzero, List.mem_map.2 ⟨0, hzero, rfl⟩⟩, rfl⟩
  have hmany : Many (beside chessboard ⟨6, 6, 12⟩ (0, 0)) 4 := by
    refine ⟨{(1, 0), (0, 1), (1, 2), (2, 1)}, ?_, by decide⟩
    have h00 : Conn Adj (linked chessboard ⟨6, 6, 12⟩) (0, 0) (0, 0) := .refl (hin _ (by decide))
    have h10 := h00.tail ⟨(1, 0), by decide, rfl⟩ (hin (1, 0) (by decide))
    have h01 := h00.tail ⟨(0, 1), by decide, rfl⟩ (hin (0, 1) (by decide))
    have h11 := h10.tail ⟨(0, 1), by decide, rfl⟩ (hin (1, 1) (by decide))
    have h12 := h11.tail ⟨(0, 1), by decide, rfl⟩ (hin (1, 2) (by decide))
    have h21 := h11.tail ⟨(1, 0), by decide, rfl⟩ (hin (2, 1) (by decide))
    intro c hc
    simp only [Finset.coe_insert, Finset.coe_singleton, Set.mem_insert_iff,
      Set.mem_singleton_iff] at hc
    rcases hc with rfl | rfl | rfl | rfl
    · exact ⟨⟨by decide, by decide⟩, h10⟩
    · exact ⟨⟨by decide, by decide⟩, h01⟩
    · exact ⟨⟨by decide, by decide⟩, h12⟩
    · exact ⟨⟨by decide, by decide⟩, h21⟩
  have hlost : ¬ (tested.isSome → found.isSome) := by
    intro hkept
    rcases (hiff (settled_chessboard _ _)).1 hkept with hl | hfew
    · exact hsmall hl
    · exact hfew _ hstart hmany
  exact ⟨tested, found, htested, hfound, Classical.not_imp.1 hlost⟩

/-- Two cells with one cell between them. -/
def strait : Field := fun x z => (x = 0 ∨ x = 2) ∧ z = 0

theorem strait_tested : (cubiomes_test_biome_centers Rat strait strait 6 6 12 32 4 2).map
    Option.isSome = some true := by
  have hstep : sampleStep 2 0 = 1 := by
    have hroot : Nat.sqrt 2 = 1 := (Nat.eq_sqrt.2 ⟨by decide, by decide⟩).symm
    change 1 + ((Nat.sqrt 2 / 2 : Nat) : Int) = 1
    rw [hroot]
    rfl
  rw [cubiomes_test_biome_centers, getBiomeCentersOpt]
  change Option.map Option.isSome (Option.bind (Option.bind ((stridedCells
    (squareInfo strait ⟨6, 6, 12⟩).r (sampleStep 2 0)).foldlM _ _) fun ids => scan Rat
    (squareInfo strait ⟨6, 6, 12⟩) 2 1 [] (stridedCells _ (sampleStep 2 0)) ids) _) = _
  rw [hstep]
  decide

/-- The two cells are 32 blocks for the tolerant search, and 16 for the strict one. -/
theorem strait_lost : ¬ ∀ (F : Field) (Q : Square) (min_size : Int) (tested found : Option PosArea),
    0 < min_size → 16 ∣ min_size →
    cubiomes_test_biome_centers Rat F F Q.cx Q.cz Q.range min_size 4 2 = some tested →
    find_center F Q min_size = some found → tested.isSome → found.isSome := by
  intro h
  have hfind : find_center strait ⟨6, 6, 12⟩ 32 = some none := by decide
  obtain ⟨tested, htested, hsome⟩ := Option.map_eq_some_iff.1 strait_tested
  exact absurd (h strait ⟨6, 6, 12⟩ 32 tested none (by decide) (by decide) htested hfind hsome)
    (by decide)

end Omission.Cubiomes
