import Omission.Lib.Rect

namespace Omission.Lib
set_option autoImplicit true

/-- The entries of a stack, each a cell with a token. The token `(i, j)` stands for the edge
between the cells `(i, j)` and `(i, j + 1)`, which is pushed along once; the last row has none and
holds the tokens of the start and of the entry that is popped next. `M` are the marked cells. -/
structure Tokens (w h : Int) (M : Int × Int → Prop) (g : List ((Int × Int) × (Int × Int))) :
    Prop where
  nodup : (g.map Prod.snd).Nodup
  cells : ∀ p ∈ g, Inside w h p.1.1 p.1.2
  tokens : ∀ p ∈ g, Inside w h p.2.1 p.2.2
  edge : ∀ p ∈ g, p.2.2 + 1 < h → M p.2 ∨ M (p.2.1, p.2.2 + 1)
  tail : ∀ p ∈ g.tail, p.2 ≠ (1, h - 1)
  head : ∀ p ∈ g.head?, p.2 = (1, h - 1) → M (p.1.1 - 1, p.1.2)

namespace Tokens

variable {w h : Int} {M N : Int × Int → Prop} {c τ : Int × Int}
  {g : List ((Int × Int) × (Int × Int))}

/-- The stack has no more entries than there are cells. -/
theorem length_le (ht : Tokens w h M g) : g.length ≤ w.toNat * h.toNat := by
  rw [← List.length_map Prod.snd]
  apply length_le_of_inside ht.nodup
  intro t hmem
  obtain ⟨p, hp, rfl⟩ := List.mem_map.1 hmem
  exact ht.tokens p hp

theorem start (hc : Inside w h c.1 c.2) : Tokens w h M [(c, (0, h - 1))] := by
  have hh : 0 < h := hc.2.2.1.trans_lt hc.2.2.2
  have hw : 0 < w := hc.1.trans_lt hc.2.1
  have hroot : Inside w h 0 (h - 1) := ⟨Int.le_refl 0, hw, by omega, by omega⟩
  have hlast : ¬ h - 1 + 1 < h := by omega
  constructor
  · exact List.nodup_singleton _
  · intro p hp
    cases List.mem_singleton.1 hp
    exact hc
  · intro p hp
    cases List.mem_singleton.1 hp
    exact hroot
  · intro p hp hlt
    cases List.mem_singleton.1 hp
    exact absurd hlt hlast
  · intro p hp
    cases hp
  · intro p hp he
    cases hp
    cases he

theorem mono (ht : Tokens w h M g) (hMN : ∀ x, M x → N x) : Tokens w h N g :=
  ⟨ht.nodup, ht.cells, ht.tokens, fun p hp hlt => (ht.edge p hp hlt).imp (hMN _) (hMN _),
    ht.tail, fun p hp he => hMN _ (ht.head p hp he)⟩

/-- The popped entry pushes nothing. -/
theorem drop (ht : Tokens w h M ((c, τ) :: g)) : Tokens w h M g := by
  constructor
  · exact (List.nodup_cons.1 ht.nodup).2
  · exact fun p hp => ht.cells p (List.mem_cons_of_mem _ hp)
  · exact fun p hp => ht.tokens p (List.mem_cons_of_mem _ hp)
  · exact fun p hp => ht.edge p (List.mem_cons_of_mem _ hp)
  · exact fun p hp => ht.tail p (List.mem_of_mem_tail hp)
  · exact fun p hp he => absurd he (ht.tail p (List.mem_of_mem_head? hp))

/-- What a popped cell pushes, the first one first: the entry to the left takes the token of the
cell, the one to the right the token that only the next entry may hold. -/
def pushes (h : Int) (c τ : Int × Int) : List ((Int × Int) × (Int × Int)) :=
  [((c.1, c.2 - 1), (c.1, c.2 - 1)), ((c.1, c.2 + 1), c), ((c.1 - 1, c.2), τ),
    ((c.1 + 1, c.2), (1, h - 1))]

section Expand

variable {live : Int × Int → Bool}

/-- The edge to a live cell above or below holds no token of the stack. -/
theorem up_ne (ht : Tokens w h M ((c, τ) :: g)) (hc : ¬ M c) (hup : ¬ M (c.1, c.2 - 1)) :
    ∀ p ∈ (c, τ) :: g, (c.1, c.2 - 1) ≠ p.2 := by
  intro p hp he
  have hlt : c.2 - 1 + 1 < h := by
    have hin : c.2 < h := (ht.cells _ List.mem_cons_self).2.2.2
    omega
  have hmark := ht.edge p hp
  rw [← he] at hmark
  rcases hmark hlt with h | h
  · exact hup h
  · rw [Int.sub_add_cancel] at h
    exact hc h

theorem down_ne (ht : Tokens w h M ((c, τ) :: g)) (hc : ¬ M c)
    (hdown : Inside w h c.1 (c.2 + 1) ∧ ¬ M (c.1, c.2 + 1)) : ∀ p ∈ (c, τ) :: g, c ≠ p.2 := by
  intro p hp he
  have hmark := ht.edge p hp
  rw [← he] at hmark
  exact (hmark hdown.1.2.2.2).elim hc hdown.2

/-- The tokens of the edges are not that of the entry that is popped next. -/
theorem last_ne {a b : Int} (hb : b + 1 < h) : ((a, b) : Int × Int) ≠ (1, h - 1) := by
  intro he
  have hb' := congrArg Prod.snd he
  dsimp only at hb'
  omega

theorem left_ne (ht : Tokens w h M ((c, τ) :: g)) (hleft : ¬ M (c.1 - 1, c.2)) :
    τ ≠ (1, h - 1) :=
  fun he => hleft (ht.head (c, τ) rfl he)

/-- The tokens of the pushed entries differ from each other and from those on the stack. -/
theorem fresh (ht : Tokens w h M ((c, τ) :: g)) (hc : ¬ M c)
    (hlive : ∀ x, live x = true → Inside w h x.1 x.2 ∧ ¬ M x) :
    (((pushes h c τ).filter (live ·.1)).map Prod.snd).Nodup ∧
    ∀ p ∈ (pushes h c τ).filter (live ·.1), ∀ q ∈ g, p.2 ≠ q.2 := by
  have hin := ht.cells (c, τ) List.mem_cons_self
  constructor
  · rw [List.Nodup, List.pairwise_map, List.pairwise_filter]
    simp only [pushes, List.pairwise_cons, List.forall_mem_cons, List.not_mem_nil, false_imp_iff,
      implies_true, and_true, List.Pairwise.nil]
    refine ⟨⟨?_, ?_, ?_⟩, ⟨?_, ?_⟩, ?_⟩
    · intro _ _ he
      have hrow := congrArg Prod.snd he
      dsimp only at hrow
      omega
    · intro hup _
      exact up_ne ht hc (hlive _ hup).2 _ List.mem_cons_self
    · intro hup _
      exact last_ne (by rw [Int.sub_add_cancel]; exact hin.2.2.2)
    · intro hdown _
      exact down_ne ht hc (hlive _ hdown) _ List.mem_cons_self
    · intro hdown _
      exact last_ne (hlive _ hdown).1.2.2.2
    · intro hleft _
      exact left_ne ht (hlive _ hleft).2
  · intro p hp q hq
    obtain ⟨hp, hl⟩ := List.mem_filter.1 hp
    simp only [pushes, List.mem_cons, List.not_mem_nil, or_false] at hp
    rcases hp with rfl | rfl | rfl | rfl
    · exact up_ne ht hc (hlive _ hl).2 q (List.mem_cons_of_mem _ hq)
    · exact down_ne ht hc (hlive _ hl) q (List.mem_cons_of_mem _ hq)
    · intro he
      exact (List.nodup_cons.1 ht.nodup).1 (List.mem_map.2 ⟨q, hq, he.symm⟩)
    · exact fun he => ht.tail q hq he.symm

/-- The entry to the right is the only one that holds the last token. -/
theorem eq_right (ht : Tokens w h M ((c, τ) :: g)) (hlive : ∀ x, live x = true →
    Inside w h x.1 x.2 ∧ ¬ M x) {p : (Int × Int) × (Int × Int)}
    (hp : p ∈ (pushes h c τ).filter (live ·.1)) (he : p.2 = (1, h - 1)) :
    p = ((c.1 + 1, c.2), (1, h - 1)) := by
  have hin := ht.cells (c, τ) List.mem_cons_self
  obtain ⟨hp, hl⟩ := List.mem_filter.1 hp
  simp only [pushes, List.mem_cons, List.not_mem_nil, or_false] at hp
  rcases hp with rfl | rfl | rfl | rfl
  · exact absurd he (last_ne (by rw [Int.sub_add_cancel]; exact hin.2.2.2))
  · exact absurd he (last_ne (hlive _ hl).1.2.2.2)
  · exact absurd he (left_ne ht (hlive _ hl).2)
  · rfl

/-- The entry to the right is pushed last. -/
theorem right_head (hp : ((c.1 + 1, c.2), (1, h - 1)) ∈ (pushes h c τ).filter (live ·.1))
    (g : List ((Int × Int) × (Int × Int))) : ∃ rest,
      ((pushes h c τ).filter (live ·.1)).reverse ++ g = ((c.1 + 1, c.2), (1, h - 1)) :: rest := by
  have hl : live (c.1 + 1, c.2) = true := (List.mem_filter.1 hp).2
  have hsplit : pushes h c τ = [((c.1, c.2 - 1), (c.1, c.2 - 1)), ((c.1, c.2 + 1), c),
      ((c.1 - 1, c.2), τ)] ++ [((c.1 + 1, c.2), (1, h - 1))] := rfl
  rw [hsplit, List.filter_append, List.filter_singleton, hl, List.reverse_append]
  exact ⟨_, rfl⟩

/-- The stack after a cell has been marked and its live neighbours have been pushed. -/
theorem expand (ht : Tokens w h M ((c, τ) :: g)) (hc : ¬ M c)
    (hlive : ∀ x, live x = true → Inside w h x.1 x.2 ∧ ¬ M x) (hMN : ∀ x, M x ∨ x = c → N x) :
    Tokens w h N (((pushes h c τ).filter (live ·.1)).reverse ++ g) := by
  obtain ⟨hnodup, hne⟩ := fresh ht hc hlive
  have hin : Inside w h c.1 c.2 := ht.cells (c, τ) List.mem_cons_self
  have hdrop := ht.drop.mono fun x hx => hMN x (.inl hx)
  have hmem {p} : p ∈ ((pushes h c τ).filter (live ·.1)).reverse ++ g ↔
      p ∈ (pushes h c τ).filter (live ·.1) ∨ p ∈ g := by
    rw [List.mem_append, List.mem_reverse]
  have hpushed : ∀ p ∈ (pushes h c τ).filter (live ·.1), Inside w h p.1.1 p.1.2 ∧
      Inside w h p.2.1 p.2.2 ∧ (p.2.2 + 1 < h → N p.2 ∨ N (p.2.1, p.2.2 + 1)) := by
    intro p hp
    obtain ⟨hp, hl⟩ := List.mem_filter.1 hp
    have hpin := (hlive _ hl).1
    simp only [pushes, List.mem_cons, List.not_mem_nil, or_false] at hp
    rcases hp with rfl | rfl | rfl | rfl
    · refine ⟨hpin, hpin, fun _ => .inr (hMN _ (.inr ?_))⟩
      rw [Int.sub_add_cancel]
    · exact ⟨hpin, hin, fun _ => .inl (hMN _ (.inr rfl))⟩
    · exact ⟨hpin, ht.tokens (c, τ) List.mem_cons_self, fun hlt =>
        (ht.edge (c, τ) List.mem_cons_self hlt).imp (fun h => hMN _ (.inl h))
          fun h => hMN _ (.inl h)⟩
    · obtain ⟨hi, -, hj, hj'⟩ := hin
      have hi' := hpin.2.1
      dsimp only at hi' ⊢
      exact ⟨hpin, ⟨by omega, by omega, by omega, by omega⟩, fun hlt => by omega⟩
  have hall : ((((pushes h c τ).filter (live ·.1)).reverse ++ g).map Prod.snd).Nodup := by
    rw [List.map_append, List.map_reverse, List.nodup_append, List.nodup_reverse]
    refine ⟨hnodup, hdrop.nodup, ?_⟩
    intro s hs t ht'
    obtain ⟨p, hp, rfl⟩ := List.mem_map.1 (List.mem_reverse.1 hs)
    obtain ⟨q, hq, rfl⟩ := List.mem_map.1 ht'
    exact hne p hp q hq
  constructor
  · exact hall
  · exact fun p hp => (hmem.1 hp).elim (fun hp => (hpushed p hp).1) (hdrop.cells p)
  · exact fun p hp => (hmem.1 hp).elim (fun hp => (hpushed p hp).2.1) (hdrop.tokens p)
  · exact fun p hp => (hmem.1 hp).elim (fun hp => (hpushed p hp).2.2) (hdrop.edge p)
  · intro p hp he
    rcases hmem.1 (List.mem_of_mem_tail hp) with hpush | hp'
    · cases eq_right ht hlive hpush he
      obtain ⟨rest, hrest⟩ := right_head hpush g
      rw [hrest] at hall hp
      exact (List.nodup_cons.1 hall).1 (List.mem_map.2 ⟨_, hp, rfl⟩)
    · exact ht.tail p hp' he
  · intro p hp he
    rcases hmem.1 (List.mem_of_mem_head? hp) with hpush | hp'
    · cases eq_right ht hlive hpush he
      rw [Int.add_sub_cancel]
      exact hMN c (.inr rfl)
    · exact absurd he (ht.tail p hp')

end Expand

end Tokens

end Omission.Lib
