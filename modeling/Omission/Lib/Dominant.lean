import Omission.Lib.Fill

namespace Omission.Lib
set_option autoImplicit true

variable {α : Type u} {β : Type v} {adj before : α → α → Prop} {S S' : Set α} {s t p : α}
  {C D K : Finset α}

theorem FirstLargest.map {adj' before' : β → β → Prop} {R : Set β} (e : α ≃ β)
    (hadj : ∀ a b, adj a b ↔ adj' (e a) (e b)) (hbefore : ∀ a b, before a b ↔ before' (e a) (e b))
    (hS : ∀ a, a ∈ S ↔ e a ∈ R) (h : FirstLargest adj before S s C) :
    FirstLargest adj' before' R (e s) (C.map e.toEmbedding) := by
  refine ⟨(hS s).1 h.mem, h.comp.map e hadj hS, ?_, ?_⟩
  · intro c hc
    obtain ⟨a, ha, rfl⟩ := Finset.mem_map.1 hc
    exact (h.first a ha).imp (congrArg e) (hbefore s a).1
  · intro p hp D hD
    obtain ⟨q, rfl⟩ := e.surjective p
    have hadj' : ∀ a b, adj' a b ↔ adj (e.symm a) (e.symm b) := by
      intro a b
      rw [hadj, e.apply_symm_apply, e.apply_symm_apply]
    have hR : ∀ a, a ∈ R ↔ e.symm a ∈ S := by
      intro a
      rw [hS, e.apply_symm_apply]
    have hback := hD.map e.symm hadj' hR
    rw [e.symm_apply_apply] at hback
    have hle := h.largest q ((hS q).2 hp) _ hback
    rw [Finset.card_map] at hle ⊢
    exact hle.imp_right fun hlt hlater => hlt ((hbefore q s).2 hlater)

/-- A component of two sets together that lies in both, and every one that does not is smaller. -/
structure Dominant (adj : α → α → Prop) (S S' : Set α) (K : Finset α) : Prop where
  comp : ∃ s ∈ S ∪ S', IsComp adj (S ∪ S') s K
  inside : ↑K ⊆ S ∩ S'
  larger : ∀ t ∈ S ∪ S', ∀ D, IsComp adj (S ∪ S') t D → ¬ (↑D ⊆ S ∩ S') → D.card < K.card

theorem Dominant.symm (h : Dominant adj S S' K) : Dominant adj S' S K := by
  obtain ⟨hcomp, hinside, hlarger⟩ := h
  rw [Set.union_comm] at hcomp hlarger
  rw [Set.inter_comm] at hinside hlarger
  exact ⟨hcomp, hinside, hlarger⟩

/-- A component of one of the sets that is not smaller is one of the other. -/
theorem Dominant.shared (h : Dominant adj S S' K) {B : Finset α} (hB : ∀ c ∈ S ∪ S', c ∈ B)
    (hp : p ∈ S) (hC : IsComp adj S p C) (hle : K.card ≤ C.card) : p ∈ S' ∧ IsComp adj S' p C := by
  have hpU : p ∈ S ∪ S' := .inl hp
  obtain ⟨E, hE⟩ := exists_isComp hB adj p
  have hCE := hC.card_le Set.subset_union_left hE
  have hinside : ↑E ⊆ S ∩ S' := by
    by_contra hout
    have hlt := h.larger p hpU E hE hout
    omega
  have hES := hE.restrict Set.subset_union_left hpU (hinside.trans Set.inter_subset_left)
  rw [hC.unique hES]
  exact ⟨(hinside ((hE p).2 (.refl hpU))).2,
    hE.restrict Set.subset_union_right hpU (hinside.trans Set.inter_subset_right)⟩

theorem Dominant.card_le (h : Dominant adj S S' K) (hC : FirstLargest adj before S s C) :
    K.card ≤ C.card := by
  obtain ⟨t, ht, hK⟩ := h.comp
  have hsub := h.inside.trans Set.inter_subset_left
  exact (hC.largest t (hsub ((hK t).2 (.refl ht))) K
    (hK.restrict Set.subset_union_left ht hsub)).1

/-- Next to a dominant component both sets have the same first largest one. -/
theorem Dominant.unique (h : Dominant adj S S' K) {B : Finset α} (hB : ∀ c ∈ S ∪ S', c ∈ B)
    (htotal : ∀ p q, before p q ∨ p = q ∨ before q p) (hC : FirstLargest adj before S s C)
    (hD : FirstLargest adj before S' t D) : C = D := by
  obtain ⟨hs, hCS'⟩ := h.shared hB hC.mem hC.comp (h.card_le hC)
  obtain ⟨ht, hDS⟩ := h.symm.shared (fun c hc => hB c hc.symm) hD.mem hD.comp (h.symm.card_le hD)
  have hle := (hC.largest t ht D hDS).1
  have hge := (hD.largest s hs C hCS').1
  rcases htotal s t with hst | rfl | hts
  · have hlt := (hD.largest s hs C hCS').2 hst
    omega
  · exact hC.comp.unique hDS
  · have hlt := (hC.largest t ht D hDS).2 hts
    omega

end Omission.Lib
