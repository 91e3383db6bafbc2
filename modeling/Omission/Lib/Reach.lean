import Mathlib.Logic.Relation
import Mathlib.Data.Finset.Card

namespace Omission.Lib

variable {α : Type*} {adj : α → α → Prop} {S T : Set α} {C D : Finset α} {p q r : α}

/-- `q` is reached from `p` along neighbours that all lie in `S`. -/
def Conn (adj : α → α → Prop) (S : Set α) (p q : α) : Prop :=
  p ∈ S ∧ Relation.ReflTransGen (fun a b => adj a b ∧ b ∈ S) p q

theorem Conn.refl (hp : p ∈ S) : Conn adj S p p := ⟨hp, .refl⟩

theorem Conn.left (h : Conn adj S p q) : p ∈ S := h.1

theorem Conn.right (h : Conn adj S p q) : q ∈ S := by
  obtain ⟨hp, hpq⟩ := h
  cases hpq with
  | refl => exact hp
  | tail _ hlast => exact hlast.2

theorem Conn.tail (h : Conn adj S p q) (hqr : adj q r) (hr : r ∈ S) : Conn adj S p r :=
  ⟨h.1, h.2.tail ⟨hqr, hr⟩⟩

theorem Conn.trans (h : Conn adj S p q) (h' : Conn adj S q r) : Conn adj S p r :=
  ⟨h.1, h.2.trans h'.2⟩

theorem Conn.symm (hadj : ∀ a b, adj a b → adj b a) (h : Conn adj S p q) : Conn adj S q p := by
  obtain ⟨hp, hpq⟩ := h
  induction hpq with
  | refl => exact .refl hp
  | tail hpa hab ih =>
    have ha : _ ∈ S := Conn.right ⟨hp, hpa⟩
    exact (Conn.refl hab.2).tail (hadj _ _ hab.1) ha |>.trans ih

theorem Conn.mono (hST : S ⊆ T) (h : Conn adj S p q) : Conn adj T p q := by
  have hle : (fun a b => adj a b ∧ b ∈ S) ≤ fun a b => adj a b ∧ b ∈ T := by
    intro a b hab
    exact ⟨hab.1, hST hab.2⟩
  exact ⟨hST h.1, Relation.ReflTransGen.mono hle p q h.2⟩

theorem Conn.mem_of_closed {R : Set α} (h : Conn adj S p q) (hp : p ∈ R)
    (hclosed : ∀ a ∈ R, ∀ b, adj a b → b ∈ S → b ∈ R) : q ∈ R := by
  obtain ⟨-, hpq⟩ := h
  induction hpq with
  | refl => exact hp
  | tail _ hab ih => exact hclosed _ ih _ hab.1 hab.2

theorem Conn.of_superset (hp : p ∈ S)
    (hclosed : ∀ a, Conn adj S p a → ∀ b, adj a b → b ∈ T → b ∈ S) (h : Conn adj T p q) :
    Conn adj S p q := by
  refine h.mem_of_closed (R := {a | Conn adj S p a}) (.refl hp) ?_
  intro a ha b hab hb
  exact Conn.tail ha hab (hclosed a ha b hab hb)

/-- `C` lists the component of `p` in `S`. -/
def IsComp (adj : α → α → Prop) (S : Set α) (p : α) (C : Finset α) : Prop :=
  ∀ q, q ∈ C ↔ Conn adj S p q

theorem IsComp.unique (h : IsComp adj S p C) (h' : IsComp adj S p D) : C = D := by
  ext q
  exact (h q).trans (h' q).symm

theorem IsComp.move (hadj : ∀ a b, adj a b → adj b a) (h : IsComp adj S p C) (hq : q ∈ C) :
    IsComp adj S q C := by
  have hpq := (h q).1 hq
  intro r
  rw [h r]
  exact ⟨fun hr => (hpq.symm hadj).trans hr, fun hr => hpq.trans hr⟩

/-- A closed list of members reached from `p` is the component of `p`. -/
theorem isComp_of_closed (hp : p ∈ C) (hsound : ∀ q ∈ C, Conn adj S p q)
    (hclosed : ∀ a ∈ C, ∀ b, adj a b → b ∈ S → b ∈ C) : IsComp adj S p C := by
  intro q
  exact ⟨hsound q, fun h => h.mem_of_closed (R := C) hp hclosed⟩

theorem IsComp.card_le (hST : S ⊆ T) (h : IsComp adj S p C) (h' : IsComp adj T p D) :
    C.card ≤ D.card := by
  apply Finset.card_le_card
  intro q hq
  exact (h' q).2 (((h q).1 hq).mono hST)

/-- A component that no neighbour in the larger set leaves is a component of that set. -/
theorem IsComp.of_subset (hST : S ⊆ T) (hp : p ∈ S) (h : IsComp adj S p C)
    (hclosed : ∀ a ∈ C, ∀ b, adj a b → b ∈ T → b ∈ S) : IsComp adj T p C := by
  intro q
  rw [h q]
  exact ⟨Conn.mono hST, Conn.of_superset hp fun a ha => hclosed a ((h a).2 ha)⟩

/-- A component of a set is one of each smaller set that it lies in. -/
theorem IsComp.restrict (hST : S ⊆ T) (hp : p ∈ T) (h : IsComp adj T p C) (hC : ↑C ⊆ S) :
    IsComp adj S p C := by
  have hpS : p ∈ S := hC ((h p).2 (.refl hp))
  intro q
  rw [h q]
  refine ⟨Conn.of_superset hpS fun a ha b hab hb => ?_, Conn.mono hST⟩
  exact hC ((h b).2 ((ha.mono hST).tail hab hb))

/-- A component of a set that lies in a finite one can be listed. -/
theorem exists_isComp (hS : ∀ c ∈ S, c ∈ D) (adj : α → α → Prop) (p : α) :
    ∃ C, IsComp adj S p C := by
  classical
  refine ⟨D.filter (Conn adj S p), fun q => ?_⟩
  rw [Finset.mem_filter]
  exact and_iff_right_of_imp fun hq => hS q hq.right

section Map

variable {β : Type*} {adj' : β → β → Prop} {R : Set β}

theorem Conn.map {f : α → β} (hadj : ∀ a b, adj a b → adj' (f a) (f b))
    (hS : ∀ a ∈ S, f a ∈ R) (h : Conn adj S p q) : Conn adj' R (f p) (f q) := by
  refine ⟨hS p h.1, h.2.lift f ?_⟩
  intro a b hab
  exact ⟨hadj a b hab.1, hS b hab.2⟩

theorem IsComp.map (e : α ≃ β) (hadj : ∀ a b, adj a b ↔ adj' (e a) (e b))
    (hS : ∀ a, a ∈ S ↔ e a ∈ R) (h : IsComp adj S p C) :
    IsComp adj' R (e p) (C.map e.toEmbedding) := by
  intro q
  obtain ⟨a, rfl⟩ := e.surjective q
  have hmem : e a ∈ C.map e.toEmbedding ↔ a ∈ C := Finset.mem_map' e.toEmbedding
  rw [hmem, h a]
  constructor
  · exact Conn.map (fun a b => (hadj a b).1) fun a => (hS a).1
  · intro hq
    have hadj' : ∀ b c, adj' b c → adj (e.symm b) (e.symm c) := by
      intro b c hbc
      rwa [hadj, e.apply_symm_apply, e.apply_symm_apply]
    have hback := hq.map hadj' fun b hb => (hS (e.symm b)).2 (by rwa [e.apply_symm_apply])
    rwa [e.symm_apply_apply, e.symm_apply_apply] at hback

end Map

end Omission.Lib
