import Mathlib.Data.List.Chain
import Omission.Lib.Reach

namespace Omission.Lib
set_option autoImplicit true

section Tolerant

-- the neighbours, the cells, the hits among them and the length at which a run of misses ends
variable {α : Type u} (adj : α → α → Prop) (S : Set α) (H : α → Prop) (tol : Int)

/-- Neighbours in `S` one after the other, with fewer than `tol` misses in a row. -/
def Admissible (l : List α) : Prop :=
  (∀ c ∈ l, c ∈ S) ∧ l.IsChain adj ∧
    ∀ run, run <:+: l → (∀ c ∈ run, ¬ H c) → (run.length : Int) < tol

/-- An admissible path leads from `p` to `q`. -/
def Tolerates (p q : α) : Prop :=
  ∃ l, l.head? = some p ∧ l.getLast? = some q ∧ Admissible adj S H tol l

/-- A walk from `p` that counts the misses since the last hit. -/
inductive Walk (p : α) : α → Int → Prop where
  | start_hit (hp : p ∈ S) (hh : H p) : Walk p p 0
  | start_miss (hp : p ∈ S) (hh : ¬ H p) (hd : 0 + 1 < tol) : Walk p p (0 + 1)
  | hit (h : Walk p q d) (hadj : adj q r) (hr : r ∈ S) (hh : H r) : Walk p r 0
  | miss (h : Walk p q d) (hadj : adj q r) (hr : r ∈ S) (hh : ¬ H r) (hd : d + 1 < tol) :
      Walk p r (d + 1)

variable {adj S H tol} {p q r : α} {l : List α} {d : Int}

theorem Admissible.concat (h : Admissible adj S H tol l) (hlast : l.getLast? = some q)
    (hadj : adj q r) (hr : r ∈ S)
    (hrun : ∀ run, run <:+ l ++ [r] → (∀ c ∈ run, ¬ H c) → (run.length : Int) < tol) :
    Admissible adj S H tol (l ++ [r]) := by
  obtain ⟨hmem, hchain, hruns⟩ := h
  refine ⟨?_, ?_, ?_⟩
  · intro c hc
    rcases List.mem_append.1 hc with hc | hc
    · exact hmem c hc
    · rw [List.mem_singleton.1 hc]
      exact hr
  · apply hchain.append (List.isChain_singleton r)
    intro a ha b hb
    rw [hlast] at ha
    cases ha
    cases hb
    exact hadj
  · intro run hinfix hmiss
    rcases List.infix_concat_iff.1 hinfix with hsuffix | hinfix
    · exact hrun run hsuffix hmiss
    · exact hruns run hinfix hmiss

theorem Tolerates.mono {S' : Set α} {H' : α → Prop} (hS : ∀ c ∈ S, c ∈ S')
    (hH : ∀ c ∈ S, H c → H' c) (h : Tolerates adj S H tol p q) :
    Tolerates adj S' H' tol p q := by
  obtain ⟨l, hhead, hlast, hmem, hchain, hruns⟩ := h
  refine ⟨l, hhead, hlast, fun c hc => hS c (hmem c hc), hchain, ?_⟩
  intro run hrun hmiss
  exact hruns run hrun fun c hc hh => hmiss c hc (hH c (hmem c (hrun.subset hc)) hh)

/-- The misses at the end of a path are at most `d`. -/
def Trailing (H : α → Prop) (l : List α) (d : Int) : Prop :=
  ∀ run, run <:+ l → (∀ c ∈ run, ¬ H c) → (run.length : Int) ≤ d

theorem Trailing.hit (hh : H r) : Trailing H (l ++ [r]) 0 := by
  intro run hrun hmiss
  rcases List.suffix_concat_iff.1 hrun with rfl | ⟨t, rfl, -⟩
  · exact Int.le_refl 0
  · exact absurd hh (hmiss r (List.mem_append_right t List.mem_cons_self))

theorem Trailing.miss (h : Trailing H l d) (hd : 0 ≤ d) : Trailing H (l ++ [r]) (d + 1) := by
  intro run hrun hmiss
  rcases List.suffix_concat_iff.1 hrun with rfl | ⟨t, rfl, ht⟩
  · change (0 : Int) ≤ d + 1
    omega
  · have hlen := h t ht fun c hc => hmiss c (List.mem_append_left _ hc)
    rw [List.length_append, List.length_singleton]
    omega

theorem Trailing.nil (H : α → Prop) : Trailing H [] 0 := by
  intro run hrun _
  rw [List.suffix_nil.1 hrun]
  exact Int.le_refl 0

theorem Admissible.singleton (hp : p ∈ S) (hd : d < tol) (h : Trailing H [p] d) :
    Admissible adj S H tol [p] := by
  refine ⟨?_, List.isChain_singleton p, ?_⟩
  · intro c hc
    rw [List.mem_singleton.1 hc]
    exact hp
  · intro run hrun hmiss
    rcases List.infix_concat_iff.1 (show run <:+: [] ++ [p] from hrun) with hsuffix | hnil
    · exact Int.lt_of_le_of_lt (h run hsuffix hmiss) hd
    · rw [List.infix_nil.1 hnil]
      have hzero := h [] (List.nil_suffix) (List.forall_mem_nil _)
      exact Int.lt_of_le_of_lt hzero hd

/-- A walk spells an admissible path, and the misses at the end of the path are those it counts. -/
theorem Walk.path (htol : 0 < tol) (h : Walk adj S H tol p q d) : 0 ≤ d ∧ d < tol ∧
    ∃ l, l.head? = some p ∧ l.getLast? = some q ∧ Admissible adj S H tol l ∧
      Trailing H l d := by
  have hconcat {q r : α} {e : Int} {l : List α} (hhead : l.head? = some p)
      (hlast : l.getLast? = some q) (hl : Admissible adj S H tol l) (hadj : adj q r)
      (hr : r ∈ S) (he : e < tol) (htrail : Trailing H (l ++ [r]) e) :
      ∃ l, l.head? = some p ∧ l.getLast? = some r ∧ Admissible adj S H tol l ∧
        Trailing H l e := by
    refine ⟨l ++ [r], ?_, List.getLast?_concat, ?_, htrail⟩
    · rw [List.head?_append, hhead, Option.some_or]
    · exact hl.concat hlast hadj hr fun run hrun hmiss =>
        Int.lt_of_le_of_lt (htrail run hrun hmiss) he
  induction h with
  | start_hit hp hh =>
    have htrail : Trailing H [p] 0 := List.nil_append [p] ▸ Trailing.hit hh
    exact ⟨Int.le_refl 0, htol, [p], rfl, rfl, .singleton hp htol htrail, htrail⟩
  | start_miss hp hh hd =>
    have htrail : Trailing H [p] (0 + 1) := (Trailing.nil H).miss (Int.le_refl 0)
    exact ⟨by decide, hd, [p], rfl, rfl, .singleton hp hd htrail, htrail⟩
  | hit h hadj hr hh ih =>
    obtain ⟨-, -, l, hhead, hlast, hl, -⟩ := ih
    exact ⟨Int.le_refl 0, htol, hconcat hhead hlast hl hadj hr htol (.hit hh)⟩
  | miss h hadj hr hh hd ih =>
    obtain ⟨hd0, -, l, hhead, hlast, hl, htrail⟩ := ih
    exact ⟨by omega, hd, hconcat hhead hlast hl hadj hr hd (htrail.miss hd0)⟩

theorem Walk.tolerates (htol : 0 < tol) (h : Walk adj S H tol p q d) :
    Tolerates adj S H tol p q := by
  obtain ⟨-, -, l, hhead, hlast, hl, -⟩ := h.path htol
  exact ⟨l, hhead, hlast, hl⟩

theorem Conn.of_chain {T : Set α} (hchain : l.IsChain adj) (hT : ∀ c ∈ l, c ∈ T)
    (hhead : l.head? = some p) (hlast : l.getLast? = some q) : Conn adj T p q := by
  induction l generalizing p with
  | nil => cases hhead
  | cons a l ih =>
    cases hhead
    have ha : a ∈ T := hT a List.mem_cons_self
    cases l with
    | nil =>
      cases hlast
      exact .refl ha
    | cons b l =>
      obtain ⟨hab, hchain⟩ := List.isChain_cons_cons.1 hchain
      rw [List.getLast?_cons_cons] at hlast
      have hT' : ∀ c ∈ b :: l, c ∈ T := fun c hc => hT c (List.mem_cons_of_mem a hc)
      exact ((Conn.refl ha).tail hab (hT' b List.mem_cons_self)).trans (ih hchain hT' rfl hlast)

/-- For a tolerance of one a path has hits only. -/
theorem Tolerates.conn (htol : tol = 1) (h : Tolerates adj S H tol p q) :
    Conn adj {c | c ∈ S ∧ H c} p q := by
  obtain ⟨l, hhead, hlast, hmem, hchain, hruns⟩ := h
  refine Conn.of_chain hchain (fun c hc => ⟨hmem c hc, ?_⟩) hhead hlast
  by_contra hmiss
  obtain ⟨u, v, rfl⟩ := List.append_of_mem hc
  have hlen := hruns [c] ⟨u, v, by rw [List.append_assoc, List.singleton_append]⟩
    (List.forall_mem_singleton.2 hmiss)
  rw [htol] at hlen
  exact absurd hlen (Int.lt_irrefl 1)

theorem Walk.start_mem (h : Walk adj S H tol p q d) : p ∈ S := by
  induction h with
  | start_hit hp => exact hp
  | start_miss hp => exact hp
  | hit _ _ _ _ ih => exact ih
  | miss _ _ _ _ _ ih => exact ih

/-- The hits that a walk from `p` starts at: `p` itself or, if it misses, its neighbours. -/
def Root (adj : α → α → Prop) (T : Set α) (H : α → Prop) (p a : α) : Prop :=
  a ∈ T ∧ (a = p ∧ H p ∨ ¬ H p ∧ adj p a)

section Unbridged

variable {T : Set α} (hsymm : ∀ a b, adj a b → adj b a) (htol : tol = 2)
  (hT : ∀ c ∈ S, H c → c ∈ T)
  (hbridge : ∀ m ∈ S, ¬ H m → ∀ a ∈ T, ∀ b ∈ T, adj m a → adj m b → Conn adj T a b)
include hsymm htol hT hbridge

/-- A hit of the walk is connected to a root, and so is a neighbour of a miss. -/
theorem Walk.rooted (h : Walk adj S H tol p q d) : 0 ≤ d ∧
    (H q → ∃ a, Root adj T H p a ∧ Conn adj T a q) ∧
    (¬ H q → q ∈ S ∧ 1 ≤ d ∧ (q = p ∨ ∃ a b, Root adj T H p a ∧ Conn adj T a b ∧ adj q b)) := by
  induction h with
  | start_hit hp hh =>
    refine ⟨Int.le_refl 0, fun _ => ?_, fun hn => absurd hh hn⟩
    exact ⟨p, ⟨hT p hp hh, .inl ⟨rfl, hh⟩⟩, .refl (hT p hp hh)⟩
  | start_miss hp hh _ =>
    exact ⟨by decide, fun hn => absurd hn hh, fun _ => ⟨hp, by decide, .inl rfl⟩⟩
  | @hit q d r h hadj hr hh ih =>
    refine ⟨Int.le_refl 0, fun _ => ?_, fun hn => absurd hh hn⟩
    by_cases hq : H q
    · obtain ⟨a, ha, hconn⟩ := ih.2.1 hq
      exact ⟨a, ha, hconn.tail hadj (hT r hr hh)⟩
    · obtain ⟨hqS, -, rfl | ⟨a, b, ha, hconn, hqb⟩⟩ := ih.2.2 hq
      · exact ⟨r, ⟨hT r hr hh, .inr ⟨hq, hadj⟩⟩, .refl (hT r hr hh)⟩
      · exact ⟨a, ha, hconn.trans (hbridge q hqS hq b hconn.right r (hT r hr hh) hqb hadj)⟩
  | @miss q d r h hadj hr hh hd ih =>
    refine ⟨by omega, fun hn => absurd hn hh, fun _ => ⟨hr, by omega, .inr ?_⟩⟩
    by_cases hq : H q
    · obtain ⟨a, ha, hconn⟩ := ih.2.1 hq
      exact ⟨a, q, ha, hconn, hsymm q r hadj⟩
    · -- two misses in a row end the walk
      have hone := (ih.2.2 hq).2.1
      omega

/-- A walk that may miss once between two hits stays in one component of `T` if no miss has
neighbours in two of them. -/
theorem Walk.conn_of_unbridged (h : Walk adj S H tol p q d) (h' : Walk adj S H tol p r e)
    (hq : H q) (hr : H r) : Conn adj T q r := by
  obtain ⟨a, ⟨haT, ha⟩, haq⟩ := (h.rooted hsymm htol hT hbridge).2.1 hq
  obtain ⟨b, ⟨hbT, hb⟩, hbr⟩ := (h'.rooted hsymm htol hT hbridge).2.1 hr
  have hab : Conn adj T a b := by
    rcases ha with ⟨rfl, hp⟩ | ⟨hp, ha⟩
    · rcases hb with ⟨rfl, -⟩ | ⟨hn, -⟩
      · exact .refl haT
      · exact absurd hp hn
    · rcases hb with ⟨-, hn⟩ | ⟨-, hb⟩
      · exact absurd hn hp
      · exact hbridge p h.start_mem hp a haT b hbT ha hb
  exact (haq.symm hsymm).trans (hab.trans hbr)

end Unbridged

end Tolerant

end Omission.Lib
