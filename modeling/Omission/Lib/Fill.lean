import Mathlib.Data.Finset.Dedup
import Omission.Lib.Reach

namespace Omission.Lib
set_option autoImplicit true

section Loop

variable {σ : Type*} (stack : σ → List α) (round : σ → Option σ)

/-- `while (!stack.empty())`, for at most the given number of rounds. -/
def loop : Nat → σ → Option σ
  | 0, _ => none
  | n + 1, s =>
    match stack s with
    | [] => some s
    | _ :: _ => (round s).bind (loop n)

/-- The members that the loop pops, the last one first. -/
def pops : Nat → σ → List α → List α
  | 0, _, l => l
  | n + 1, s, l =>
    match stack s with
    | [] => l
    | e :: _ => (round s).elim (e :: l) fun s' => pops n s' (e :: l)

/-- The members that the loop pushes, the last one first. -/
def pushes : Nat → σ → List α → List α
  | 0, _, l => l
  | n + 1, s, l =>
    match stack s with
    | [] => l
    | _ :: rest => (round s).elim l fun s' =>
        pushes n s' ((stack s').take ((stack s').length - rest.length) ++ l)

end Loop

/-- A fill of a component: what it has pushed, popped and met as a neighbour so far. -/
structure Fill (α : Type u) where
  stack : List α
  pushed : List α
  popped : List α
  met : List α

namespace Fill

def start (s : α) : Fill α := ⟨[s], [s], [], []⟩

def pop (F : Fill α) (e : α) (rest : List α) : Fill α :=
  { F with stack := rest, popped := e :: F.popped }

def pass (F : Fill α) (b : α) : Fill α := { F with met := b :: F.met }

def push (F : Fill α) (b : α) : Fill α :=
  { F with stack := b :: F.stack, pushed := b :: F.pushed, met := b :: F.met }

/-- A fill of the component of `s` in `S`; the neighbours `todo` are still to be met. -/
structure Inv (adj : α → α → Prop) (S : Set α) (s : α) (todo : List α) (F : Fill α) : Prop where
  perm : F.pushed.Perm (F.popped ++ F.stack)
  nodup : F.pushed.Nodup
  start : s ∈ F.pushed
  sound : ∀ c ∈ F.pushed, Conn adj S s c
  met : ∀ b, b ∈ F.met ∨ b ∈ todo ↔ ∃ a ∈ F.popped, adj a b
  closed : ∀ b ∈ F.met, b ∈ S → b ∈ F.pushed

variable {adj : α → α → Prop} {S : Set α} {s : α} {F : Fill α}

theorem inv_start (hs : s ∈ S) : (start s).Inv adj S s [] := by
  refine ⟨.refl _, List.nodup_singleton s, List.mem_singleton_self s, ?_, ?_, ?_⟩
  · intro c hc
    cases List.mem_singleton.1 hc
    exact .refl hs
  · intro b
    constructor
    · rintro (hb | hb) <;> cases hb
    · rintro ⟨a, ha, -⟩
      cases ha
  · intro b hb
    cases hb

theorem Inv.pop {rest : List α} (h : F.Inv adj S s []) (hF : F.stack = e :: rest)
    (htodo : ∀ b, b ∈ todo ↔ adj e b) : (F.pop e rest).Inv adj S s todo := by
  refine ⟨?_, h.nodup, h.start, h.sound, ?_, h.closed⟩
  · have hperm := h.perm
    rw [hF] at hperm
    exact hperm.trans List.perm_middle
  · intro b
    have hmet := h.met b
    rw [or_iff_left List.not_mem_nil] at hmet
    rw [Fill.pop, List.exists_mem_cons_iff, hmet, htodo, or_comm]

theorem Inv.pass (h : F.Inv adj S s (b :: ds)) (hb : b ∈ S → b ∈ F.pushed) :
    (F.pass b).Inv adj S s ds := by
  refine ⟨h.perm, h.nodup, h.start, h.sound, ?_, ?_⟩
  · intro c
    have hmet := h.met c
    rw [List.mem_cons] at hmet
    simp only [Fill.pass, List.mem_cons, ← hmet]
    tauto
  · intro c hc
    rcases List.mem_cons.1 hc with rfl | hc
    · exact hb
    · exact h.closed c hc

theorem Inv.push (h : F.Inv adj S s (b :: ds)) (hb : b ∈ S) (hn : b ∉ F.pushed) :
    (F.push b).Inv adj S s ds := by
  refine ⟨?_, List.nodup_cons.2 ⟨hn, h.nodup⟩, List.mem_cons_of_mem b h.start, ?_, ?_, ?_⟩
  · exact (h.perm.cons b).trans List.perm_middle.symm
  · intro c hc
    rcases List.mem_cons.1 hc with rfl | hc
    · obtain ⟨a, ha, hab⟩ := (h.met c).1 (.inr List.mem_cons_self)
      have ha' : a ∈ F.pushed := h.perm.mem_iff.2 (List.mem_append_left _ ha)
      exact (h.sound a ha').tail hab hb
    · exact h.sound c hc
  · intro c
    have hmet := h.met c
    rw [List.mem_cons] at hmet
    simp only [Fill.push, List.mem_cons, ← hmet]
    tauto
  · intro c hc hS
    rcases List.mem_cons.1 hc with rfl | hc
    · exact List.mem_cons_self
    · exact List.mem_cons_of_mem b (h.closed c hc hS)

theorem Inv.popped_lt {N : Nat} (h : F.Inv adj S s [])
    (hN : ∀ l : List α, l.Nodup → (∀ c ∈ l, c ∈ S) → l.length ≤ N) :
    F.popped.length + F.stack.length ≤ N := by
  have hlen := hN F.pushed h.nodup fun c hc => (h.sound c hc).right
  rwa [h.perm.length_eq, List.length_append] at hlen

theorem Inv.popped_perm (h : F.Inv adj S s []) (hF : F.stack = []) : F.popped.Perm F.pushed := by
  have hperm := h.perm
  rw [hF, List.append_nil] at hperm
  exact hperm.symm

/-- When the stack is empty, the members popped are the component. -/
theorem Inv.isComp [DecidableEq α] (h : F.Inv adj S s []) (hF : F.stack = []) :
    IsComp adj S s F.popped.toFinset := by
  have hmem : ∀ c, c ∈ F.popped.toFinset ↔ c ∈ F.pushed := by
    intro c
    rw [List.mem_toFinset, (h.popped_perm hF).mem_iff]
  apply isComp_of_closed ((hmem s).2 h.start)
  · intro c hc
    exact h.sound c ((hmem c).1 hc)
  · intro a ha b hab hb
    have hmet : b ∈ F.met := by
      rcases (h.met b).2 ⟨a, List.mem_toFinset.1 ha, hab⟩ with hmet | hmet
      · exact hmet
      · cases hmet
    exact (hmem b).2 (h.closed b hmet hb)

/-- Neighbours are met, and `new` is pushed. -/
structure Looked (F F' : Fill α) (new : List α) : Prop where
  popped : F'.popped = F.popped
  pushed : F'.pushed = new ++ F.pushed
  stack : F'.stack = new ++ F.stack

theorem Looked.pass (F : Fill α) (b : α) : F.Looked (F.pass b) [] := ⟨rfl, rfl, rfl⟩

theorem Looked.push (F : Fill α) (b : α) : F.Looked (F.push b) [b] := ⟨rfl, rfl, rfl⟩

theorem Looked.trans {F F' F'' : Fill α} (h : F.Looked F' new) (h' : F'.Looked F'' new') :
    F.Looked F'' (new' ++ new) := by
  refine ⟨h'.popped.trans h.popped, ?_, ?_⟩
  · rw [h'.pushed, h.pushed, List.append_assoc]
  · rw [h'.stack, h.stack, List.append_assoc]

theorem looks {look : σ → δ → Option σ} {nbr : δ → α} {R : List α → Fill α → σ → Prop}
    (hlook : ∀ todo F st d, R (nbr d :: todo) F st →
      ∃ st' F' new, look st d = some st' ∧ R todo F' st' ∧ F.Looked F' new)
    {ds : List δ} {st : σ} (h : R (ds.map nbr) F st) :
    ∃ st' F' new, ds.foldlM look st = some st' ∧ R [] F' st' ∧ F.Looked F' new := by
  induction ds generalizing st F with
  | nil => exact ⟨st, F, [], rfl, h, rfl, rfl, rfl⟩
  | cons d ds ih =>
    obtain ⟨st1, F1, new1, h1, hR1, hl1⟩ := hlook _ F st d h
    obtain ⟨st2, F2, new2, h2, hR2, hl2⟩ := ih hR1
    exact ⟨st2, F2, new2 ++ new1, by rw [List.foldlM_cons, h1]; exact h2, hR2, hl1.trans hl2⟩

end Fill

/-- A loop whose rounds follow a fill ends with the fill complete. -/
theorem loop_spec {stack : σ → List α} {round : σ → Option σ} {R : Fill α → σ → Prop} {N : Nat}
    (hinv : ∀ F s, R F s → F.Inv adj S c [] ∧ stack s = F.stack)
    (hN : ∀ l : List α, l.Nodup → (∀ c ∈ l, c ∈ S) → l.length ≤ N)
    (hround : ∀ F s e rest, R F s → F.stack = e :: rest →
      ∃ s' F' new, round s = some s' ∧ R F' s' ∧ (F.pop e rest).Looked F' new)
    {n : Nat} {s : σ} {F : Fill α} (h : R F s) (hn : N < F.popped.length + n) :
    ∃ s' F', loop stack round n s = some s' ∧ R F' s' ∧ F'.stack = [] ∧
      F'.popped = pops stack round n s F.popped ∧
      F'.pushed = pushes stack round n s F.pushed := by
  induction n generalizing s F with
  | zero =>
    have hlt := (hinv F s h).1.popped_lt hN
    omega
  | succ n ih =>
    obtain ⟨hI, hstack⟩ := hinv F s h
    cases hF : F.stack with
    | nil =>
      rw [hF] at hstack
      exact ⟨s, F, by simp [loop, hstack], h, hF, by simp [pops, hstack], by simp [pushes, hstack]⟩
    | cons e rest =>
      obtain ⟨s1, F1, new, hs1, h1, hr⟩ := hround F s e rest h hF
      have hstack1 := (hinv F1 s1 h1).2
      rw [hr.stack, Fill.pop] at hstack1
      rw [hF] at hstack
      obtain ⟨s2, F2, hs2, h2, hend, hpop, hpush⟩ := ih h1 (by
        rw [hr.popped, Fill.pop, List.length_cons]
        omega)
      refine ⟨s2, F2, ?_, h2, hend, ?_, ?_⟩
      · simp only [loop, hstack, hs1, Option.bind_some, hs2]
      · simp only [pops, hstack, hs1, Option.elim_some, hpop, hr.popped, Fill.pop]
      · have htake : (new ++ rest).take ((new ++ rest).length - rest.length) = new := by
          rw [List.length_append, Nat.add_sub_cancel, List.take_left]
        simp only [pushes, hstack, hs1, Option.elim_some, hpush, hr.pushed, hstack1,
          htake, Fill.pop]

section Search

variable {τ : Type*} (look : τ → α → Option τ) (fill : τ → α → Option (List α × List α))

/-- What the fills of a search push and pop, in the order of the search. -/
def fills : List α → τ → List (List α × List α)
  | [], _ => []
  | c :: cs, t => (fill t c).toList ++ (look t c).elim [] (fills cs)

/-- The larger of two findings, the earlier one if they are equally large. -/
def better (best : Option (α × List α)) (s : α) (l : List α) : Option (α × List α) :=
  if l.length > best.elim 0 (·.2.length) then some (s, l) else best

variable [DecidableEq α] {adj before : α → α → Prop} {S S' : Set α} {seen : List α}
  {found : List (α × List α)} {best : Option (α × List α)}

/-- A search of `S` has seen the members `seen`: the components `found` have been taken out, each
from its first member on, `S'` is left, and `best` is the first of the largest. -/
structure Searched (adj before : α → α → Prop) (S : Set α) (seen : List α) (S' : Set α)
    (found : List (α × List α)) (best : Option (α × List α)) : Prop where
  passed : ∀ c ∈ seen, c ∉ S'
  starts : ∀ x ∈ found, x.1 ∈ seen
  mem : ∀ c, c ∈ S' ↔ c ∈ S ∧ ∀ x ∈ found, c ∉ x.2
  comp : ∀ x ∈ found, x.1 ∈ S ∧ IsComp adj S x.1 x.2.toFinset
  nodup : (found.map (·.2)).flatten.Nodup
  first : ∀ x ∈ found, ∀ c ∈ x.2, c = x.1 ∨ before x.1 c
  unset : best = none → found = []
  largest : ∀ x, best = some x → x ∈ found ∧
    ∀ y ∈ found, y.2.length ≤ x.2.length ∧ (before y.1 x.1 → y.2.length < x.2.length)

theorem Searched.refl : Searched adj before S [] S [] none := by
  refine ⟨?_, ?_, ?_, ?_, List.nodup_nil, ?_, fun _ => rfl, ?_⟩
  · intro c hc
    cases hc
  · intro x hx
    cases hx
  · intro c
    exact ⟨fun hc => ⟨hc, fun x hx => absurd hx List.not_mem_nil⟩, fun hc => hc.1⟩
  · intro x hx
    cases hx
  · intro x hx
    cases hx
  · intro x hx
    cases hx

theorem Searched.isComp (h : Searched adj before S seen S' found best)
    (hadj : ∀ a b, adj a b → adj b a) (hc : c ∈ S') (hC : IsComp adj S' c C) :
    IsComp adj S c C := by
  have hsub : S' ⊆ S := fun q hq => ((h.mem q).1 hq).1
  apply hC.of_subset hsub hc
  intro a ha b hab hb
  have haS' : a ∈ S' := ((hC a).1 ha).right
  refine (h.mem b).2 ⟨hb, ?_⟩
  intro x hx hbx
  have hx' := (h.comp x hx).2
  have hax : a ∈ x.2.toFinset :=
    (hx' a).2 (((hx' b).1 (List.mem_toFinset.2 hbx)).tail (hadj a b hab) (hsub haS'))
  exact ((h.mem a).1 haS').2 x hx (List.mem_toFinset.1 hax)

omit [DecidableEq α] in
theorem better_cases (best : Option (α × List α)) (s : α) (l : List α) :
    (better best s l = some (s, l) ∧ ∀ x, best = some x → x.2.length < l.length) ∨
      (better best s l = best ∧ l.length ≤ best.elim 0 (·.2.length)) := by
  unfold better
  split
  · next hgt =>
    refine .inl ⟨rfl, ?_⟩
    rintro x rfl
    exact hgt
  · next hgt => exact .inr ⟨rfl, Nat.not_lt.1 hgt⟩

theorem Searched.skip (h : Searched adj before S seen S' found best) (hc : c ∉ S') :
    Searched adj before S (seen ++ [c]) S' found best := by
  refine { h with passed := ?_, starts := ?_ }
  · rw [List.forall_mem_append, List.forall_mem_singleton]
    exact ⟨h.passed, hc⟩
  · intro x hx
    exact List.mem_append_left _ (h.starts x hx)

theorem Searched.take (h : Searched adj before S seen S' found best)
    (hadj : ∀ a b, adj a b → adj b a) (hc : c ∈ S') (hnodup : l.Nodup)
    (hC : IsComp adj S' c l.toFinset) (hfirst : ∀ q ∈ S', q = c ∨ before c q)
    (hlast : ∀ q ∈ seen ++ [c], ¬ before c q) :
    Searched adj before S (seen ++ [c]) {q | q ∈ S' ∧ q ∉ l} (found ++ [(c, l)])
      (better best c l) := by
  have hl : ∀ q ∈ l, q ∈ S' := fun q hq => ((hC q).1 (List.mem_toFinset.2 hq)).right
  have hcl : c ∈ l := List.mem_toFinset.1 ((hC c).2 (.refl hc))
  have hforall : ∀ q : α → List α → Prop, (∀ x ∈ found ++ [(c, l)], q x.1 x.2) ↔
      (∀ x ∈ found, q x.1 x.2) ∧ q c l := by
    intro q
    rw [List.forall_mem_append, List.forall_mem_singleton]
  refine ⟨?_, ?_, ?_, ?_, ?_, ?_, ?_, ?_⟩
  · rw [List.forall_mem_append, List.forall_mem_singleton]
    exact ⟨fun q hq hq' => h.passed q hq hq'.1, fun hq' => hq'.2 hcl⟩
  · exact (hforall fun s _ => s ∈ seen ++ [c]).2
      ⟨fun x hx => List.mem_append_left _ (h.starts x hx),
        List.mem_append_right _ (List.mem_singleton_self c)⟩
  · intro q
    rw [hforall fun _ k => q ∉ k, ← and_assoc, ← h.mem]
    exact Iff.rfl
  · exact (hforall fun s k => s ∈ S ∧ IsComp adj S s k.toFinset).2
      ⟨h.comp, ((h.mem c).1 hc).1, h.isComp hadj hc hC⟩
  · rw [List.map_append, List.flatten_append, List.map_singleton, List.flatten_singleton]
    refine h.nodup.append hnodup ?_
    intro q hq hql
    obtain ⟨k, hk, hqk⟩ := List.mem_flatten.1 hq
    obtain ⟨x, hx, rfl⟩ := List.mem_map.1 hk
    exact ((h.mem q).1 (hl q hql)).2 x hx hqk
  · exact (hforall fun s k => ∀ q ∈ k, q = s ∨ before s q).2
      ⟨h.first, fun q hq => hfirst q (hl q hq)⟩
  · intro hb
    rcases better_cases best c l with ⟨hs, -⟩ | ⟨hs, hle⟩
    · rw [hs] at hb
      cases hb
    · rw [hs] at hb
      rw [hb, Option.elim_none, Nat.le_zero, List.length_eq_zero_iff] at hle
      rw [hle] at hcl
      cases hcl
  · intro x hx
    rw [hforall fun s k => k.length ≤ x.2.length ∧ (before s x.1 → k.length < x.2.length)]
    rcases better_cases best c l with ⟨hs, hgt⟩ | ⟨hs, hle⟩
    · rw [hs] at hx
      cases hx
      have hself : ¬ before c c := hlast c (List.mem_append_right _ (List.mem_singleton_self c))
      refine ⟨List.mem_append_right _ (List.mem_singleton_self _), ?_, Nat.le_refl _, ?_⟩
      · intro y hy
        cases hbest : best with
        | none =>
          rw [h.unset hbest] at hy
          cases hy
        | some z =>
          have hlt := ((h.largest z hbest).2 y hy).1.trans_lt (hgt z hbest)
          exact ⟨hlt.le, fun _ => hlt⟩
      · exact fun hb => absurd hb hself
    · rw [hs] at hx
      obtain ⟨hmem, hall⟩ := h.largest x hx
      have hx1 := hlast x.1 (List.mem_append_left _ (h.starts x hmem))
      rw [hx] at hle
      exact ⟨List.mem_append_left _ hmem, hall, hle, fun hb => absurd hb hx1⟩

/-- `C` is a largest component of `S`, `s` is its first member, and the components of the members
before `s` are smaller. -/
structure FirstLargest (adj before : α → α → Prop) (S : Set α) (s : α) (C : Finset α) : Prop where
  mem : s ∈ S
  comp : IsComp adj S s C
  first : ∀ c ∈ C, c = s ∨ before s c
  largest : ∀ p ∈ S, ∀ D, IsComp adj S p D → D.card ≤ C.card ∧ (before p s → D.card < C.card)

theorem FirstLargest.unique (htotal : ∀ p q, before p q ∨ p = q ∨ before q p)
    (h : FirstLargest adj before S s C) (h' : FirstLargest adj before S t D) : C = D := by
  have hle := (h.largest t h'.mem D h'.comp).1
  have hge := (h'.largest s h.mem C h.comp).1
  rcases htotal s t with hst | rfl | hts
  · have hlt := (h'.largest s h.mem C h.comp).2 hst
    omega
  · exact h.comp.unique h'.comp
  · have hlt := (h.largest t h'.mem D h'.comp).2 hts
    omega

theorem Searched.exists_found (h : Searched adj before S seen S' found best)
    (hall : ∀ c ∈ S, c ∈ seen) (hp : p ∈ S) : ∃ x ∈ found, p ∈ x.2 := by
  by_contra hn
  apply h.passed p (hall p hp)
  exact (h.mem p).2 ⟨hp, fun x hx hpx => hn ⟨x, hx, hpx⟩⟩

theorem Searched.nodup_of_mem (h : Searched adj before S seen S' found best) (hx : x ∈ found) :
    x.2.Nodup :=
  (List.nodup_flatten.1 h.nodup).1 x.2 (List.mem_map_of_mem hx)

theorem Searched.mem_flatten (h : Searched adj before S seen S' found best)
    (hall : ∀ c ∈ S, c ∈ seen) (c : α) : c ∈ (found.map (·.2)).flatten ↔ c ∈ S := by
  simp only [List.mem_flatten, List.mem_map]
  constructor
  · rintro ⟨l, ⟨x, hx, rfl⟩, hc⟩
    exact (((h.comp x hx).2 c).1 (List.mem_toFinset.2 hc)).right
  · intro hc
    obtain ⟨x, hx, hcx⟩ := h.exists_found hall hc
    exact ⟨x.2, ⟨x, hx, rfl⟩, hcx⟩

theorem Searched.result (h : Searched adj before S seen S' found best)
    (hadj : ∀ a b, adj a b → adj b a) (htrans : ∀ a b c, before a b → before b c → before a c)
    (hall : ∀ c ∈ S, c ∈ seen) :
    best = none ∧ S = ∅ ∨
      ∃ s l, best = some (s, l) ∧ l.Nodup ∧ FirstLargest adj before S s l.toFinset := by
  cases hbest : best with
  | none =>
    refine .inl ⟨rfl, Set.eq_empty_of_forall_notMem fun c hc => ?_⟩
    obtain ⟨x, hx, -⟩ := h.exists_found hall hc
    rw [h.unset hbest] at hx
    cases hx
  | some x =>
    obtain ⟨hx, hlargest⟩ := h.largest x hbest
    have hnodup := h.nodup_of_mem hx
    refine .inr ⟨x.1, x.2, rfl, hnodup, (h.comp x hx).1, (h.comp x hx).2, ?_, ?_⟩
    · intro c hc
      exact h.first x hx c (List.mem_toFinset.1 hc)
    · intro p hp D hD
      obtain ⟨y, hy, hpy⟩ := h.exists_found hall hp
      have hmove := (h.comp y hy).2.move hadj (List.mem_toFinset.2 hpy)
      rw [hD.unique hmove, List.toFinset_card_of_nodup (h.nodup_of_mem hy),
        List.toFinset_card_of_nodup hnodup]
      refine ⟨(hlargest y hy).1, fun hb => (hlargest y hy).2 ?_⟩
      rcases h.first y hy p hpy with rfl | hyp
      · exact hb
      · exact htrans y.1 p x.1 hyp hb

/-- A step of a search passes a member that is not left, and otherwise takes its component out;
`R` says what the state of the search records. -/
def Follows {τ : Type*} (adj : α → α → Prop) (look : τ → α → Option τ)
    (fill : τ → α → Option (List α × List α)) (R : τ → Set α → Option (α × List α) → Prop)
    (cs : List α) : Prop :=
  ∀ t S' best, ∀ c ∈ cs, R t S' best →
    (c ∉ S' ∧ look t c = some t ∧ fill t c = none) ∨
    (c ∈ S' ∧ ∃ t' pushed popped, look t c = some t' ∧ fill t c = some (pushed, popped) ∧
      popped.Perm pushed ∧ popped.Nodup ∧ IsComp adj S' c popped.toFinset ∧
      R t' {q | q ∈ S' ∧ q ∉ popped} (better best c popped))

theorem Searched.run {τ : Type*} {look : τ → α → Option τ}
    {fill : τ → α → Option (List α × List α)} {R : τ → Set α → Option (α × List α) → Prop}
    (hadj : ∀ a b, adj a b → adj b a) (hasymm : ∀ a b, before a b → ¬ before b a)
    {cs : List α} (hsorted : (seen ++ cs).Pairwise before) (hall : ∀ c ∈ S, c ∈ seen ++ cs)
    (hstep : Follows adj look fill R (seen ++ cs))
    {t : τ} (h : Searched adj before S seen S' found best) (hR : R t S' best) :
    ∃ t' S'' found' best', cs.foldlM look t = some t' ∧ R t' S'' best' ∧
      Searched adj before S (seen ++ cs) S'' found' best' ∧
      found'.map (·.2) = found.map (·.2) ++ (fills look fill cs t).map (·.2) ∧
      ∀ x ∈ fills look fill cs t, x.2.Perm x.1 := by
  induction cs generalizing seen t S' found best with
  | nil =>
    refine ⟨t, S', found, best, rfl, hR, by rwa [List.append_nil], (List.append_nil _).symm, ?_⟩
    intro x hx
    cases hx
  | cons c cs ih =>
    have happ : seen ++ c :: cs = (seen ++ [c]) ++ cs := by simp
    have hpast : ∀ q ∈ seen, before q c := by
      intro q hq
      exact (List.pairwise_append.1 hsorted).2.2 q hq c List.mem_cons_self
    have hlast : ∀ q ∈ seen ++ [c], ¬ before c q := by
      rw [List.forall_mem_append, List.forall_mem_singleton]
      exact ⟨fun q hq => hasymm q c (hpast q hq), fun hb => hasymm c c hb hb⟩
    have hfirst : ∀ q ∈ S', q = c ∨ before c q := by
      intro q hq
      rcases List.mem_append.1 (hall q ((h.mem q).1 hq).1) with hq' | hq'
      · exact absurd hq (h.passed q hq')
      · rcases List.mem_cons.1 hq' with rfl | hq'
        · exact .inl rfl
        · exact .inr ((List.pairwise_cons.1 (List.pairwise_append.1 hsorted).2.1).1 q hq')
    have hcase := hstep t S' best c (List.mem_append_right _ List.mem_cons_self) hR
    rw [happ] at hsorted hall hstep ⊢
    rcases hcase with
      ⟨hc, hlook, hfill⟩ | ⟨hc, t1, pushed, popped, hlook, hfill, hperm, hnodup, hC, hR1⟩
    · obtain ⟨t2, S2, found2, best2, h2, hR2, hs2, hf2, hp2⟩ := ih hsorted hall hstep (h.skip hc) hR
      refine ⟨t2, S2, found2, best2, ?_, hR2, hs2, ?_, ?_⟩
      · rw [List.foldlM_cons, hlook]
        exact h2
      · simpa only [fills, hlook, hfill, Option.toList_none, Option.elim_some, List.nil_append]
          using hf2
      · simpa only [fills, hlook, hfill, Option.toList_none, Option.elim_some, List.nil_append]
          using hp2
    · obtain ⟨t2, S2, found2, best2, h2, hR2, hs2, hf2, hp2⟩ :=
        ih hsorted hall hstep (h.take hadj hc hnodup hC hfirst hlast) hR1
      have hfills : fills look fill (c :: cs) t = (pushed, popped) :: fills look fill cs t1 := by
        simp only [fills, hlook, hfill, Option.toList_some, Option.elim_some, List.singleton_append]
      refine ⟨t2, S2, found2, best2, ?_, hR2, hs2, ?_, ?_⟩
      · rw [List.foldlM_cons, hlook]
        exact h2
      · rw [hf2, hfills, List.map_append, List.append_assoc]
        rfl
      · rw [hfills, List.forall_mem_cons]
        exact ⟨hperm, hp2⟩

/-- A search over all members, in the order of `before`, takes every component out once. -/
theorem search_spec {τ : Type*} {look : τ → α → Option τ}
    {fill : τ → α → Option (List α × List α)} {R : τ → Set α → Option (α × List α) → Prop}
    {cs : List α} (hstep : Follows adj look fill R cs) (hadj : ∀ a b, adj a b → adj b a)
    (hasymm : ∀ a b, before a b → ¬ before b a) (hsorted : cs.Pairwise before)
    (hall : ∀ c ∈ S, c ∈ cs) {t : τ} (hR : R t S none) :
    ∃ t' S' found best, cs.foldlM look t = some t' ∧ R t' S' best ∧
      Searched adj before S cs S' found best ∧
      found.map (·.2) = (fills look fill cs t).map (·.2) ∧
      ∀ x ∈ fills look fill cs t, x.2.Perm x.1 := by
  rw [← List.nil_append cs] at hstep hsorted hall
  exact Searched.refl.run hadj hasymm hsorted hall hstep hR

end Search

end Omission.Lib
