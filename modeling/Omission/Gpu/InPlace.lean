import Mathlib.Algebra.BigOperators.Group.Finset.Piecewise
import Mathlib.Algebra.Order.BigOperators.Group.Finset
import Mathlib.Data.List.Perm.Basic
import Omission.Lib.Machine
import Omission.Gpu.Types

namespace Omission.Gpu.InPlace
open Omission.Lib
set_option autoImplicit true

/-- Where a warp stands in its loop over the input indices. -/
inductive Warp where
  | load (input_index : Nat)
  /-- enough sample points were valid -/
  | take (input_index : Nat) (input : SeedPos)
  | store (input_index : Nat) (input : SeedPos) (result_index : Nat)
deriving DecidableEq, Repr

/-- The stage `filter_2_01b`: `data` is `buffer_2`, which is both input and output, and
`slots` lists the records that got an output slot; its length is the shared counter. -/
structure State where
  data : Nat → SeedPos
  slots : List SeedPos
  warps : Nat → Warp

/-- What a launch depends on: the number of inputs, the room of the buffer, the number of
warps, and which records have `min_count` valid points. -/
structure Launch where
  n : Nat
  max_len : Nat
  num_warps : Nat
  accept : SeedPos → Bool

/-- One atomic step of warp `w`. -/
def step (L : Launch) (s : State) (w : Nat) : Option State :=
  if w < L.num_warps then
    match s.warps w with
    | .load i =>
      if i < L.n then
        let input := s.data i
        let next := if L.accept input then Warp.take i input else .load (i + L.num_warps)
        some { s with warps := Function.update s.warps w next }
      else none
    | .take i input =>
      some { s with
        slots := s.slots ++ [input]
        warps := Function.update s.warps w (.store i input s.slots.length) }
    | .store i input r =>
      some { s with
        data := if r < L.max_len then Function.update s.data r input else s.data
        warps := Function.update s.warps w (.load (i + L.num_warps)) }
  else none

def State.init (data : Nat → SeedPos) : State := ⟨data, [], fun w => .load w⟩

def Done (L : Launch) (s : State) : Prop :=
  ∀ w < L.num_warps, ∃ i, s.warps w = .load i ∧ L.n ≤ i

def State.outputs (s : State) : List SeedPos := (List.range s.slots.length).map s.data

def Launch.expected (L : Launch) (data : Nat → SeedPos) : List SeedPos :=
  ((List.range L.n).map data).filter L.accept

/-- The first of its own indices that a warp has not loaded yet. -/
def Warp.next (num_warps : Nat) : Warp → Nat
  | .load i => i
  | .take i _ => i + num_warps
  | .store i _ _ => i + num_warps

@[simp] theorem Warp.next_load (W i : Nat) : (Warp.load i).next W = i := rfl

/-- The warp that owns index `j` has loaded it. -/
def loaded (L : Launch) (warps : Nat → Warp) (j : Nat) : Prop :=
  j < (warps (j % L.num_warps)).next L.num_warps

instance (L : Launch) (warps : Nat → Warp) : DecidablePred (loaded L warps) :=
  fun _ => Nat.decLt _ _

/-- A store goes to an index whose input has been loaded before. -/
def Safe (L : Launch) (s : State) (w : Nat) : Prop :=
  match s.warps w with
  | .store _ _ r => r < L.n → loaded L s.warps r
  | _ => True

instance (L : Launch) (s : State) : DecidablePred (Safe L s) := by
  intro w
  unfold Safe
  cases s.warps w <;> infer_instance

/-- The record of a warp that has passed the filter but has no slot yet. -/
def Warp.inflight (a : SeedPos) : Warp → Nat
  | .take _ input => if input = a then 1 else 0
  | _ => 0

@[simp] theorem Warp.inflight_load (i : Nat) (a : SeedPos) : (Warp.load i).inflight a = 0 := rfl

@[simp] theorem Warp.inflight_take (i : Nat) (b a : SeedPos) :
    (Warp.take i b).inflight a = if b = a then 1 else 0 := rfl

@[simp] theorem Warp.inflight_store (i : Nat) (b : SeedPos) (r : Nat) (a : SeedPos) :
    (Warp.store i b r).inflight a = 0 := rfl

/-- One for an index whose input is the accepted record `a`. -/
def Launch.emits (L : Launch) (data : Nat → SeedPos) (a : SeedPos) (j : Nat) : Nat :=
  if L.accept (data j) ∧ data j = a then 1 else 0

/-- One for a warp that has passed the filter but has no slot yet. -/
def Warp.waiting : Warp → Nat
  | .take _ _ => 1
  | _ => 0

/-- What holds of every schedule: who works on what, and which slots are filled. -/
structure Wf (L : Launch) (s : State) : Prop where
  /-- a warp walks its own residue class -/
  own : ∀ w < L.num_warps, (s.warps w).next L.num_warps % L.num_warps = w
  /-- no more slots are taken than indices have been loaded -/
  room : s.slots.length + ∑ w ∈ Finset.range L.num_warps, (s.warps w).waiting ≤
    ∑ j ∈ Finset.range L.n, if loaded L s.warps j then 1 else 0
  /-- a slot is filled, or its warp is about to fill it -/
  landed : ∀ k (h : k < s.slots.length), s.data k = s.slots[k] ∨
    ∃ w < L.num_warps, ∃ i, s.warps w = .store i s.slots[k] k
  pending : ∀ w < L.num_warps, ∀ i a k, s.warps w = .store i a k → s.slots[k]? = some a
  distinct : ∀ v < L.num_warps, ∀ w < L.num_warps, ∀ i j a b k,
    s.warps v = .store i a k → s.warps w = .store j b k → v = w

/-- What holds as long as every store was safe. -/
structure Exact (L : Launch) (data : Nat → SeedPos) (s : State) : Prop where
  /-- what has not been loaded has not been overwritten -/
  fresh : ∀ j < L.n, ¬ loaded L s.warps j → s.data j = data j
  /-- slots and warps hold the accepted records among the loaded ones -/
  count : ∀ a, s.slots.count a + ∑ w ∈ Finset.range L.num_warps, (s.warps w).inflight a =
    ∑ j ∈ Finset.range L.n, if loaded L s.warps j then L.emits data a j else 0

theorem step_cases (h : step L s w = some t) : w < L.num_warps ∧
    ((∃ i, s.warps w = .load i ∧ i < L.n ∧ t = { s with
        warps := Function.update s.warps w
          (if L.accept (s.data i) then .take i (s.data i) else .load (i + L.num_warps)) }) ∨
      (∃ i a, s.warps w = .take i a ∧ t = { s with
        slots := s.slots ++ [a]
        warps := Function.update s.warps w (.store i a s.slots.length) }) ∨
      (∃ i a r, s.warps w = .store i a r ∧ t = { s with
        data := if r < L.max_len then Function.update s.data r a else s.data
        warps := Function.update s.warps w (.load (i + L.num_warps)) })) := by
  simp only [step] at h
  split at h
  · next hw =>
    refine ⟨hw, ?_⟩
    split at h
    · next i hi =>
      split at h <;> cases h
      exact .inl ⟨i, hi, ‹_›, rfl⟩
    · next i a hi => cases h; exact .inr (.inl ⟨i, a, hi, rfl⟩)
    · next i a r hi => cases h; exact .inr (.inr ⟨i, a, r, hi, rfl⟩)
  · cases h

theorem sum_update (f : Nat → Warp) (hw : w < W) (x : Warp) (g : Warp → Nat) :
    ∑ v ∈ Finset.range W, g (Function.update f w x v) + g (f w) =
      ∑ v ∈ Finset.range W, g (f v) + g x := by
  have hmem : w ∈ Finset.range W := Finset.mem_range.2 hw
  have herase : ∑ v ∈ (Finset.range W).erase w, g (Function.update f w x v) =
      ∑ v ∈ (Finset.range W).erase w, g (f v) := by
    apply Finset.sum_congr rfl
    intro v hv
    rw [Function.update_of_ne (Finset.ne_of_mem_erase hv)]
  rw [← Finset.add_sum_erase _ _ hmem, ← Finset.add_sum_erase _ (fun v => g (f v)) hmem,
    herase, Function.update_self]
  omega

theorem loaded_update_same (L : Launch) (warps : Nat → Warp) (w : Nat) (x : Warp)
    (hx : x.next L.num_warps = (warps w).next L.num_warps) (j : Nat) :
    loaded L (Function.update warps w x) j ↔ loaded L warps j := by
  by_cases hj : j % L.num_warps = w
  · simp only [loaded, hj, Function.update_self, hx]
  · simp only [loaded, Function.update_of_ne hj]

theorem loaded_update_load {warps : Nat → Warp} {x : Warp} (hi : i % L.num_warps = w)
    (hw : w < L.num_warps) (hload : warps w = .load i)
    (hx : x.next L.num_warps = i + L.num_warps) (j : Nat) :
    loaded L (Function.update warps w x) j ↔ loaded L warps j ∨ j = i := by
  by_cases hj : j % L.num_warps = w
  · simp only [loaded, hj, Function.update_self, hx, hload, Warp.next_load]
    constructor
    · intro hlt
      by_contra hn
      have h1 := Nat.div_add_mod j L.num_warps
      have h2 := Nat.div_add_mod i L.num_warps
      have hq : i / L.num_warps < j / L.num_warps := by
        by_contra hle
        have := Nat.mul_le_mul_left L.num_warps (Nat.le_of_not_lt hle)
        omega
      have := Nat.mul_le_mul_left L.num_warps hq
      rw [Nat.mul_succ] at this
      omega
    · rintro (h | rfl) <;> omega
  · have hne : j ≠ i := fun he => hj (he ▸ hi)
    simp only [loaded, Function.update_of_ne hj, hne, or_false]

theorem sum_loaded_update {warps : Nat → Warp} {x : Warp} (hi : i % L.num_warps = w)
    (hw : w < L.num_warps) (hload : warps w = .load i) (hlt : i < L.n)
    (hx : x.next L.num_warps = i + L.num_warps) (e : Nat → Nat) :
    (∑ j ∈ Finset.range L.n, if loaded L (Function.update warps w x) j then e j else 0) =
      (∑ j ∈ Finset.range L.n, if loaded L warps j then e j else 0) + e i := by
  have hnew : ¬ loaded L warps i := by
    simp only [loaded, hi, hload, Warp.next_load]
    omega
  have hsplit : ∀ j ∈ Finset.range L.n,
      (if loaded L (Function.update warps w x) j then e j else 0) =
        (if loaded L warps j then e j else 0) + if j = i then e j else 0 := by
    intro j _
    have hj := loaded_update_load hi hw hload hx j
    by_cases hji : j = i
    · subst hji
      simp [hnew, hj]
    · simp [hj, hji]
  rw [Finset.sum_congr rfl hsplit, Finset.sum_add_distrib, Finset.sum_ite_eq',
    if_pos (Finset.mem_range.2 hlt)]

theorem not_loaded_init (L : Launch) (data : Nat → SeedPos) (j : Nat) :
    ¬ loaded L (State.init data).warps j :=
  Nat.not_lt.2 (Nat.mod_le j L.num_warps)

theorem wf_init (L : Launch) (data : Nat → SeedPos) : Wf L (State.init data) := by
  refine ⟨?_, ?_, ?_, ?_, ?_⟩
  · intro w hw
    exact Nat.mod_eq_of_lt hw
  · simp [State.init, Warp.waiting]
  · intro k h
    exact absurd h (Nat.not_lt_zero k)
  · intro w _ i a k h
    cases h
  · intro v _ w _ i j a b k h
    cases h

theorem exact_init (L : Launch) (data : Nat → SeedPos) : Exact L data (State.init data) := by
  refine ⟨fun j _ _ => rfl, ?_⟩
  intro a
  simp only [not_loaded_init, if_false, Finset.sum_const_zero]
  simp [State.init, Warp.inflight]

theorem next_after_load (L : Launch) (a : SeedPos) (i : Nat) :
    (if L.accept a then Warp.take i a else .load (i + L.num_warps)).next L.num_warps =
      i + L.num_warps := by
  split <;> rfl

theorem Wf.own_load (h : Wf L s) (hw : w < L.num_warps) (hload : s.warps w = .load i) :
    i % L.num_warps = w := by
  have := h.own w hw
  rwa [hload] at this

theorem Wf.pending_lt (h : Wf L s) (hw : w < L.num_warps) (hs : s.warps w = .store i a k) :
    k < s.slots.length :=
  (List.getElem?_eq_some_iff.1 (h.pending w hw i a k hs)).1

theorem Wf.slots_le (h : Wf L s) : s.slots.length ≤ L.n := by
  have hcard : (∑ j ∈ Finset.range L.n, if loaded L s.warps j then 1 else 0) ≤ L.n := by
    rw [← Finset.card_filter]
    exact (Finset.card_filter_le _ _).trans_eq (Finset.card_range L.n)
  have hroom := h.room
  omega

theorem Wf.own_update (h : Wf L s) {x : Warp}
    (hown : w < L.num_warps → x.next L.num_warps % L.num_warps = w) :
    ∀ v < L.num_warps,
      (Function.update s.warps w x v).next L.num_warps % L.num_warps = v := by
  intro v hv
  by_cases hvw : v = w
  · subst hvw
    rw [Function.update_self]
    exact hown hv
  · rw [Function.update_of_ne hvw]
    exact h.own v hv

theorem Wf.of_warp (h : Wf L s) {x : Warp} (hx : ∀ i a k, x ≠ .store i a k)
    (hsw : ∀ i a k, s.warps w ≠ .store i a k)
    (hown : w < L.num_warps → x.next L.num_warps % L.num_warps = w)
    (hroom : s.slots.length + ∑ v ∈ Finset.range L.num_warps,
      (Function.update s.warps w x v).waiting ≤ ∑ j ∈ Finset.range L.n,
        if loaded L (Function.update s.warps w x) j then 1 else 0) :
    Wf L { s with warps := Function.update s.warps w x } := by
  have hstore : ∀ v i a k, Function.update s.warps w x v = .store i a k ↔
      s.warps v = .store i a k := by
    intro v i a k
    by_cases hvw : v = w
    · subst hvw
      rw [Function.update_self]
      exact ⟨fun he => absurd he (hx i a k), fun he => absurd he (hsw i a k)⟩
    · rw [Function.update_of_ne hvw]
  refine ⟨h.own_update hown, hroom, ?_, ?_, ?_⟩
  · intro k hk
    rcases h.landed k hk with hd | ⟨v, hv, i, hv'⟩
    · exact .inl hd
    · exact .inr ⟨v, hv, i, (hstore v i _ k).2 hv'⟩
  · intro v hv i a k hv'
    exact h.pending v hv i a k ((hstore v i a k).1 hv')
  · intro u hu v hv i j a b k hu' hv'
    exact h.distinct u hu v hv i j a b k ((hstore u i a k).1 hu') ((hstore v j b k).1 hv')

theorem Wf.load (h : Wf L s) (hw : w < L.num_warps) (hload : s.warps w = .load i)
    (hi : i < L.n) :
    Wf L { s with
      warps := Function.update s.warps w
        (if L.accept (s.data i) then .take i (s.data i) else .load (i + L.num_warps)) } := by
  have hown := h.own_load hw hload
  have hnext := next_after_load L (s.data i) i
  apply h.of_warp
  · intro i' a k
    split <;> exact fun he => by cases he
  · intro i' a k he
    rw [hload] at he
    cases he
  · intro _
    rw [hnext, Nat.add_mod_right, hown]
  · have hsum := sum_update s.warps hw
      (if L.accept (s.data i) then .take i (s.data i) else .load (i + L.num_warps)) Warp.waiting
    have hone : (if L.accept (s.data i) then Warp.take i (s.data i)
        else .load (i + L.num_warps)).waiting ≤ 1 := by
      split <;> simp [Warp.waiting]
    have hroom := h.room
    rw [sum_loaded_update hown hw hload hi hnext (fun _ => 1)]
    omega

theorem Exact.load (h : Exact L data s) (hwf : Wf L s) (hw : w < L.num_warps)
    (hload : s.warps w = .load i) (hi : i < L.n) :
    Exact L data { s with
      warps := Function.update s.warps w
        (if L.accept (s.data i) then .take i (s.data i) else .load (i + L.num_warps)) } := by
  have hown := hwf.own_load hw hload
  have hnext := next_after_load L (s.data i) i
  have hnew : ¬ loaded L s.warps i := by
    simp only [loaded, hown, hload, Warp.next_load]
    omega
  have hdata := h.fresh i hi hnew
  refine ⟨?_, ?_⟩
  · intro j hj hnl
    refine h.fresh j hj fun hl => hnl ?_
    exact (loaded_update_load hown hw hload hnext j).2 (.inl hl)
  · intro a
    have hinflight : (if L.accept (s.data i) then Warp.take i (s.data i)
        else .load (i + L.num_warps)).inflight a = L.emits data a i := by
      rw [Launch.emits, ← hdata]
      split <;> simp_all
    have hsum := sum_update s.warps hw
      (if L.accept (s.data i) then .take i (s.data i) else .load (i + L.num_warps))
      (Warp.inflight a)
    rw [hload, hinflight, Warp.inflight_load, Nat.add_zero] at hsum
    have hcount := h.count a
    rw [sum_loaded_update hown hw hload hi hnext]
    dsimp only
    omega

theorem Wf.take (h : Wf L s) (hw : w < L.num_warps) (htake : s.warps w = .take i a) :
    Wf L { s with
      slots := s.slots ++ [a]
      warps := Function.update s.warps w (.store i a s.slots.length) } := by
  have hold : ∀ v i' b k, v ≠ w → Function.update s.warps w (.store i a s.slots.length) v =
      .store i' b k → s.warps v = .store i' b k := by
    intro v i' b k hvw hv
    rwa [Function.update_of_ne hvw] at hv
  have hown := h.own w hw
  rw [htake] at hown
  refine ⟨h.own_update fun _ => hown, ?_, ?_, ?_, ?_⟩
  · have hsum := sum_update s.warps hw (.store i a s.slots.length) Warp.waiting
    have hroom := h.room
    rw [htake] at hsum
    have hone : (Warp.take i a).waiting = 1 := rfl
    have hzero : (Warp.store i a s.slots.length).waiting = 0 := rfl
    simp only [List.length_append, List.length_singleton,
      loaded_update_same L s.warps w (.store i a s.slots.length) (by rw [htake]; rfl)]
    omega
  · intro k hk
    rw [List.length_append, List.length_singleton] at hk
    by_cases hlast : k = s.slots.length
    · subst hlast
      exact .inr ⟨w, hw, i, by simp⟩
    · have hk' : k < s.slots.length := by omega
      rw [List.getElem_append_left hk']
      rcases h.landed k hk' with hd | ⟨v, hv, i', hv'⟩
      · exact .inl hd
      · refine .inr ⟨v, hv, i', ?_⟩
        dsimp only
        rw [Function.update_of_ne]
        · exact hv'
        · rintro rfl
          rw [htake] at hv'
          cases hv'
  · intro v hv i' b k hv'
    dsimp only at hv' ⊢
    by_cases hvw : v = w
    · subst hvw
      rw [Function.update_self] at hv'
      cases hv'
      simp
    · have hb := h.pending v hv i' b k (hold v i' b k hvw hv')
      rw [List.getElem?_append_left (List.getElem?_eq_some_iff.1 hb).1]
      exact hb
  · intro u hu v hv i' j b c k hu' hv'
    dsimp only at hu' hv'
    by_cases huw : u = w
    · by_cases hvw : v = w
      · exact huw.trans hvw.symm
      · subst huw
        rw [Function.update_self] at hu'
        cases hu'
        exact absurd (h.pending_lt hv (hold v j c _ hvw hv')) (Nat.lt_irrefl _)
    · by_cases hvw : v = w
      · subst hvw
        rw [Function.update_self] at hv'
        cases hv'
        exact absurd (h.pending_lt hu (hold u i' b _ huw hu')) (Nat.lt_irrefl _)
      · exact h.distinct u hu v hv i' j b c k (hold u i' b k huw hu') (hold v j c k hvw hv')

theorem Exact.take (h : Exact L data s) (hw : w < L.num_warps) (htake : s.warps w = .take i a) :
    Exact L data { s with
      slots := s.slots ++ [a]
      warps := Function.update s.warps w (.store i a s.slots.length) } := by
  have hloaded := loaded_update_same L s.warps w (.store i a s.slots.length)
      (by rw [htake]; rfl)
  refine ⟨?_, ?_⟩
  · intro j hj hnl
    exact h.fresh j hj fun hl => hnl ((hloaded j).2 hl)
  · intro b
    have hsum := sum_update s.warps hw (.store i a s.slots.length) (Warp.inflight b)
    have hcount := h.count b
    rw [htake, Warp.inflight_take, Warp.inflight_store, Nat.add_zero] at hsum
    simp only [hloaded, ← hcount, List.count_append, List.count_singleton, beq_iff_eq]
    omega

theorem Wf.store (h : Wf L s) (hmax : L.n ≤ L.max_len) (hw : w < L.num_warps)
    (hstore : s.warps w = .store i a r) :
    Wf L { s with
      data := if r < L.max_len then Function.update s.data r a else s.data
      warps := Function.update s.warps w (.load (i + L.num_warps)) } := by
  have hr : s.slots[r]? = some a := h.pending w hw i a r hstore
  obtain ⟨hrlen, hra⟩ := List.getElem?_eq_some_iff.1 hr
  have hroom_r : r < L.max_len := hrlen.trans_le (h.slots_le.trans hmax)
  have hold : ∀ v j b k, Function.update s.warps w (.load (i + L.num_warps)) v = .store j b k →
      v ≠ w ∧ s.warps v = .store j b k := by
    intro v j b k hv
    by_cases hvw : v = w
    · subst hvw
      rw [Function.update_self] at hv
      cases hv
    · rw [Function.update_of_ne hvw] at hv
      exact ⟨hvw, hv⟩
  rw [if_pos hroom_r]
  have hown := h.own w hw
  rw [hstore] at hown
  refine ⟨h.own_update fun _ => hown, ?_, ?_, ?_, ?_⟩
  · have hsum := sum_update s.warps hw (.load (i + L.num_warps)) Warp.waiting
    have hroom := h.room
    rw [hstore] at hsum
    simp only [loaded_update_same L s.warps w (.load (i + L.num_warps))
      (by rw [hstore]; rfl)]
    have hzero : (Warp.store i a r).waiting = 0 := rfl
    have hzero' : (Warp.load (i + L.num_warps)).waiting = 0 := rfl
    omega
  · intro k hk
    dsimp only at hk ⊢
    by_cases hkr : k = r
    · subst hkr
      left
      rw [Function.update_self, hra]
    · rw [Function.update_of_ne hkr]
      rcases h.landed k hk with hd | ⟨v, hv, j, hv'⟩
      · exact .inl hd
      · refine .inr ⟨v, hv, j, ?_⟩
        rw [Function.update_of_ne]
        · exact hv'
        · rintro rfl
          rw [hstore] at hv'
          cases hv'
          exact hkr rfl
  · intro v hv j b k hv'
    exact h.pending v hv j b k (hold v j b k hv').2
  · intro u hu v hv j j' b c k hu' hv'
    exact h.distinct u hu v hv j j' b c k (hold u j b k hu').2 (hold v j' c k hv').2

theorem Exact.store (h : Exact L data s) (hw : w < L.num_warps)
    (hstore : s.warps w = .store i a r) (hsafe : Safe L s w) :
    Exact L data { s with
      data := if r < L.max_len then Function.update s.data r a else s.data
      warps := Function.update s.warps w (.load (i + L.num_warps)) } := by
  have hloaded := loaded_update_same L s.warps w (.load (i + L.num_warps))
      (by rw [hstore]; rfl)
  have hsafe' : r < L.n → loaded L s.warps r := by
    rwa [Safe, hstore] at hsafe
  refine ⟨?_, ?_⟩
  · intro j hj hnl
    have hnl' : ¬ loaded L s.warps j := fun hl => hnl ((hloaded j).2 hl)
    have hjr : j ≠ r := by
      rintro rfl
      exact hnl' (hsafe' hj)
    dsimp only
    split
    · rw [Function.update_of_ne hjr]
      exact h.fresh j hj hnl'
    · exact h.fresh j hj hnl'
  · intro b
    have hsum := sum_update s.warps hw (.load (i + L.num_warps)) (Warp.inflight b)
    have hcount := h.count b
    rw [hstore, Warp.inflight_load, Warp.inflight_store] at hsum
    simp only [hloaded, ← hcount]
    omega

theorem Wf.step (hmax : L.n ≤ L.max_len) (h : Wf L s) (hs : step L s w = some t) : Wf L t := by
  obtain ⟨hw, ⟨i, hl, hi, rfl⟩ | ⟨i, a, ht, rfl⟩ | ⟨i, a, r, ht, rfl⟩⟩ := step_cases hs
  · exact h.load hw hl hi
  · exact h.take hw ht
  · exact h.store hmax hw ht

theorem Exact.step (hwf : Wf L s) (h : Exact L data s) (hsafe : Safe L s w)
    (hs : step L s w = some t) : Exact L data t := by
  obtain ⟨hw, ⟨i, hl, hi, rfl⟩ | ⟨i, a, ht, rfl⟩ | ⟨i, a, r, ht, rfl⟩⟩ := step_cases hs
  · exact h.load hwf hw hl hi
  · exact h.take hw ht
  · exact h.store hw ht hsafe

theorem wf_run (hmax : L.n ≤ L.max_len) (he : exec (step L) (State.init data) ws = some s) :
    Wf L s :=
  exec_invariant (fun _ _ _ h hs => h.step hmax hs) (wf_init L data) he

theorem exact_run (hmax : L.n ≤ L.max_len) (ha : Along (step L) (Safe L) (State.init data) ws)
    (he : exec (step L) (State.init data) ws = some s) : Exact L data s := by
  have hboth : Wf L s ∧ Exact L data s := by
    apply Along.invariant (I := fun s => Wf L s ∧ Exact L data s) ?_ ha
      ⟨wf_init L data, exact_init L data⟩ he
    intro s w t h hsafe hs
    exact ⟨h.1.step hmax hs, h.2.step h.1 hsafe hs⟩
  exact hboth.2

theorem Done.loaded (hd : Done L s) (hW : 0 < L.num_warps) (hj : j < L.n) :
    loaded L s.warps j := by
  obtain ⟨i, hi, hn⟩ := hd _ (Nat.mod_lt j hW)
  rw [InPlace.loaded, hi, Warp.next_load]
  omega

theorem Done.outputs_eq (hd : Done L s) (h : Wf L s) : s.outputs = s.slots := by
  apply List.ext_getElem
  · simp [State.outputs]
  · intro k hk hk'
    rcases h.landed k hk' with hdata | ⟨w, hw, i, hi⟩
    · simp [State.outputs, hdata]
    · obtain ⟨i', hi', -⟩ := hd w hw
      rw [hi] at hi'
      cases hi'

theorem Done.inflight_eq (hd : Done L s) (a : SeedPos) :
    ∑ w ∈ Finset.range L.num_warps, (s.warps w).inflight a = 0 := by
  apply Finset.sum_eq_zero
  intro w hw
  obtain ⟨i, hi, -⟩ := hd w (Finset.mem_range.1 hw)
  rw [hi, Warp.inflight_load]

theorem count_expected (L : Launch) (data : Nat → SeedPos) (a : SeedPos) :
    (L.expected data).count a = ∑ j ∈ Finset.range L.n, L.emits data a j := by
  unfold Launch.expected
  induction L.n with
  | zero => rfl
  | succ n ih =>
    rw [List.range_succ, List.map_append, List.filter_append, List.count_append, ih,
      Finset.sum_range_succ, List.map_singleton, Launch.emits]
    by_cases hacc : L.accept (data n) <;> by_cases ha : data n = a <;> simp_all

/-- A run whose stores were all safe ends with the accepted inputs in the buffer. -/
theorem Done.outputs_perm (hd : Done L s) (hW : 0 < L.num_warps) (hwf : Wf L s)
    (h : Exact L data s) : s.outputs.Perm (L.expected data) := by
  rw [hd.outputs_eq hwf, List.perm_iff_count]
  intro a
  have hcount := h.count a
  rw [hd.inflight_eq, Nat.add_zero] at hcount
  rw [hcount, count_expected]
  apply Finset.sum_congr rfl
  intro j hj
  rw [if_pos (hd.loaded hW (Finset.mem_range.1 hj))]

/-- After an unsafe store of `a` to slot `r`: the record is in the output and will be loaded
from index `r` again. -/
structure Twice (L : Launch) (a : SeedPos) (r : Nat) (s : State) : Prop where
  filled : r < s.slots.length
  free : ∀ w < L.num_warps, ∀ i b, s.warps w ≠ .store i b r
  again : ¬ loaded L s.warps r → s.data r = a
  count : 2 ≤ s.slots.count a + ∑ w ∈ Finset.range L.num_warps, (s.warps w).inflight a +
    if loaded L s.warps r then 0 else 1

theorem Twice.store (h : Twice L a r s) (hw : w < L.num_warps)
    (hstore : s.warps w = .store i b k) :
    Twice L a r { s with
      data := if k < L.max_len then Function.update s.data k b else s.data
      warps := Function.update s.warps w (.load (i + L.num_warps)) } := by
  have hloaded := loaded_update_same L s.warps w (.load (i + L.num_warps))
      (by rw [hstore]; rfl)
  have hkr : r ≠ k := by
    rintro rfl
    exact h.free w hw i b hstore
  refine ⟨h.filled, ?_, ?_, ?_⟩
  · intro v hv j c hv'
    by_cases hvw : v = w
    · subst hvw
      simp only [Function.update_self, reduceCtorEq] at hv'
    · simp only [Function.update_of_ne hvw] at hv'
      exact h.free v hv j c hv'
  · intro hnl
    have hdata := h.again fun hl => hnl ((hloaded r).2 hl)
    dsimp only
    split
    · rwa [Function.update_of_ne hkr]
    · exact hdata
  · have hsum := sum_update s.warps hw (.load (i + L.num_warps)) (Warp.inflight a)
    have hcount := h.count
    rw [hstore, Warp.inflight_load, Warp.inflight_store] at hsum
    simp only [hloaded]
    omega

theorem Twice.take (h : Twice L a r s) (hw : w < L.num_warps) (htake : s.warps w = .take i b) :
    Twice L a r { s with
      slots := s.slots ++ [b]
      warps := Function.update s.warps w (.store i b s.slots.length) } := by
  have hloaded := loaded_update_same L s.warps w (.store i b s.slots.length)
      (by rw [htake]; rfl)
  have hfilled := h.filled
  refine ⟨?_, ?_, ?_, ?_⟩
  · dsimp only
    rw [List.length_append]
    omega
  · intro v hv j c hv'
    by_cases hvw : v = w
    · subst hvw
      simp only [Function.update_self, Warp.store.injEq] at hv'
      omega
    · simp only [Function.update_of_ne hvw] at hv'
      exact h.free v hv j c hv'
  · intro hnl
    exact h.again fun hl => hnl ((hloaded r).2 hl)
  · have hsum := sum_update s.warps hw (.store i b s.slots.length) (Warp.inflight a)
    have hcount := h.count
    rw [htake, Warp.inflight_take, Warp.inflight_store, Nat.add_zero] at hsum
    simp only [hloaded, List.count_append, List.count_singleton, beq_iff_eq]
    omega

theorem Twice.load (h : Twice L a r s) (hwf : Wf L s) (hacc : L.accept a = true)
    (hw : w < L.num_warps) (hload : s.warps w = .load i) :
    Twice L a r { s with
      warps := Function.update s.warps w
        (if L.accept (s.data i) then .take i (s.data i) else .load (i + L.num_warps)) } := by
  have hnext := next_after_load L (s.data i) i
  have hloaded := loaded_update_load (hwf.own_load hw hload) hw hload hnext
  refine ⟨h.filled, ?_, ?_, ?_⟩
  · intro v hv j c hv'
    by_cases hvw : v = w
    · subst hvw
      simp only [Function.update_self] at hv'
      split at hv' <;> cases hv'
    · simp only [Function.update_of_ne hvw] at hv'
      exact h.free v hv j c hv'
  · intro hnl
    exact h.again fun hl => hnl ((hloaded r).2 (.inl hl))
  · have hsum := sum_update s.warps hw
      (if L.accept (s.data i) then Warp.take i (s.data i) else .load (i + L.num_warps))
      (Warp.inflight a)
    have hcount := h.count
    rw [hload, Warp.inflight_load, Nat.add_zero] at hsum
    by_cases hr : r = i
    · -- index `r` itself is loaded: its record is `a` once more
      subst hr
      have hnl : ¬ loaded L s.warps r := by
        simp only [InPlace.loaded, hwf.own_load hw hload, hload, Warp.next_load]
        omega
      have hone : (if L.accept (s.data r) then Warp.take r (s.data r)
          else .load (r + L.num_warps)).inflight a = 1 := by
        rw [h.again hnl, if_pos hacc, Warp.inflight_take, if_pos rfl]
      rw [if_neg hnl] at hcount
      simp only [hone] at hsum
      dsimp only
      omega
    · simp only [hloaded, hr, or_false]
      omega

theorem Twice.step (h : Twice L a r s) (hwf : Wf L s) (hacc : L.accept a = true)
    (hs : step L s w = some t) : Twice L a r t := by
  obtain ⟨hw, ⟨i, hl, -, rfl⟩ | ⟨i, b, ht, rfl⟩ | ⟨i, b, k, ht, rfl⟩⟩ := step_cases hs
  · exact h.load hwf hacc hw hl
  · exact h.take hw ht
  · exact h.store hw ht

theorem Exact.accepted (h : Exact L data s) (ha : a ∈ s.slots) : L.accept a = true := by
  by_contra hacc
  have hzero : (∑ j ∈ Finset.range L.n,
      if InPlace.loaded L s.warps j then L.emits data a j else 0) = 0 := by
    apply Finset.sum_eq_zero
    intro j _
    have : L.emits data a j = 0 := by
      rw [Launch.emits, if_neg]
      rintro ⟨hj, rfl⟩
      exact hacc hj
    simp [this]
  have hcount := h.count a
  have hpos := List.count_pos_iff.2 ha
  omega

/-- The first store that is not safe leaves its record in the output and in the input. -/
theorem Exact.twice (hwf : Wf L s) (h : Exact L data s) (hmax : L.n ≤ L.max_len)
    (hstray : ¬ Safe L s w) (hs : InPlace.step L s w = some t) :
    ∃ a r, r < L.n ∧ L.accept a = true ∧ Twice L a r t := by
  obtain ⟨hw, ⟨i, hl, -, rfl⟩ | ⟨i, a, ht, rfl⟩ | ⟨i, a, r, ht, rfl⟩⟩ := step_cases hs
  · exact absurd (by rw [Safe, hl]; trivial) hstray
  · exact absurd (by rw [Safe, ht]; trivial) hstray
  · rw [Safe, ht, Classical.not_imp] at hstray
    obtain ⟨hrn, hnl⟩ := hstray
    obtain ⟨hr, hra⟩ := List.getElem?_eq_some_iff.1 (hwf.pending w hw i a r ht)
    have hmem : a ∈ s.slots := hra ▸ List.getElem_mem hr
    have hloaded := loaded_update_same L s.warps w (.load (i + L.num_warps))
      (by rw [ht]; rfl)
    refine ⟨a, r, hrn, h.accepted hmem, hr, ?_, ?_, ?_⟩
    · intro v hv j c hv'
      by_cases hvw : v = w
      · subst hvw
        simp only [Function.update_self, reduceCtorEq] at hv'
      · simp only [Function.update_of_ne hvw] at hv'
        exact hvw (hwf.distinct v hv w hw j i c a r hv' ht)
    · intro _
      simp only [if_pos (hrn.trans_le hmax), Function.update_self]
    · have hpos := List.count_pos_iff.2 hmem
      simp only [hloaded, if_neg hnl]
      omega

theorem Done.twice_count (hd : Done L s) (hW : 0 < L.num_warps) (hr : r < L.n)
    (h : Twice L a r s) : 2 ≤ s.slots.count a := by
  have hcount := h.count
  rwa [hd.inflight_eq, if_pos (hd.loaded hW hr), Nat.add_zero] at hcount

theorem safe_of_outputs_perm (hmax : L.n ≤ L.max_len) (hW : 0 < L.num_warps)
    (hnodup : ((List.range L.n).map data).Nodup)
    (he : exec (step L) (State.init data) ws = some s) (hd : Done L s)
    (hperm : s.outputs.Perm (L.expected data)) :
    Along (step L) (Safe L) (State.init data) ws := by
  by_contra hstray
  obtain ⟨xs, w, ys, t, hxs, ht, hbad, hrest⟩ := exists_first_failure hstray he
  obtain ⟨u, hu, hus⟩ := exec_cons.1 hrest
  have hwf := wf_run hmax ht
  obtain ⟨a, r, hr, hacc, htwice⟩ := (exact_run hmax hxs ht).twice hwf hmax hbad hu
  have hend : Wf L s ∧ Twice L a r s := by
    apply exec_invariant (I := fun s => Wf L s ∧ Twice L a r s) ?_
      ⟨hwf.step hmax hu, htwice⟩ hus
    intro s w t h hs
    exact ⟨h.1.step hmax hs, h.2.step h.1 hacc hs⟩
  have htwo := hd.twice_count hW hr hend.2
  have hone : (L.expected data).count a ≤ 1 :=
    List.nodup_iff_count_le_one.1 (hnodup.filter _) a
  rw [← hperm.count_eq, hd.outputs_eq hend.1] at hone
  omega

/-- The buffer ends with just the accepted inputs if every store goes to an index whose
input has been loaded; for inputs without duplicates also only then. -/
theorem compaction_in_place (L : Launch) (data : Nat → SeedPos) (ws : List Nat) (s : State)
    (hmax : L.n ≤ L.max_len) (hW : 0 < L.num_warps)
    (he : exec (step L) (State.init data) ws = some s) (hd : Done L s) :
    (Along (step L) (Safe L) (State.init data) ws → s.outputs.Perm (L.expected data)) ∧
      (((List.range L.n).map data).Nodup → s.outputs.Perm (L.expected data) →
        Along (step L) (Safe L) (State.init data) ws) := by
  constructor
  · intro ha
    exact hd.outputs_perm hW (wf_run hmax he) (exact_run hmax ha he)
  · intro hnodup hperm
    exact safe_of_outputs_perm hmax hW hnodup he hd hperm

/-- Two warps with an input each; the filter passes both. -/
def two_warps : Launch := ⟨2, 44739242, 2, fun _ => true⟩

def two_seeds (j : Nat) : SeedPos := ⟨BitVec.ofNat 32 j, 0, 0⟩

theorem two_warps_done (h0 : s.warps 0 = .load 2) (h1 : s.warps 1 = .load 3) :
    Done two_warps s := by
  intro w hw
  match w, hw with
  | 0, _ => exact ⟨2, h0, Nat.le_refl 2⟩
  | 1, _ => exact ⟨3, h1, by decide⟩

theorem compaction_in_place_two_warps :
    ∃ s, exec (step two_warps) (State.init two_seeds) [0, 0, 0, 1, 1, 1] = some s ∧
      s.outputs.Perm (two_warps.expected two_seeds) := by
  refine ⟨_, rfl, ?_⟩
  exact (compaction_in_place two_warps two_seeds [0, 0, 0, 1, 1, 1] _ (by decide) (by decide)
    rfl (two_warps_done rfl rfl)).1 (by decide)

/-- The second warp is faster: its record takes the slot that the first has yet to load. -/
theorem candidate_lost_in_place :
    ¬ ∀ (L : Launch) (data : Nat → SeedPos) (ws : List Nat) (s : State), L.n ≤ L.max_len →
      0 < L.num_warps → exec (step L) (State.init data) ws = some s → Done L s →
        s.outputs.Perm (L.expected data) := by
  intro h
  have hperm := h two_warps two_seeds [1, 1, 1, 0, 0, 0] _ (by decide) (by decide) rfl
    (two_warps_done rfl rfl)
  exact absurd hperm (by decide)

end Omission.Gpu.InPlace
