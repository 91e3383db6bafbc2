import Mathlib.Data.List.Perm.Basic
import Mathlib.Data.List.FinRange
import Mathlib.Data.Multiset.Bind
import Mathlib.Data.List.Range
import Mathlib.Logic.Function.Basic

namespace Omission.Lib
set_option autoImplicit true

/-- The rounds of `for (; i < len; i += step)`, at most the given number of them. -/
def stride (step len : Nat) : Nat → Nat → List Nat
  | 0, _ => []
  | n + 1, i => if i < len then i :: stride step len n (i + step) else []

/-- `for (i = first; i < len; i += step)` -/
def strided (first step len : Nat) : List Nat := stride step len len first

theorem mem_stride {step len n i j : Nat} :
    j ∈ stride step len n i ↔ j < len ∧ ∃ k < n, j = i + k * step := by
  induction n generalizing i with
  | zero => simp [stride]
  | succ n ih =>
    rw [stride]
    split
    · next hi =>
      rw [List.mem_cons, ih]
      constructor
      · rintro (rfl | ⟨hj, k, hk, rfl⟩)
        · exact ⟨hi, 0, Nat.succ_pos n, by simp⟩
        · exact ⟨hj, k + 1, Nat.succ_lt_succ hk, by rw [Nat.succ_mul]; omega⟩
      · rintro ⟨hj, k, hk, rfl⟩
        cases k with
        | zero => exact .inl (by simp)
        | succ k => exact .inr ⟨hj, k, Nat.lt_of_succ_lt_succ hk, by rw [Nat.succ_mul]; omega⟩
    · next hi =>
      constructor
      · intro h
        cases h
      · rintro ⟨hj, k, hk, rfl⟩
        have := Nat.zero_le (k * step)
        omega

theorem mem_strided {first step len j : Nat} (hstep : 0 < step) :
    j ∈ strided first step len ↔ j < len ∧ ∃ k, j = first + k * step := by
  rw [strided, mem_stride]
  constructor
  · rintro ⟨hj, k, -, he⟩
    exact ⟨hj, k, he⟩
  · rintro ⟨hj, k, rfl⟩
    have hk : k ≤ k * step := Nat.le_mul_of_pos_right k hstep
    exact ⟨hj, k, by omega, rfl⟩

theorem nodup_stride {step len n i : Nat} (hstep : 0 < step) : (stride step len n i).Nodup := by
  induction n generalizing i with
  | zero => exact List.nodup_nil
  | succ n ih =>
    rw [stride]
    split
    · refine List.nodup_cons.2 ⟨?_, ih⟩
      intro hmem
      obtain ⟨-, k, -, hk⟩ := mem_stride.1 hmem
      omega
    · exact List.nodup_nil

/-- The threads of a grid share the indices among them. -/
theorem strided_perm {step : Nat} (len : Nat) (hstep : 0 < step) :
    ((List.range step).flatMap fun t => strided t step len).Perm (List.range len) := by
  apply (List.perm_ext_iff_of_nodup ?_ List.nodup_range).2
  · intro j
    simp only [List.mem_flatMap, List.mem_range, mem_strided hstep]
    constructor
    · rintro ⟨t, -, hj, -⟩
      exact hj
    · intro hj
      refine ⟨j % step, Nat.mod_lt j hstep, hj, j / step, ?_⟩
      rw [Nat.mul_comm, Nat.mod_add_div]
  · rw [List.nodup_flatMap]
    refine ⟨fun t _ => nodup_stride hstep, ?_⟩
    refine List.nodup_range.pairwise_of_forall_ne ?_
    intro t ht t' ht' hne j hj hj'
    obtain ⟨-, k, rfl⟩ := (mem_strided hstep).1 hj
    obtain ⟨-, k', he⟩ := (mem_strided hstep).1 hj'
    rw [List.mem_range] at ht ht'
    apply hne
    rw [← Nat.mod_eq_of_lt ht, ← Nat.mod_eq_of_lt ht', ← Nat.add_mul_mod_self_right t k step, he,
      Nat.add_mul_mod_self_right]

/-- The same when every thread takes `width` indices at a time. -/
theorem strided_batches_perm {step width : Nat} (len : Nat) (hstep : 0 < step)
    (hwidth : 0 < width) :
    ((List.range step).flatMap fun t => strided (t * width) (step * width) len).Perm
      (strided 0 width len) := by
  have hmul : 0 < step * width := Nat.mul_pos hstep hwidth
  apply (List.perm_ext_iff_of_nodup ?_ (nodup_stride hwidth)).2
  · intro j
    simp only [List.mem_flatMap, List.mem_range, mem_strided hmul]
    rw [← strided, mem_strided hwidth]
    constructor
    · rintro ⟨t, -, hj, k, rfl⟩
      exact ⟨hj, t + k * step, by rw [Nat.zero_add, Nat.add_mul, Nat.mul_assoc]⟩
    · rintro ⟨hj, k, rfl⟩
      refine ⟨k % step, Nat.mod_lt k hstep, hj, k / step, ?_⟩
      rw [Nat.zero_add, ← Nat.mul_assoc, ← Nat.add_mul, Nat.mul_comm (k / step), Nat.mod_add_div]
  · rw [List.nodup_flatMap]
    refine ⟨fun t _ => nodup_stride hmul, ?_⟩
    refine List.nodup_range.pairwise_of_forall_ne ?_
    intro t ht t' ht' hne j hj hj'
    obtain ⟨-, k, rfl⟩ := (mem_strided hmul).1 hj
    obtain ⟨-, k', he⟩ := (mem_strided hmul).1 hj'
    rw [List.mem_range] at ht ht'
    apply hne
    simp only [← Nat.mul_assoc, ← Nat.add_mul] at he
    have he' := Nat.eq_of_mul_eq_mul_right hwidth he
    rw [← Nat.mod_eq_of_lt ht, ← Nat.mod_eq_of_lt ht', ← Nat.add_mul_mod_self_right t k step, he',
      Nat.add_mul_mod_self_right]

theorem stride_batches {step len n i : Nat} (hstep : 0 < step) (hn : len ≤ i + n) :
    ((stride step len n i).flatMap fun b => List.range' b (min step (len - b))) =
      List.range' i (len - i) := by
  induction n generalizing i with
  | zero =>
    have h0 : len - i = 0 := by omega
    rw [stride, List.flatMap_nil, h0, List.range'_zero]
  | succ n ih =>
    rw [stride]
    split
    · rw [List.flatMap_cons, ih (by omega)]
      by_cases h : step ≤ len - i
      · have hlen : len - i = step + (len - (i + step)) := by omega
        rw [Nat.min_eq_left h, hlen, ← List.range'_append_1]
      · have hlen : len - (i + step) = 0 := by omega
        rw [Nat.min_eq_right (by omega), hlen, List.range'_zero, List.append_nil]
    · have h0 : len - i = 0 := by omega
      rw [List.flatMap_nil, h0, List.range'_zero]

theorem batch_flatMap (r : Nat → List β) (len i width : Nat) :
    ((List.range width).flatMap fun b => if i + b < len then r (i + b) else []) =
      (List.range' i (min width (len - i))).flatMap r := by
  induction width with
  | zero => simp
  | succ n ih =>
    rw [List.range_succ, List.flatMap_append, ih, List.flatMap_singleton]
    split
    · have h1 : min n (len - i) = n := by omega
      have h2 : min (n + 1) (len - i) = n + 1 := by omega
      rw [h1, h2, List.range'_1_concat, List.flatMap_append, List.flatMap_singleton]
    · have h1 : min (n + 1) (len - i) = min n (len - i) := by omega
      rw [h1, List.append_nil]

theorem batches_flatMap_perm {step width : Nat} (len : Nat) (hstep : 0 < step) (hwidth : 0 < width)
    (r : Nat → List β) :
    ((List.range step).flatMap fun t => (strided (t * width) (step * width) len).flatMap fun i =>
      (List.range width).flatMap fun b => if i + b < len then r (i + b) else []).Perm
      ((List.range len).flatMap r) := by
  rw [← List.flatMap_assoc]
  refine ((strided_batches_perm len hstep hwidth).flatMap_right _).trans (List.Perm.of_eq ?_)
  simp only [batch_flatMap]
  rw [← List.flatMap_assoc, strided, stride_batches hwidth (Nat.le_add_left _ _), Nat.sub_zero,
    List.range_eq_range']

theorem flatMap_comm (l : List α) (l' : List α') (f : α → α' → List β) :
    (l.flatMap fun a => l'.flatMap fun b => f a b).Perm
      (l'.flatMap fun b => l.flatMap fun a => f a b) := by
  have h := Multiset.bind_bind (l : Multiset α) (l' : Multiset α')
    (f := fun a b => (f a b : Multiset β))
  simpa only [Multiset.coe_bind, Multiset.coe_eq_coe] using h

theorem strided_flatMap_perm {step : Nat} (len : Nat) (hstep : 0 < step) (f : Nat → List β) :
    ((List.range step).flatMap fun t => (strided t step len).flatMap f).Perm
      ((List.range len).flatMap f) := by
  rw [← List.flatMap_assoc]
  exact (strided_perm len hstep).flatMap_right f

theorem strided_map_perm {step : Nat} (len : Nat) (hstep : 0 < step) (f : Nat → β) :
    ((List.range step).flatMap fun t => (strided t step len).map f).Perm
      ((List.range len).map f) := by
  rw [← List.map_flatMap]
  exact (strided_perm len hstep).map f

theorem finRange_flatMap (n : Nat) (f : Nat → List β) :
    ((List.finRange n).flatMap fun i => f i.val) = (List.range n).flatMap f := by
  rw [← List.map_coe_finRange_eq_range, List.flatMap_map]

section Grid

variable {σ ι : Type*} {R : σ → ι → σ → List β → Prop} {I : σ → Prop} {ref : ι → List β}

/-- A block works through its items; `R` is what it does with one. -/
inductive Items (R : σ → ι → σ → List β → Prop) : σ → List ι → σ → List β → Prop where
  | nil (m : σ) : Items R m [] m []
  | cons {m m' m'' : σ} {i : ι} {is : List ι} {out outs : List β} (h : R m i m' out)
      (hs : Items R m' is m'' outs) : Items R m (i :: is) m'' (out ++ outs)

theorem Items.perm (hR : ∀ m, ∀ i ∈ is, ∀ m' out, I m → R m i m' out → I m' ∧ out.Perm (ref i))
    {m m' : σ} {outs : List β} (h : Items R m is m' outs) (hm : I m) :
    I m' ∧ outs.Perm (is.flatMap ref) := by
  induction h with
  | nil => exact ⟨hm, .nil⟩
  | cons h _ ih =>
    obtain ⟨hm', hout⟩ := hR _ _ List.mem_cons_self _ _ hm h
    obtain ⟨hm'', houts⟩ := ih (fun m i hi => hR m i (List.mem_cons_of_mem _ hi)) hm'
    exact ⟨hm'', hout.append houts⟩

/-- What a block puts out, item by item, where `I i` holds before item `i`. -/
theorem Items.stride_outputs {R : σ → Nat → σ → List β → Prop} {I : Nat → σ → Prop}
    {P : Nat → List β → Prop} {step len n i : Nat} {m m' : σ} {outs : List β}
    (hR : ∀ i m m' out, i < len → I i m → R m i m' out → I (i + step) m' ∧ P i out)
    (hstep : 0 < step) (h : Items R m (stride step len n i) m' outs) (hm : I i m) :
    ∃ r : Nat → List β, outs = (stride step len n i).flatMap r ∧
      ∀ j ∈ stride step len n i, P j (r j) := by
  induction n generalizing i m outs with
  | zero =>
    cases h
    exact ⟨fun _ => [], rfl, nofun⟩
  | succ n ih =>
    rw [stride] at h ⊢
    split at h
    · next hi =>
      rw [if_pos hi]
      cases h with
      | @cons _ _ _ _ _ out _ h hs =>
        obtain ⟨hm', hP⟩ := hR i m _ _ hi hm h
        obtain ⟨r, rfl, hr⟩ := ih hs hm'
        have hne : ∀ j ∈ stride step len n (i + step), j ≠ i := by
          intro j hj
          obtain ⟨-, k, -, rfl⟩ := mem_stride.1 hj
          have := Nat.zero_le (k * step)
          omega
        refine ⟨Function.update r i out, ?_, ?_⟩
        · rw [List.flatMap_cons, Function.update_self]
          congr 1
          apply List.flatMap_congr
          intro j hj
          rw [Function.update_of_ne (hne j hj)]
        · intro j hj
          rcases List.mem_cons.1 hj with rfl | hj
          · rw [Function.update_self]
            exact hP
          · rw [Function.update_of_ne (hne j hj)]
            exact hr j hj
    · next hi =>
      rw [if_neg hi]
      cases h
      exact ⟨fun _ => [], rfl, nofun⟩

theorem Items.mono {R' : σ → ι → σ → List β → Prop}
    (hR : ∀ m i m' out, R m i m' out → R' m i m' out) {m m' : σ} {is : List ι} {outs : List β}
    (h : Items R m is m' outs) : Items R' m is m' outs := by
  induction h with
  | nil m => exact .nil m
  | cons h _ ih => exact .cons (hR _ _ _ _ h) ih

theorem exists_items (hR : ∀ m i, ∃ m' out, R m i m' out) (m : σ) (is : List ι) :
    ∃ m' outs, Items R m is m' outs := by
  induction is generalizing m with
  | nil => exact ⟨m, [], .nil m⟩
  | cons i is ih =>
    obtain ⟨m', out, h⟩ := hR m i
    obtain ⟨m'', outs, hs⟩ := ih m'
    exact ⟨m'', out ++ outs, .cons h hs⟩

/-- A launch: every block starts as `start` says and takes its share of the items; what the
blocks put out is mixed. -/
def Launch (start : σ → Prop) (R : σ → Nat → σ → List β → Prop) (gridDim len : Nat)
    (outs : List β) : Prop :=
  ∃ f : Nat → List β, outs.Perm ((List.range gridDim).flatMap f) ∧
    ∀ b < gridDim, ∃ m m', start m ∧ Items R m (strided b gridDim len) m' (f b)

/-- A launch does with every item what one block does with it. -/
theorem Launch.perm {R : σ → Nat → σ → List β → Prop} {ref : Nat → List β} {start : σ → Prop}
    {gridDim len : Nat} {outs : List β} (h : Launch start R gridDim len outs)
    (hstart : ∀ m, start m → I m)
    (hR : ∀ m i m' out, I m → R m i m' out → I m' ∧ out.Perm (ref i)) (hgrid : 0 < gridDim) :
    outs.Perm ((List.range len).flatMap ref) := by
  obtain ⟨f, houts, hf⟩ := h
  refine houts.trans (List.Perm.trans ?_ (strided_flatMap_perm len hgrid ref))
  apply List.Perm.flatMap_left
  intro b hb
  obtain ⟨m, m', hm, hitems⟩ := hf b (List.mem_range.1 hb)
  exact (hitems.perm (fun m i _ => hR m i) (hstart m hm)).2

theorem exists_launch {R : σ → Nat → σ → List β → Prop} {start : σ → Prop}
    (hstart : ∃ m, start m) (hR : ∀ m i, ∃ m' out, R m i m' out) (gridDim len : Nat) :
    ∃ outs, Launch start R gridDim len outs := by
  obtain ⟨m, hm⟩ := hstart
  choose m' f hf using fun b => exists_items hR m (strided b gridDim len)
  exact ⟨_, f, .refl _, fun b _ => ⟨m, m' b, hm, hf b⟩⟩

end Grid

section Scatter

variable {ι : Type*} [DecidableEq ι]

def scatter (m : ι → β) (ws : List (ι × β)) : ι → β :=
  ws.foldl (fun m w => Function.update m w.1 w.2) m

/-- Writes that all come from one function leave its value, whatever their order. -/
theorem scatter_eq {m f : ι → β} {ws : List (ι × β)} (hf : ∀ w ∈ ws, w.2 = f w.1)
    (hi : m i = f i ∨ ∃ w ∈ ws, w.1 = i) : scatter m ws i = f i := by
  induction ws generalizing m with
  | nil =>
    rcases hi with hi | ⟨w, hw, -⟩
    · exact hi
    · cases hw
  | cons w ws ih =>
    apply ih fun w' hw' => hf w' (List.mem_cons_of_mem w hw')
    have hw := hf w List.mem_cons_self
    by_cases he : w.1 = i
    · subst he
      exact .inl ((Function.update_self ..).trans hw)
    · rcases hi with hi | ⟨w', hw', he'⟩
      · exact .inl ((Function.update_of_ne (Ne.symm he) ..).trans hi)
      · rcases List.mem_cons.1 hw' with rfl | hw'
        · exact absurd he' he
        · exact .inr ⟨w', hw', he'⟩

theorem scatter_keeps {m : ι → β} {ws : List (ι × β)} (hi : ∀ w ∈ ws, w.1 ≠ i) :
    scatter m ws i = m i := by
  induction ws generalizing m with
  | nil => rfl
  | cons w ws ih =>
    exact (ih fun w' hw' => hi w' (List.mem_cons_of_mem w hw')).trans
      (Function.update_of_ne (hi w List.mem_cons_self).symm ..)

/-- The writes of all threads between two barriers, in some order, and the array after them. -/
def Written {threads : Nat} (writes : Fin threads → List (ι × β)) (m m' : ι → β) : Prop :=
  ∃ ws, ws.Perm ((List.finRange threads).flatMap writes) ∧ m' = scatter m ws

theorem Written.eq {threads : Nat} {writes : Fin threads → List (ι × β)} {m m' f : ι → β}
    (h : Written writes m m') (hf : ∀ t, ∀ w ∈ writes t, w.2 = f w.1)
    (hi : ∃ t, ∃ w ∈ writes t, w.1 = i) : m' i = f i := by
  obtain ⟨ws, hws, rfl⟩ := h
  apply scatter_eq
  · intro w hw
    obtain ⟨t, -, hw⟩ := List.mem_flatMap.1 (hws.mem_iff.1 hw)
    exact hf t w hw
  · obtain ⟨t, w, hw, he⟩ := hi
    exact .inr ⟨w, hws.mem_iff.2 (List.mem_flatMap.2 ⟨t, List.mem_finRange t, hw⟩), he⟩

theorem Written.keeps {threads : Nat} {writes : Fin threads → List (ι × β)} {m m' : ι → β}
    (h : Written writes m m') (hi : ∀ t, ∀ w ∈ writes t, w.1 ≠ i) : m' i = m i := by
  obtain ⟨ws, hws, rfl⟩ := h
  apply scatter_keeps
  intro w hw
  obtain ⟨t, -, hw⟩ := List.mem_flatMap.1 (hws.mem_iff.1 hw)
  exact hi t w hw

theorem exists_written {threads : Nat} (writes : Fin threads → List (ι × β)) (m : ι → β) :
    ∃ m', Written writes m m' :=
  ⟨_, _, .refl _, rfl⟩

end Scatter

end Omission.Lib
