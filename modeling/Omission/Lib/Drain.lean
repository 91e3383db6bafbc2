import Mathlib.Data.List.Basic
import Mathlib.Data.List.Count
import Mathlib.Logic.Function.Iterate

namespace Omission.Lib
set_option autoImplicit true

/-- One round over the items that wait: the first `n` are tried, and those that fail stay. -/
def drain (n : Nat) (ok : α → Bool) (w : List α) : List α :=
  (w.take n).filter (fun x => !ok x) ++ w.drop n

section Drain

variable {n : Nat} {ok : α → Bool} {w u v : List α} {x : α}

theorem drain_append (h : n ≤ u.length) : drain n ok (u ++ v) = drain n ok u ++ v := by
  rw [drain, drain, List.take_append_of_le_length h, List.drop_append_of_le_length h,
    List.append_assoc]

theorem drain_sublist (n : Nat) (ok : α → Bool) (w : List α) : List.Sublist (drain n ok w) w := by
  have h := (List.filter_sublist (p := fun x => !ok x) (l := w.take n)).append
    (List.Sublist.refl (w.drop n))
  rwa [List.take_append_drop] at h

theorem mem_drain_of_fail (hx : x ∈ w) (hfail : ok x = false) : x ∈ drain n ok w := by
  rw [← List.take_append_drop n w] at hx
  rcases List.mem_append.1 hx with hx | hx
  · exact List.mem_append_left _ (List.mem_filter.2 ⟨hx, by rw [hfail]; rfl⟩)
  · exact List.mem_append_right _ hx

theorem drain_all (hn : w.length ≤ n) (hok : ∀ x ∈ w, ok x = true) : drain n ok w = [] := by
  rw [drain, List.take_of_length_le hn, List.drop_of_length_le hn, List.append_nil,
    List.filter_eq_nil_iff]
  intro x hx
  rw [hok x hx]
  exact Bool.false_ne_true

theorem countP_drain (n : Nat) (ok : α → Bool) (w : List α) :
    (drain n ok w).countP (fun x => !ok x) = w.countP (fun x => !ok x) := by
  conv_rhs => rw [← List.take_append_drop n w]
  rw [drain, List.countP_append, List.countP_append, List.countP_filter]
  simp only [Bool.and_self]

/-- A round in which not all of the first `n` fail leaves fewer items. -/
theorem length_drain_lt (hn : n ≤ w.length) (hfail : w.countP (fun x => !ok x) < n) :
    (drain n ok w).length < w.length := by
  have hle : (w.take n).countP (fun x => !ok x) ≤ w.countP (fun x => !ok x) :=
    (List.take_sublist n w).countP_le
  rw [drain, List.length_append, ← List.countP_eq_length_filter, List.length_drop]
  omega

theorem iterate_drain_sublist (k : Nat) : List.Sublist ((drain n ok)^[k] w) w := by
  induction k generalizing w with
  | zero => exact List.Sublist.refl w
  | succ k ih =>
    rw [Function.iterate_succ_apply]
    exact ih.trans (drain_sublist n ok w)

theorem mem_iterate_drain (k : Nat) (hx : x ∈ w) (hfail : ok x = false) :
    x ∈ (drain n ok)^[k] w := by
  induction k generalizing w with
  | zero => exact hx
  | succ k ih =>
    rw [Function.iterate_succ_apply]
    exact ih (mem_drain_of_fail hx hfail)

/-- Behind `n` items that fail nothing is ever tried. -/
theorem mem_iterate_of_stuck (k : Nat) (hfail : n ≤ u.countP (fun x => !ok x)) :
    x ∈ (drain n ok)^[k] (u ++ x :: v) := by
  induction k generalizing u with
  | zero => exact List.mem_append_right _ List.mem_cons_self
  | succ k ih =>
    have hlen : n ≤ u.length := Nat.le_trans hfail List.countP_le_length
    rw [Function.iterate_succ_apply, drain_append hlen]
    exact ih (by rwa [countP_drain])

theorem exists_drained (hnodup : (u ++ x :: v).Nodup) (hok : ok x = true)
    (hfail : u.countP (fun y => !ok y) < n) : ∃ k, x ∉ (drain n ok)^[k] (u ++ x :: v) := by
  -- on the number of items in front; a full round takes one of them out
  induction hm : u.length using Nat.strongRecOn generalizing u with
  | ind m ih =>
    subst hm
    by_cases hlen : n ≤ u.length
    · have hsub := (drain_sublist n ok u).append (List.Sublist.refl (x :: v))
      obtain ⟨k, hk⟩ := ih _ (length_drain_lt hlen hfail) (hsub.nodup hnodup)
        (by rwa [countP_drain]) rfl
      refine ⟨k + 1, ?_⟩
      rwa [Function.iterate_succ_apply, drain_append hlen]
    · refine ⟨1, ?_⟩
      obtain ⟨hu, -⟩ := List.nodup_cons.1 (List.perm_middle.nodup_iff.1 hnodup)
      have hxu : x ∉ u := fun h => hu (List.mem_append_left _ h)
      have hxv : x ∉ v := fun h => hu (List.mem_append_right _ h)
      obtain ⟨j, hj⟩ : ∃ j, n = u.length + (j + 1) := ⟨n - u.length - 1, by omega⟩
      rw [Function.iterate_one, drain, hj, List.take_length_add_append, List.take_succ_cons,
        List.drop_length_add_append, List.drop_succ_cons, List.mem_append, List.mem_filter]
      rintro (⟨-, hx⟩ | hx)
      · rw [hok] at hx
        cases hx
      · exact hxv (List.mem_of_mem_drop hx)

/-- An item that would succeed is tried in the end exactly when fewer than `n` failing items wait
in front of it. -/
theorem exists_drained_iff (hnodup : (u ++ x :: v).Nodup) (hok : ok x = true) :
    (∃ k, x ∉ (drain n ok)^[k] (u ++ x :: v)) ↔ u.countP (fun y => !ok y) < n := by
  constructor
  · rintro ⟨k, hk⟩
    by_contra hfail
    exact hk (mem_iterate_of_stuck k (Nat.not_lt.1 hfail))
  · exact exists_drained hnodup hok

theorem exists_empty_iff (hn : 0 < n) : (∃ k, (drain n ok)^[k] w = []) ↔ ∀ x ∈ w, ok x = true := by
  constructor
  · rintro ⟨k, hk⟩ x hx
    by_contra hfail
    have hmem := mem_iterate_drain (n := n) k hx (Bool.eq_false_iff.2 hfail)
    rw [hk] at hmem
    cases hmem
  · intro hok
    induction hm : w.length using Nat.strongRecOn generalizing w with
    | ind m ih =>
      subst hm
      by_cases hlen : n ≤ w.length
      · have hcount : w.countP (fun x => !ok x) = 0 := by
          rw [List.countP_eq_zero]
          intro x hx
          rw [hok x hx]
          exact Bool.false_ne_true
        obtain ⟨k, hk⟩ := ih _ (length_drain_lt hlen (by omega))
          (fun x hx => hok x ((drain_sublist n ok w).subset hx)) rfl
        exact ⟨k + 1, hk⟩
      · exact ⟨1, drain_all (by omega) hok⟩

end Drain

end Omission.Lib
