import Mathlib.Data.List.Induction
import Mathlib.Data.List.Nodup

namespace Omission.Lib
set_option autoImplicit true

/-- What is let through by a filter that remembers the keys it has seen. -/
def firsts [DecidableEq κ] (key : α → κ) (xs : List α) : List α :=
  xs.foldl (fun out x => if key x ∈ out.map key then out else out ++ [x]) []

section Firsts

variable {κ : Type*} [DecidableEq κ] {key : α → κ} {xs : List α} {x : α}

@[simp] theorem firsts_nil : firsts key [] = [] := rfl

theorem firsts_step : firsts key (xs ++ [x]) =
    if key x ∈ (firsts key xs).map key then firsts key xs else firsts key xs ++ [x] :=
  List.foldl_append ..

/-- No key is left out. -/
theorem mem_map_firsts (k : κ) : k ∈ (firsts key xs).map key ↔ k ∈ xs.map key := by
  induction xs using List.reverseRecOn with
  | nil => rfl
  | append_singleton xs x ih =>
    rw [firsts_step, List.map_append, List.mem_append, ← ih, List.map_singleton,
      List.mem_singleton]
    split
    · next hmem => exact ⟨.inl, fun h => h.elim id fun he => he ▸ hmem⟩
    · rw [List.map_append, List.mem_append, List.map_singleton, List.mem_singleton]

/-- The filter may as well look at all keys that have come so far. -/
theorem firsts_concat : firsts key (xs ++ [x]) =
    if key x ∈ xs.map key then firsts key xs else firsts key xs ++ [x] := by
  rw [firsts_step, if_congr (mem_map_firsts (key x)) rfl rfl]

/-- No key is let through twice. -/
theorem nodup_map_firsts : ((firsts key xs).map key).Nodup := by
  induction xs using List.reverseRecOn with
  | nil => exact List.nodup_nil
  | append_singleton xs x ih =>
    rw [firsts_step]
    split
    · exact ih
    · next hnew =>
      rw [List.map_append, List.map_singleton]
      exact List.nodup_append.2 ⟨ih, List.nodup_singleton _, by
        intro a ha b hb hab
        rw [List.mem_singleton] at hb
        exact hnew (hb ▸ hab ▸ ha)⟩

theorem firsts_sublist : List.Sublist (firsts key xs) xs := by
  induction xs using List.reverseRecOn with
  | nil => exact List.Sublist.slnil
  | append_singleton xs x ih =>
    rw [firsts_step]
    split
    · exact ih.trans (List.sublist_append_left xs [x])
    · exact ih.append (List.Sublist.refl [x])

end Firsts

end Omission.Lib
