import Mathlib.Data.List.Perm.Basic
import Mathlib.Data.List.Flatten

namespace Omission.Lib
set_option autoImplicit true

/-- Where a slot changes its content, what the slots hold together changes by just that. -/
theorem count_flatMap_set [DecidableEq β] {xs : List α} {i : Nat} {a b : α}
    (h : xs[i]? = some a) (f : α → List β) (x : β) :
    ((xs.set i b).flatMap f).count x + (f a).count x =
      (xs.flatMap f).count x + (f b).count x := by
  obtain ⟨hi, rfl⟩ := List.getElem?_eq_some_iff.1 h
  have hold := ((List.getElem_cons_eraseIdx_perm hi).flatMap_right f).count_eq x
  have hnew := ((List.set_perm_cons_eraseIdx hi b).flatMap_right f).count_eq x
  rw [List.flatMap_cons, List.count_append] at hold hnew
  omega

theorem flatMap_replicate_nil {f : α → List β} {a : α} (h : f a = []) (n : Nat) :
    (List.replicate n a).flatMap f = [] := by
  rw [List.flatMap_eq_nil_iff]
  intro b hb
  rw [List.eq_of_mem_replicate hb, h]

end Omission.Lib
