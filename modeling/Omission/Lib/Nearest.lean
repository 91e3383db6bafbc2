import Mathlib.Order.Lattice
import Mathlib.Order.Defs.LinearOrder

namespace Omission.Lib
set_option autoImplicit true

section Nearest

variable {α β : Type} [LinearOrder β] (d : α → β)

/-- Keep the first of what is strictly nearer than all before it. -/
def nearer (best : α × β) (l : List α) : α × β :=
  l.foldl (fun best x => if d x < best.2 then (x, d x) else best) best

variable {d}

@[simp]
theorem nearer_nil (best : α × β) : nearer d best [] = best := rfl

theorem nearer_cons (best : α × β) (x : α) (l : List α) :
    nearer d best (x :: l) = nearer d (if d x < best.2 then (x, d x) else best) l := rfl

theorem nearer_append (best : α × β) (l l' : List α) :
    nearer d best (l ++ l') = nearer d (nearer d best l) l' :=
  List.foldl_append

/-- What is no nearer is passed over as a whole. -/
theorem nearer_of_le {best : α × β} {l : List α} (h : ∀ x ∈ l, best.2 ≤ d x) :
    nearer d best l = best := by
  induction l with
  | nil => rfl
  | cons x l ih =>
    rw [nearer_cons, if_neg (Std.not_lt.2 (h x (.head _)))]
    exact ih fun y hy => h y (.tail _ hy)

/-- `x` is the first of the nearest. -/
def FirstNearest (d : α → β) (l : List α) (x : α) : Prop :=
  ∃ pre post, l = pre ++ x :: post ∧ (∀ y ∈ pre, d x < d y) ∧ ∀ y ∈ post, d x ≤ d y

theorem FirstNearest.mem {l : List α} {x : α} (h : FirstNearest d l x) : x ∈ l := by
  obtain ⟨pre, post, rfl, -, -⟩ := h
  exact List.mem_append_right pre (.head _)

theorem FirstNearest.le {l : List α} {x y : α} (h : FirstNearest d l x) (hy : y ∈ l) :
    d x ≤ d y := by
  obtain ⟨pre, post, rfl, hpre, hpost⟩ := h
  rcases List.mem_append.1 hy with hy | hy
  · exact (hpre y hy).le
  · rcases List.mem_cons.1 hy with rfl | hy
    · exact le_rfl
    · exact hpost y hy

/-- The scan keeps what it has, or ends with the first of the nearest. -/
theorem nearer_cases (best : α × β) (l : List α) :
    (nearer d best l = best ∧ ∀ x ∈ l, best.2 ≤ d x) ∨
      ∃ x, nearer d best l = (x, d x) ∧ d x < best.2 ∧ FirstNearest d l x := by
  induction l generalizing best with
  | nil => exact .inl ⟨rfl, fun x hx => nomatch hx⟩
  | cons y l ih =>
    rw [nearer_cons]
    by_cases hy : d y < best.2
    · rw [if_pos hy]
      rcases ih (y, d y) with ⟨he, hl⟩ | ⟨x, he, hx, pre, post, rfl, hpre, hpost⟩
      · exact .inr ⟨y, he, hy, [], l, rfl, fun z hz => (List.not_mem_nil hz).elim, hl⟩
      · refine .inr ⟨x, he, hx.trans hy, y :: pre, post, rfl, ?_, hpost⟩
        exact List.forall_mem_cons.2 ⟨hx, hpre⟩
    · rw [if_neg hy]
      rcases ih best with ⟨he, hl⟩ | ⟨x, he, hx, pre, post, rfl, hpre, hpost⟩
      · exact .inl ⟨he, List.forall_mem_cons.2 ⟨not_lt.1 hy, hl⟩⟩
      · refine .inr ⟨x, he, hx, y :: pre, post, rfl, ?_, hpost⟩
        exact List.forall_mem_cons.2 ⟨hx.trans_le (not_lt.1 hy), hpre⟩

end Nearest

end Omission.Lib
