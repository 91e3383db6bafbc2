import Mathlib.Data.List.Basic

namespace Omission.Lib
set_option autoImplicit true

/-- An entry of blocks of one length that lie one after the other. -/
theorem getElem?_flatMap_block {l : List α} {f : α → List β} (h : ∀ a ∈ l, (f a).length = n)
    (hj : j < n) (i : Nat) : (l.flatMap f)[i * n + j]? = l[i]?.bind fun a => (f a)[j]? := by
  induction l generalizing i with
  | nil => rfl
  | cons a l ih =>
    obtain ⟨ha, hl⟩ := List.forall_mem_cons.1 h
    rw [List.flatMap_cons]
    cases i with
    | zero =>
      rw [Nat.zero_mul, Nat.zero_add, List.getElem?_append_left (ha ▸ hj)]
      rfl
    | succ i =>
      have hle : (f a).length ≤ (i + 1) * n + j := by
        rw [ha, Nat.succ_mul]
        omega
      have hidx : (i + 1) * n + j - (f a).length = i * n + j := by
        rw [ha, Nat.succ_mul]
        omega
      rw [List.getElem?_append_right hle, hidx, ih hl, List.getElem?_cons_succ]

/-- Write a cell of a memory; there is nothing beyond its end. -/
def store (mem : List α) (p : Nat) (v : α) : Option (List α) :=
  if p < mem.length then some (mem.set p v) else none

/-- Write from `p` on what is computed for the members of a list, where the memory may be read. -/
def storeFrom (value : List α → β → Option α) : List β → Nat → List α → Option (List α)
  | [], _, mem => some mem
  | x :: xs, p, mem => do
    let v ← value mem x
    let mem ← store mem p v
    storeFrom value xs (p + 1) mem

/-- Where what is computed depends only on what lies from `q` on, and the writes end before that,
they leave the values one after the other and all else as it was. -/
theorem storeFrom_eq {value : List α → β → Option α} (f : β → α) {xs : List β} {mem : List α}
    (hp : p + xs.length ≤ mem.length) (hq : p + xs.length ≤ q)
    (hv : ∀ x ∈ xs, ∀ mem' : List α, mem'.drop q = mem.drop q → value mem' x = some (f x)) :
    storeFrom value xs p mem =
      some (mem.take p ++ xs.map f ++ mem.drop (p + xs.length)) := by
  induction xs generalizing p mem with
  | nil => rw [storeFrom, List.map_nil, List.append_nil, List.length_nil, Nat.add_zero,
      List.take_append_drop]
  | cons x xs ih =>
    rw [List.length_cons] at hp hq
    have hlt : p < mem.length := by omega
    have hdrop : ∀ n, p < n → (mem.set p (f x)).drop n = mem.drop n := by
      intro n hn
      rw [List.drop_set_of_lt hn]
    have htake : (mem.set p (f x)).take (p + 1) = mem.take p ++ [f x] := by
      rw [List.take_succ_eq_append_getElem (by rwa [List.length_set]),
        List.take_set_of_le (Nat.le_refl p), List.getElem_set_self]
    have hp' : p + 1 + xs.length ≤ (mem.set p (f x)).length := by
      rw [List.length_set]
      omega
    have hrest := ih hp' (by omega) fun y hy mem' hmem' =>
      hv y (.tail _ hy) mem' (hmem'.trans (hdrop q (by omega)))
    have hend : p + 1 + xs.length = p + (xs.length + 1) := by omega
    rw [storeFrom, hv x (.head _) mem rfl, Option.bind_eq_bind, Option.bind_some, store, if_pos hlt,
      Option.bind_eq_bind, Option.bind_some, hrest, htake, hdrop _ (by omega), List.map_cons,
      List.length_cons, hend]
    simp only [List.append_assoc, List.cons_append, List.nil_append]

end Omission.Lib
