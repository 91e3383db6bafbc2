namespace Omission.Lib
set_option autoImplicit true

/-- Exchange two entries of an array; an index outside has no result. -/
def exchange (p : Vector α n) (i j : Nat) : Option (Vector α n) :=
  if h : i < n ∧ j < n then some ((p.set i p[j]).set j p[i]) else none

/-- An exchange keeps the entries. -/
theorem exchange_perm (p : Vector α n) (hi : i < n) (hj : j < n) :
    ∃ q, exchange p i j = some q ∧ q.toList.Perm p.toList := by
  refine ⟨p.swap i j, dif_pos ⟨hi, hj⟩, ?_⟩
  exact (Vector.swap_perm hi hj).toList

/-- `p` holds the first entries of `d`. -/
def Prefix (p : Vector α m) (d : Vector α n) : Prop :=
  ∀ (i : Nat) (h : i < m) (h' : i < n), p[i] = d[i]

theorem Prefix.exchange {p : Vector α m} {d : Vector α n} (h : Prefix p d) (hmn : m ≤ n)
    (hi : i < m) (hj : j < m) :
    ∃ p' d', Lib.exchange p i j = some p' ∧ Lib.exchange d i j = some d' ∧ Prefix p' d' := by
  refine ⟨_, _, dif_pos ⟨hi, hj⟩, dif_pos ⟨by omega, by omega⟩, ?_⟩
  intro k hk hk'
  simp only [Vector.getElem_set, h i hi (by omega), h j hj (by omega), h k hk hk']

/-- Behind an exchange with the last of the first `m + 1` entries, the first `m` are the others of
these. -/
theorem getElem?_exchange {l : List α} (hk : k ≤ m) (hm : m < l.length) (hi : i < m) :
    ∃ i' ≤ m, i' ≠ k ∧ ((l.set k l[m]).set m l[k])[i]? = l[i']? := by
  by_cases hik : i = k
  · refine ⟨m, Nat.le_refl m, by omega, ?_⟩
    rw [List.getElem?_set_ne (by omega), hik, List.getElem?_set_self (by omega),
      List.getElem?_eq_getElem hm]
  · refine ⟨i, Nat.le_of_lt hi, hik, ?_⟩
    rw [List.getElem?_set_ne (by omega), List.getElem?_set_ne (Ne.symm hik)]

end Omission.Lib
