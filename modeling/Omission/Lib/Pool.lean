import Mathlib.Logic.Function.Basic
import Omission.Lib.Grid
import Omission.Lib.Machine

namespace Omission.Lib
set_option autoImplicit true

/-- Threads that fill one grid, each with a list of cells to visit. -/
structure Pool (β : Type u) (gw : Int) where
  grid : Grid β gw
  todo : Nat → List (Int × Int)

namespace Pool

variable {gw : Int} {s u : Pool β gw} {entry : Int → Int → Option β} {value : Int → Int → β}

/-- Thread `t` computes the entry of its next cell and stores it. -/
def step (entry : Int → Int → Option β) (s : Pool β gw) (t : Nat) : Option (Pool β gw) :=
  match s.todo t with
  | [] => none
  | (i, j) :: cs => do
    let v ← entry i j
    let grid ← s.grid.write i j v
    some ⟨grid, Function.update s.todo t cs⟩

/-- Every thread is through with its list. -/
def Joined (s : Pool β gw) : Prop := ∀ t, s.todo t = []

/-- Some order of the threads turns the pool `s` into the grid `g`. -/
def Builds (entry : Int → Int → Option β) (s : Pool β gw) (g : Grid β gw) : Prop :=
  ∃ ts u, exec (step entry) s ts = some u ∧ u.Joined ∧ g = u.grid

/-- In every order of the threads, a thread with a cell left can go on. -/
def Faultless (entry : Int → Int → Option β) (s : Pool β gw) : Prop :=
  ∀ ts u t, exec (step entry) s ts = some u → u.todo t ≠ [] → ∃ v, step entry u t = some v

/-- The threads stay inside the square, and a cell has its value or is on some list. -/
structure Inv (value : Int → Int → β) (s : Pool β gw) : Prop where
  within : ∀ t, ∀ c ∈ s.todo t, Within gw c.1 c.2
  covered : ∀ i j, Within gw i j → s.grid.read i j = some (value i j) ∨ ∃ t, (i, j) ∈ s.todo t

theorem Inv.step_some (h : Inv value s) (hv : ∀ i j, Within gw i j → entry i j = some (value i j))
    (ht : s.todo t = (i, j) :: cs) :
    ∃ g, s.grid.write i j (value i j) = some g ∧ g.read i j = some (value i j) ∧
      (∀ i' j', Within gw i' j' → (i', j') ≠ (i, j) → g.read i' j' = s.grid.read i' j') ∧
      step entry s t = some ⟨g, Function.update s.todo t cs⟩ := by
  have hc : Within gw i j := h.within t (i, j) (by rw [ht]; exact List.mem_cons_self)
  obtain ⟨g, hw, hread, hother⟩ := s.grid.write_spec hc (value i j)
  refine ⟨g, hw, hread, hother, ?_⟩
  simp only [step, ht, hv i j hc, hw, Option.bind_eq_bind, Option.bind_some]

theorem Inv.step (h : Inv value s) (hv : ∀ i j, Within gw i j → entry i j = some (value i j))
    (hs : Pool.step entry s t = some u) : Inv value u := by
  cases ht : s.todo t with
  | nil => simp [Pool.step, ht] at hs
  | cons c cs =>
    obtain ⟨i, j⟩ := c
    obtain ⟨g, -, hread, hother, hstep⟩ := h.step_some hv ht
    cases hs.symm.trans hstep
    constructor
    · intro t' c hc
      apply h.within t' c
      dsimp only at hc
      by_cases htt : t' = t
      · subst htt
        rw [Function.update_self] at hc
        rw [ht]
        exact List.mem_cons_of_mem _ hc
      · rwa [Function.update_of_ne htt] at hc
    · intro i' j' hc
      by_cases hne : (i', j') = (i, j)
      · cases hne
        exact .inl hread
      · rcases h.covered i' j' hc with hval | ⟨t', hmem⟩
        · exact .inl ((hother i' j' hc hne).trans hval)
        · refine .inr ⟨t', ?_⟩
          dsimp only
          by_cases htt : t' = t
          · subst htt
            rw [ht] at hmem
            rw [Function.update_self]
            exact (List.mem_cons.1 hmem).resolve_left hne
          · rwa [Function.update_of_ne htt]

theorem Inv.exec (h : Inv value s) (hv : ∀ i j, Within gw i j → entry i j = some (value i j))
    (hs : exec (Pool.step entry) s ts = some u) : Inv value u :=
  exec_invariant (fun _ _ _ h hs => h.step hv hs) h hs

theorem Inv.faultless (h : Inv value s)
    (hv : ∀ i j, Within gw i j → entry i j = some (value i j)) : Faultless entry s := by
  intro ts u t hu ht
  cases hcs : u.todo t with
  | nil => exact absurd hcs ht
  | cons c cs =>
    obtain ⟨g, -, -, -, hstep⟩ := (h.exec hv hu).step_some hv hcs
    exact ⟨_, hstep⟩

/-- Whatever the order of the threads, each cell ends with its value. -/
theorem Inv.builds_read (h : Inv value s)
    (hv : ∀ i j, Within gw i j → entry i j = some (value i j)) (hg : Builds entry s g)
    (hc : Within gw i j) : g.read i j = some (value i j) := by
  obtain ⟨ts, u, hu, hjoin, rfl⟩ := hg
  rcases (h.exec hv hu).covered i j hc with hval | ⟨t, hmem⟩
  · exact hval
  · rw [hjoin t] at hmem
    exact absurd hmem List.not_mem_nil

theorem Inv.exists_builds (h : Inv value s)
    (hv : ∀ i j, Within gw i j → entry i j = some (value i j))
    (hn : ∀ t, n ≤ t → s.todo t = []) : ∃ g, Builds entry s g := by
  induction n generalizing s with
  | zero => exact ⟨s.grid, [], s, rfl, fun t => hn t (Nat.zero_le t), rfl⟩
  | succ n ih =>
    induction hl : s.todo n generalizing s with
    | nil =>
      apply ih h
      intro t ht
      rcases Nat.eq_or_lt_of_le ht with rfl | hlt
      · exact hl
      · exact hn t hlt
    | cons c cs ihl =>
      obtain ⟨i, j⟩ := c
      obtain ⟨g, -, -, -, hstep⟩ := h.step_some hv hl
      have hrest : ∀ t, n + 1 ≤ t → Function.update s.todo n cs t = [] := by
        intro t ht
        rw [Function.update_of_ne (by omega)]
        exact hn t ht
      obtain ⟨g', ts, u, hu, hjoin, rfl⟩ :=
        ihl (h.step hv hstep) hrest (Function.update_self n cs s.todo)
      exact ⟨u.grid, n :: ts, u, exec_cons.2 ⟨_, hstep, hu⟩, hjoin, rfl⟩

end Pool

end Omission.Lib
