import Mathlib.Data.List.Perm.Basic
import Omission.Gpu.Pipeline

namespace Omission.Gpu.Pipeline
open Omission.Lib
set_option autoImplicit true

variable {R : Run} {s t : State}

/-- Everything one step of a batch can do. -/
inductive Move (R : Run) (s : State) : State → Prop where
  | pass {rest : List Kernel} (hp : s.program = .filter_seeds :: rest) (hi : i < seeds_per_run)
      (hn : i ∉ s.taken) :
      Move R s (State.claim { s with taken := i :: s.taken } .filter_seeds
        fun r => .seed r (R.start_seed + BitVec.ofNat 64 i))
  | take {rest : List Kernel} (hp : s.program = kernel :: rest) (hi : i < kernel.items s)
      (hn : i ∉ s.taken)
      (ht : kernel.take R { s with taken := i :: s.taken } i = some u) : Move R s u
  | emit {rest : List Kernel} (hp : s.program = kernel :: rest) (hl : kernel.output = some l)
      (hr : r.seed_index.toNat ∈ s.seen) : Move R s (s.claim l fun i => .record l i r)
  | commit (hw : s.pending.Perm (w :: ws)) : Move R s (w.apply { s with pending := ws })
  | next {rest : List Kernel} (hp : s.program = kernel :: rest) (hq : s.pending = [])
      (hi : ∀ i < kernel.items s, i ∈ s.taken) :
      Move R s { s with
        program := rest, taken := [], seen := []
        late_init_flags := if kernel = .memset_late_init_flags then
            fun k => if k < threads_per_run then 0 else s.late_init_flags k
          else s.late_init_flags }

theorem getElem?_perm {l : List α} (h : l[i]? = some a) : l.Perm (a :: l.eraseIdx i) := by
  obtain ⟨hi, rfl⟩ := List.getElem?_eq_some_iff.1 h
  exact (List.getElem_cons_eraseIdx_perm hi).symm

theorem step_running {rest : List Kernel} (hp : s.program = kernel :: rest) :
    step R s e = kernel.step R s rest e := by
  rw [step, hp]

theorem step_move (h : step R s e = some t) : Move R s t := by
  cases hp : s.program with
  | nil =>
    rw [step, hp] at h
    cases h
  | cons kernel rest =>
    rw [step_running hp] at h
    cases e with
    | pass i =>
      simp only [Kernel.step, Option.ite_none_right_eq_some, Option.some.injEq] at h
      obtain ⟨⟨rfl, hi, hn⟩, rfl⟩ := h
      exact .pass hp hi hn
    | take i =>
      simp only [Kernel.step, Option.ite_none_right_eq_some] at h
      exact .take hp h.1.1 h.1.2 h.2
    | emit r =>
      cases hl : kernel.output with
      | none =>
        simp only [Kernel.step, hl, reduceCtorEq] at h
      | some l =>
        simp only [Kernel.step, hl, Option.ite_none_right_eq_some, Option.some.injEq] at h
        obtain ⟨hr, rfl⟩ := h
        exact .emit hp hl hr
    | commit i =>
      cases hw : s.pending[i]? with
      | none =>
        simp only [Kernel.step, hw, reduceCtorEq] at h
      | some w =>
        simp only [Kernel.step, hw, Option.some.injEq] at h
        cases h
        exact .commit (getElem?_perm hw)
    | next =>
      simp only [Kernel.step, Option.ite_none_right_eq_some, Option.some.injEq] at h
      obtain ⟨⟨hq, hi⟩, rfl⟩ := h
      exact .next hp hq hi

/-- What a thread does with one loop index, kernel by kernel. -/
inductive Take (R : Run) (s : State) (i : Nat) : Kernel → State → Prop where
  | init_seeds (hw : R.init_octaves (s.seeds i) i os = some ws) :
      Take R s i (.init_seeds os)
        { s with pending := ws ++ s.pending, log := .record .filter_seeds i :: s.log }
  | filter_origin : Take R s i .filter_origin (s.sample .origin (octaves 18) i)
  | filter_gradvecs_1 :
      Take R s i .filter_gradvecs_1 (s.sample .filter_gradvecs_1 [(.A, 0)] i)
  | filter (hk : (s.data inputs.buffer i).seed_index.toNat = k) :
      Take R s i (.filter inputs outputs os)
        (State.sample { s with log := .record inputs i :: s.log } outputs os k)
  | late (hk : (s.data inputs.buffer i).seed_index.toNat = k)
      (hf : s.late_init_flags k = Stage - 1)
      (hw : R.init_octaves (s.seeds k) k (late_octaves Stage) = some ws) :
      Take R s i (.late Stage inputs)
        { s with
          late_init_flags := Function.update s.late_init_flags k Stage
          pending := ws ++ s.pending
          log := .record .filter_seeds k :: .record inputs i :: s.log }
  | late_again (hk : (s.data inputs.buffer i).seed_index.toNat = k)
      (hf : s.late_init_flags k ≠ Stage - 1) :
      Take R s i (.late Stage inputs) { s with log := .record inputs i :: s.log }
  | copy (hk : (s.data outputs.buffer i).seed_index.toNat = k) :
      Take R s i (.copy outputs)
        { s with
          log := (List.range (k + 1)).map (.record .filter_seeds) ++
            .record outputs i :: s.log }

theorem take_cases {kernel : Kernel} (h : kernel.take R s i = some t) : Take R s i kernel t := by
  cases kernel with
  | filter_seeds => cases h
  | memset_late_init_flags => cases h
  | init_seeds os =>
    obtain ⟨ws, hw, h⟩ := Option.bind_eq_some_iff.1 h
    cases h
    exact .init_seeds hw
  | filter_origin =>
    cases h
    exact .filter_origin
  | filter_gradvecs_1 =>
    cases h
    exact .filter_gradvecs_1
  | filter inputs outputs os =>
    cases h
    exact .filter rfl
  | late Stage inputs =>
    simp only [Kernel.take] at h
    split at h
    · next hf =>
      obtain ⟨ws, hw, h⟩ := Option.bind_eq_some_iff.1 h
      cases h
      exact .late rfl hf hw
    · next hf =>
      cases h
      exact .late_again rfl hf
  | copy outputs =>
    cases h
    exact .copy rfl

section Frames

variable {w : Write} {l l' : Len} {f : Nat → Write}

@[simp] theorem apply_program : (w.apply s).program = s.program := by cases w <;> rfl

@[simp] theorem apply_len : (w.apply s).len = s.len := by cases w <;> rfl

@[simp] theorem apply_pending : (w.apply s).pending = s.pending := by cases w <;> rfl

@[simp] theorem apply_taken : (w.apply s).taken = s.taken := by cases w <;> rfl

@[simp] theorem apply_seen : (w.apply s).seen = s.seen := by cases w <;> rfl

@[simp] theorem apply_flags : (w.apply s).late_init_flags = s.late_init_flags := by
  cases w <;> rfl

theorem claim_len_of_ne (h : l ≠ l') : (s.claim l' f).len l = s.len l :=
  Function.update_of_ne h _ _

theorem claim_len_self : (s.claim l f).len l = s.len l + 1 := Function.update_self _ _ _

theorem mem_claim : w ∈ (s.claim l f).pending ↔
    ((s.len l).toNat < l.max_len ∧ w = f (s.len l).toNat) ∨ w ∈ s.pending := by
  unfold State.claim
  split
  · next h => simp [h]
  · next h => simp [h]

end Frames

theorem take_frame {kernel : Kernel} (h : Take R s i kernel t) :
    t.program = s.program ∧ t.len = s.len ∧ t.seeds = s.seeds ∧ t.data = s.data ∧
      t.results = s.results ∧ t.taken = s.taken := by
  cases h <;> exact ⟨rfl, rfl, rfl, rfl, rfl, rfl⟩

/-- The table entry that a store goes to. -/
def Write.entry : Write → Option (Nat × Octave)
  | .octave k o _ => some (k, o)
  | _ => none

theorem init_octaves_entries {os : List Octave} (h : R.init_octaves seed k os = some ws) :
    ws.map Write.entry = os.map fun o => some (k, o) := by
  induction os generalizing ws with
  | nil =>
    cases h
    rfl
  | cons o os ih =>
    rw [Run.init_octaves, List.mapM_cons] at h
    obtain ⟨w, hw, h⟩ := Option.bind_eq_some_iff.1 h
    obtain ⟨ws, hws, h⟩ := Option.bind_eq_some_iff.1 h
    obtain ⟨v, -, rfl⟩ := Option.map_eq_some_iff.1 hw
    cases h
    rw [List.map_cons, List.map_cons, ih hws]
    rfl

theorem mem_init_octaves {os : List Octave} (h : R.init_octaves seed k os = some ws)
    (hw : w ∈ ws) : ∃ o ∈ os, ∃ v, R.noise seed o = some v ∧ w = .octave k o v := by
  induction os generalizing ws with
  | nil =>
    cases h
    cases hw
  | cons o os ih =>
    rw [Run.init_octaves, List.mapM_cons] at h
    obtain ⟨w', hw', h⟩ := Option.bind_eq_some_iff.1 h
    obtain ⟨ws', hws, h⟩ := Option.bind_eq_some_iff.1 h
    obtain ⟨v, hv, rfl⟩ := Option.map_eq_some_iff.1 hw'
    cases h
    rcases List.mem_cons.1 hw with rfl | hw
    · exact ⟨o, List.mem_cons_self, v, hv, rfl⟩
    · obtain ⟨o', ho', hv'⟩ := ih hws hw
      exact ⟨o', List.mem_cons_of_mem o ho', hv'⟩

end Omission.Gpu.Pipeline
