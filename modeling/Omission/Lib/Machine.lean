import Mathlib.Data.List.Basic

namespace Omission.Lib

variable {σ ε : Type*} {step : σ → ε → Option σ} {I : σ → Prop} {P : σ → ε → Prop}
  {s t u : σ} {e : ε} {es fs : List ε}

/-- Run a partial step function over a schedule; `none` is an event that is not enabled. -/
def exec (step : σ → ε → Option σ) : σ → List ε → Option σ
  | s, [] => some s
  | s, e :: es => (step s e).bind fun t => exec step t es

@[simp] theorem exec_nil (step : σ → ε → Option σ) (s : σ) : exec step s [] = some s := rfl

theorem exec_cons :
    exec step s (e :: es) = some u ↔ ∃ t, step s e = some t ∧ exec step t es = some u :=
  Option.bind_eq_some_iff

theorem exec_append :
    exec step s (es ++ fs) = some u ↔
      ∃ t, exec step s es = some t ∧ exec step t fs = some u := by
  induction es generalizing s with
  | nil => simp
  | cons e es ih =>
    simp only [List.cons_append, exec_cons, ih]
    constructor
    · rintro ⟨t, ht, v, hv, hu⟩
      exact ⟨v, ⟨t, ht, hv⟩, hu⟩
    · rintro ⟨v, ⟨t, ht, hv⟩, hu⟩
      exact ⟨t, ht, v, hv, hu⟩

/-- Every event of the run is taken in a state where `P` allows it. -/
def Along (step : σ → ε → Option σ) (P : σ → ε → Prop) : σ → List ε → Prop
  | _, [] => True
  | s, e :: es => P s e ∧ ∀ t, step s e = some t → Along step P t es

/-- `I` holds in the first state of the run and in every state it reaches. -/
def Throughout (step : σ → ε → Option σ) (I : σ → Prop) : σ → List ε → Prop
  | s, [] => I s
  | s, e :: es => I s ∧ ∀ t, step s e = some t → Throughout step I t es

theorem along_cons (h : step s e = some t) :
    Along step P s (e :: es) ↔ P s e ∧ Along step P t es := by
  simp only [Along, h, Option.some.injEq, forall_eq']

theorem throughout_cons (h : step s e = some t) :
    Throughout step I s (e :: es) ↔ I s ∧ Throughout step I t es := by
  simp only [Throughout, h, Option.some.injEq, forall_eq']

instance Along.decidable [∀ s e, Decidable (P s e)] :
    ∀ s es, Decidable (Along step P s es)
  | _, [] => isTrue trivial
  | s, e :: es =>
    match h : step s e with
    | none => decidable_of_iff (P s e) (by simp only [Along, h, reduceCtorEq, false_imp_iff,
        implies_true, and_true])
    | some t =>
      have := Along.decidable t es
      decidable_of_iff (P s e ∧ Along step P t es) (along_cons h).symm

instance Throughout.decidable [DecidablePred I] :
    ∀ s es, Decidable (Throughout step I s es)
  | s, [] => inferInstanceAs (Decidable (I s))
  | s, e :: es =>
    match h : step s e with
    | none => decidable_of_iff (I s) (by simp only [Throughout, h, reduceCtorEq, false_imp_iff,
        implies_true, and_true])
    | some t =>
      have := Throughout.decidable t es
      decidable_of_iff (I s ∧ Throughout step I t es) (throughout_cons h).symm

theorem Throughout.head (h : Throughout step I s es) : I s := by
  cases es with
  | nil => exact h
  | cons e es => exact h.1

theorem along_of_forall {P : ε → Prop} (h : ∀ e ∈ es, P e) (s : σ) :
    Along step (fun _ e => P e) s es := by
  induction es generalizing s with
  | nil => trivial
  | cons e es ih =>
    obtain ⟨he, hes⟩ := List.forall_mem_cons.1 h
    exact ⟨he, fun t _ => ih hes t⟩

theorem Along.imp {Q : σ → ε → Prop} (hPQ : ∀ s e, P s e → Q s e) (h : Along step P s es) :
    Along step Q s es := by
  induction es generalizing s with
  | nil => trivial
  | cons e es ih => exact ⟨hPQ s e h.1, fun t ht => ih (h.2 t ht)⟩

theorem Along.append (h : Along step P s es) (he : exec step s es = some t)
    (hf : Along step P t fs) : Along step P s (es ++ fs) := by
  induction es generalizing s with
  | nil =>
    cases he
    exact hf
  | cons e es ih =>
    obtain ⟨u, hu, ht⟩ := exec_cons.1 he
    rw [List.cons_append, along_cons hu]
    exact ⟨h.1, ih (h.2 u hu) ht⟩

/-- An invariant of the steps that `P` allows holds at the end of a run along `P`. -/
theorem Along.invariant (hstep : ∀ s e t, I s → P s e → step s e = some t → I t)
    (ha : Along step P s es) (hs : I s) (he : exec step s es = some u) : I u := by
  induction es generalizing s with
  | nil => cases he; exact hs
  | cons e es ih =>
    obtain ⟨t, ht, hu⟩ := exec_cons.1 he
    exact ih (ha.2 t ht) (hstep s e t hs ha.1 ht) hu

theorem exec_invariant (hstep : ∀ s e t, I s → step s e = some t → I t)
    (hs : I s) (he : exec step s es = some u) : I u := by
  induction es generalizing s with
  | nil => cases he; exact hs
  | cons e es ih =>
    obtain ⟨t, ht, hu⟩ := exec_cons.1 he
    exact ih (hstep s e t hs ht) hu

/-- What steps hand back holds at the start of a run that ends with it. -/
theorem exec_back (hback : ∀ s e t, step s e = some t → I t → I s)
    (he : exec step s es = some u) (hu : I u) : I s := by
  induction es generalizing s with
  | nil => cases he; exact hu
  | cons e es ih =>
    obtain ⟨t, ht, hrest⟩ := exec_cons.1 he
    exact hback s e t ht (ih hrest)

/-- An invariant of the steps from states that the end of the run hands `J` back to. -/
theorem exec_invariant_of_end {J : σ → Prop} (hback : ∀ s e t, step s e = some t → J t → J s)
    (hstep : ∀ s e t, I s → J s → step s e = some t → I t) (hs : I s)
    (he : exec step s es = some u) (hu : J u) : I u := by
  induction es generalizing s with
  | nil => cases he; exact hs
  | cons e es ih =>
    have hJ : J s := exec_back hback he hu
    obtain ⟨t, ht, hrest⟩ := exec_cons.1 he
    exact ih (hstep s e t hs hJ ht) hrest

/-- A run that leaves `P` splits at the first event that `P` does not allow. -/
theorem exists_first_failure (h : ¬ Along step P s es) (he : exec step s es = some u) :
    ∃ xs e ys t, Along step P s xs ∧ exec step s xs = some t ∧ ¬ P t e ∧
      exec step t (e :: ys) = some u := by
  induction es generalizing s with
  | nil => exact absurd trivial h
  | cons e es ih =>
    obtain ⟨t, ht, hu⟩ := exec_cons.1 he
    by_cases hP : P s e
    · have hrest : ¬ Along step P t es := fun ha => h ((along_cons ht).2 ⟨hP, ha⟩)
      obtain ⟨xs, f, ys, v, hxs, hv, hf, hys⟩ := ih hrest hu
      exact ⟨e :: xs, f, ys, v, (along_cons ht).2 ⟨hP, hxs⟩, exec_cons.2 ⟨t, ht, hv⟩, hf, hys⟩
    · exact ⟨[], e, es, s, trivial, rfl, hP, he⟩

/-- Where a step keeps `I` exactly when `P` allows it, a run keeps `I` throughout exactly
when it stays along `P`. -/
theorem throughout_iff_along (hstep : ∀ s e t, I s → step s e = some t → (I t ↔ P s e))
    (hs : I s) (he : exec step s es = some u) :
    Throughout step I s es ↔ Along step P s es := by
  induction es generalizing s with
  | nil => exact ⟨fun _ => trivial, fun _ => hs⟩
  | cons e es ih =>
    obtain ⟨t, ht, hu⟩ := exec_cons.1 he
    have hdet : ∀ t', step s e = some t' → t = t' := by
      intro t' ht'
      exact Option.some.inj (ht.symm.trans ht')
    constructor
    · rintro ⟨-, hrest⟩
      have hIt : I t := (hrest t ht).head
      refine ⟨(hstep s e t hs ht).1 hIt, ?_⟩
      intro t' ht'
      cases hdet t' ht'
      exact (ih hIt hu).1 (hrest t ht)
    · rintro ⟨hP, hrest⟩
      have hIt : I t := (hstep s e t hs ht).2 hP
      refine ⟨hs, ?_⟩
      intro t' ht'
      cases hdet t' ht'
      exact (ih hIt hu).2 (hrest t ht)

section Loop

variable {f : σ → ε → Option σ} {Q : σ → Prop} {l : List ε} {x : ε}

/-- A loop whose body always succeeds and keeps `Q` succeeds and keeps `Q`. -/
theorem foldlM_keeps (hstep : ∀ s, ∀ x ∈ l, ∃ t, f s x = some t ∧ (Q s → Q t)) (s : σ) :
    ∃ t, l.foldlM f s = some t ∧ (Q s → Q t) := by
  induction l generalizing s with
  | nil => exact ⟨s, rfl, id⟩
  | cons x l ih =>
    obtain ⟨t, ht, hst⟩ := hstep s x List.mem_cons_self
    obtain ⟨u, hu, htu⟩ := ih (fun s y hy => hstep s y (List.mem_cons_of_mem x hy)) t
    exact ⟨u, by rw [List.foldlM_cons, ht]; exact hu, fun hs => htu (hst hs)⟩

theorem foldlM_reaches (hstep : ∀ s, ∀ y ∈ l, ∃ t, f s y = some t ∧ (Q s → Q t))
    (hx : x ∈ l) (hQ : ∀ s, ∃ t, f s x = some t ∧ Q t) (s : σ) :
    ∃ t, l.foldlM f s = some t ∧ Q t := by
  induction l generalizing s with
  | nil => exact absurd hx List.not_mem_nil
  | cons y l ih =>
    have hrest : ∀ s, ∀ z ∈ l, ∃ t, f s z = some t ∧ (Q s → Q t) :=
      fun s z hz => hstep s z (List.mem_cons_of_mem y hz)
    rcases List.mem_cons.1 hx with rfl | hx
    · obtain ⟨t, ht, hQt⟩ := hQ s
      obtain ⟨u, hu, htu⟩ := foldlM_keeps hrest t
      exact ⟨u, by rw [List.foldlM_cons, ht]; exact hu, htu hQt⟩
    · obtain ⟨t, ht, -⟩ := hstep s y List.mem_cons_self
      obtain ⟨u, hu, hQu⟩ := ih hrest hx t
      exact ⟨u, by rw [List.foldlM_cons, ht]; exact hu, hQu⟩

theorem rel_bind {α α' β β' : Type*} {R : α → α' → Prop} {Q : β → β' → Prop} {a : Option α}
    {a' : Option α'} {k : α → Option β} {k' : α' → Option β'} (h : Option.Rel R a a')
    (hk : ∀ x x', R x x' → Option.Rel Q (k x) (k' x')) :
    Option.Rel Q (a.bind k) (a'.bind k') := by
  cases h with
  | none => exact .none
  | some hx => exact hk _ _ hx

/-- Two loops whose bodies keep two states related, or both fail, do the same. -/
theorem foldlM_rel {τ : Type*} {g : τ → ε → Option τ} {R : σ → τ → Prop} {t : τ}
    (hstep : ∀ s t, ∀ x ∈ l, R s t → Option.Rel R (f s x) (g t x)) (h : R s t) :
    Option.Rel R (l.foldlM f s) (l.foldlM g t) := by
  induction l generalizing s t with
  | nil => exact .some h
  | cons x l ih =>
    rw [List.foldlM_cons, List.foldlM_cons]
    apply rel_bind (hstep s t x List.mem_cons_self h)
    intro s' t' h'
    exact ih (fun s t y hy => hstep s t y (List.mem_cons_of_mem x hy)) h'

theorem foldlM_unique {g : σ → ε → Option σ}
    (hstep : ∀ s x a b, f s x = some a → g s x = some b → a = b)
    (hf : l.foldlM f s = some t) (hg : l.foldlM g s = some u) : t = u := by
  induction l generalizing s with
  | nil =>
    cases hf
    cases hg
    rfl
  | cons x l ih =>
    rw [List.foldlM_cons] at hf hg
    obtain ⟨a, ha, hf⟩ := Option.bind_eq_some_iff.1 hf
    obtain ⟨b, hb, hg⟩ := Option.bind_eq_some_iff.1 hg
    cases hstep s x a b ha hb
    exact ih hf hg

end Loop

end Omission.Lib
