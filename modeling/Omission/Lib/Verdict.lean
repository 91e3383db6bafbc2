import Mathlib.Data.List.Basic

namespace Omission.Lib
set_option autoImplicit true

/-- From `s` the program ends with a verdict, and it accepts in `t` exactly when `P t`. -/
structure Verdict (m : StateT σ Option Bool) (s : σ) (P : σ → Prop) : Prop where
  total : ∃ b t, m s = some (b, t)
  accepts : ∀ t, m s = some (true, t) ↔ P t

namespace Verdict

variable {m n : StateT σ Option Bool} {s t : σ} {P Q : σ → Prop} {c : Prop} [Decidable c]

theorem congr (h : Verdict m s P) (hPQ : ∀ t, P t ↔ Q t) : Verdict m s Q :=
  ⟨h.total, fun t => (h.accepts t).trans (hPQ t)⟩

theorem reject (h : m s = some (false, t)) (hP : ∀ u, ¬ P u) : Verdict m s P := by
  refine ⟨⟨false, t, h⟩, fun u => ?_⟩
  rw [h, iff_false_intro (hP u), iff_false]
  intro he
  cases he

theorem accept (h : m s = some (true, t)) : Verdict m s (· = t) := by
  refine ⟨⟨true, t, h⟩, fun u => ?_⟩
  rw [h, Option.some.injEq, Prod.mk.injEq]
  constructor
  · rintro ⟨-, rfl⟩
    rfl
  · rintro rfl
    exact ⟨rfl, rfl⟩

/-- A program that cannot fail runs first. -/
theorem bind {k : StateT σ Option α} {f : α → StateT σ Option Bool} {a : α}
    (h : k s = some (a, t)) (hf : Verdict (f a) t P) : Verdict (k >>= f) s P := by
  have he : (k >>= f) s = f a t := by
    change (k s).bind _ = _
    rw [h]
    rfl
  constructor
  · rw [he]
    exact hf.total
  · rw [he]
    exact hf.accepts

theorem ite (hm : c → Verdict m s P) (hn : ¬ c → Verdict n s P) :
    Verdict (if c then m else n) s P := by
  by_cases hc : c
  · rw [if_pos hc]
    exact hm hc
  · rw [if_neg hc]
    exact hn hc

/-- A test that rejects, before the rest. -/
theorem guard (hm : c → m s = some (false, t)) (hn : ¬ c → Verdict n s P) :
    Verdict (if c then m else n) s (fun u => ¬ c ∧ P u) :=
  ite (fun hc => reject (hm hc) fun _ h => h.1 hc)
    fun hc => (hn hc).congr fun _ => (and_iff_right hc).symm

/-- The second program runs where the first accepts. -/
theorem seq {R : σ → σ → Prop} (hm : Verdict m s P) (hn : ∀ t, P t → Verdict n t (R t)) :
    Verdict (m >>= fun b => if b then n else pure false) s (fun u => ∃ t, P t ∧ R t u) := by
  obtain ⟨b, t, hb⟩ := hm.total
  apply bind hb
  cases b with
  | true =>
    have ht : P t := (hm.accepts t).1 hb
    rw [if_pos rfl]
    apply (hn t ht).congr
    intro u
    constructor
    · exact fun hu => ⟨t, ht, hu⟩
    · rintro ⟨t', ht', hu⟩
      have he := (hm.accepts t').2 ht'
      rw [hb] at he
      cases he
      exact hu
  | false =>
    rw [if_neg Bool.false_ne_true]
    apply reject (t := t) rfl
    rintro u ⟨t', ht', -⟩
    have he := (hm.accepts t').2 ht'
    rw [hb] at he
    cases he

end Verdict

end Omission.Lib
