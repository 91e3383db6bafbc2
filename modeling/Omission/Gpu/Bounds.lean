import Mathlib.Data.List.Infix
import Omission.Gpu.Moves

namespace Omission.Gpu.Pipeline
open Omission.Lib
set_option autoImplicit true

variable {R : Run} {s t u : State} {l : Len} {kernel : Kernel} {rest : List Kernel}
  {origin : Bool} {Q : Nat → Prop}

def Access.InBounds : Access → Prop
  | .record l i => i < l.max_len
  | .read _ k _ _ => k < threads_per_run
  | .write k _ _ => k < threads_per_run

instance : DecidablePred Access.InBounds := by
  intro a
  cases a <;> exact Nat.decLt _ _

theorem batch_wired (origin : Bool) : ∀ p ∈ (batch origin).tails, ∀ kernel ∈ p.head?,
    ∀ l ∈ kernel.input, (∀ k ∈ p, k.output ≠ some l) ∧
      (l ∈ consumed origin ∨ kernel = .copy l) ∧
      (l = .filter_seeds → kernel ∈ [.filter_origin, .filter_gradvecs_1,
        .init_seeds init_octaves, .init_seeds init_octaves_full]) := by
  cases origin <;> decide

theorem input_produced (h : kernel :: rest <:+ batch origin) (hl : kernel.input = some l) :
    ∀ k ∈ kernel :: rest, k.output ≠ some l :=
  (batch_wired origin _ ((List.mem_tails _ _).2 h) kernel rfl l hl).1

theorem move_program (h : Move R s t) :
    t.program = s.program ∨ ∃ kernel, s.program = kernel :: t.program ∧ s.pending = [] ∧
      ∀ i < kernel.items s, i ∈ s.taken := by
  cases h with
  | pass => exact .inl rfl
  | take hp hi hn ht => exact .inl (take_frame (take_cases ht)).1
  | emit => exact .inl rfl
  | commit => exact .inl apply_program
  | next hp hq hi => exact .inr ⟨_, hp, hq, hi⟩

theorem move_suffix (h : Move R s t) : t.program <:+ s.program := by
  rcases move_program h with hp | ⟨kernel, hp, -⟩
  · rw [hp]
  · rw [hp]
    exact List.suffix_cons kernel t.program

theorem move_len (h : Move R s t) (hl : ∀ k ∈ s.program, k.output ≠ some l) :
    t.len l = s.len l := by
  cases h with
  | pass hp =>
    apply claim_len_of_ne
    rintro rfl
    exact hl _ (hp ▸ List.mem_cons_self) rfl
  | take hp hi hn ht => rw [(take_frame (take_cases ht)).2.1]
  | emit hp hout =>
    apply claim_len_of_ne
    rintro rfl
    exact hl _ (hp ▸ List.mem_cons_self) hout
  | commit => rw [apply_len]
  | next => rfl

def Fits (origin : Bool) (s : State) : Prop :=
  ∀ l ∈ consumed origin, (∀ k ∈ s.program, k.output ≠ some l) → (s.len l).toNat ≤ l.max_len

theorem Fits.back (h : Move R s t) (hf : Fits origin t) : Fits origin s := by
  intro l hl hout
  rw [← move_len h hout]
  exact hf l hl fun k hk => hout k ((move_suffix h).subset hk)

/-- The seed indices of the records in flight and of those still to be read satisfy `Q`. -/
structure Held (Q : Nat → Prop) (s : State) : Prop where
  seen : ∀ k ∈ s.seen, Q k
  issued : ∀ l i r, .record l i r ∈ s.pending → Q r.seed_index.toNat
  own : ∀ l i r, .record l i r ∈ s.pending → s.program.head?.bind Kernel.output = some l
  stored : ∀ l ≠ .filter_seeds, (∃ k ∈ s.program, k.input = some l) →
    ∀ i < (s.len l).toNat, i < l.max_len →
      Q (s.data l.buffer i).seed_index.toNat ∨ ∃ r, .record l i r ∈ s.pending

theorem Held.input (h : Held Q s) (hs : s.program <:+ batch origin)
    (hp : s.program = kernel :: rest) (hl : kernel.input = some l) (hne : l ≠ .filter_seeds)
    (hi : i < (s.len l).toNat) (hi' : i < l.max_len) :
    Q (s.data l.buffer i).seed_index.toNat := by
  have hmem : kernel ∈ s.program := hp ▸ List.mem_cons_self
  rcases h.stored l hne ⟨kernel, hmem, hl⟩ i hi hi' with hQ | ⟨r, hr⟩
  · exact hQ
  · have hout := h.own l i r hr
    rw [hp] at hout
    exact absurd hout (input_produced (hp ▸ hs) hl kernel List.mem_cons_self)

theorem Held.pass (h : Held Q s) (f : Nat → BitVec 64) (taken : List Nat) :
    Held Q (State.claim { s with taken := taken } .filter_seeds fun r => .seed r (f r)) where
  seen := h.seen
  issued := by
    intro l i r hr
    rcases mem_claim.1 hr with ⟨-, hr⟩ | hr
    · cases hr
    · exact h.issued l i r hr
  own := by
    intro l i r hr
    rcases mem_claim.1 hr with ⟨-, hr⟩ | hr
    · cases hr
    · exact h.own l i r hr
  stored := by
    intro l hne hl i hi hi'
    rw [claim_len_of_ne hne] at hi
    rcases h.stored l hne hl i hi hi' with hQ | ⟨r, hr⟩
    · exact .inl hQ
    · exact .inr ⟨r, mem_claim.2 (.inr hr)⟩

theorem Held.take (h : Held Q s) (ht : Take R { s with taken := taken } i kernel t)
    (hnew : ∀ k ∈ t.seen, k ∈ s.seen ∨ Q k) : Held Q t := by
  obtain ⟨hprog, hlen, -, hdata, -⟩ := take_frame ht
  have hpend : ∀ l i r, .record l i r ∈ t.pending ↔ .record l i r ∈ s.pending := by
    intro l i r
    have hoct : ∀ {seed k os ws}, R.init_octaves seed k os = some ws →
        .record l i r ∉ ws := by
      intro seed k os ws hw hr
      obtain ⟨o, -, v, -, hv⟩ := mem_init_octaves hw hr
      cases hv
    cases ht with
    | init_seeds hw => simp [hoct hw]
    | late hk hf hw => simp [hoct hw]
    | _ => exact Iff.rfl
  constructor
  · intro k hk
    exact (hnew k hk).elim (h.seen k) id
  · intro l i r hr
    exact h.issued l i r ((hpend l i r).1 hr)
  · intro l i r hr
    rw [hprog]
    exact h.own l i r ((hpend l i r).1 hr)
  · intro l hne hl i hi hi'
    rw [hprog] at hl
    rw [hlen] at hi
    rw [hdata]
    exact (h.stored l hne hl i hi hi').imp_right fun ⟨r, hr⟩ => ⟨r, (hpend l i r).2 hr⟩

theorem toNat_lt_succ {a : BitVec 32} (h : i < (a + 1).toNat) : i < a.toNat ∨ i = a.toNat := by
  rw [BitVec.toNat_add] at h
  have hle : (a.toNat + (1 : BitVec 32).toNat) % 2 ^ 32 ≤ a.toNat + 1 := Nat.mod_le _ _
  omega

theorem Held.emit (h : Held Q s) (hp : s.program = kernel :: rest)
    (hout : kernel.output = some l) (hr : r.seed_index.toNat ∈ s.seen) :
    Held Q (s.claim l fun i => .record l i r) where
  seen := h.seen
  issued := by
    intro l' i r' hr'
    rcases mem_claim.1 hr' with ⟨-, hr'⟩ | hr'
    · cases hr'
      exact h.seen _ hr
    · exact h.issued l' i r' hr'
  own := by
    intro l' i r' hr'
    rcases mem_claim.1 hr' with ⟨-, hr'⟩ | hr'
    · cases hr'
      rw [State.claim, hp]
      exact hout
    · exact h.own l' i r' hr'
  stored := by
    intro l' hne hl' i hi hi'
    by_cases hll : l' = l
    · subst hll
      rw [claim_len_self] at hi
      rcases toNat_lt_succ hi with hi | rfl
      · exact (h.stored l' hne hl' i hi hi').imp_right
          fun ⟨r', hr'⟩ => ⟨r', mem_claim.2 (.inr hr')⟩
      · exact .inr ⟨r, mem_claim.2 (.inl ⟨hi', rfl⟩)⟩
    · rw [claim_len_of_ne hll] at hi
      exact (h.stored l' hne hl' i hi hi').imp_right
        fun ⟨r', hr'⟩ => ⟨r', mem_claim.2 (.inr hr')⟩

theorem Held.commit (h : Held Q s) (hw : s.pending.Perm (w :: ws)) :
    Held Q (w.apply { s with pending := ws }) where
  seen := by
    rw [apply_seen]
    exact h.seen
  issued := by
    intro l i r hr
    rw [apply_pending] at hr
    exact h.issued l i r (hw.mem_iff.2 (List.mem_cons_of_mem w hr))
  own := by
    intro l i r hr
    rw [apply_pending] at hr
    rw [apply_program]
    exact h.own l i r (hw.mem_iff.2 (List.mem_cons_of_mem w hr))
  stored := by
    intro l hne hl i hi hi'
    rw [apply_program] at hl
    rw [apply_len] at hi
    rw [apply_pending]
    have hold := h.stored l hne hl i hi hi'
    have hkeep : (∀ r, w ≠ .record l i r) → (w.apply { s with pending := ws }).data l.buffer i =
        s.data l.buffer i → Q ((w.apply { s with pending := ws }).data l.buffer
          i).seed_index.toNat ∨ ∃ r, .record l i r ∈ ws := by
      intro hw' hd
      rw [hd]
      refine hold.imp_right fun ⟨r, hr⟩ => ⟨r, ?_⟩
      exact (List.mem_cons.1 (hw.mem_iff.1 hr)).resolve_left fun he => hw' r he.symm
    cases w with
    | seed j v => exact hkeep (fun r => nofun) rfl
    | octave k o v => exact hkeep (fun r => nofun) rfl
    | record l' j r =>
      have hQ : Q r.seed_index.toNat := h.issued l' j r (hw.mem_iff.2 List.mem_cons_self)
      by_cases hb : l.buffer = l'.buffer
      · by_cases hij : i = j
        · subst hij
          left
          simpa [Write.apply, hb] using hQ
        · apply hkeep
          · rintro r' ⟨⟩
            exact hij rfl
          · simp [Write.apply, hb, hij]
      · apply hkeep
        · rintro r' ⟨⟩
          exact hb rfl
        · simp [Write.apply, hb]

theorem Held.next (h : Held Q s) (hp : s.program = kernel :: rest) (hq : s.pending = [])
    (flags : Nat → Nat) : Held Q { s with
      program := rest, taken := [], seen := [], late_init_flags := flags } where
  seen := nofun
  issued := by
    intro l i r hr
    rw [hq] at hr
    cases hr
  own := by
    intro l i r hr
    rw [hq] at hr
    cases hr
  stored := by
    rintro l hne ⟨k, hk, hl⟩
    exact h.stored l hne ⟨k, hp ▸ List.mem_cons_of_mem kernel hk, hl⟩

end Omission.Gpu.Pipeline
