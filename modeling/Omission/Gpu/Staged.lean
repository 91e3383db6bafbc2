import Omission.Gpu.Reads

namespace Omission.Gpu.Pipeline
open Omission.Lib
set_option autoImplicit true

variable {R : Run} {s t u : State} {l : Len} {kernel : Kernel} {rest : List Kernel}
  {es : List Event} {old : State} {k : Nat} {o : Octave}

/-- The late stage that initialises an octave; 0 is `KernelSeed1::kernel`. -/
def stage : Octave → Nat
  | (_, n + 6) => n + 2
  | (_, _ + 2) => 1
  | _ => 0

/-- The highest octave that the filter with these outputs may sample. -/
def last_octave : Len → Nat
  | .filter_2 i => i + 5
  | _ => 1

def Kernel.late_stage : Kernel → Option (Nat × Len)
  | .late Stage inputs => some (Stage, inputs)
  | _ => none

def Kernel.samples : Kernel → Option (Len × List Octave)
  | .filter_gradvecs_1 => some (.filter_gradvecs_1, [(.A, 0)])
  | .filter _ outputs octaves => some (outputs, octaves)
  | _ => none

/-- How many late stages have finished when this much of the batch is left. -/
def level (program : List Kernel) : Nat :=
  if .memset_late_init_flags ∈ program then 0
  else 4 - program.countP fun kernel => kernel.late_stage.isSome

theorem late_octaves_count (h1 : 1 ≤ Stage) (h4 : Stage ≤ 4) (o : Octave) :
    (late_octaves Stage).count o = if stage o = Stage then 1 else 0 := by
  have hsplit : Stage = 1 ∨ Stage = 2 ∨ Stage = 3 ∨ Stage = 4 := by omega
  obtain ⟨half, n⟩ := o
  rcases hsplit with rfl | rfl | rfl | rfl <;> cases half <;>
    rcases n with _ | _ | _ | _ | _ | _ | _ | _ | _ | n <;> simp [late_octaves, stage]

theorem init_octaves_count (o : Octave) :
    init_octaves.count o = if stage o = 0 then 1 else 0 := by
  obtain ⟨half, n⟩ := o
  cases half <;> rcases n with _ | _ | _ | _ | _ | _ | _ | n <;> simp [init_octaves, stage]

theorem samples_wired : ∀ p ∈ (batch false).tails, ∀ kernel ∈ p.head?, ∀ x ∈ kernel.samples,
    ∀ o ∈ x.2, (stage o = 0 ∨ .memset_late_init_flags ∉ p) ∧ stage o ≤ level p ∧
      o.2 ≤ last_octave x.1 := by
  decide

theorem late_wired : ∀ p ∈ (batch false).tails, ∀ kernel ∈ p.head?, ∀ x ∈ kernel.late_stage,
    1 ≤ x.1 ∧ x.1 ≤ 4 ∧ .memset_late_init_flags ∉ p ∧ level p = x.1 - 1 ∧ level p.tail = x.1 ∧
      ∀ k ∈ p.tail, ∀ l ∈ k.input, l = x.2 ∨ ∃ k' ∈ p.tail, k'.output = some l := by
  decide

def Kernel.initialises : Kernel → Option (List Octave)
  | .init_seeds octaves => some octaves
  | _ => none

theorem mem_head (hp : s.program = kernel :: rest) : kernel ∈ s.program.head? := by
  rw [hp]
  rfl

theorem level_wired : ∀ p ∈ (batch false).tails, ∀ kernel ∈ p.head?,
    (kernel.late_stage = none → level p.tail = level p) ∧ .filter_seeds ∉ p.tail ∧
      .init_seeds init_octaves ∉ p.tail.tail ∧
      (kernel ≠ .filter_seeds → .init_seeds init_octaves ∉ p.tail) ∧
      kernel ≠ .filter_origin ∧
      (∀ os ∈ kernel.initialises, os = init_octaves) ∧
      (∀ k ∈ p.tail, ∀ l ∈ k.output, kernel.output ≠ some l) ∧
      (.filter_seeds ∈ kernel.output → kernel = .filter_seeds) ∧
      (kernel = .filter_gradvecs_1 → level p = 0) ∧
      (kernel = .memset_late_init_flags → .memset_late_init_flags ∉ p.tail) := by
  decide

theorem seeds_wired : ∀ p ∈ (batch false).tails, .filter_seeds ∈ p ∨
    ∀ k ∈ p, k.output ≠ some .filter_seeds := by
  decide

/-- The table entry that an access writes. -/
def Access.entry : Access → Option (Nat × Octave)
  | .write k o _ => some (k, o)
  | _ => none

def issued (s : State) (k : Nat) (o : Octave) : Nat :=
  (s.pending.map Write.entry).count (some (k, o)) + (s.log.map Access.entry).count (some (k, o))

theorem count_log {extra log : List Access} (h : ∀ a ∈ extra, a.entry = none) (k : Nat)
    (o : Octave) : ((extra ++ log).map Access.entry).count (some (k, o)) =
      (log.map Access.entry).count (some (k, o)) := by
  have hzero : (extra.map Access.entry).count (some (k, o)) = 0 := by
    apply List.count_eq_zero_of_not_mem
    intro hm
    obtain ⟨a, ha, he⟩ := List.mem_map.1 hm
    rw [h a ha] at he
    cases he
  rw [List.map_append, List.count_append, hzero, Nat.zero_add]

theorem count_init_octaves {os : List Octave} (h : R.init_octaves seed k' os = some ws) (k : Nat)
    (o : Octave) : (ws.map Write.entry).count (some (k, o)) =
      if k = k' then os.count o else 0 := by
  rw [init_octaves_entries h]
  split
  · next hk =>
    subst hk
    exact List.count_map_of_injective os (fun o => some (k, o))
      (fun a b hab => by simpa using hab) o
  · next hk =>
    apply List.count_eq_zero_of_not_mem
    intro hm
    obtain ⟨o', -, he⟩ := List.mem_map.1 hm
    cases he
    exact hk rfl

theorem issued_commit (hw : s.pending.Perm (w :: ws)) (k : Nat) (o : Octave) :
    issued (w.apply { s with pending := ws }) k o = issued s k o := by
  have hcount := (hw.map Write.entry).count_eq (some (k, o))
  rw [issued, issued, apply_pending, hcount]
  cases w with
  | seed i v => simp [Write.apply, Write.entry]
  | record l i r => simp [Write.apply, Write.entry]
  | octave k' o' v =>
    simp only [Write.apply, Write.entry, Access.entry, List.map_cons, List.count_cons]
    omega

structure Filtering (s : State) : Prop where
  program : s.program = batch false
  pending : ∀ w ∈ s.pending, ∃ i v, w = .seed i v
  log : s.log = []
  seen : s.seen = []
  len : ∀ l ≠ .filter_seeds, s.len l = 0

/-- The seed indices that the records in flight may have. -/
def Ready (s : State) (k : Nat) : Prop :=
  k < (s.len .filter_seeds).toNat ∧ level s.program ≤ s.late_init_flags k

/-- The stage of octave `o` has been reached for seed index `k`. -/
def Due (s : State) (k : Nat) (o : Octave) : Prop :=
  if stage o = 0 then
    if .init_seeds init_octaves ∈ s.program then k ∈ s.taken else k < (s.len .filter_seeds).toNat
  else .memset_late_init_flags ∉ s.program ∧ stage o ≤ s.late_init_flags k

instance (s : State) (k : Nat) (o : Octave) : Decidable (Due s k o) := by
  unfold Due
  infer_instance

/-- A filter has read an octave that this batch has written, from the seed it belongs to. -/
def Fresh (R : Run) (s : State) (l : Len) (k : Nat) (o : Octave) (v : ImprovedNoise)
    (before : List Access) : Prop :=
  o.2 ≤ last_octave l ∧ k < (s.len .filter_seeds).toNat ∧ R.noise (s.seeds k) o = some v ∧
    .write k o v ∈ before

/-- After `filter_seeds` has ended. -/
structure Staged (R : Run) (s : State) : Prop where
  seeded : .filter_seeds ∉ s.program
  seeds : ∀ i v, .seed i v ∉ s.pending
  held : Held (Ready s) s
  unused : ∀ k ∈ s.program.tail, ∀ l ∈ k.output, s.len l = 0
  advanced : ∀ kernel ∈ s.program.head?, ∀ x ∈ kernel.late_stage, ∀ i ∈ s.taken,
    x.1 ≤ s.late_init_flags (s.data x.2.buffer i).seed_index.toNat
  initialising : .init_seeds init_octaves ∈ s.program →
    ∀ k ∈ s.taken, k < (s.len .filter_seeds).toNat
  count : ∀ k < threads_per_run, ∀ o, issued s k o = if Due s k o then 1 else 0
  quiet : ∀ kernel ∈ s.program.head?, kernel.samples ≠ none → ∀ k o v, .octave k o v ∉ s.pending
  issued : ∀ k o v, .octave k o v ∈ s.pending → R.noise (s.seeds k) o = some v
  written : ∀ k o v, .write k o v ∈ s.log →
    R.noise (s.seeds k) o = some v ∧ s.results k o = v
  sampled : ∀ l k o v before, .read l k o v :: before <:+ s.log → Fresh R s l k o v before

theorem Held.mono {P Q : Nat → Prop} (h : Held P s) (hPQ : ∀ k, P k → Q k) : Held Q s where
  seen k hk := hPQ k (h.seen k hk)
  issued l i r hr := hPQ _ (h.issued l i r hr)
  own := h.own
  stored l hne hl i hi hi' := (h.stored l hne hl i hi hi').imp_left (hPQ _)

theorem suffix_append_cases {extra log before : List Access} {a : Access}
    (h : a :: before <:+ extra ++ log) : (a ∈ extra ∧ log ⊆ before) ∨ a :: before <:+ log := by
  induction extra with
  | nil => exact .inr h
  | cons b extra ih =>
    rcases List.suffix_cons_iff.1 h with heq | hsuf
    · cases heq
      exact .inl ⟨List.mem_cons_self, List.subset_append_right _ _⟩
    · exact (ih hsuf).imp_left fun ⟨ha, hlog⟩ => ⟨List.mem_cons_of_mem b ha, hlog⟩

theorem Staged.fresh (h : Staged R s) (hk : k < threads_per_run)
    (hn : k < (s.len .filter_seeds).toNat) (hq : ∀ k o v, .octave k o v ∉ s.pending)
    (hdue : Due s k o) (hlast : o.2 ≤ last_octave l) :
    Fresh R s l k o (s.results k o) s.log := by
  have hpend : (s.pending.map Write.entry).count (some (k, o)) = 0 := by
    apply List.count_eq_zero_of_not_mem
    intro hm
    obtain ⟨w, hw, he⟩ := List.mem_map.1 hm
    cases w with
    | octave k' o' v => exact hq k' o' v hw
    | _ => cases he
  have hcount := h.count k hk o
  rw [Pipeline.issued, hpend, if_pos hdue, Nat.zero_add] at hcount
  obtain ⟨a, ha, he⟩ := List.mem_map.1
    (List.count_pos_iff.1 (hcount ▸ Nat.one_pos : 0 < (s.log.map Access.entry).count (some (k, o))))
  cases a with
  | write k' o' v =>
    cases he
    obtain ⟨hv, hres⟩ := h.written k o v ha
    exact ⟨hlast, hn, hres ▸ hv, hres ▸ ha⟩
  | _ => cases he

theorem Staged.look (h : Staged R s) (hinit : .init_seeds init_octaves ∉ s.program)
    (taken' seen' : List Nat) (extra : List Access) (hnone : ∀ a ∈ extra, a.entry = none)
    (hheld : Held (Ready s) { s with taken := taken', seen := seen', log := extra ++ s.log })
    (hadv : ∀ kernel ∈ s.program.head?, ∀ x ∈ kernel.late_stage, ∀ i ∈ taken',
      x.1 ≤ s.late_init_flags (s.data x.2.buffer i).seed_index.toNat)
    (hread : ∀ l k o v, .read l k o v ∈ extra → Fresh R s l k o v s.log) :
    Staged R { s with taken := taken', seen := seen', log := extra ++ s.log } where
  seeded := h.seeded
  seeds := h.seeds
  held := hheld
  unused := h.unused
  advanced := hadv
  initialising hm := absurd hm hinit
  count := by
    intro k hk o
    have hdue : Due { s with taken := taken', seen := seen', log := extra ++ s.log } k o ↔
        Due s k o := by
      simp only [Due, hinit, if_false]
    rw [Pipeline.issued, count_log hnone, if_congr hdue rfl rfl]
    exact h.count k hk o
  quiet := h.quiet
  issued := h.issued
  written := by
    intro k o v hw
    rcases List.mem_append.1 hw with hw | hw
    · cases hnone _ hw
    · exact h.written k o v hw
  sampled := by
    intro l k o v before hsuf
    rcases suffix_append_cases hsuf with ⟨hr, hsub⟩ | hsuf
    · obtain ⟨hlast, hn, hv, hw⟩ := hread l k o v hr
      exact ⟨hlast, hn, hv, hsub hw⟩
    · exact h.sampled l k o v before hsuf

theorem Staged.written_octave (h : Staged R s) (hm : .octave k o v ∈ s.pending)
    (hw : .write k' o' v' ∈ Access.write k o v :: s.log) :
    R.noise (s.seeds k') o' = some v' ∧
      Function.update s.results k (Function.update (s.results k) o v) k' o' = v' := by
  have hv : R.noise (s.seeds k) o = some v := h.issued k o v hm
  by_cases hko : k' = k ∧ o' = o
  · obtain ⟨rfl, rfl⟩ := hko
    have hv' : R.noise (s.seeds k') o' = some v' := by
      rcases List.mem_cons.1 hw with heq | hw
      · cases heq
        exact hv
      · exact (h.written k' o' v' hw).1
    rw [Function.update_self, Function.update_self]
    exact ⟨hv', Option.some.inj (hv.symm.trans hv')⟩
  · have hw' : .write k' o' v' ∈ s.log := by
      rcases List.mem_cons.1 hw with heq | hw
      · cases heq
        exact absurd ⟨rfl, rfl⟩ hko
      · exact hw
    obtain ⟨hnoise, hresult⟩ := h.written k' o' v' hw'
    refine ⟨hnoise, ?_⟩
    rw [← hresult]
    by_cases hk : k' = k
    · subst hk
      rw [Function.update_self, Function.update_of_ne fun ho => hko ⟨rfl, ho⟩]
    · rw [Function.update_of_ne hk]

theorem Staged.commit (h : Staged R s) (hw : s.pending.Perm (w :: ws)) :
    Staged R (w.apply { s with pending := ws }) := by
  have hsub : ∀ w' ∈ ws, w' ∈ s.pending := fun w' hw' => hw.mem_iff.2 (List.mem_cons_of_mem w hw')
  have hmem : w ∈ s.pending := hw.mem_iff.2 List.mem_cons_self
  have hheld : Held (Ready (w.apply { s with pending := ws }))
      (w.apply { s with pending := ws }) := by
    refine (h.held.commit hw).mono fun k hk => ?_
    rw [Ready, apply_len, apply_program, apply_flags]
    exact hk
  have hcount : ∀ k < threads_per_run, ∀ o, Pipeline.issued (w.apply { s with pending := ws }) k o =
      if Due (w.apply { s with pending := ws }) k o then 1 else 0 := by
    intro k hk o
    have hdue : Due (w.apply { s with pending := ws }) k o ↔ Due s k o := by
      rw [Due, Due, apply_program, apply_taken, apply_len, apply_flags]
    rw [issued_commit hw, if_congr hdue rfl rfl]
    exact h.count k hk o
  cases w with
  | seed i v => exact absurd hmem (h.seeds i v)
  | record l i r =>
    exact {
      seeded := h.seeded
      seeds := fun i v hv => h.seeds i v (hsub _ hv)
      held := hheld
      unused := h.unused
      advanced := by
        intro kernel hkernel x hx
        have hown := h.held.own l i r hmem
        have hnone : kernel.output = none := by
          cases kernel <;> first | rfl | cases hx
        have hhead : s.program.head? = some kernel := hkernel
        rw [hhead] at hown
        exact absurd (hnone.symm.trans hown) nofun
      initialising := h.initialising
      count := hcount
      quiet := fun kernel hk hs k o v hm => h.quiet kernel hk hs k o v (hsub _ hm)
      issued := fun k o v hm => h.issued k o v (hsub _ hm)
      written := h.written
      sampled := h.sampled }
  | octave k o v =>
    exact {
      seeded := h.seeded
      seeds := fun i v hv => h.seeds i v (hsub _ hv)
      held := hheld
      unused := h.unused
      advanced := h.advanced
      initialising := h.initialising
      count := hcount
      quiet := fun kernel hk hs k o v hm => h.quiet kernel hk hs k o v (hsub _ hm)
      issued := fun k o v hm => h.issued k o v (hsub _ hm)
      written := fun _ _ _ hw' => h.written_octave hmem hw'
      sampled := by
        intro l k' o' v' before hsuf
        rcases List.suffix_cons_iff.1 hsuf with heq | hsuf
        · cases heq
        · exact h.sampled l k' o' v' before hsuf }

theorem Staged.emit (h : Staged R s) (hs : s.program <:+ batch false)
    (hp : s.program = kernel :: rest) (hl : kernel.output = some l)
    (hr : r.seed_index.toNat ∈ s.seen) : Staged R (s.claim l fun i => .record l i r) := by
  obtain ⟨-, -, -, -, -, -, htail, hseeds, -⟩ :=
    level_wired _ ((List.mem_tails _ _).2 hs) kernel (mem_head hp)
  have hne : l ≠ .filter_seeds := by
    rintro rfl
    exact h.seeded (hp ▸ hseeds hl ▸ List.mem_cons_self)
  have hlen : (s.claim l fun i => .record l i r).len .filter_seeds = s.len .filter_seeds :=
    claim_len_of_ne hne.symm
  have hpend : ∀ w, (∀ l i r, w ≠ .record l i r) →
      w ∈ (s.claim l fun i => .record l i r).pending → w ∈ s.pending := by
    intro w hw hm
    rcases mem_claim.1 hm with ⟨-, rfl⟩ | hm
    · exact absurd rfl (hw _ _ _)
    · exact hm
  exact {
    seeded := h.seeded
    seeds := fun i v hm => h.seeds i v (hpend _ nofun hm)
    held := by
      refine (h.held.emit hp hl hr).mono fun k hk => ?_
      rw [Ready, hlen]
      exact hk
    unused := by
      intro k hk l' hl'
      rw [claim_len_of_ne]
      · exact h.unused k hk l' hl'
      · rintro rfl
        exact htail k hk l' hl' hl
    advanced := h.advanced
    initialising := by
      intro hm
      rw [hlen]
      exact h.initialising hm
    count := by
      intro k hk o
      have hdue : Due (s.claim l fun i => .record l i r) k o ↔ Due s k o := by
        rw [Due, Due, hlen]
        exact Iff.rfl
      rw [if_congr hdue rfl rfl, ← h.count k hk o]
      unfold Pipeline.issued State.claim
      split <;> simp [Write.entry]
    quiet := fun kernel hk hs k o v hm => h.quiet kernel hk hs k o v (hpend _ nofun hm)
    issued := fun k o v hm => h.issued k o v (hpend _ nofun hm)
    written := h.written
    sampled := by
      intro l' k o v before hsuf
      obtain ⟨hlast, hn, hv, hw⟩ := h.sampled l' k o v before hsuf
      exact ⟨hlast, hlen.symm ▸ hn, hv, hw⟩ }

theorem Staged.issue (h : Staged R s) (hhead : s.program = kernel :: rest)
    (hk : kernel.samples = none) (hw : R.init_octaves (s.seeds k) k os = some ws)
    (taken' : List Nat) (flags' : Nat → Nat) (extra : List Access)
    (hextra : ∀ a ∈ extra, ∃ l i, a = .record l i)
    (hflags : ∀ k, s.late_init_flags k ≤ flags' k)
    (hheld : Held (Ready s) { s with
      taken := taken', late_init_flags := flags', pending := ws ++ s.pending
      log := extra ++ s.log })
    (hadv : ∀ x ∈ kernel.late_stage, ∀ i ∈ taken',
      x.1 ≤ flags' (s.data x.2.buffer i).seed_index.toNat)
    (hinit : .init_seeds init_octaves ∈ s.program →
      ∀ k ∈ taken', k < (s.len .filter_seeds).toNat)
    (hdue : ∀ k' < threads_per_run, ∀ o,
      ((if k' = k then os.count o else 0) + if Due s k' o then 1 else 0) =
        if Due { s with taken := taken', late_init_flags := flags' } k' o then 1 else 0) :
    Staged R { s with
      taken := taken', late_init_flags := flags', pending := ws ++ s.pending
      log := extra ++ s.log } where
  seeded := h.seeded
  seeds := by
    intro i v hm
    rcases List.mem_append.1 hm with hm | hm
    · obtain ⟨o, -, v, -, he⟩ := mem_init_octaves hw hm
      cases he
    · exact h.seeds i v hm
  held := hheld.mono fun k' hk' => ⟨hk'.1, hk'.2.trans (hflags k')⟩
  unused := h.unused
  advanced := by
    intro kernel' hk'
    rw [hhead] at hk'
    cases hk'
    exact hadv
  initialising := hinit
  count := by
    intro k' hk' o
    have hlog : ((extra ++ s.log).map Access.entry).count (some (k', o)) =
        (s.log.map Access.entry).count (some (k', o)) := by
      apply count_log
      intro a ha
      obtain ⟨l, i, rfl⟩ := hextra a ha
      rfl
    rw [Pipeline.issued, hlog, List.map_append, List.count_append, count_init_octaves hw,
      Nat.add_assoc]
    change _ + Pipeline.issued s k' o = _
    rw [h.count k' hk' o, hdue k' hk' o]
    rfl
  quiet := by
    intro kernel' hk' hsamples
    rw [hhead] at hk'
    cases hk'
    exact absurd hk hsamples
  issued := by
    intro k' o v hm
    rcases List.mem_append.1 hm with hm | hm
    · obtain ⟨o', -, v', hv, he⟩ := mem_init_octaves hw hm
      cases he
      exact hv
    · exact h.issued k' o v hm
  written := by
    intro k' o v hm
    rcases List.mem_append.1 hm with hm | hm
    · obtain ⟨l, i, he⟩ := hextra _ hm
      cases he
    · exact h.written k' o v hm
  sampled := by
    intro l k' o v before hsuf
    rcases suffix_append_cases hsuf with ⟨hr, -⟩ | hsuf
    · obtain ⟨l, i, he⟩ := hextra _ hr
      cases he
    · exact h.sampled l k' o v before hsuf

theorem running_tail (hs : s.program <:+ batch false) (hseeded : .filter_seeds ∉ s.program)
    (hp : s.program = kernel :: rest) : .init_seeds init_octaves ∉ rest := by
  obtain ⟨-, -, -, htail, -⟩ := level_wired _ ((List.mem_tails _ _).2 hs) kernel (mem_head hp)
  rw [hp] at htail
  exact htail fun he => hseeded (hp ▸ he ▸ List.mem_cons_self)

theorem due_of_ready (hinit : .init_seeds init_octaves ∉ s.program)
    (hready : Ready s k) (hstage : stage o = 0 ∨ .memset_late_init_flags ∉ s.program)
    (ho : stage o ≤ level s.program) : Due s k o := by
  unfold Due
  split
  · exact hready.1
  · next hne => exact ⟨hstage.resolve_left hne, ho.trans hready.2⟩

theorem Staged.take_sampling (h : Staged R s) (hs : s.program <:+ batch false)
    (hp : s.program = kernel :: rest) (hsamples : kernel.samples = some (l, os))
    (hk : k < threads_per_run) (hready : Ready s k)
    (hinit : .init_seeds init_octaves ∉ s.program) (taken' : List Nat) (extra : List Access)
    (hextra : ∀ a ∈ extra, ∃ l i, a = .record l i)
    (hheld : Held (Ready s) (State.sample { s with
      taken := taken', log := extra ++ s.log } l os k)) :
    Staged R (State.sample { s with taken := taken', log := extra ++ s.log } l os k) := by
  have hhead : kernel ∈ s.program.head? := mem_head hp
  have hq := h.quiet kernel hhead (by rw [hsamples]; exact nofun)
  have hfresh : ∀ o ∈ os, Fresh R s l k o (s.results k o) s.log := by
    intro o ho
    obtain ⟨hstage, hle, hlast⟩ := samples_wired _ ((List.mem_tails _ _).2 hs) kernel hhead _
      hsamples o ho
    exact h.fresh hk hready.1 hq (due_of_ready hinit hready hstage hle) hlast
  have happ : os.map (fun o => Access.read l k o (s.results k o)) ++ (extra ++ s.log) =
      (os.map (fun o => Access.read l k o (s.results k o)) ++ extra) ++ s.log :=
    (List.append_assoc _ _ _).symm
  unfold State.sample at hheld ⊢
  simp only [happ] at hheld ⊢
  apply h.look hinit taken' (k :: s.seen)
  · intro a ha
    rcases List.mem_append.1 ha with ha | ha
    · obtain ⟨o, -, rfl⟩ := List.mem_map.1 ha
      rfl
    · obtain ⟨l, i, rfl⟩ := hextra a ha
      rfl
  · exact hheld
  · intro kernel' hk' x hx
    rw [hp] at hk'
    cases hk'
    cases kernel with
    | late => cases hsamples
    | _ => cases hx
  · intro l' k' o v hr
    rcases List.mem_append.1 hr with hr | hr
    · obtain ⟨o', ho', he⟩ := List.mem_map.1 hr
      cases he
      exact hfresh _ ho'
    · obtain ⟨l, i, he⟩ := hextra _ hr
      cases he

theorem Staged.init_due (hinit : .init_seeds init_octaves ∈ s.program) (hn : i ∉ s.taken)
    (k : Nat) (o : Octave) :
    ((if k = i then init_octaves.count o else 0) + if Due s k o then 1 else 0) =
      if Due { s with taken := i :: s.taken } k o then 1 else 0 := by
  rw [init_octaves_count]
  by_cases ho : stage o = 0
  · have hdue : ∀ s' : State, .init_seeds init_octaves ∈ s'.program →
        (Due s' k o ↔ k ∈ s'.taken) := by
      intro s' hs'
      rw [Due, if_pos ho, if_pos hs']
    rw [if_congr (hdue s hinit) rfl rfl,
      if_congr (hdue { s with taken := i :: s.taken } hinit) rfl rfl, if_pos ho]
    by_cases hk : k = i
    · subst hk
      rw [if_pos rfl, if_neg hn, if_pos List.mem_cons_self]
    · have hmem : k ∈ i :: s.taken ↔ k ∈ s.taken := by simp [hk]
      rw [if_neg hk, Nat.zero_add, if_congr hmem rfl rfl]
  · have hdue : Due { s with taken := i :: s.taken } k o ↔ Due s k o := by
      rw [Due, Due, if_neg ho, if_neg ho]
    rw [if_congr hdue rfl rfl, if_neg ho, ite_self, Nat.zero_add]

theorem Staged.late_due (hmemset : .memset_late_init_flags ∉ s.program)
    (hinit : .init_seeds init_octaves ∉ s.program) (h1 : 1 ≤ Stage) (h4 : Stage ≤ 4)
    (hflag : s.late_init_flags k = Stage - 1) (taken' : List Nat) (k' : Nat) (o : Octave) :
    ((if k' = k then (late_octaves Stage).count o else 0) + if Due s k' o then 1 else 0) =
      if Due { s with
        taken := taken', late_init_flags := Function.update s.late_init_flags k Stage } k' o
      then 1 else 0 := by
  rw [late_octaves_count h1 h4]
  unfold Due
  simp only [hinit, hmemset, if_false, not_false_eq_true, true_and]
  by_cases hk : k' = k
  · subst hk
    rw [Function.update_self, hflag, if_pos rfl]
    by_cases ho : stage o = 0
    · have hne : ¬ 0 = Stage := by omega
      simp only [ho, hne, if_true, if_false, Nat.zero_add]
    · simp only [ho, if_false]
      split_ifs <;> omega
  · rw [Function.update_of_ne hk, if_neg hk, Nat.zero_add]

theorem late_flags_le (hflag : s.late_init_flags k = Stage - 1) (k' : Nat) :
    s.late_init_flags k' ≤ Function.update s.late_init_flags k Stage k' := by
  by_cases hk : k' = k
  · rw [hk, Function.update_self, hflag]
    exact Nat.sub_le _ _
  · rw [Function.update_of_ne hk]

theorem Staged.advanced_late (h : Staged R s) (hp : s.program = .late Stage inputs :: rest)
    (hk : k = (s.data inputs.buffer i).seed_index.toNat) :
    ∀ j ∈ i :: s.taken, Stage ≤ Function.update s.late_init_flags k Stage
      (s.data inputs.buffer j).seed_index.toNat := by
  intro j hj
  by_cases hjk : (s.data inputs.buffer j).seed_index.toNat = k
  · rw [hjk, Function.update_self]
  · rw [Function.update_of_ne hjk]
    rcases List.mem_cons.1 hj with rfl | hj
    · exact absurd hk.symm hjk
    · exact h.advanced _ (mem_head hp) _ rfl j hj

theorem Staged.take (h : Staged R s) (hs : s.program <:+ batch false) (hf : Fits false s)
    (hp : s.program = kernel :: rest) (hi : i < kernel.items s) (hn : i ∉ s.taken)
    (ht : Take R { s with taken := i :: s.taken } i kernel t) : Staged R t := by
  have hhead : kernel ∈ s.program.head? := mem_head hp
  obtain ⟨-, -, -, htail, horigin, hos, -, -, hgrad, -⟩ :=
    level_wired _ ((List.mem_tails _ _).2 hs) kernel hhead
  have hlate := late_wired _ ((List.mem_tails _ _).2 hs) kernel hhead
  have hrest : .init_seeds init_octaves ∉ rest := running_tail hs h.seeded hp
  have hdone : kernel ≠ .init_seeds init_octaves → .init_seeds init_octaves ∉ s.program := by
    rw [hp]
    exact fun hne hm => hrest ((List.mem_cons.1 hm).resolve_left hne.symm)
  have hlimit : (s.len .filter_seeds).toNat ≤ threads_per_run :=
    hf .filter_seeds (by decide)
      ((seeds_wired _ ((List.mem_tails _ _).2 hs)).resolve_left h.seeded)
  have hheld : (∀ k ∈ t.seen, k ∈ s.seen ∨ Ready s k) → Held (Ready s) t := h.held.take ht
  have hrecord : ∀ l, kernel.input = some l → l ≠ .filter_seeds →
      Ready s (s.data l.buffer i).seed_index.toNat :=
    fun l hl hne => h.held.record hs hf hp hl hne hi
  have hinput : ∀ l, kernel.input = some l → i < (s.len l).toNat :=
    fun l hl => (items_lt hs hf hp hl hi).1
  cases ht with
  | filter_origin => exact absurd rfl horigin
  | @init_seeds os ws hw =>
    obtain rfl : os = init_octaves := hos os rfl
    have hinit : .init_seeds init_octaves ∈ s.program := hp ▸ List.mem_cons_self
    apply h.issue hp rfl hw (i :: s.taken) s.late_init_flags [.record .filter_seeds i]
    · simp
    · exact fun k => le_rfl
    · exact hheld fun _ => .inl
    · nofun
    · intro _ k hk
      rcases List.mem_cons.1 hk with rfl | hk
      · exact hinput _ rfl
      · exact h.initialising hinit k hk
    · exact fun k _ o => init_due hinit hn k o
  | filter_gradvecs_1 =>
    have hready : Ready s i := ⟨hinput _ rfl, hgrad rfl ▸ Nat.zero_le _⟩
    exact h.take_sampling hs hp rfl ((hinput _ rfl).trans_le hlimit) hready
      (hdone nofun) (i :: s.taken) [] nofun (hheld (Held.met hready))
  | filter hk =>
    have hready := hk ▸ hrecord _ rfl (not_seeds hs hp rfl (by simp))
    exact h.take_sampling hs hp rfl (hready.1.trans_le hlimit) hready
      (hdone nofun) (i :: s.taken) [_] (by simp) (hheld (Held.met hready))
  | @late k Stage ws inputs hk hflag hw =>
    obtain ⟨h1, h4, hmemset, -⟩ := hlate _ rfl
    have hinit : .init_seeds init_octaves ∉ s.program := hdone nofun
    apply h.issue hp rfl hw (i :: s.taken) (Function.update s.late_init_flags k Stage)
      [.record .filter_seeds k, .record inputs i]
    · simp
    · exact late_flags_le hflag
    · exact hheld fun _ => .inl
    · intro x hx j hj
      cases hx
      exact h.advanced_late hp hk.symm j hj
    · exact fun hm => absurd hm hinit
    · exact fun k' _ o => late_due hmemset hinit h1 h4 hflag _ k' o
  | @late_again k Stage inputs hk hflag =>
    obtain ⟨h1, -, -, hlevel, -⟩ := hlate _ rfl
    have hready := hk ▸ hrecord _ rfl (not_seeds hs hp rfl (by simp))
    apply h.look (hdone nofun) (i :: s.taken) s.seen [.record inputs i]
    · simp [Access.entry]
    · exact hheld fun _ => .inl
    · intro kernel' hk' x hx j hj
      rw [hp] at hk'
      cases hk'
      cases hx
      rcases List.mem_cons.1 hj with rfl | hj
      · have hlow : Stage - 1 ≤ s.late_init_flags k := hlevel ▸ hready.2
        change Stage ≤ s.late_init_flags (s.data inputs.buffer j).seed_index.toNat
        change s.late_init_flags k ≠ Stage - 1 at hflag
        rw [hk]
        omega
      · exact h.advanced _ hhead _ rfl j hj
    · simp
  | @copy k outputs hk =>
    have hlook := h.look (hdone nofun) (i :: s.taken) s.seen
      ((List.range (k + 1)).map (.record .filter_seeds) ++ [.record outputs i])
      (by simp [Access.entry, or_imp, forall_and])
    simp only [List.append_assoc, List.cons_append, List.nil_append] at hlook
    apply hlook (hheld fun _ => .inl)
    · intro kernel' hk' x hx
      rw [hp] at hk'
      cases hk'
      cases hx
    · simp

theorem Staged.held_next (h : Staged R s) (hs : s.program <:+ batch false)
    (hp : s.program = kernel :: rest) (hq : s.pending = [])
    (hi : ∀ i < kernel.items s, i ∈ s.taken) {flags' : Nat → Nat}
    (hflags : ∀ k, level rest ≤ s.late_init_flags k → level rest ≤ flags' k) :
    Held (fun k => k < (s.len .filter_seeds).toNat ∧ level rest ≤ flags' k)
      { s with program := rest, taken := [], seen := [], late_init_flags := flags' } := by
  have hhead : kernel ∈ s.program.head? := mem_head hp
  have hnext := h.held.next hp hq flags'
  cases hstage : kernel.late_stage with
  | none =>
    obtain ⟨hlevel, -⟩ := level_wired _ ((List.mem_tails _ _).2 hs) kernel hhead
    have hrest : level rest = level s.program := by
      rw [← hlevel hstage, hp]
      rfl
    exact hnext.mono fun k hk => ⟨hk.1, hflags k (hrest ▸ hk.2)⟩
  | some x =>
    obtain ⟨-, -, -, -, hlevel, hwired⟩ :=
      late_wired _ ((List.mem_tails _ _).2 hs) kernel hhead x hstage
    rw [hp] at hlevel hwired
    refine ⟨nofun, fun l i r hr => (nomatch (hq ▸ hr : Write.record l i r ∈ [])), hnext.own, ?_⟩
    rintro l hne ⟨k, hk, hl⟩ j hj hj'
    rcases hwired k hk l hl with rfl | ⟨k', hk', hout⟩
    · have hinput : kernel.input = some x.2 := by
        cases kernel with
        | late => cases hstage; rfl
        | _ => cases hstage
      have htaken : j ∈ s.taken := by
        apply hi
        cases kernel with
        | late =>
          cases hstage
          exact hj
        | _ => cases hstage
      have hready : Ready s (s.data x.2.buffer j).seed_index.toNat :=
        h.held.input hs hp hinput hne hj hj'
      refine .inl ⟨hready.1, hflags _ ?_⟩
      have hadv := h.advanced kernel hhead x hstage j htaken
      exact (show level rest = x.1 from hlevel) ▸ hadv
    · have hzero := h.unused k' (by rw [hp]; exact hk') l hout
      change j < (s.len l).toNat at hj
      rw [hzero] at hj
      exact absurd hj (Nat.not_lt_zero j)

theorem level_next (hs : s.program <:+ batch false) (hp : s.program = kernel :: rest)
    (hkeep : kernel ≠ .memset_late_init_flags → flags' = s.late_init_flags)
    (hk : level rest ≤ s.late_init_flags k) : level rest ≤ flags' k := by
  by_cases heq : kernel = .memset_late_init_flags
  · obtain ⟨hlevel, -⟩ := level_wired _ ((List.mem_tails _ _).2 hs) kernel (mem_head hp)
    have hsame : level rest = level s.program := by
      rw [← hlevel (heq ▸ rfl), hp]
      rfl
    have hzero : level rest = 0 := by
      rw [hsame, level, if_pos (hp ▸ heq ▸ List.mem_cons_self)]
    rw [hzero]
    exact Nat.zero_le _
  · rw [hkeep heq]
    exact hk

theorem Staged.due_next (h : Staged R s) (hs : s.program <:+ batch false) (hf : Fits false s)
    (hp : s.program = kernel :: rest) (hi : ∀ i < kernel.items s, i ∈ s.taken)
    (hkeep : kernel ≠ .memset_late_init_flags → flags' = s.late_init_flags)
    (hclear : kernel = .memset_late_init_flags → ∀ k < threads_per_run, flags' k = 0)
    (hk : k < threads_per_run) :
    Due { s with program := rest, taken := [], seen := [], late_init_flags := flags' } k o ↔
      Due s k o := by
  have hrest : .init_seeds init_octaves ∉ rest := running_tail hs h.seeded hp
  unfold Due
  by_cases ho : stage o = 0
  · rw [if_pos ho, if_pos ho, if_neg hrest]
    split
    · next hinit =>
      rw [hp] at hinit
      obtain rfl : kernel = .init_seeds init_octaves :=
        ((List.mem_cons.1 hinit).resolve_right hrest).symm
      have hlimit : (s.len .filter_seeds).toNat ≤ threads_per_run :=
        hf .filter_seeds (by decide)
          ((seeds_wired _ ((List.mem_tails _ _).2 hs)).resolve_left h.seeded)
      constructor
      · intro hlen
        exact hi k (lt_min hlen (hlen.trans_le (hlimit.trans (by decide))))
      · exact h.initialising (hp ▸ List.mem_cons_self) k
    · exact Iff.rfl
  · rw [if_neg ho, if_neg ho]
    by_cases heq : kernel = .memset_late_init_flags
    · have hin : .memset_late_init_flags ∈ s.program := hp ▸ heq ▸ List.mem_cons_self
      apply iff_of_false
      · rintro ⟨-, hle⟩
        exact ho (Nat.le_zero.1 (hclear heq k hk ▸ hle))
      · exact fun hs' => hs'.1 hin
    · have hmem : .memset_late_init_flags ∈ s.program ↔ .memset_late_init_flags ∈ rest := by
        rw [hp, List.mem_cons, or_iff_right (Ne.symm heq)]
      rw [hmem, hkeep heq]

theorem Staged.next (h : Staged R s) (hs : s.program <:+ batch false) (hf : Fits false s)
    (hp : s.program = kernel :: rest) (hq : s.pending = [])
    (hi : ∀ i < kernel.items s, i ∈ s.taken) :
    Staged R { s with
      program := rest, taken := [], seen := []
      late_init_flags := if kernel = .memset_late_init_flags then
          fun k => if k < threads_per_run then 0 else s.late_init_flags k
        else s.late_init_flags } := by
  generalize hflags : (if kernel = .memset_late_init_flags then
      fun k => if k < threads_per_run then 0 else s.late_init_flags k
    else s.late_init_flags) = flags'
  have hkeep : kernel ≠ .memset_late_init_flags → flags' = s.late_init_flags := by
    intro hne
    rw [← hflags, if_neg hne]
  have hclear : kernel = .memset_late_init_flags → ∀ k < threads_per_run, flags' k = 0 := by
    intro heq k hk
    rw [← hflags, if_pos heq, if_pos hk]
  exact {
    seeded := fun hm => h.seeded (hp ▸ List.mem_cons_of_mem kernel hm)
    seeds := h.seeds
    held := h.held_next hs hp hq hi fun k => level_next hs hp hkeep
    unused := by
      intro k hk
      exact h.unused k (by rw [hp]; exact List.mem_of_mem_tail hk)
    advanced := nofun
    initialising := nofun
    count := by
      intro k hk o
      rw [if_congr (h.due_next hs hf hp hi hkeep hclear hk) rfl rfl]
      exact h.count k hk o
    quiet := by
      intro _ _ _ k o v hm
      change _ ∈ s.pending at hm
      rw [hq] at hm
      cases hm
    issued := h.issued
    written := h.written
    sampled := h.sampled }

theorem Staged.move (h : Staged R s) (hs : s.program <:+ batch false) (hf : Fits false s)
    (m : Move R s t) : Staged R t := by
  cases m with
  | pass hp => exact absurd (hp ▸ List.mem_cons_self) h.seeded
  | take hp hi hn ht => exact h.take hs hf hp hi hn (take_cases ht)
  | emit hp hl hr => exact h.emit hs hp hl hr
  | commit hw => exact h.commit hw
  | next hp hq hi => exact h.next hs hf hp hq hi

theorem Filtering.next (h : Filtering s) (hq : s.pending = []) :
    Staged R { s with program := (batch false).tail, taken := [], seen := [] } where
  seeded := by
    show Kernel.filter_seeds ∉ (batch false).tail
    decide
  seeds := by
    intro i v hm
    change _ ∈ s.pending at hm
    rw [hq] at hm
    cases hm
  held := by
    have hnone : ∀ l i r, .record l i r ∉ s.pending := by
      rw [hq]
      exact fun _ _ _ => List.not_mem_nil
    refine ⟨nofun, fun l i r hm => absurd hm (hnone l i r),
      fun l i r hm => absurd hm (hnone l i r), ?_⟩
    intro l hne _ i hi
    change i < (s.len l).toNat at hi
    rw [h.len l hne] at hi
    exact absurd hi (Nat.not_lt_zero i)
  unused := by
    intro k hk l hl
    apply h.len
    rintro rfl
    have hno : ∀ k ∈ (batch false).tail.tail, k.output ≠ some .filter_seeds := by decide
    exact hno k hk hl
  advanced := nofun
  initialising := nofun
  count := by
    intro k hk o
    have hdue : ¬ Due { s with program := (batch false).tail, taken := [], seen := [] } k o := by
      unfold Due
      split
      · rw [if_pos (show Kernel.init_seeds init_octaves ∈ (batch false).tail by decide)]
        exact List.not_mem_nil
      · rintro ⟨hm, -⟩
        exact hm (show Kernel.memset_late_init_flags ∈ (batch false).tail by decide)
    rw [if_neg hdue, Pipeline.issued, hq, h.log]
    rfl
  quiet := by
    intro _ _ _ k o v hm
    change _ ∈ s.pending at hm
    rw [hq] at hm
    cases hm
  issued := by
    intro k o v hm
    change _ ∈ s.pending at hm
    rw [hq] at hm
    cases hm
  written := by
    intro k o v hm
    change _ ∈ s.log at hm
    rw [h.log] at hm
    cases hm
  sampled := by
    intro l k o v before hsuf
    change _ <:+ s.log at hsuf
    rw [h.log] at hsuf
    cases List.suffix_nil.1 hsuf

theorem Filtering.move (h : Filtering s) (m : Move R s t) : Filtering t ∨ Staged R t := by
  cases m with
  | pass hp =>
    refine .inl ⟨h.program, ?_, h.log, h.seen, ?_⟩
    · intro w hw
      rcases mem_claim.1 hw with ⟨-, rfl⟩ | hw
      · exact ⟨_, _, rfl⟩
      · exact h.pending w hw
    · intro l hl
      rw [claim_len_of_ne hl]
      exact h.len l hl
  | take hp hi =>
    cases h.program.symm.trans hp
    exact absurd hi (Nat.not_lt_zero _)
  | emit hp hl hr =>
    rw [h.seen] at hr
    cases hr
  | @commit w ws hw =>
    have hsub : ∀ w' ∈ ws, ∃ i v, w' = .seed i v :=
      fun w' hw' => h.pending w' (hw.mem_iff.2 (List.mem_cons_of_mem w hw'))
    obtain ⟨i, v, rfl⟩ := h.pending w (hw.mem_iff.2 List.mem_cons_self)
    exact .inl ⟨h.program, hsub, h.log, h.seen, h.len⟩
  | next hp hq =>
    cases h.program.symm.trans hp
    exact .inr (h.next hq)

/-- In a batch in which no buffer overflows, every octave is written once at most, and what a
filter samples was written before in this batch, from the seed it belongs to. -/
theorem staged_octaves (h : exec (step R) (State.start false old) es = some u)
    (hfit : ∀ l ∈ consumed false, passing l (batch false) es ≤ l.max_len) :
    (∀ k o, (u.log.map Access.entry).count (some (k, o)) ≤ 1) ∧
      ∀ l k o v before, .read l k o v :: before <:+ u.log → Fresh R u l k o v before := by
  have hfits : Fits false u := by
    intro l hl _
    have hlen : u.len l = BitVec.ofNat 32 (passing l (batch false) es) :=
      (run_len l h).trans (BitVec.zero_add _)
    rw [hlen, BitVec.toNat_ofNat]
    exact (Nat.mod_le _ _).trans (hfit l hl)
  have hbound := bounded_run h hfits
  have hstart : Filtering (State.start false old) := ⟨rfl, nofun, rfl, rfl, fun _ _ => rfl⟩
  have hstep : ∀ s e t, (Bounded false s ∧ (Filtering s ∨ Staged R s)) → Fits false s →
      step R s e = some t → Bounded false t ∧ (Filtering t ∨ Staged R t) := by
    rintro s e t ⟨hb, hs⟩ hf ht
    refine ⟨hb.move hf (step_move ht), ?_⟩
    rcases hs with hs | hs
    · exact hs.move (step_move ht)
    · exact .inr (hs.move hb.program hf (step_move ht))
  have hinv := exec_invariant_of_end (fun _ _ _ ht => Fits.back (step_move ht)) hstep
    ⟨bounded_start, .inl hstart⟩ h hfits
  rcases hinv.2 with hu | hu
  · rw [hu.log]
    refine ⟨fun k o => Nat.zero_le _, ?_⟩
    intro l k o v before hsuf
    cases List.suffix_nil.1 hsuf
  · refine ⟨?_, hu.sampled⟩
    intro k o
    by_cases hk : k < threads_per_run
    · have hcount := hu.count k hk o
      have hle : (if Due u k o then 1 else 0) ≤ 1 := by
        split <;> simp
      exact (Nat.le_add_left _ _).trans (hcount.trans_le hle)
    · have hnone : some (k, o) ∉ u.log.map Access.entry := by
        intro hm
        obtain ⟨a, ha, he⟩ := List.mem_map.1 hm
        cases a with
        | write k' o' v =>
          cases he
          exact hk (hbound.log _ ha)
        | _ => cases he
      rw [List.count_eq_zero_of_not_mem hnone]
      exact Nat.zero_le 1

theorem staged_octaves_two_seeds : ∃ u,
    exec (step ⟨1000, false, 5⟩) (State.start false State.zero)
      ((batch false).flatMap Kernel.two_seeds) = some u ∧
    ∀ l k o v before, .read l k o v :: before <:+ u.log →
      Fresh ⟨1000, false, 5⟩ u l k o v before := by
  obtain ⟨u, hu, -⟩ := two_seeds_run
  exact ⟨u, hu, (staged_octaves hu (by decide +kernel)).2⟩

end Omission.Gpu.Pipeline
