import Omission.Gpu.Bounds

namespace Omission.Gpu.Pipeline
open Omission.Lib
set_option autoImplicit true

variable {R : Run} {s t u : State} {l : Len} {kernel : Kernel} {rest : List Kernel}
  {origin : Bool} {es : List Event} {old : State}

theorem bound_le (kernel : Kernel) (n : Nat) : kernel.bound n ≤ n := by
  cases kernel <;> simp [Kernel.bound]

theorem items_lt (hs : s.program <:+ batch origin) (hf : Fits origin s)
    (hp : s.program = kernel :: rest) (hl : kernel.input = some l) (hi : i < kernel.items s) :
    i < (s.len l).toNat ∧ i < l.max_len := by
  rw [Kernel.items, hl] at hi
  have hn : i < (s.len l).toNat := hi.trans_le (bound_le kernel _)
  refine ⟨hn, ?_⟩
  obtain ⟨hout, hcons, -⟩ := batch_wired origin _ ((List.mem_tails _ _).2 (hp ▸ hs)) kernel rfl l hl
  rcases hcons with hcons | rfl
  · exact hn.trans_le (hf l hcons (hp ▸ hout))
  · exact hi.trans_le (Nat.min_le_right _ _)

theorem Held.record {Q : Nat → Prop} (h : Held Q s) (hs : s.program <:+ batch origin)
    (hf : Fits origin s) (hp : s.program = kernel :: rest) (hl : kernel.input = some l)
    (hne : l ≠ .filter_seeds) (hi : i < kernel.items s) :
    Q (s.data l.buffer i).seed_index.toNat := by
  obtain ⟨hn, hm⟩ := items_lt hs hf hp hl hi
  exact h.input hs hp hl hne hn hm

theorem not_seeds (hs : s.program <:+ batch origin) (hp : s.program = kernel :: rest)
    (hl : kernel.input = some l) (hk : kernel ∉ [.filter_origin, .filter_gradvecs_1,
      .init_seeds init_octaves, .init_seeds init_octaves_full]) : l ≠ .filter_seeds := by
  obtain ⟨-, -, hseed⟩ := batch_wired origin _ ((List.mem_tails _ _).2 (hp ▸ hs)) kernel rfl l hl
  exact fun he => hk (hseed he)

/-- What holds as long as no counter that is read passes its `max_len`. -/
structure Bounded (origin : Bool) (s : State) : Prop where
  program : s.program <:+ batch origin
  held : Held (· < threads_per_run) s
  tables : ∀ k o v, .octave k o v ∈ s.pending → k < threads_per_run
  log : ∀ a ∈ s.log, a.InBounds

theorem inBounds_sampled (hk : k < threads_per_run) {log : List Access}
    (hlog : ∀ a ∈ log, a.InBounds) (os : List Octave) :
    ∀ a ∈ os.map (fun o => .read l k o (s.results k o)) ++ log, a.InBounds := by
  intro a ha
  rcases List.mem_append.1 ha with ha | ha
  · obtain ⟨o, -, rfl⟩ := List.mem_map.1 ha
    exact hk
  · exact hlog a ha

theorem Bounded.issued (h : Bounded origin s) (hk : k < threads_per_run)
    (hw : R.init_octaves seed k os = some ws) :
    ∀ k' o v, .octave k' o v ∈ ws ++ s.pending → k' < threads_per_run := by
  intro k' o v hm
  rcases List.mem_append.1 hm with hm | hm
  · obtain ⟨o', -, v', -, he⟩ := mem_init_octaves hw hm
    cases he
    exact hk
  · exact h.tables k' o v hm

theorem Held.met {Q : Nat → Prop} (hk : Q k) : ∀ k' ∈ k :: s.seen, k' ∈ s.seen ∨ Q k' := by
  intro k' hk'
  rcases List.mem_cons.1 hk' with rfl | hk'
  · exact .inr hk
  · exact .inl hk'

theorem Bounded.take (h : Bounded origin s) (hf : Fits origin s)
    (hp : s.program = kernel :: rest) (hi : i < kernel.items s)
    (ht : Take R { s with taken := taken } i kernel t) : Bounded origin t := by
  have hprog : t.program <:+ batch origin := (take_frame ht).1 ▸ h.program
  have hheld : (∀ k ∈ t.seen, k ∈ s.seen ∨ k < threads_per_run) → Held (· < threads_per_run) t :=
    h.held.take ht
  have hseed : kernel.input = some .filter_seeds → i < threads_per_run :=
    fun hl => (items_lt h.program hf hp hl hi).2
  have hrecord : ∀ l, kernel.input = some l → ∀ a ∈ Access.record l i :: s.log, a.InBounds :=
    fun l hl => List.forall_mem_cons.2 ⟨(items_lt h.program hf hp hl hi).2, h.log⟩
  have hindex : ∀ l, kernel.input = some l → kernel ∉ [.filter_origin, .filter_gradvecs_1,
      .init_seeds init_octaves, .init_seeds init_octaves_full] →
      (s.data l.buffer i).seed_index.toNat < threads_per_run :=
    fun l hl hk => h.held.record h.program hf hp hl (not_seeds h.program hp hl hk) hi
  cases ht with
  | init_seeds hw =>
    exact ⟨hprog, hheld fun _ => .inl, h.issued (hseed rfl) hw,
      hrecord _ rfl⟩
  | filter_origin =>
    exact ⟨hprog, hheld (Held.met (hseed rfl)), h.tables,
      inBounds_sampled (hseed rfl) h.log _⟩
  | filter_gradvecs_1 =>
    exact ⟨hprog, hheld (Held.met (hseed rfl)), h.tables,
      inBounds_sampled (hseed rfl) h.log _⟩
  | filter hk =>
    have hQ := hindex _ rfl (by simp)
    exact ⟨hprog, hheld (Held.met (hk ▸ hQ)), h.tables,
      inBounds_sampled (hk ▸ hQ) (hrecord _ rfl) _⟩
  | late hk hflag hw =>
    have hQ := hindex _ rfl (by simp)
    exact ⟨hprog, hheld fun _ => .inl, h.issued (hk ▸ hQ) hw,
      List.forall_mem_cons.2 ⟨(hk ▸ hQ : _ < threads_per_run), hrecord _ rfl⟩⟩
  | late_again hk hflag =>
    exact ⟨hprog, hheld fun _ => .inl, h.tables,
      hrecord _ rfl⟩
  | copy hk =>
    have hQ := hindex _ rfl (by simp)
    refine ⟨hprog, hheld fun _ => .inl, h.tables, ?_⟩
    intro a ha
    rcases List.mem_append.1 ha with ha | ha
    · obtain ⟨j, hj, rfl⟩ := List.mem_map.1 ha
      exact (Nat.le_of_lt_succ (List.mem_range.1 hj)).trans_lt (hk ▸ hQ)
    · exact hrecord _ rfl a ha

theorem Bounded.move (h : Bounded origin s) (hf : Fits origin s) (m : Move R s t) :
    Bounded origin t := by
  have hprog : t.program <:+ batch origin := (move_suffix m).trans h.program
  cases m with
  | pass =>
    refine ⟨hprog, h.held.pass _ _, ?_, h.log⟩
    intro k o v hm
    rcases mem_claim.1 hm with ⟨-, hm⟩ | hm
    · cases hm
    · exact h.tables k o v hm
  | take hp hi hn ht => exact h.take hf hp hi (take_cases ht)
  | emit hp hout hr =>
    refine ⟨hprog, h.held.emit hp hout hr, ?_, h.log⟩
    intro k o v hm
    rcases mem_claim.1 hm with ⟨-, hm⟩ | hm
    · cases hm
    · exact h.tables k o v hm
  | @commit w ws hw =>
    have htable : ∀ k o v, .octave k o v ∈ w :: ws → k < threads_per_run :=
      fun k o v hm => h.tables k o v (hw.mem_iff.2 hm)
    refine ⟨hprog, h.held.commit hw, ?_, ?_⟩
    · intro k o v hm
      rw [apply_pending] at hm
      exact htable k o v (List.mem_cons_of_mem w hm)
    · cases w with
      | seed => exact h.log
      | record => exact h.log
      | octave k o v =>
        exact List.forall_mem_cons.2 ⟨htable k o v List.mem_cons_self, h.log⟩
  | next hp hq hi =>
    refine ⟨hprog, h.held.next hp hq _, ?_, h.log⟩
    intro k o v hm
    rw [hq] at hm
    cases hm

theorem bounded_start : Bounded origin (State.start origin old) where
  program := List.suffix_rfl
  held := ⟨nofun, nofun, nofun, nofun⟩
  tables := nofun
  log := nofun

/-- A run whose counters fit in the end stays in bounds. -/
theorem bounded_run (h : exec (step R) (State.start origin old) es = some u)
    (hf : Fits origin u) : Bounded origin u :=
  exec_invariant_of_end (fun _ _ _ ht => Fits.back (step_move ht))
    (fun _ _ _ hs hB ht => hs.move hB (step_move ht)) bounded_start h hf

theorem step_len (l : Len) (h : step R s e = some t) :
    ∃ d, t.len l = s.len l + BitVec.ofNat 32 d ∧
      ∀ es, passing l s.program (e :: es) = passing l t.program es + d := by
  cases hp : s.program with
  | nil =>
    rw [step, hp] at h
    cases h
  | cons kernel rest =>
    rw [step, hp] at h
    have hclaim : ∀ (s' : State) l' w, s'.len = s.len → (s'.claim l' w).len l =
        s.len l + BitVec.ofNat 32 (if l' = l then 1 else 0) := by
      intro s' l' w hs'
      by_cases hl : l' = l
      · rw [hl, claim_len_self, if_pos rfl, hs']
        rfl
      · rw [claim_len_of_ne (Ne.symm hl), if_neg hl, hs', BitVec.add_zero]
    cases e with
    | pass i =>
      simp only [Kernel.step, Option.ite_none_right_eq_some, Option.some.injEq] at h
      obtain ⟨-, rfl⟩ := h
      refine ⟨if .filter_seeds = l then 1 else 0, hclaim _ _ _ rfl, ?_⟩
      intro es
      rw [State.claim, hp]
      simp only [passing, eq_comm]
    | take i =>
      simp only [Kernel.step, Option.ite_none_right_eq_some] at h
      obtain ⟨hprog, hlen, -⟩ := take_frame (take_cases h.2)
      rw [hprog, hlen]
      exact ⟨0, (BitVec.add_zero _).symm, fun es => by rw [hp]; rfl⟩
    | emit r =>
      cases hl : kernel.output with
      | none => simp only [Kernel.step, hl, reduceCtorEq] at h
      | some l' =>
        simp only [Kernel.step, hl, Option.ite_none_right_eq_some, Option.some.injEq] at h
        obtain ⟨-, rfl⟩ := h
        refine ⟨if l' = l then 1 else 0, hclaim _ _ _ rfl, ?_⟩
        intro es
        rw [State.claim, hp]
        simp only [passing, hl, Option.some.injEq]
    | commit i =>
      cases hw : s.pending[i]? with
      | none => simp only [Kernel.step, hw, reduceCtorEq] at h
      | some w =>
        simp only [Kernel.step, hw, Option.some.injEq] at h
        subst h
        rw [apply_len, apply_program, hp]
        exact ⟨0, (BitVec.add_zero _).symm, fun es => rfl⟩
    | next =>
      simp only [Kernel.step, Option.ite_none_right_eq_some, Option.some.injEq] at h
      obtain ⟨-, rfl⟩ := h
      exact ⟨0, (BitVec.add_zero _).symm, fun es => rfl⟩

/-- A counter holds how many records have passed, modulo `2^32`. -/
theorem run_len (l : Len) (h : exec (step R) s es = some u) :
    u.len l = s.len l + BitVec.ofNat 32 (passing l s.program es) := by
  induction es generalizing s with
  | nil =>
    cases h
    cases u.program <;> exact (BitVec.add_zero _).symm
  | cons e es ih =>
    obtain ⟨t, ht, hu⟩ := exec_cons.1 h
    obtain ⟨d, hd, hpass⟩ := step_len l ht
    rw [ih hu, hd, hpass es, BitVec.ofNat_add, BitVec.add_assoc,
      BitVec.add_comm (BitVec.ofNat 32 d)]

theorem move_log (h : Move R s t) : s.log ⊆ t.log := by
  cases h with
  | pass => exact List.Subset.refl _
  | take hp hi hn ht =>
    cases take_cases ht with
    | init_seeds => exact List.subset_cons_self _ _
    | filter_origin => exact List.subset_append_right _ _
    | filter_gradvecs_1 => exact List.subset_append_right _ _
    | filter => exact List.Subset.trans (List.subset_cons_self _ _) (List.subset_append_right _ _)
    | late => exact List.Subset.trans (List.subset_cons_self _ _) (List.subset_cons_self _ _)
    | late_again => exact List.subset_cons_self _ _
    | copy => exact List.Subset.trans (List.subset_cons_self _ _) (List.subset_append_right _ _)
  | emit => exact List.Subset.refl _
  | @commit w ws hw =>
    cases w with
    | seed => exact List.Subset.refl _
    | record => exact List.Subset.refl _
    | octave => exact List.subset_cons_self _ _
  | next => exact List.Subset.refl _

theorem run_log (h : exec (step R) s es = some u) : s.log ⊆ u.log := by
  induction es generalizing s with
  | nil =>
    cases h
    exact List.Subset.refl _
  | cons e es ih =>
    obtain ⟨t, ht, hrest⟩ := exec_cons.1 h
    exact List.Subset.trans (move_log (step_move ht)) (ih hrest)

theorem run_produced (h : exec (step R) s es = some u)
    (hl : ∀ k ∈ s.program, k.output ≠ some l) : u.len l = s.len l := by
  have hall : u.program <:+ s.program ∧ u.len l = s.len l := by
    apply exec_invariant _ ⟨List.suffix_rfl, rfl⟩ h
    rintro a e b ⟨hsuf, hlen⟩ hb
    have hm := step_move hb
    exact ⟨(move_suffix hm).trans hsuf,
      (move_len hm fun k hk => hl k (hsuf.subset hk)).trans hlen⟩
  exact hall.2

/-- The counter whose records a launch reads for all indices below it. -/
def Kernel.reads : Kernel → Option Len
  | .init_seeds _ => some .filter_seeds
  | .filter inputs _ _ => some inputs
  | .late _ inputs => some inputs
  | _ => none

theorem reads_input (h : kernel.reads = some l) : kernel.input = some l := by
  cases kernel <;> first | exact h | cases h

theorem reads_bound (h : kernel.reads = some l) (hn : l.max_len < n) :
    l.max_len < kernel.bound n := by
  cases kernel with
  | init_seeds os =>
    cases h
    exact lt_min hn (by decide)
  | filter inputs outputs os => exact hn
  | late Stage inputs => exact hn
  | _ => cases h

def Logged (s : State) : Prop :=
  ∀ kernel rest l, s.program = kernel :: rest → kernel.reads = some l →
    ∀ i ∈ s.taken, .record l i ∈ s.log

theorem Logged.move (h : Logged s) (m : Move R s t) : Logged t := by
  intro kernel rest l hp hr i hi
  have hold : t.program = s.program → i ∈ s.taken → .record l i ∈ t.log :=
    fun hprog ht => move_log m (h kernel rest l (hprog ▸ hp) hr i ht)
  cases m with
  | pass hp' =>
    rw [State.claim, hp'] at hp
    cases hp
    cases hr
  | @take kernel' rest' j _ hp' hi' hn' ht' =>
    have htake := take_cases ht'
    obtain ⟨hprog, -, -, -, -, htaken⟩ := take_frame htake
    rw [htaken] at hi
    rcases List.mem_cons.1 hi with rfl | hi
    · rw [hprog] at hp
      cases hp'.symm.trans hp
      cases htake with
      | init_seeds =>
        cases hr
        exact List.mem_cons_self
      | filter =>
        cases hr
        exact List.mem_append_right _ List.mem_cons_self
      | late =>
        cases hr
        exact List.mem_cons_of_mem _ List.mem_cons_self
      | late_again =>
        cases hr
        exact List.mem_cons_self
      | _ => cases hr
    · exact hold hprog hi
  | emit => exact hold rfl hi
  | commit =>
    rw [apply_taken] at hi
    exact hold apply_program hi
  | next => cases hi

/-- A counter beyond `max_len` is read as a loop bound: the record at `max_len` is read. -/
theorem overrun (h : exec (step R) s es = some u) (hu : u.program = [])
    (hs : s.program <:+ batch origin) (hlog : Logged s) (hk : kernel ∈ s.program)
    (hr : kernel.reads = some l) (hl : l.max_len < (u.len l).toNat) :
    .record l l.max_len ∈ u.log := by
  induction es generalizing s with
  | nil =>
    cases h
    rw [hu] at hk
    cases hk
  | cons e es ih =>
    obtain ⟨t, ht, hrest⟩ := exec_cons.1 h
    have m := step_move ht
    by_cases hkt : kernel ∈ t.program
    · exact ih hrest ((move_suffix m).trans hs) (hlog.move m) hkt
    · obtain ⟨head, hp, -, hi⟩ := (move_program m).resolve_left fun hp => hkt (hp ▸ hk)
      rw [hp] at hk
      obtain rfl := (List.mem_cons.1 hk).resolve_right hkt
      have hlen : u.len l = s.len l :=
        run_produced h (hp ▸ input_produced (hp ▸ hs) (reads_input hr))
      have hitems : l.max_len < kernel.items s := by
        rw [Kernel.items, reads_input hr]
        exact reads_bound hr (hlen ▸ hl)
      exact run_log h (hlog kernel _ l hp hr _ (hi _ hitems))

theorem consumed_read (origin : Bool) : ∀ l ∈ consumed origin,
    ∃ kernel ∈ batch origin, kernel.reads = some l := by
  cases origin <;> decide

/-- In a finished batch every access is in bounds exactly when no counter that a kernel reads
has passed its `max_len`. -/
theorem reads_within_max_len (h : exec (step R) (State.start origin old) es = some u)
    (hu : u.program = []) :
    (∀ a ∈ u.log, a.InBounds) ↔
      ∀ l ∈ consumed origin, passing l (batch origin) es % 2 ^ 32 ≤ l.max_len := by
  have hlen : ∀ l, (u.len l).toNat = passing l (batch origin) es % 2 ^ 32 := by
    intro l
    rw [run_len l h]
    exact congrArg BitVec.toNat (BitVec.zero_add _)
  constructor
  · intro hall l hl
    by_contra hgt
    obtain ⟨kernel, hk, hr⟩ := consumed_read origin l hl
    have hread := overrun h hu List.suffix_rfl nofun hk hr (hlen l ▸ Nat.lt_of_not_le hgt)
    exact Nat.lt_irrefl _ (hall _ hread)
  · intro hfit
    exact (bounded_run h fun l hl _ => hlen l ▸ hfit l hl).log

def State.zero : State where
  program := []
  len := fun _ => 0
  seeds := fun _ => 0
  data := fun _ _ => default
  results := fun _ _ => ⟨Vector.replicate 256 0, 0, 0, 0⟩
  late_init_flags := fun _ => 0
  pending := []
  taken := []
  seen := []
  log := []

/-- Two records of one seed and one of another. -/
def found_records : List SeedPos := [⟨0, 100, -7⟩, ⟨1, 3, 4⟩, ⟨1, 8, 4⟩]

/-- A launch in a batch in which the threads 5 and 3 pass, and three records pass every filter. -/
def Kernel.two_seeds : Kernel → List Event
  | .filter_seeds => [.pass 5, .pass 3, .commit 1, .commit 0, .next]
  | .init_seeds octaves =>
    [.take 1, .take 0] ++ (octaves ++ octaves).map (fun _ => .commit 0) ++ [.next]
  | .late Stage _ => [.take 0, .take 1, .take 2] ++
    (late_octaves Stage ++ late_octaves Stage).map (fun _ => .commit 0) ++ [.next]
  | .memset_late_init_flags => [.next]
  | .copy _ => [.take 0, .take 1, .take 2, .next]
  | kernel => (if kernel = .filter_gradvecs_1 then [.take 1, .take 0]
      else [.take 2, .take 0, .take 1]) ++ found_records.map .emit ++
    [.commit 0, .commit 0, .commit 0, .next]

theorem two_seeds_run : ∃ u, exec (step ⟨1000, false, 5⟩) (State.start false State.zero)
    ((batch false).flatMap Kernel.two_seeds) = some u ∧ u.program = [] := by
  have hrun : (exec (step ⟨1000, false, 5⟩) (State.start false State.zero)
      ((batch false).flatMap Kernel.two_seeds)).map State.program = some [] := by
    decide +kernel
  exact Option.map_eq_some_iff.1 hrun

theorem reads_within_max_len_two_seeds : ∃ u,
    exec (step ⟨1000, false, 5⟩) (State.start false State.zero)
      ((batch false).flatMap Kernel.two_seeds) = some u ∧ ∀ a ∈ u.log, a.InBounds := by
  obtain ⟨u, hu, hdone⟩ := two_seeds_run
  exact ⟨u, hu, (reads_within_max_len hu hdone).2 (by decide +kernel)⟩

/-- The first `n` seeds of the batch have passed, and their stores have landed. -/
structure Filled (n : Nat) (s : State) : Prop where
  program : s.program = batch false
  len : s.len .filter_seeds = BitVec.ofNat 32 n
  pending : s.pending = []
  taken : ∀ i ∈ s.taken, i < n
  seeds : ∀ i, n ≤ i → s.seeds i = 0

theorem Filled.pass (h : Filled n s) (hn : n ≤ threads_per_run) (R : Run) :
    step R s (.pass n) = some (State.claim { s with taken := n :: s.taken } .filter_seeds
      fun r => .seed r (R.start_seed + BitVec.ofNat 64 n)) := by
  rw [step_running h.program]
  apply if_pos
  refine ⟨rfl, hn.trans_lt (by decide), ?_⟩
  intro hmem
  exact Nat.lt_irrefl n (h.taken n hmem)

theorem Filled.toNat (h : Filled n s) (hn : n ≤ threads_per_run) :
    (s.len .filter_seeds).toNat = n := by
  rw [h.len, BitVec.toNat_ofNat]
  exact Nat.mod_eq_of_lt (hn.trans_lt (by decide))

theorem Filled.round (h : Filled n s) (hn : n < threads_per_run) (R : Run) :
    ∃ t, exec (step R) s [.pass n, .commit 0] = some t ∧ Filled (n + 1) t := by
  have hpass := h.pass hn.le R
  have hroom : (s.len .filter_seeds).toNat < Len.max_len .filter_seeds := by
    rw [h.toNat hn.le]
    exact hn
  generalize hv : State.claim { s with taken := n :: s.taken } .filter_seeds
    (fun r => .seed r (R.start_seed + BitVec.ofNat 64 n)) = v at hpass
  have hprog : v.program = batch false := hv ▸ h.program
  have hlen : v.len .filter_seeds = BitVec.ofNat 32 (n + 1) := by
    rw [← hv, claim_len_self, BitVec.ofNat_add]
    exact congrArg (· + 1) h.len
  have hpend : v.pending = [.seed n (R.start_seed + BitVec.ofNat 64 n)] := by
    rw [← hv, State.claim, if_pos hroom, h.toNat hn.le, h.pending]
  have hcommit : step R v (.commit 0) = some (Write.apply { v with pending := [] }
      (.seed n (R.start_seed + BitVec.ofNat 64 n))) := by
    rw [step_running hprog, Kernel.step, hpend]
    rfl
  refine ⟨_, exec_cons.2 ⟨v, hpass, exec_cons.2 ⟨_, hcommit, rfl⟩⟩, hprog, hlen, rfl, ?_, ?_⟩
  · intro i hi
    have htaken : v.taken = n :: s.taken := hv ▸ rfl
    rw [apply_taken, htaken] at hi
    rcases List.mem_cons.1 hi with rfl | hi
    · exact Nat.lt_succ_self i
    · exact Nat.lt_succ_of_lt (h.taken i hi)
  · intro i hi
    have hseeds : v.seeds = s.seeds := hv ▸ rfl
    change Function.update v.seeds n _ i = 0
    rw [hseeds, Function.update_of_ne (Nat.ne_of_gt hi)]
    exact h.seeds i (Nat.le_of_succ_le hi)

theorem fill_seeds (R : Run) (n : Nat) (hn : n ≤ threads_per_run) :
    ∃ t, exec (step R) (State.start false State.zero)
      ((List.range n).flatMap fun i => [.pass i, .commit 0]) = some t ∧ Filled n t := by
  induction n with
  | zero => exact ⟨_, rfl, rfl, rfl, rfl, nofun, fun _ _ => rfl⟩
  | succ n ih =>
    obtain ⟨s, hs, hfill⟩ := ih (Nat.le_of_succ_le hn)
    obtain ⟨t, ht, hfill'⟩ := hfill.round hn R
    rw [List.range_succ, List.flatMap_append]
    exact ⟨t, exec_append.2 ⟨s, hs, by simpa using ht⟩, hfill'⟩

theorem octaves_zero : ∃ ws, (⟨0, false, 5⟩ : Run).init_octaves 0 threads_per_run
    init_octaves = some ws :=
  Option.isSome_iff_exists.1 (by decide +kernel)

/-- With one seed more than `buffer_seeds` holds, `KernelSeed1::kernel` reads behind it. -/
theorem record_read_past_max_len : ∃ u,
    exec (step ⟨0, false, 5⟩) (State.start false State.zero)
      (((List.range threads_per_run).flatMap fun i => [.pass i, .commit 0]) ++
        [.pass threads_per_run, .next, .take threads_per_run]) = some u ∧
      ¬ ∀ a ∈ u.log, a.InBounds := by
  obtain ⟨s, hs, hfill⟩ := fill_seeds ⟨0, false, 5⟩ threads_per_run le_rfl
  have hpass := hfill.pass le_rfl ⟨0, false, 5⟩
  have hfull : ¬ (s.len .filter_seeds).toNat < Len.max_len .filter_seeds := by
    rw [hfill.toNat le_rfl]
    exact Nat.lt_irrefl _
  generalize hv : State.claim { s with taken := threads_per_run :: s.taken } .filter_seeds
    (fun r => .seed r ((⟨0, false, 5⟩ : Run).start_seed + BitVec.ofNat 64 threads_per_run)) = v
    at hpass
  have hprog : v.program = batch false := hv ▸ hfill.program
  have hlen : v.len .filter_seeds = BitVec.ofNat 32 (threads_per_run + 1) := by
    rw [← hv, claim_len_self, BitVec.ofNat_add]
    exact congrArg (· + 1) hfill.len
  have hpend : v.pending = [] := by
    rw [← hv, State.claim, if_neg hfull, hfill.pending]
  have hnext : step ⟨0, false, 5⟩ v .next = some { v with
      program := (batch false).tail, taken := [], seen := [] } := by
    rw [step_running hprog]
    exact if_pos ⟨hpend, fun i hi => absurd hi (Nat.not_lt_zero i)⟩
  have hseeds : v.seeds threads_per_run = 0 := by
    rw [← hv]
    exact hfill.seeds threads_per_run le_rfl
  obtain ⟨ws, hws⟩ := octaves_zero
  have htake : step ⟨0, false, 5⟩ { v with
      program := (batch false).tail, taken := [], seen := [] } (.take threads_per_run) =
        some { v with
        program := (batch false).tail, taken := [threads_per_run], seen := []
        pending := ws ++ v.pending, log := .record .filter_seeds threads_per_run :: v.log } := by
    have hitems : threads_per_run < (Kernel.init_seeds init_octaves).bound
        (v.len .filter_seeds).toNat := by
      rw [hlen]
      decide
    have hrun : ∀ e, step ⟨0, false, 5⟩ { v with
        program := (batch false).tail, taken := [], seen := [] } e = Kernel.step _ _ _ _ e :=
      fun e => step_running rfl
    rw [hrun, Kernel.step,
      if_pos ⟨hitems, List.not_mem_nil⟩, Kernel.take]
    simp only [hseeds, hws]
    rfl
  refine ⟨_, exec_append.2 ⟨s, hs, exec_cons.2 ⟨v, hpass, exec_cons.2 ⟨_, hnext,
    exec_cons.2 ⟨_, htake, rfl⟩⟩⟩⟩, ?_⟩
  intro hall
  exact Nat.lt_irrefl threads_per_run (hall _ List.mem_cons_self)

end Omission.Gpu.Pipeline
