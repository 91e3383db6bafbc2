import Omission.Gpu.Filter2Told

namespace Omission.Gpu.Filter2
open Omission.Lib FloatOps
set_option autoImplicit true

section Mixed

variable {large_biomes : Bool} {T : Template large_biomes}

section Runs

variable {F : Type} [LT F] [DecidableLT F] [FloatOps F]
  {sample : Data T.octaves → BitVec 32 → BitVec 32 → BitVec 32 → F} {inputs : Nat → SeedPos}
  {results : BitVec 32 → Words} {inputs_len : Nat}

variable (T sample inputs results inputs_len) in
/-- A round in which all threads read the words of the round, or all of them those of the next. -/
structure RoundOf (late : Bool) (m : Words) (base : Nat) (m' : Words) (out : List SeedPos) :
    Prop where
  loaded : Written (load_writes T inputs results inputs_len base) m m'
  emitted : ∃ next : Words,
    Written (load_writes T inputs results inputs_len (base + T.inputs_per_grid)) m' next ∧
    out = (List.range T.inputs_per_block).flatMap fun b =>
      if base + b < inputs_len then
        emit T sample (inputs (base + b)) fun _ => (if late then next else m').data T.octaves
      else []

theorem RoundOf.round {late : Bool} {m m' : Words} {base : Nat} {out : List SeedPos}
    (hlate : late = true → T.samples ≤ 32)
    (h : RoundOf T sample inputs results inputs_len late m base m' out) :
    Round T sample inputs results inputs_len m base m' out := by
  obtain ⟨next, hnext, rfl⟩ := h.emitted
  refine ⟨h.loaded, next, hnext, fun _ => if late then next else m', ?_, .refl _⟩
  intro thread i
  cases late with
  | false => exact .inl rfl
  | true => exact .inr ⟨hlate rfl, rfl⟩

variable (T sample inputs results inputs_len) in
theorem exists_roundOf (late : Bool) (m : Words) (base : Nat) :
    ∃ m' out, RoundOf T sample inputs results inputs_len late m base m' out := by
  obtain ⟨m', hm'⟩ := exists_written (load_writes T inputs results inputs_len base) m
  obtain ⟨next, hnext⟩ := exists_written
    (load_writes T inputs results inputs_len (base + T.inputs_per_grid)) m'
  exact ⟨m', _, hm', next, hnext, rfl⟩

variable (T inputs results inputs_len) in
/-- Word `i` as the threads of such a round see it, in a buffer that held `v` at first. -/
def held (late : Bool) (v : BitVec 32) (base i : Nat) : BitVec 32 :=
  let j := loader T base i
  if late = true ∧ j + T.inputs_per_grid < inputs_len then
    word inputs results (j + T.inputs_per_grid) i
  else if j < inputs_len then word inputs results j i
  else if T.inputs_per_grid ≤ j then word inputs results (j - T.inputs_per_grid) i
  else v

theorem RoundOf.held {late : Bool} {v : BitVec 32} {m m' : Words} {base : Nat}
    {out : List SeedPos} (h : RoundOf T sample inputs results inputs_len late m base m' out)
    (hm : ∀ i < T.octaves * 68, m i = if T.inputs_per_grid ≤ loader T base i then
      word inputs results (loader T base i - T.inputs_per_grid) i else v) :
    ∃ seen : Nat → Words,
      (∀ thread, ∀ i < T.octaves * 68,
        seen thread i = held T inputs results inputs_len late v base i) ∧
      out.Perm ((List.range T.inputs_per_block).flatMap fun b =>
        if base + b < inputs_len then
          emit T sample (inputs (base + b)) fun p =>
            (seen (b * T.threads_per_input + p)).data T.octaves
        else []) := by
  obtain ⟨next, hnext, rfl⟩ := h.emitted
  refine ⟨fun _ => if late then next else m', ?_, .refl _⟩
  intro thread i hi
  have hword := written_word h.loaded hi
  rw [hm i hi] at hword
  cases late with
  | false => simpa [Filter2.held] using hword
  | true =>
    have hlast := written_word hnext hi
    rw [loader_next, hword] at hlast
    simpa [Filter2.held] using hlast

theorem exists_late {base i : Nat} {v : BitVec 32}
    (hv : Sees T inputs results inputs_len base i v) :
    ∃ late, (late = true → T.samples ≤ 32) ∧
      held T inputs results inputs_len late v base i = v := by
  rcases hv with hv | ⟨h32, hlen, hv⟩
  · refine ⟨false, nofun, ?_⟩
    rw [held, if_neg fun h => Bool.false_ne_true h.1]
    split at hv
    · next hlen => rw [if_pos hlen, hv]
    · next hlen =>
      rw [if_neg hlen]
      split
      · next hle => exact (hv hle).symm
      · rfl
  · refine ⟨true, fun _ => h32, ?_⟩
    rw [held, if_pos ⟨rfl, hlen⟩, hv]

variable (sample) in
/-- Whatever a thread may find in a word, there is a run in which all threads of the input do. -/
theorem exists_run {j i : Nat} {v : BitVec 32} (hj : j < inputs_len) (hi : i < T.octaves * 68)
    (hv : Sees T inputs results inputs_len (j / T.inputs_per_block * T.inputs_per_block) i v) :
    ∃ outs, Kernel T sample inputs results inputs_len outs ∧ ∃ seen : Nat → Nat → Words,
      (∀ p, seen j p i = v) ∧ outs.Perm ((List.range inputs_len).flatMap fun j =>
        emit T sample (inputs j) fun p => (seen j p).data T.octaves) := by
  obtain ⟨late, hlate, hlast⟩ := exists_late hv
  choose m' f hf using fun block => exists_items
    (exists_roundOf T sample inputs results inputs_len late) (fun _ => v)
    (strided (block * T.inputs_per_block) T.inputs_per_grid inputs_len)
  have hkernel : Kernel T sample inputs results inputs_len ((List.range (32 * 256)).flatMap f) :=
    ⟨f, .refl _, fun block _ => ⟨_, m' block, (hf block).mono fun _ _ _ _ h => h.round hlate⟩⟩
  let I (base : Nat) (m : Words) : Prop := base < inputs_len → ∀ i < T.octaves * 68,
    m i = if T.inputs_per_grid ≤ loader T base i then
      word inputs results (loader T base i - T.inputs_per_grid) i else v
  have hstart : ∀ block < 32 * 256, ∃ m m', I (block * T.inputs_per_block) m ∧
      Items (RoundOf T sample inputs results inputs_len late) m
        (strided (block * T.inputs_per_block) T.inputs_per_grid inputs_len) m' (f block) := by
    intro block hb
    refine ⟨fun _ => v, m' block, fun _ i _ => ?_, hf block⟩
    rw [if_neg (not_le.2 (loader_block_lt hb i))]
  have hnext : ∀ {base m m' out}, RoundOf T sample inputs results inputs_len late m base m' out →
      I (base + T.inputs_per_grid) m' := by
    intro base m m' out h hlen i hi
    rw [kept_word h.loaded hi hlen, loader_next, if_pos (Nat.le_add_left _ _)]
  obtain ⟨seen, hseen, hperm⟩ := exists_emitted
    (S := fun base i w => w = held T inputs results inputs_len late v base i)
    (fun base m m' out hlt hm h => ⟨hnext h, RoundOf.held h (hm hlt)⟩) hstart
  exact ⟨_, hkernel, seen, fun p => (hseen j hj p i hi).trans hlast, hperm⟩

end Runs

/-- For all octaves and every sampler, the kernel's runs emit what the reference does. -/
def Agrees {large_biomes : Bool} (T : Template large_biomes) (inputs : Nat → SeedPos)
    (results : BitVec 32 → Words) (inputs_len : Nat) : Prop :=
  ∀ (F : Type) [LT F] [DecidableLT F] [FloatOps F]
    (sample : Data T.octaves → BitVec 32 → BitVec 32 → BitVec 32 → F) (outs : List SeedPos),
    Kernel T sample inputs results inputs_len outs ↔
      outs.Perm ((List.range inputs_len).flatMap fun j => reference T sample results (inputs j))

theorem agrees_iff {inputs : Nat → SeedPos} {results : BitVec 32 → Words} {inputs_len : Nat} :
    Agrees T inputs results inputs_len ↔
      Blind T ∨ ∀ j < inputs_len, Summable T ∧ OwnWords T inputs results inputs_len j := by
  constructor
  · intro h
    by_contra hnot
    obtain ⟨hblind, hnot⟩ := not_or.1 hnot
    by_cases hown : ∀ j < inputs_len, OwnWords T inputs results inputs_len j
    · obtain ⟨j, hj, hsum⟩ : ∃ j < inputs_len, ¬ Summable T := by
        by_contra hall
        exact hnot fun j hj => ⟨by_contra fun hsum => hall ⟨j, hj, hsum⟩, hown j hj⟩
      obtain ⟨hmove, V, hV⟩ := exists_overflows hsum
      obtain ⟨outs, hrun⟩ := exists_kernel T (spots T results (inputs j) V) inputs results inputs_len
      have href := (h Rat (spots T results (inputs j) V) outs).1 hrun
      exact not_perm_overflows hV hmove hj ((hrun.perm_own hown).symm.trans href)
    · obtain ⟨j, hj, i, hi, v, hv, hne⟩ : ∃ j < inputs_len, ∃ i < T.octaves * 68, ∃ v,
          Sees T inputs results inputs_len (j / T.inputs_per_block * T.inputs_per_block) i v ∧
            v ≠ word inputs results j i := by
        simpa only [OwnWords, not_forall, exists_prop] using hown
      obtain ⟨outs, hrun, seen, hseen, hperm⟩ :=
        exists_run (picky T results (inputs j)) hj hi hv
      have href := (h Rat (picky T results (inputs j)) outs).1 hrun
      apply not_perm_reference hblind hj _ (hperm.symm.trans href)
      intro p hp
      exact hne ((hseen p).symm.trans (congrFun hp ⟨i, hi⟩))
  · exact fun h F _ _ _ sample outs => kernel_iff h

theorem two_le_inputs_per_block (h : T.samples < 256) : 2 ≤ T.inputs_per_block := by
  have hshare := T.layout.share
  have htpi : T.threads_per_input < 256 := by
    rw [Template.threads_per_input, Nat.min_eq_left h.le]
    exact h
  have hne := inputs_per_block_pos T
  rw [Template.inputs_per_block] at hne ⊢
  by_contra hlt
  have h1 : 256 / T.threads_per_input = 1 := by omega
  rw [h1] at hshare
  omega

def pair (i : Nat) : SeedPos := ⟨BitVec.ofNat 32 i, 0, 0⟩

def index_words (seed_index : BitVec 32) : Words := fun _ => seed_index

/-- The first word of the buffer comes from the first input. -/
theorem sees_pair {v : BitVec 32} (h256 : T.samples < 256) (hj : j < 2)
    (h : Sees T pair index_words 2 (j / T.inputs_per_block * T.inputs_per_block) 0 v) : v = 0 := by
  have h2 := two_le_inputs_per_block h256
  have hgrid := inputs_per_block_le T
  rw [Nat.div_eq_of_lt (hj.trans_le h2), Nat.zero_mul] at h
  have hloader : loader T 0 0 = 0 := by simp [loader]
  rcases h with h | ⟨-, hlt, -⟩
  · rw [hloader, if_pos (by decide)] at h
    exact h
  · omega

theorem not_ownWords_pair (h256 : T.samples < 256) (hoct : T.octaves ≠ 0) :
    ¬ OwnWords T pair index_words 2 1 := by
  intro h
  have hloader : loader T 0 0 = 0 := by simp [loader]
  have h2 := two_le_inputs_per_block h256
  have hone := h 0 (by omega) 0
  rw [Nat.div_eq_of_lt h2, Nat.zero_mul] at hone
  have hsees : Sees T pair index_words 2 0 0 0 := by
    left
    rw [hloader, if_pos (by decide)]
    rfl
  exact absurd (hone hsees) (by decide)

/-- With fewer than 256 samples several inputs share a block and its only octave buffer, and the
sums of a wide enough grid wrap around. -/
theorem kernel_agrees_iff {large_biomes : Bool} (T : Template large_biomes) :
    (∀ inputs results inputs_len, Agrees T inputs results inputs_len ↔
      Blind T ∨ ∀ j < inputs_len, Summable T ∧ OwnWords T inputs results inputs_len j) ∧
    ((∀ inputs results inputs_len, Agrees T inputs results inputs_len) ↔
      Summable T ∧ (256 ≤ T.samples ∨ T.octaves = 0) ∨ T.samples < T.min_count.toNat ∨
        T.min_count.toNat = 0 ∧ (T.move_center = false ∨ T.pos_step = 0)) ∧
    (T.samples * (T.pos_step * T.samples_square_size) < 2 ^ 32 → Summable T) := by
  refine ⟨fun _ _ _ => agrees_iff, ?_, summable_of_lt⟩
  constructor
  · intro h
    by_contra hnot
    obtain ⟨howned, hblind⟩ := not_or.1 hnot
    have hlist := (agrees_iff.1 (h pair index_words 2)).resolve_left hblind 1 (by decide)
    apply howned
    refine ⟨hlist.1, ?_⟩
    by_contra hshared
    obtain ⟨h256, hoct⟩ := not_or.1 hshared
    exact not_ownWords_pair (not_le.1 h256) hoct hlist.2
  · rintro (⟨hsum, howned⟩ | hblind) inputs results inputs_len
    · exact agrees_iff.2 (.inr fun j hj => ⟨hsum, Owned.ownWords howned hj⟩)
    · exact agrees_iff.2 (.inl hblind)

def template_128 : Template false where
  threshold := -10500
  octaves := 12
  pos_range := 8 * 1024
  samples := 128
  min_count := 24
  flipped_sparse_samples := false
  move_center := false
  only_a := false
  samples_ok := by decide
  sparse_ok := by decide
  pos_range_ok := by decide

/-- The second of two inputs in one block is lost. -/
theorem input_lost :
    (∃ outs, Kernel template_128 (picky template_128 index_words (pair 1)) pair
      index_words 2 outs) ∧
    (∀ outs, Kernel template_128 (picky template_128 index_words (pair 1)) pair index_words 2 outs →
      outs = []) ∧
    reference template_128 (picky template_128 index_words (pair 1)) index_words (pair 1) =
      [pair 1] := by
  have hmin : template_128.min_count.toNat ≠ 0 := by decide
  refine ⟨exists_kernel _ _ _ _ _, fun outs h => ?_, ?_⟩
  · obtain ⟨seen, hsees, hperm⟩ := h.emitted
    have hnone : ∀ j < 2, emit template_128 (picky template_128 index_words (pair 1)) (pair j)
        (fun p => (seen j p).data template_128.octaves) = [] := by
      intro j hj
      rw [emit_none, if_neg hmin]
      intro p q hq hlt
      have hzero := sees_pair (by decide) hj (hsees j hj p 0 (by decide))
      have hone := congrFun (picky_lt_iff.1 hlt).1 ⟨0, by decide⟩
      exact absurd (hzero.symm.trans hone) (by decide)
    apply List.perm_nil.1 (hperm.trans (List.Perm.of_eq ?_))
    exact List.flatMap_eq_nil_iff.2 fun j hj => hnone j (List.mem_range.1 hj)
  · rw [reference, below_grid rfl hmin, grid_card, if_pos (by decide), if_neg (by decide)]

end Mixed

end Omission.Gpu.Filter2
