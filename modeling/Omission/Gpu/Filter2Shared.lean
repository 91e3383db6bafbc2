import Omission.Gpu.Filter2Emit
import Omission.Lib.Mean

namespace Omission.Gpu.Filter2
open Omission.Lib FloatOps
set_option autoImplicit true

section Emit

variable {large_biomes : Bool} {T : Template large_biomes} {F : Type} [LT F] [DecidableLT F]
  [FloatOps F] {sample : Data T.octaves → BitVec 32 → BitVec 32 → BitVec 32 → F}
  {input : SeedPos} {seen : Nat → Data T.octaves} {results : BitVec 32 → Words}

theorem thread_lt {w : Nat} (hw : w ∈ Finset.range (T.threads_per_input / 32)) (l : Fin 32) :
    32 * w + l < T.threads_per_input := by
  have h := T.layout.whole
  have := Finset.mem_range.1 hw
  omega

theorem total_eq [AddCommMonoid M] {f : Nat → Nat → M} {g : Nat × Nat → M}
    (h : ∀ p < T.threads_per_input, ∀ i, f p i = g (visit T p i)) :
    total T f = ∑ q ∈ grid T, g q := by
  rw [← sum_visits T g]
  refine Finset.sum_congr rfl fun w hw => Finset.sum_congr rfl fun i _ =>
    Finset.sum_congr rfl fun l _ => ?_
  exact h _ (thread_lt hw l) i

section Own

variable {d : Data T.octaves} (h : ∀ p < T.threads_per_input, seen p = d)
include h

theorem count_eq_card : count T sample input seen = (below T sample input d).card := by
  rw [below, Finset.card_filter]
  apply total_eq
  intro p hp i
  rw [flag, h p hp]
  rw [Bool.toNat, Bool.cond_decide]

theorem moved_eq_drift (coordinate : Nat × Nat → Nat) :
    moved T sample input seen coordinate =
      BitVec.ofInt 32 (drift T coordinate (below T sample input d)) := by
  rw [drift, ← sum_words fun p => offset T (coordinate p), below, Finset.sum_filter]
  apply total_eq
  intro p hp i
  simp only [flag, h p hp, decide_eq_true_eq]

end Own

theorem total_one : total T (fun _ _ => 1) = T.samples := by
  have h := T.layout
  simp only [total, Finset.sum_const, Finset.card_range, Finset.card_univ, Fintype.card_fin,
    smul_eq_mul, mul_one]
  rw [h.count_eq]
  conv_rhs => rw [h.whole]
  ring

theorem grid_card : (grid T).card = T.samples := by
  rw [Finset.card_eq_sum_ones, ← total_one (T := T)]
  exact (sum_visits T fun _ => 1).symm

variable (T sample input seen) in
theorem count_le : count T sample input seen ≤ T.samples := by
  rw [← total_one (T := T)]
  unfold count total
  gcongr
  exact Bool.toNat_le _

theorem below_subset (d : Data T.octaves) : below T sample input d ⊆ grid T :=
  Finset.filter_subset _ _

theorem emit_own {d : Data T.octaves} (h : ∀ p < T.threads_per_input, seen p = d) :
    emit T sample input seen = record T input (below T sample input d).card
      (BitVec.ofInt 32 (drift T Prod.fst (below T sample input d)))
      (BitVec.ofInt 32 (drift T Prod.snd (below T sample input d))) := by
  rw [emit_eq_record, count_eq_card h, moved_eq_drift h, moved_eq_drift h]

theorem card_lt {V : Finset (Nat × Nat)} (hV : V ⊆ grid T) : V.card < 2 ^ 31 := by
  have hle := Finset.card_le_card hV
  have hmax := T.samples_ok.2.1
  rw [grid_card] at hle
  omega

/-- Threads that all read the octaves of the input's own seed emit what the reference does as long
as the sums fit. -/
theorem emit_eq_reference
    (h : ∀ p < T.threads_per_input, seen p = (results input.seed_index).data T.octaves)
    (hfit : T.move_center = true →
      T.min_count.toNat ≤ (below T sample input ((results input.seed_index).data T.octaves)).card →
      DriftFits T (below T sample input ((results input.seed_index).data T.octaves))) :
    emit T sample input seen = reference T sample results input := by
  have hlt : (below T sample input ((results input.seed_index).data T.octaves)).card < 2 ^ 31 :=
    card_lt (below_subset _)
  rw [emit_own h, record, reference]
  generalize below T sample input ((results input.seed_index).data T.octaves) = V at hfit hlt
  split
  · next hmin =>
    split
    · next hmove =>
      obtain ⟨hx, hz⟩ := hfit hmove hmin
      rw [mean_words (by decide) hlt hx, mean_words (by decide) hlt hz]
    · rfl
  · rfl

/-- The template emits the same whatever the samples are. -/
def Blind {large_biomes : Bool} (T : Template large_biomes) : Prop :=
  T.samples < T.min_count.toNat ∨
    T.min_count.toNat = 0 ∧ (T.move_center = false ∨ T.pos_step = 0)

theorem offset_eq_zero (h : T.pos_step = 0) (i : Nat) : offset T i = 0 := by
  simp [offset, Template.pos_offset, h]

theorem Blind.summable (hT : Blind T) : Summable T := by
  intro hmove V hV hcard
  rcases hT with hlt | ⟨-, hmove' | hstep⟩
  · have hle := Finset.card_le_card hV
    rw [grid_card] at hle
    omega
  · exact absurd hmove (hmove' ▸ Bool.false_ne_true)
  · have hzero : ∀ coordinate, drift T coordinate V = 0 := by
      intro coordinate
      exact Finset.sum_eq_zero fun p _ => congrArg BitVec.toInt (offset_eq_zero hstep _)
    rw [DriftFits, hzero, hzero]
    decide

theorem moved_eq_zero (h : T.pos_step = 0) (coordinate : Nat × Nat → Nat) :
    moved T sample input seen coordinate = 0 := by
  simp only [moved, total, offset_eq_zero h, ite_self, Finset.sum_const_zero]

theorem emit_blind (hT : Blind T) (seen' : Nat → Data T.octaves) :
    emit T sample input seen = emit T sample input seen' := by
  rw [emit_eq_record, emit_eq_record]
  rcases hT with hlt | ⟨h0, hmove | hstep⟩
  · have h1 := count_le T sample input seen
    have h2 := count_le T sample input seen'
    rw [record, record, if_neg (by omega), if_neg (by omega)]
  · simp [record, h0, hmove]
  · simp [record, h0, moved_eq_zero hstep, BitVec.zero_sdiv]

end Emit

section Words

variable {large_biomes : Bool} (T : Template large_biomes) (inputs : Nat → SeedPos)
  (results : BitVec 32 → Words) (inputs_len : Nat)

def Template.inputs_per_grid : Nat := 32 * 256 * T.inputs_per_block

/-- The input whose thread loads word `i` in the round from `block_input_base` on. -/
def loader (block_input_base i : Nat) : Nat :=
  block_input_base + i / 4 % 256 / T.threads_per_input

/-- Word `i` of the octaves of an input's own seed. -/
def word (input_index i : Nat) : BitVec 32 := results (inputs input_index).seed_index i

/-- What a thread may find in word `i` of the buffer: the word that has been loaded, or, where no
input is left to load it, that of the block's round before, and anything in its first round. With 32
samples it may also be a word of the next round. -/
def Sees (block_input_base i : Nat) (v : BitVec 32) : Prop :=
  let j := loader T block_input_base i
  (if j < inputs_len then v = word inputs results j i
    else T.inputs_per_grid ≤ j → v = word inputs results (j - T.inputs_per_grid) i) ∨
  T.samples ≤ 32 ∧ j + T.inputs_per_grid < inputs_len ∧
    v = word inputs results (j + T.inputs_per_grid) i

/-- The threads of an input find nothing but the octaves of its own seed. -/
def OwnWords (input_index : Nat) : Prop :=
  ∀ i < T.octaves * 68, ∀ v,
    Sees T inputs results inputs_len
      (input_index / T.inputs_per_block * T.inputs_per_block) i v →
    v = word inputs results input_index i

theorem inputs_per_block_pos : 0 < T.inputs_per_block := by
  refine Nat.pos_of_ne_zero fun h => ?_
  have := T.layout.share
  rw [Template.inputs_per_block] at h
  rw [h, Nat.zero_mul] at this
  omega

theorem inputs_per_grid_pos : 0 < T.inputs_per_grid :=
  Nat.mul_pos (by decide) (inputs_per_block_pos T)

theorem loader_lt (base i : Nat) : loader T base i < base + T.inputs_per_block := by
  have hshare := T.layout.share
  have hpos : 0 < T.threads_per_input := by
    apply Nat.pos_of_ne_zero
    intro h
    rw [h, Nat.mul_zero] at hshare
    omega
  have hlt : i / 4 % 256 / T.threads_per_input < T.inputs_per_block := by
    rw [Nat.div_lt_iff_lt_mul hpos, Template.inputs_per_block, hshare]
    exact Nat.mod_lt _ (by decide)
  exact Nat.add_lt_add_left hlt base

theorem loader_next (base i : Nat) :
    loader T (base + T.inputs_per_grid) i = loader T base i + T.inputs_per_grid := by
  unfold loader
  omega

theorem inputs_per_block_le : T.inputs_per_block ≤ T.inputs_per_grid :=
  Nat.le_mul_of_pos_left _ (by decide)

end Words

section Rounds

variable {large_biomes : Bool} {T : Template large_biomes} {F : Type} [LT F] [DecidableLT F]
  [FloatOps F] {sample : Data T.octaves → BitVec 32 → BitVec 32 → BitVec 32 → F}
  {inputs : Nat → SeedPos} {results : BitVec 32 → Words} {inputs_len : Nat}

theorem mem_load_writes {base : Nat} {thread : Fin 256} {w : Nat × BitVec 32} :
    w ∈ load_writes T inputs results inputs_len base thread ↔
      base + thread / T.threads_per_input < inputs_len ∧
        w.1 < T.octaves * 68 ∧ w.1 / 4 % 256 = thread ∧
        w.2 = results (inputs (base + thread / T.threads_per_input)).seed_index w.1 := by
  obtain ⟨i, v⟩ := w
  simp only [load_writes]
  split
  · next hlen =>
    simp only [List.mem_flatMap, List.mem_map, List.mem_range, mem_strided (show 0 < 256 by decide),
      Prod.mk.injEq]
    constructor
    · rintro ⟨k, ⟨hk, a, ha⟩, j, hj, rfl, rfl⟩
      exact ⟨hlen, by omega, by omega, rfl⟩
    · rintro ⟨-, hi, ht, rfl⟩
      refine ⟨i / 4, ⟨by omega, i / 4 / 256, by omega⟩, i % 4, Nat.mod_lt _ (by decide), ?_, ?_⟩
      · omega
      · rw [Nat.div_add_mod]
  · next hlen =>
    constructor
    · intro h
      cases h
    · rintro ⟨h, -⟩
      exact absurd h hlen

theorem written_word {base i : Nat} {m m' : Words}
    (h : Written (load_writes T inputs results inputs_len base) m m') (hi : i < T.octaves * 68) :
    m' i = if loader T base i < inputs_len then word inputs results (loader T base i) i
      else m i := by
  split
  · next hlen =>
    apply h.eq (f := fun i => word inputs results (loader T base i) i)
    · intro t w hw
      obtain ⟨-, -, ht, hv⟩ := mem_load_writes.1 hw
      rw [hv, word, loader, ht]
    · let t : Fin 256 := ⟨i / 4 % 256, Nat.mod_lt _ (by decide)⟩
      exact ⟨t, (i, word inputs results (loader T base i) i),
        mem_load_writes.2 ⟨hlen, hi, rfl, rfl⟩, rfl⟩
  · next hlen =>
    apply h.keeps
    rintro t w hw rfl
    obtain ⟨hlt, -, ht, -⟩ := mem_load_writes.1 hw
    rw [loader, ht] at hlen
    exact hlen hlt

/-- Where `S` says what the threads of a round find in the buffer, a launch emits input by input
what its threads make of that. -/
theorem exists_emitted {R : Words → Nat → Words → List SeedPos → Prop} {I : Nat → Words → Prop}
    {S : Nat → Nat → BitVec 32 → Prop} {f : Nat → List SeedPos}
    (hR : ∀ base m m' out, base < inputs_len → I base m → R m base m' out →
      I (base + T.inputs_per_grid) m' ∧ ∃ seen : Nat → Words,
        (∀ thread, ∀ i < T.octaves * 68, S base i (seen thread i)) ∧
        out.Perm ((List.range T.inputs_per_block).flatMap fun b =>
          if base + b < inputs_len then
            emit T sample (inputs (base + b)) fun p =>
              (seen (b * T.threads_per_input + p)).data T.octaves
          else []))
    (hf : ∀ block < 32 * 256, ∃ m m', I (block * T.inputs_per_block) m ∧
      Items R m (strided (block * T.inputs_per_block) T.inputs_per_grid inputs_len) m' (f block)) :
    ∃ seen : Nat → Nat → Words,
      (∀ j < inputs_len, ∀ p, ∀ i < T.octaves * 68,
        S (j / T.inputs_per_block * T.inputs_per_block) i (seen j p i)) ∧
      ((List.range (32 * 256)).flatMap f).Perm ((List.range inputs_len).flatMap fun j =>
        emit T sample (inputs j) fun p => (seen j p).data T.octaves) := by
  have hpos := inputs_per_block_pos T
  have hblock : ∀ block < 32 * 256, ∃ seen : Nat → Nat → Words,
      (∀ base ∈ strided (block * T.inputs_per_block) T.inputs_per_grid inputs_len, ∀ thread,
        ∀ i < T.octaves * 68, S base i (seen base thread i)) ∧
      (f block).Perm ((strided (block * T.inputs_per_block) T.inputs_per_grid inputs_len).flatMap
        fun base => (List.range T.inputs_per_block).flatMap fun b =>
          if base + b < inputs_len then
            emit T sample (inputs (base + b)) fun p =>
              (seen base (b * T.threads_per_input + p)).data T.octaves
          else []) := by
    intro block hb
    obtain ⟨m, m', hm, hitems⟩ := hf block hb
    obtain ⟨r, hr, hP⟩ := hitems.stride_outputs hR (inputs_per_grid_pos T) hm
    choose! seen hsees hout using hP
    exact ⟨seen, hsees, hr ▸ List.Perm.flatMap_left _ hout⟩
  choose! seen hsees hperm using hblock
  refine ⟨fun j p => seen (j / T.inputs_per_block % (32 * 256))
    (j / T.inputs_per_block * T.inputs_per_block)
    (j % T.inputs_per_block * T.threads_per_input + p), ?_, ?_⟩
  · intro j hj p i hi
    refine hsees _ (Nat.mod_lt _ (by decide)) _ ?_ _ i hi
    refine (mem_strided (inputs_per_grid_pos T)).2 ⟨?_, j / T.inputs_per_block / (32 * 256), ?_⟩
    · exact (Nat.div_mul_le_self j _).trans_lt hj
    · rw [Template.inputs_per_grid, ← Nat.mul_assoc, ← Nat.add_mul,
        Nat.mul_comm (j / T.inputs_per_block / (32 * 256)), Nat.mod_add_div]
  · refine (List.Perm.flatMap_left _ fun block hb => ?_).trans
      (batches_flatMap_perm inputs_len (show 0 < 32 * 256 by decide) hpos _)
    refine (hperm block (List.mem_range.1 hb)).trans
      (List.Perm.flatMap_left _ fun base hbase => List.Perm.flatMap_left _ fun b hlt => ?_)
    obtain ⟨-, k, rfl⟩ := (mem_strided (inputs_per_grid_pos T)).1 hbase
    have hbase : block * T.inputs_per_block + k * T.inputs_per_grid =
        (block + k * (32 * 256)) * T.inputs_per_block := by
      rw [Template.inputs_per_grid]
      ring
    have hlt := List.mem_range.1 hlt
    have hb := List.mem_range.1 hb
    have hmod : ((block + k * (32 * 256)) * T.inputs_per_block + b) % T.inputs_per_block = b := by
      rw [Nat.add_comm, Nat.add_mul_mod_self_right, Nat.mod_eq_of_lt hlt]
    rw [hbase]
    beta_reduce
    rw [digit_div hlt, hmod, Nat.add_mul_mod_self_right, Nat.mod_eq_of_lt hb]

theorem loader_block_lt {block : Nat} (h : block < 32 * 256) (i : Nat) :
    loader T (block * T.inputs_per_block) i < T.inputs_per_grid := by
  have hlt := loader_lt T (block * T.inputs_per_block) i
  have hmul := Nat.mul_le_mul_right T.inputs_per_block (Nat.succ_le_of_lt h)
  rw [Nat.succ_mul] at hmul
  exact hlt.trans_le hmul

/-- The word that a round loads, or else the one that the round before has left. -/
theorem kept_word {base i : Nat} {m m' : Words}
    (h : Written (load_writes T inputs results inputs_len base) m m') (hi : i < T.octaves * 68)
    (hnext : base + T.inputs_per_grid < inputs_len) :
    m' i = word inputs results (loader T (base + T.inputs_per_grid) i - T.inputs_per_grid) i := by
  have hlt := loader_lt T base i
  have hle := inputs_per_block_le T
  rw [written_word h hi, if_pos (by omega), loader_next, Nat.add_sub_cancel]

theorem Round.sees {base : Nat} {m m' : Words} {out : List SeedPos}
    (h : Round T sample inputs results inputs_len m base m' out)
    (hm : ∀ i < T.octaves * 68, T.inputs_per_grid ≤ loader T base i →
      m i = word inputs results (loader T base i - T.inputs_per_grid) i) :
    ∃ seen : Nat → Words,
      (∀ thread, ∀ i < T.octaves * 68, Sees T inputs results inputs_len base i (seen thread i)) ∧
      out.Perm ((List.range T.inputs_per_block).flatMap fun b =>
        if base + b < inputs_len then
          emit T sample (inputs (base + b)) fun p =>
            (seen (b * T.threads_per_input + p)).data T.octaves
        else []) := by
  obtain ⟨next, hnext, seen, hseen, hout⟩ := h.emitted
  refine ⟨seen, ?_, hout⟩
  intro thread i hi
  have hown : Sees T inputs results inputs_len base i (m' i) := by
    left
    rw [written_word h.loaded hi]
    split
    · rfl
    · exact hm i hi
  rcases hseen thread i with heq | ⟨h32, heq⟩
  · rw [heq]
    exact hown
  · rw [heq, written_word hnext hi]
    split
    · next hlen =>
      exact .inr ⟨h32, loader_next T base i ▸ hlen,
        congrArg (word inputs results · i) (loader_next T base i)⟩
    · exact hown

/-- Every run emits input by input what the input's threads make of the words that they see. -/
theorem Kernel.emitted {outs : List SeedPos} (h : Kernel T sample inputs results inputs_len outs) :
    ∃ seen : Nat → Nat → Words,
      (∀ j < inputs_len, ∀ p, ∀ i < T.octaves * 68, Sees T inputs results inputs_len
        (j / T.inputs_per_block * T.inputs_per_block) i (seen j p i)) ∧
      outs.Perm ((List.range inputs_len).flatMap fun j =>
        emit T sample (inputs j) fun p => (seen j p).data T.octaves) := by
  obtain ⟨f, houts, hf⟩ := h
  let I (base : Nat) (m : Words) : Prop := base < inputs_len → ∀ i < T.octaves * 68,
    T.inputs_per_grid ≤ loader T base i →
      m i = word inputs results (loader T base i - T.inputs_per_grid) i
  have hstart : ∀ block < 32 * 256, ∃ m m', I (block * T.inputs_per_block) m ∧
      Items (Round T sample inputs results inputs_len) m
        (strided (block * T.inputs_per_block) T.inputs_per_grid inputs_len) m' (f block) := by
    intro block hb
    obtain ⟨m, m', hitems⟩ := hf block hb
    exact ⟨m, m', fun _ i _ hle => absurd (loader_block_lt hb i) (not_lt.2 hle), hitems⟩
  obtain ⟨seen, hsees, hperm⟩ := exists_emitted
    (fun base m m' out hlt hm h => ⟨fun hnext i hi _ => kept_word h.loaded hi hnext,
      Round.sees h (hm hlt)⟩) hstart
  exact ⟨seen, hsees, houts.trans hperm⟩

/-- The octaves that an input's threads read are those of its own seed. -/
def Owned {large_biomes : Bool} (T : Template large_biomes) : Prop :=
  256 ≤ T.samples ∨ T.octaves = 0

theorem Owned.ownWords (hT : Owned T) {j : Nat} (hj : j < inputs_len) :
    OwnWords T inputs results inputs_len j := by
  intro i hi v hv
  rcases hT with h256 | h0
  · have htpi : T.threads_per_input = 256 := Nat.min_eq_right h256
    have hbase : loader T (j / T.inputs_per_block * T.inputs_per_block) i = j := by
      have hdiv : i / 4 % 256 / 256 = 0 := Nat.div_eq_of_lt (Nat.mod_lt _ (by decide))
      rw [loader, Template.inputs_per_block, htpi, hdiv, Nat.add_zero]
      omega
    rcases hv with hv | ⟨h32, -⟩
    · rwa [hbase, if_pos hj] at hv
    · omega
  · rw [h0, Nat.zero_mul] at hi
    exact absurd hi (Nat.not_lt_zero i)

theorem Kernel.perm_own {outs : List SeedPos}
    (h : Kernel T sample inputs results inputs_len outs)
    (hown : ∀ j < inputs_len, OwnWords T inputs results inputs_len j) :
    outs.Perm ((List.range inputs_len).flatMap fun j =>
      emit T sample (inputs j) fun _ => (results (inputs j).seed_index).data T.octaves) := by
  obtain ⟨seen, hsees, hperm⟩ := h.emitted
  refine hperm.trans (List.Perm.flatMap_left _ fun j hj => List.Perm.of_eq ?_)
  have hj := List.mem_range.1 hj
  rw [emit_own (d := (results (inputs j).seed_index).data T.octaves), emit_own fun _ _ => rfl]
  intro p _
  funext i
  exact hown j hj i i.isLt _ (hsees j hj p i i.isLt)

theorem Kernel.perm {outs : List SeedPos} (h : Kernel T sample inputs results inputs_len outs)
    (hT : Blind T ∨ ∀ j < inputs_len, Summable T ∧ OwnWords T inputs results inputs_len j) :
    outs.Perm ((List.range inputs_len).flatMap fun j => reference T sample results (inputs j)) := by
  rcases hT with hT | hT
  · obtain ⟨seen, -, hperm⟩ := h.emitted
    refine hperm.trans (List.Perm.flatMap_left _ fun j _ => List.Perm.of_eq ?_)
    exact (emit_blind hT fun _ => (results (inputs j).seed_index).data T.octaves).trans
      (emit_eq_reference (fun _ _ => rfl) fun hmove => hT.summable hmove _ (below_subset _))
  · refine (h.perm_own fun j hj => (hT j hj).2).trans
      (List.Perm.flatMap_left _ fun j hj => List.Perm.of_eq ?_)
    have hsum := (hT j (List.mem_range.1 hj)).1
    exact emit_eq_reference (fun _ _ => rfl) fun hmove => hsum hmove _ (below_subset _)

variable (T sample inputs results inputs_len)

theorem exists_round (m : Words) (base : Nat) :
    ∃ m' out, Round T sample inputs results inputs_len m base m' out := by
  obtain ⟨m', hm'⟩ := exists_written (load_writes T inputs results inputs_len base) m
  obtain ⟨next, hnext⟩ := exists_written (load_writes T inputs results inputs_len
    (base + 32 * 256 * T.inputs_per_block)) m'
  exact ⟨m', _, hm', next, hnext, fun _ => m', fun _ _ => .inl rfl, .refl _⟩

theorem exists_kernel : ∃ outs, Kernel T sample inputs results inputs_len outs := by
  choose m' f hf using fun block => exists_items
    (exists_round T sample inputs results inputs_len) (fun _ => 0)
    (strided (block * T.inputs_per_block) (32 * 256 * T.inputs_per_block) inputs_len)
  exact ⟨_, f, .refl _, fun block _ => ⟨_, m' block, hf block⟩⟩

variable {T sample inputs results inputs_len}

/-- Where the threads find their own seed's octaves only and the sums fit, or where the octaves do
not matter, the kernel is the reference. -/
theorem kernel_iff
    (hT : Blind T ∨ ∀ j < inputs_len, Summable T ∧ OwnWords T inputs results inputs_len j)
    {outs : List SeedPos} : Kernel T sample inputs results inputs_len outs ↔
      outs.Perm ((List.range inputs_len).flatMap fun j =>
        reference T sample results (inputs j)) := by
  constructor
  · exact fun h => h.perm hT
  · intro houts
    obtain ⟨outs', h⟩ := exists_kernel T sample inputs results inputs_len
    have hperm := h.perm hT
    obtain ⟨f, hf, hblocks⟩ := h
    exact ⟨f, (houts.trans hperm.symm).trans hf, hblocks⟩

end Rounds

end Omission.Gpu.Filter2
