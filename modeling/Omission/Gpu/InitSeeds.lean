import Omission.Gpu.Pipeline
import Omission.Lib.Interleave
import Omission.Lib.Threads

namespace Omission.Gpu.KernelSeed1
open Omission.Lib Omission.Gpu.Pipeline
set_option autoImplicit true

def threads_per_block : Nat := 32

/-- `sizeof(ImprovedNoise) / sizeof(uint4)` -/
def u4_per_struct : Nat := 17

/-- What a thread does between two barriers. -/
inductive Op where
  /-- `init_noise` on the thread's own entry of `shared_noise` -/
  | init (block thread : Nat) (o : Octave)
  /-- one `uint4` of `copy_noise` -/
  | copy (block : Nat) (o : Octave) (i : Nat)

/-- `shared_noise` of every block, and `results`, in words of type `W`. -/
structure Memory (W : Type) where
  shared_noise : Nat × Nat → Nat → W
  results : Nat × Octave × Nat → W

/-- Where word `i` of `shared_noise` goes. -/
def target (block : Nat) (o : Octave) (i : Nat) : Nat × Octave × Nat :=
  (block * threads_per_block + i / u4_per_struct, o, i % u4_per_struct)

/-- `input` holds the seeds; `init_noise` gives the words of an octave of a seed. -/
def act {W : Type} (init_noise : BitVec 64 → Octave → Nat → W) (input : Nat → BitVec 64) :
    Op → Memory W → Memory W
  | .init block thread o, m =>
    { m with
      shared_noise := Function.update m.shared_noise (block, thread)
        (init_noise (input (block * threads_per_block + thread)) o) }
  | .copy block o i, m =>
    { m with
      results := Function.update m.results (target block o i)
        (m.shared_noise (block, i / u4_per_struct) (i % u4_per_struct)) }

def copy_noise (input_len block : Nat) (o : Octave) (thread : Nat) : List Op :=
  ((strided thread threads_per_block (threads_per_block * u4_per_struct)).filter fun i =>
    block * threads_per_block + i / u4_per_struct < input_len).map (.copy block o)

/-- `init_octave`: two phases, each ended by a barrier. -/
def init_octave (input_len block : Nat) (o : Octave) : List (List (List Op)) :=
  [(List.range threads_per_block).map fun thread =>
      if block * threads_per_block + thread < input_len then [.init block thread o] else [],
    (List.range threads_per_block).map (copy_noise input_len block o)]

/-- `kernel` and `kernel_full`, which differ in their octaves only. -/
def kernel (octaves : List Octave) (input_len block : Nat) : List (List (List Op)) :=
  if block * threads_per_block ≥ input_len then []
  else octaves.flatMap (init_octave input_len block)

/-- The grid that `GpuThread::run` launches. -/
def init_grid : Nat := max (threads_per_run / threads_per_block) 4420

section Independent

variable {W : Type} {init_noise : BitVec 64 → Octave → Nat → W} {input : Nat → BitVec 64}
  {octaves : List Octave}

/-- An operation of block `b` on one of its threads' entries. -/
def Op.Within (b : Nat) : Op → Prop
  | .init block thread _ => block = b ∧ thread < threads_per_block
  | .copy block _ i => block = b ∧ i < threads_per_block * u4_per_struct

theorem init_init {b t b' t' : Nat} (h : (b, t) ≠ (b', t')) (o o' : Octave) (m : Memory W) :
    act init_noise input (.init b t o) (act init_noise input (.init b' t' o') m) =
      act init_noise input (.init b' t' o') (act init_noise input (.init b t o) m) := by
  simp only [act]
  rw [Function.update_comm h]

theorem init_copy {b t b' i : Nat} (h : b ≠ b') (o o' : Octave) (m : Memory W) :
    act init_noise input (.init b t o) (act init_noise input (.copy b' o' i) m) =
      act init_noise input (.copy b' o' i) (act init_noise input (.init b t o) m) := by
  have hne : (b', i / u4_per_struct) ≠ (b, t) := fun he => h (congrArg Prod.fst he).symm
  simp only [act, Function.update_of_ne hne]

theorem copy_copy {b i b' i' : Nat} {o o' : Octave} (h : target b o i ≠ target b' o' i')
    (m : Memory W) :
    act init_noise input (.copy b o i) (act init_noise input (.copy b' o' i') m) =
      act init_noise input (.copy b' o' i') (act init_noise input (.copy b o i) m) := by
  simp only [act]
  rw [Function.update_comm h]

theorem struct_lt {i : Nat} (h : i < threads_per_block * u4_per_struct) :
    i / u4_per_struct < threads_per_block := by
  simp only [threads_per_block, u4_per_struct] at h ⊢
  omega

/-- Two blocks never write the same word of `results`. -/
theorem target_block (hi : i < threads_per_block * u4_per_struct)
    (hi' : i' < threads_per_block * u4_per_struct) (h : target b o i = target b' o' i') :
    b = b' := by
  have hlt := struct_lt hi
  have hlt' := struct_lt hi'
  have h1 : b * threads_per_block + i / u4_per_struct =
      b' * threads_per_block + i' / u4_per_struct := congrArg Prod.fst h
  simp only [threads_per_block, u4_per_struct] at h1 hlt hlt'
  omega

theorem target_inj (h : target b o i = target b o i') : i = i' := by
  have h1 : b * threads_per_block + i / u4_per_struct =
      b * threads_per_block + i' / u4_per_struct := congrArg Prod.fst h
  have h2 : i % u4_per_struct = i' % u4_per_struct := congrArg (fun p => p.2.2) h
  rw [← Nat.div_add_mod i u4_per_struct, ← Nat.div_add_mod i' u4_per_struct,
    Nat.add_left_cancel h1, h2]

theorem blocks_independent (hb : b ≠ b') {a a' : Op} (ha : a.Within b) (ha' : a'.Within b')
    (m : Memory W) :
    act init_noise input a (act init_noise input a' m) =
      act init_noise input a' (act init_noise input a m) := by
  cases a with
  | init block thread o =>
    obtain ⟨rfl, -⟩ := ha
    cases a' with
    | init block' thread' o' =>
      obtain ⟨rfl, -⟩ := ha'
      exact init_init (fun he => hb (congrArg Prod.fst he)) o o' m
    | copy block' o' i' =>
      obtain ⟨rfl, -⟩ := ha'
      exact init_copy hb o o' m
  | copy block o i =>
    obtain ⟨rfl, hi⟩ := ha
    cases a' with
    | init block' thread' o' =>
      obtain ⟨rfl, -⟩ := ha'
      exact (init_copy hb.symm o' o m).symm
    | copy block' o' i' =>
      obtain ⟨rfl, hi'⟩ := ha'
      exact copy_copy (fun he => hb (target_block hi hi' he)) m

theorem mem_copy_noise : a ∈ copy_noise input_len b o t ↔
    ∃ i, i ∈ strided t threads_per_block (threads_per_block * u4_per_struct) ∧
      b * threads_per_block + i / u4_per_struct < input_len ∧ .copy b o i = a := by
  simp only [copy_noise, List.mem_map, List.mem_filter, decide_eq_true_eq, and_assoc]

theorem mem_words {i : Nat} :
    i ∈ strided t threads_per_block (threads_per_block * u4_per_struct) ↔
      i < threads_per_block * u4_per_struct ∧ ∃ k, i = t + k * threads_per_block :=
  mem_strided (by decide)

theorem init_octave_within {a : Op} (ha : a ∈ sequential (init_octave input_len b o)) :
    a.Within b := by
  simp only [sequential, init_octave, List.flatMap_cons, List.flatMap_nil, List.append_nil,
    List.mem_append, List.mem_flatten, List.mem_map, List.mem_range] at ha
  rcases ha with ⟨_, ⟨t, ht, rfl⟩, ha⟩ | ⟨_, ⟨t, ht, rfl⟩, ha⟩
  · split at ha
    · obtain rfl := List.mem_singleton.1 ha
      exact ⟨rfl, ht⟩
    · cases ha
  · obtain ⟨i, hi, -, rfl⟩ := mem_copy_noise.1 ha
    exact ⟨rfl, (mem_words.1 hi).1⟩

theorem sequential_flatMap (f : β → List (List (List α))) (l : List β) :
    sequential (l.flatMap f) = l.flatMap fun x => sequential (f x) := by
  simp only [sequential, List.flatMap_assoc]

theorem kernel_within {a : Op} (ha : a ∈ sequential (kernel octaves input_len b)) :
    a.Within b := by
  rw [kernel] at ha
  split at ha
  · cases ha
  · rw [sequential_flatMap] at ha
    obtain ⟨o, -, ha⟩ := List.mem_flatMap.1 ha
    exact init_octave_within ha

theorem init_phase_independent (input_len b : Nat) (o : Octave) :
    ((List.range threads_per_block).map fun thread =>
      if b * threads_per_block + thread < input_len then [Op.init b thread o] else []).Pairwise
        (Independent (act init_noise input)) := by
  rw [List.pairwise_map]
  refine List.nodup_range.pairwise_of_forall_ne ?_
  intro t _ t' _ hne x hx y hy m
  split at hx
  · split at hy
    · obtain rfl := List.mem_singleton.1 hx
      obtain rfl := List.mem_singleton.1 hy
      exact init_init (fun he => hne (congrArg Prod.snd he)) o o m
    · cases hy
  · cases hx

theorem copy_phase_independent (input_len b : Nat) (o : Octave) :
    ((List.range threads_per_block).map (copy_noise input_len b o)).Pairwise
      (Independent (act init_noise input)) := by
  rw [List.pairwise_map]
  refine List.nodup_range.pairwise_of_forall_ne ?_
  intro t ht t' ht' hne x hx y hy m
  obtain ⟨i, hi, -, rfl⟩ := mem_copy_noise.1 hx
  obtain ⟨i', hi', -, rfl⟩ := mem_copy_noise.1 hy
  obtain ⟨-, k, rfl⟩ := mem_words.1 hi
  obtain ⟨-, k', rfl⟩ := mem_words.1 hi'
  apply copy_copy
  intro he
  have he := target_inj he
  rw [List.mem_range] at ht ht'
  simp only [threads_per_block] at he ht ht'
  omega

theorem phases_independent {phases : List (List Op)} (h : phases ∈ kernel octaves input_len b) :
    phases.Pairwise (Independent (act init_noise input)) := by
  rw [kernel] at h
  split at h
  · cases h
  · obtain ⟨o, -, h⟩ := List.mem_flatMap.1 h
    rcases List.mem_cons.1 h with rfl | h
    · exact init_phase_independent input_len b o
    · obtain rfl := List.mem_singleton.1 h
      exact copy_phase_independent input_len b o

/-- Any order the launch may take ends in the same memory. -/
theorem launch_sequential (h : Launched ((List.range grid).map (kernel octaves input_len)) l)
    (m : Memory W) :
    perform (act init_noise input) l m = perform (act init_noise input)
      ((List.range grid).flatMap fun b => sequential (kernel octaves input_len b)) m := by
  rw [h.perform ?_ ?_ m, List.flatMap_map]
  · rw [List.pairwise_map]
    refine List.nodup_range.pairwise_of_forall_ne ?_
    intro b _ b' _ hne x hx y hy m
    exact blocks_independent hne (kernel_within hx) (kernel_within hy) m
  · intro phases hphases ls hls
    obtain ⟨b, -, rfl⟩ := List.mem_map.1 hphases
    exact phases_independent hls

end Independent

section Results

variable {W : Type} {init_noise : BitVec 64 → Octave → Nat → W} {input : Nat → BitVec 64}
  {octaves : List Octave}

theorem perform_inits (ts : List Nat) (m : Memory W) :
    (perform (act init_noise input) (ts.flatMap fun thread =>
        if b * threads_per_block + thread < input_len then [.init b thread o] else []) m).results =
        m.results ∧
      ∀ t, t ∈ ts → b * threads_per_block + t < input_len →
        (perform (act init_noise input) (ts.flatMap fun thread =>
          if b * threads_per_block + thread < input_len then [.init b thread o] else [])
          m).shared_noise (b, t) = init_noise (input (b * threads_per_block + t)) o := by
  induction ts using List.reverseRecOn with
  | nil => exact ⟨rfl, nofun⟩
  | append_singleton ts t ih =>
    rw [List.flatMap_append, perform_append, List.flatMap_singleton]
    split
    · simp only [perform_cons, perform_nil, act]
      refine ⟨ih.1, ?_⟩
      intro t' ht' hlen
      by_cases he : t' = t
      · rw [he, Function.update_self]
      · rw [Function.update_of_ne fun h => he (congrArg Prod.snd h)]
        refine ih.2 t' ?_ hlen
        rcases List.mem_append.1 ht' with h | h
        · exact h
        · exact absurd (List.mem_singleton.1 h) he
    · next hlen =>
      refine ⟨ih.1, ?_⟩
      intro t' ht' hlen'
      refine ih.2 t' ?_ hlen'
      rcases List.mem_append.1 ht' with h | h
      · exact h
      · exact absurd (List.mem_singleton.1 h ▸ hlen') hlen

theorem perform_copies (is : List Nat) (m : Memory W) (key : Nat × Octave × Nat) :
    (perform (act init_noise input) (is.map (.copy b o)) m).shared_noise = m.shared_noise ∧
      (perform (act init_noise input) (is.map (.copy b o)) m).results key =
        if key ∈ is.map (target b o) then
          m.shared_noise (b, key.1 - b * threads_per_block) key.2.2
        else m.results key := by
  induction is using List.reverseRecOn with
  | nil => exact ⟨rfl, (if_neg List.not_mem_nil).symm⟩
  | append_singleton is i ih =>
    rw [List.map_append, perform_append]
    simp only [List.map_cons, List.map_nil, perform_cons, perform_nil, act]
    refine ⟨ih.1, ?_⟩
    rw [List.map_append, ih.1]
    by_cases he : key = target b o i
    · have hmem : target b o i ∈ is.map (target b o) ++ [target b o i] :=
        List.mem_append_right _ List.mem_cons_self
      rw [he, Function.update_self, List.map_singleton, if_pos hmem, target,
        Nat.add_sub_cancel_left]
    · rw [Function.update_of_ne he, ih.2]
      simp only [List.mem_append, List.map_cons, List.map_nil, List.mem_singleton, he, or_false]

/-- The words of the block that `copy_noise` copies, over all its threads. -/
def copied (input_len block : Nat) : List Nat :=
  (List.range threads_per_block).flatMap fun thread =>
    (strided thread threads_per_block (threads_per_block * u4_per_struct)).filter fun i =>
      block * threads_per_block + i / u4_per_struct < input_len

theorem mem_copied : i ∈ copied input_len b ↔
    i < threads_per_block * u4_per_struct ∧
      b * threads_per_block + i / u4_per_struct < input_len := by
  simp only [copied, List.mem_flatMap, List.mem_filter, decide_eq_true_eq, mem_words,
    List.mem_range]
  constructor
  · rintro ⟨t, -, ⟨hi, -⟩, hlen⟩
    exact ⟨hi, hlen⟩
  · rintro ⟨hi, hlen⟩
    refine ⟨i % threads_per_block, Nat.mod_lt i (by decide), ⟨hi, i / threads_per_block, ?_⟩, hlen⟩
    rw [Nat.mul_comm, Nat.mod_add_div]

theorem mem_targets : (k, o', w) ∈ (copied input_len b).map (target b o) ↔
    o' = o ∧ k / threads_per_block = b ∧ k < input_len ∧ w < u4_per_struct := by
  simp only [List.mem_map, mem_copied, target, Prod.mk.injEq]
  constructor
  · rintro ⟨i, ⟨hi, hlen⟩, rfl, rfl, rfl⟩
    have hlt := struct_lt hi
    refine ⟨rfl, ?_, hlen, Nat.mod_lt _ (by decide)⟩
    rw [Nat.add_comm, Nat.add_mul_div_right _ _ (by decide), Nat.div_eq_of_lt hlt, Nat.zero_add]
  · rintro ⟨rfl, rfl, hlen, hw⟩
    have hdiv : (k % threads_per_block * u4_per_struct + w) / u4_per_struct =
        k % threads_per_block := by
      rw [Nat.add_comm, Nat.add_mul_div_right _ _ (by decide), Nat.div_eq_of_lt hw, Nat.zero_add]
    have hk : k / threads_per_block * threads_per_block + k % threads_per_block = k := by
      rw [Nat.mul_comm, Nat.div_add_mod]
    have hmod : k % threads_per_block < threads_per_block := Nat.mod_lt k (by decide)
    refine ⟨k % threads_per_block * u4_per_struct + w, ⟨?_, ?_⟩, ?_, rfl, ?_⟩
    · simp only [threads_per_block, u4_per_struct] at hmod hw ⊢
      omega
    · rwa [hdiv, hk]
    · rw [hdiv, hk]
    · rw [Nat.add_comm, Nat.add_mul_mod_self_right, Nat.mod_eq_of_lt hw]

theorem init_octave_results (m : Memory W) (key : Nat × Octave × Nat) :
    (perform (act init_noise input) (sequential (init_octave input_len b o)) m).results key =
      if key.2.1 = o ∧ key.1 / threads_per_block = b ∧ key.1 < input_len ∧ key.2.2 < u4_per_struct
      then init_noise (input key.1) o key.2.2 else m.results key := by
  obtain ⟨k, o', w⟩ := key
  have hcopies : ((List.range threads_per_block).map (copy_noise input_len b o)).flatten =
      (copied input_len b).map (.copy b o) := by
    rw [copied, List.map_flatMap, List.flatten_eq_flatMap, List.flatMap_map]
    rfl
  simp only [sequential, init_octave, List.flatMap_cons, List.flatMap_nil, List.append_nil,
    perform_append, hcopies]
  rw [← List.flatMap_def, (perform_copies _ _ _).2]
  simp only [mem_targets]
  split
  · next h =>
    obtain ⟨rfl, rfl, hlen, hw⟩ := h
    have hk : k / threads_per_block * threads_per_block + k % threads_per_block = k := by
      rw [Nat.mul_comm, Nat.div_add_mod]
    have hsub : k - k / threads_per_block * threads_per_block = k % threads_per_block := by omega
    rw [hsub, (perform_inits _ m).2 _ (List.mem_range.2 (Nat.mod_lt k (by decide)))
      (by rwa [hk]), hk]
  · rw [(perform_inits _ m).1]

theorem octaves_results (octaves : List Octave) (m : Memory W) (key : Nat × Octave × Nat) :
    (perform (act init_noise input)
        (octaves.flatMap fun o => sequential (init_octave input_len b o)) m).results key =
      if key.2.1 ∈ octaves ∧ key.1 / threads_per_block = b ∧ key.1 < input_len ∧
          key.2.2 < u4_per_struct
      then init_noise (input key.1) key.2.1 key.2.2 else m.results key := by
  induction octaves using List.reverseRecOn with
  | nil => simp only [List.not_mem_nil, false_and, if_false, List.flatMap_nil, perform_nil]
  | append_singleton os o ih =>
    rw [List.flatMap_append, perform_append, List.flatMap_singleton, init_octave_results, ih]
    simp only [List.mem_append, List.mem_singleton]
    split_ifs <;> simp_all

theorem kernel_results (octaves : List Octave) (m : Memory W) (key : Nat × Octave × Nat) :
    (perform (act init_noise input) (sequential (kernel octaves input_len b)) m).results key =
      if key.2.1 ∈ octaves ∧ key.1 / threads_per_block = b ∧ key.1 < input_len ∧
          key.2.2 < u4_per_struct
      then init_noise (input key.1) key.2.1 key.2.2 else m.results key := by
  rw [kernel]
  split
  · next h =>
    refine (if_neg ?_).symm
    rintro ⟨-, rfl, hlen, -⟩
    have := Nat.div_mul_le_self key.1 threads_per_block
    omega
  · rw [sequential_flatMap, octaves_results]

theorem blocks_results (bs : List Nat) (m : Memory W) (key : Nat × Octave × Nat) :
    (perform (act init_noise input)
        (bs.flatMap fun b => sequential (kernel octaves input_len b)) m).results key =
      if key.2.1 ∈ octaves ∧ key.1 / threads_per_block ∈ bs ∧ key.1 < input_len ∧
          key.2.2 < u4_per_struct
      then init_noise (input key.1) key.2.1 key.2.2 else m.results key := by
  induction bs using List.reverseRecOn with
  | nil =>
    simp only [List.not_mem_nil, false_and, and_false, if_false, List.flatMap_nil, perform_nil]
  | append_singleton bs b ih =>
    rw [List.flatMap_append, perform_append, List.flatMap_singleton, kernel_results, ih]
    simp only [List.mem_append, List.mem_singleton]
    split_ifs <;> simp_all

theorem reached_iff {octaves : List Octave} {k input_len : Nat} :
    (k / threads_per_block ∈ List.range init_grid ∧ k < input_len) ↔
      k < (Kernel.init_seeds octaves).bound input_len := by
  rw [List.mem_range, Nat.div_lt_iff_lt_mul (by decide)]
  exact and_comm.trans Nat.lt_min.symm

theorem results_of_reached {octaves : List Octave} {input_len : Nat} {l : List Op}
    (h : Launched ((List.range init_grid).map (kernel octaves input_len)) l) (m : Memory W)
    (ho : o ∈ octaves) (hk : k < (Kernel.init_seeds octaves).bound input_len)
    (hw : w < u4_per_struct) :
    (perform (act init_noise input) l m).results (k, o, w) = init_noise (input k) o w := by
  rw [launch_sequential h, blocks_results]
  obtain ⟨hblock, hlen⟩ := reached_iff.2 hk
  exact if_pos ⟨ho, hblock, hlen, hw⟩

/-- However the blocks and threads of a launch are scheduled, it leaves the octaves of every seed
it reaches, and the rest of `results` as it was. -/
theorem init_seeds_results {octaves : List Octave} {input_len : Nat} {l : List Op}
    (h : Launched ((List.range init_grid).map (kernel octaves input_len)) l) (m : Memory W)
    (k : Nat) (o : Octave) (w : Nat) :
    (perform (act init_noise input) l m).results (k, o, w) =
      if o ∈ octaves ∧ k < (Kernel.init_seeds octaves).bound input_len ∧ w < u4_per_struct
      then init_noise (input k) o w else m.results (k, o, w) := by
  rw [launch_sequential h, blocks_results]
  simp only [← reached_iff, and_assoc]

theorem init_seeds_results_last_word :
    (perform (act (fun seed o w => seed.toNat + 100 * o.2 + 1000 * w) (BitVec.ofNat 64))
      (((List.range init_grid).map (kernel init_octaves 40)).flatMap sequential)
      ⟨fun _ _ => 0, fun _ => 0⟩).results (39, (.B, 1), 16) = 16139 :=
  (init_seeds_results (launched_sequential _) _ 39 (.B, 1) 16).trans (by decide)

end Results

end Omission.Gpu.KernelSeed1
