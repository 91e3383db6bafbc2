import Mathlib.Data.Finset.Prod
import Omission.Gpu.InitSeeds
import Omission.Gpu.Sample

namespace Omission.Gpu.KernelFilterOriginCheck
open Omission.Lib Omission.Gpu.Pipeline FloatOps
set_option autoImplicit true

def threads_per_block : Nat := 256
def origin_threshold [FloatOps F] : F := ofRat (-9500 / 10000)
def grid_threshold [FloatOps F] : F := ofRat (-10500 / 10000)
def grid_size : Nat := 16
def grid_step : Nat := 128
def grid_offset : BitVec 32 := -BitVec.ofNat 32 (grid_step * (grid_size - 1) / 2)
def min_count : BitVec 32 := 16

/-- `sizeof(GradDotTable) / sizeof(uint32_t)` -/
def grad_table_words : Nat := 48

/-- `octaves * sizeof(ImprovedNoise) / sizeof(uint4)` -/
def n_u4 : Nat := 18 * KernelSeed1.u4_per_struct

inductive Op where
  | copy_table (i : Nat)
  /-- thread 0 clears the counter and the flag -/
  | reset
  | load (i : Nat)
  /-- thread 0 samples the origin -/
  | check
  /-- a thread samples its point of the grid -/
  | count (thread : Nat)
  /-- thread 0 puts out the seed -/
  | emit
deriving DecidableEq

/-- The shared memory of a block. -/
structure Shared (F W : Type) where
  shared_grad_dot_table : Nat → F
  s_octaves : Nat → W
  shared_count : BitVec 32
  shared_origin_ok : Bool

def coordinate (index : Nat) : BitVec 32 := BitVec.ofNat 32 (index * grid_step) + grid_offset

section Kernel

variable {F W : Type} [LT F] [DecidableLT F] [FloatOps F]
  (sample : (Fin grad_table_words → F) → (Fin n_u4 → W) → BitVec 32 → BitVec 32 → BitVec 32 → F)
  (device_grad_dot_table : Nat → F) (results : Nat → Nat → W)

def Shared.value (s : Shared F W) (x y z : BitVec 32) : F :=
  sample (fun i => s.shared_grad_dot_table i) (fun i => s.s_octaves i) x y z

/-- Whether a thread, unless it has left, finds its point of the grid below the threshold. -/
def Shared.hit (s : Shared F W) (thread : Nat) : Bool :=
  s.shared_origin_ok && decide (s.value sample (coordinate (thread % grid_size)) 0
    (coordinate (thread / grid_size)) < grid_threshold)

/-- An operation of block `seed_index`. Past the check all threads leave when the flag is off. -/
def run (seed_index : Nat) : Op → Shared F W → Shared F W × Multiset SeedPos
  | .copy_table i, s =>
    ({ s with
       shared_grad_dot_table :=
         Function.update s.shared_grad_dot_table i (device_grad_dot_table i) }, 0)
  | .reset, s => ({ s with shared_count := 0, shared_origin_ok := false }, 0)
  | .load i, s =>
    ({ s with s_octaves := Function.update s.s_octaves i (results seed_index i) }, 0)
  | .check, s =>
    ({ s with shared_origin_ok := decide (s.value sample 0 0 0 < origin_threshold) }, 0)
  | .count thread, s =>
    if s.hit sample thread then ({ s with shared_count := s.shared_count + 1 }, 0) else (s, 0)
  | .emit, s =>
    if s.shared_origin_ok && decide (min_count ≤ s.shared_count)
    then (s, {⟨BitVec.ofNat 32 seed_index, 0, 0⟩})
    else (s, 0)

def threads (ops : Nat → List Op) : List (List Op) := (List.range threads_per_block).map ops

/-- The phases of a block between its barriers. -/
def kernel (seeds_len seed_index : Nat) : List (List (List Op)) :=
  threads (fun thread => (strided thread threads_per_block grad_table_words).map .copy_table ++
      if thread = 0 then [.reset] else []) ::
    if seed_index ≥ seeds_len then []
    else
      [threads fun thread => (strided thread threads_per_block n_u4).map .load,
        threads fun thread => if thread = 0 then [.check] else [],
        threads fun thread => [.count thread],
        threads fun thread => if thread = 0 then [.emit] else []]

/-- What the filter asks of the octaves of a seed. -/
def passes (d : Fin n_u4 → W) : Prop :=
  sample (fun i => device_grad_dot_table i) d 0 0 0 < origin_threshold ∧
    min_count.toNat ≤ ((Finset.range grid_size ×ˢ Finset.range grid_size).filter fun p =>
      sample (fun i => device_grad_dot_table i) d (coordinate p.1) 0 (coordinate p.2) <
        grid_threshold).card

instance (d : Fin n_u4 → W) : Decidable (passes sample device_grad_dot_table d) :=
  inferInstanceAs (Decidable (_ ∧ _))

end Kernel

section Block

variable {F W : Type} [LT F] [DecidableLT F] [FloatOps F]
  {sample : (Fin grad_table_words → F) → (Fin n_u4 → W) → BitVec 32 → BitVec 32 → BitVec 32 → F}
  {device_grad_dot_table : Nat → F} {results : Nat → Nat → W}

/-- The phase an operation belongs to. -/
def Op.phase : Op → Nat
  | .copy_table _ => 0
  | .reset => 0
  | .load _ => 1
  | .check => 2
  | .count _ => 3
  | .emit => 4

theorem update_update {α β : Type} [DecidableEq α] (f v : α → β) (i j : α) :
    Function.update (Function.update f i (v i)) j (v j) =
      Function.update (Function.update f j (v j)) i (v i) := by
  by_cases h : i = j
  · rw [h]
  · exact Function.update_comm h _ _ _

@[simp] theorem hit_count (s : Shared F W) (c : BitVec 32) (t : Nat) :
    Shared.hit sample { s with shared_count := c } t = s.hit sample t := rfl

/-- Within a phase the order does not matter. -/
theorem phase_comm {a b : Op} (h : a.phase = b.phase) (k : Nat)
    (p : Shared F W × Multiset SeedPos) :
    alone (run sample device_grad_dot_table results) k a
        (alone (run sample device_grad_dot_table results) k b p) =
      alone (run sample device_grad_dot_table results) k b
        (alone (run sample device_grad_dot_table results) k a p) := by
  cases a with
  | copy_table i =>
    cases b with
    | copy_table j => simp only [alone, run, update_update _ device_grad_dot_table]
    | reset => rfl
    | _ => cases h
  | reset =>
    cases b with
    | copy_table j => rfl
    | reset => rfl
    | _ => cases h
  | load i =>
    cases b with
    | load j => simp only [alone, run, update_update _ (results k)]
    | _ => cases h
  | check =>
    cases b with
    | check => rfl
    | _ => cases h
  | count t =>
    cases b with
    | count t' =>
      cases ht : p.1.hit sample t <;> cases ht' : p.1.hit sample t' <;> simp [alone, run, ht, ht']
    | _ => cases h
  | emit =>
    cases b with
    | emit => rfl
    | _ => cases h

theorem mem_threads {ops : Nat → List Op} (h : l ∈ threads ops) :
    ∃ t, t < threads_per_block ∧ ops t = l := by
  obtain ⟨t, ht, rfl⟩ := List.mem_map.1 h
  exact ⟨t, List.mem_range.1 ht, rfl⟩

theorem kernel_phase {phase : List (List Op)} (h : phase ∈ kernel len k) :
    ∃ n, ∀ l ∈ phase, ∀ a ∈ l, a.phase = n := by
  rw [kernel] at h
  rcases List.mem_cons.1 h with rfl | h
  · refine ⟨0, fun l hl a ha => ?_⟩
    obtain ⟨t, -, rfl⟩ := mem_threads hl
    rcases List.mem_append.1 ha with ha | ha
    · obtain ⟨i, -, rfl⟩ := List.mem_map.1 ha
      rfl
    · split at ha
      · obtain rfl := List.mem_singleton.1 ha
        rfl
      · cases ha
  split at h
  · cases h
  simp only [List.mem_cons, List.not_mem_nil, or_false] at h
  rcases h with rfl | rfl | rfl | rfl
  · refine ⟨1, fun l hl a ha => ?_⟩
    obtain ⟨t, -, rfl⟩ := mem_threads hl
    obtain ⟨i, -, rfl⟩ := List.mem_map.1 ha
    rfl
  · refine ⟨2, fun l hl a ha => ?_⟩
    obtain ⟨t, -, rfl⟩ := mem_threads hl
    split at ha
    · obtain rfl := List.mem_singleton.1 ha
      rfl
    · cases ha
  · refine ⟨3, fun l hl a ha => ?_⟩
    obtain ⟨t, -, rfl⟩ := mem_threads hl
    obtain rfl := List.mem_singleton.1 ha
    rfl
  · refine ⟨4, fun l hl a ha => ?_⟩
    obtain ⟨t, -, rfl⟩ := mem_threads hl
    split at ha
    · obtain rfl := List.mem_singleton.1 ha
      rfl
    · cases ha

theorem phases_independent (k : Nat) {phase : List (List Op)} (h : phase ∈ kernel len k) :
    phase.Pairwise (Independent (alone (run sample device_grad_dot_table results) k)) := by
  obtain ⟨n, hn⟩ := kernel_phase h
  refine List.pairwise_of_forall_mem_list ?_
  intro l hl l' hl' a ha b hb p
  exact phase_comm ((hn l hl a ha).trans (hn l' hl' b hb).symm) k p

variable (sample device_grad_dot_table results) in
theorem perform_loads (ops : List Op) (h : ∀ a ∈ ops, a.phase = 0 ∨ a.phase = 1) (k : Nat)
    (s : Shared F W) : ∃ t : Shared F W,
      perform (alone (run sample device_grad_dot_table results) k) ops (s, 0) = (t, 0) ∧
      (∀ i, .copy_table i ∈ ops → t.shared_grad_dot_table i = device_grad_dot_table i) ∧
      (∀ i, .load i ∈ ops → t.s_octaves i = results k i) ∧
      (.reset ∈ ops → t.shared_count = 0) := by
  induction ops using List.reverseRecOn with
  | nil => exact ⟨s, rfl, nofun, nofun, nofun⟩
  | append_singleton ops a ih =>
    obtain ⟨t, ht, htable, hload, hreset⟩ := ih fun a ha => h a (List.mem_append_left _ ha)
    simp only [perform_append, ht, perform_cons, perform_nil, List.mem_append, List.mem_singleton]
    cases a with
    | copy_table i =>
      refine ⟨_, rfl, ?_, ?_, ?_⟩
      · intro j hj
        by_cases he : j = i
        · rw [he]
          exact Function.update_self ..
        · refine (Function.update_of_ne he ..).trans (htable j ?_)
          exact hj.resolve_right fun heq => he (Op.copy_table.inj heq)
      · exact fun j hj => hload j (hj.resolve_right nofun)
      · exact fun hr => hreset (hr.resolve_right nofun)
    | reset =>
      refine ⟨_, rfl, ?_, ?_, fun _ => rfl⟩
      · exact fun j hj => htable j (hj.resolve_right nofun)
      · exact fun j hj => hload j (hj.resolve_right nofun)
    | load i =>
      refine ⟨_, rfl, ?_, ?_, ?_⟩
      · exact fun j hj => htable j (hj.resolve_right nofun)
      · intro j hj
        by_cases he : j = i
        · rw [he]
          exact Function.update_self ..
        · refine (Function.update_of_ne he ..).trans (hload j ?_)
          exact hj.resolve_right fun heq => he (Op.load.inj heq)
      · exact fun hr => hreset (hr.resolve_right nofun)
    | check => exact absurd (h .check (by simp)) (by decide)
    | count t => exact absurd (h (.count t) (by simp)) (by simp [Op.phase])
    | emit => exact absurd (h .emit (by simp)) (by decide)

theorem perform_counts (ts : List Nat) (k : Nat) (s : Shared F W) :
    perform (alone (run sample device_grad_dot_table results) k) (ts.map .count) (s, 0) =
      ({ s with
         shared_count := s.shared_count + BitVec.ofNat 32 (ts.countP (s.hit sample)) }, 0) := by
  induction ts using List.reverseRecOn with
  | nil => simp
  | append_singleton ts t ih =>
    rw [List.map_append, perform_append, ih, List.countP_append, List.countP_singleton]
    simp only [List.map_cons, List.map_nil, perform_cons, perform_nil, alone, run, hit_count]
    by_cases hhit : s.hit sample t = true
    · simp only [hhit, if_true, BitVec.ofNat_add, BitVec.add_assoc, add_zero]
      rfl
    · simp only [hhit, Bool.false_eq_true, if_false, add_zero]

theorem first_only (a : β) (n : Nat) :
    (List.range (n + 1)).flatMap (fun t => if t = 0 then [a] else []) = [a] := by
  simp [List.range_succ_eq_map, List.flatMap_map]

theorem solo (a : Op) : (threads fun thread => if thread = 0 then [a] else []).flatten = [a] := by
  rw [threads, ← List.flatMap_def]
  exact first_only a 255

/-- The two phases that fill the shared memory, as one list. -/
def loading : List Op :=
  (threads fun thread => (strided thread threads_per_block grad_table_words).map .copy_table ++
    if thread = 0 then [.reset] else []).flatten ++
  (threads fun thread => (strided thread threads_per_block n_u4).map .load).flatten

theorem mem_stride_threads {len i : Nat} (hi : i < len) :
    ∃ t < threads_per_block, i ∈ strided t threads_per_block len := by
  refine ⟨i % threads_per_block, Nat.mod_lt i (by decide), (mem_strided (by decide)).2 ⟨hi, ?_⟩⟩
  exact ⟨i / threads_per_block, by rw [Nat.mul_comm, Nat.mod_add_div]⟩

theorem copy_table_mem (hi : i < grad_table_words) : .copy_table i ∈ loading := by
  obtain ⟨t, ht, hmem⟩ := mem_stride_threads hi
  refine List.mem_append_left _ (List.mem_flatten.2
    ⟨_, List.mem_map_of_mem (List.mem_range.2 ht), ?_⟩)
  exact List.mem_append_left _ (List.mem_map_of_mem hmem)

theorem load_mem (hi : i < n_u4) : .load i ∈ loading := by
  obtain ⟨t, ht, hmem⟩ := mem_stride_threads hi
  refine List.mem_append_right _ (List.mem_flatten.2
    ⟨_, List.mem_map_of_mem (List.mem_range.2 ht), ?_⟩)
  exact List.mem_map_of_mem hmem

theorem reset_mem : .reset ∈ loading := by
  refine List.mem_append_left _ (List.mem_flatten.2 ⟨_, List.mem_map_of_mem
    (List.mem_range.2 (show 0 < threads_per_block by decide)), ?_⟩)
  exact List.mem_append_right _ List.mem_cons_self

theorem loading_phase {a : Op} (h : a ∈ loading) : a.phase = 0 ∨ a.phase = 1 := by
  rcases List.mem_append.1 h with h | h
  · obtain ⟨l, hl, ha⟩ := List.mem_flatten.1 h
    obtain ⟨t, -, rfl⟩ := mem_threads hl
    rcases List.mem_append.1 ha with ha | ha
    · obtain ⟨i, -, rfl⟩ := List.mem_map.1 ha
      exact .inl rfl
    · split at ha
      · obtain rfl := List.mem_singleton.1 ha
        exact .inl rfl
      · cases ha
  · obtain ⟨l, hl, ha⟩ := List.mem_flatten.1 h
    obtain ⟨t, -, rfl⟩ := mem_threads hl
    obtain ⟨i, -, rfl⟩ := List.mem_map.1 ha
    exact .inr rfl

theorem sequential_kernel (h : k < len) : sequential (kernel len k) =
    loading ++ .check :: ((List.range threads_per_block).map .count ++ [.emit]) := by
  have hcounts : (threads fun thread => [Op.count thread]).flatten =
      (List.range threads_per_block).map .count := by
    rw [threads, ← List.flatMap_def, List.map_eq_flatMap]
  rw [kernel, if_neg (Nat.not_le.2 h), sequential]
  simp only [List.flatMap_cons, List.flatMap_nil, List.append_nil, solo, hcounts, loading,
    List.append_assoc, List.singleton_append]

theorem countP_range (p : Nat → Bool) (n : Nat) :
    (List.range n).countP p = ((Finset.range n).filter fun t => p t = true).card := by
  rw [List.countP_eq_length_filter, Finset.card_def, Finset.filter_val, Finset.range_val,
    Multiset.range, Multiset.filter_coe, Multiset.coe_card]
  simp only [Bool.decide_eq_true]

/-- The points the threads look at are the points of the grid. -/
theorem countP_grid (p : Nat × Nat → Bool) :
    (List.range threads_per_block).countP (fun t => p (t % grid_size, t / grid_size)) =
      ((Finset.range grid_size ×ˢ Finset.range grid_size).filter fun q => p q = true).card := by
  rw [countP_range]
  refine Finset.card_nbij' (fun t => (t % grid_size, t / grid_size))
    (fun q => q.2 * grid_size + q.1) ?_ ?_ ?_ ?_
  · intro t ht
    obtain ⟨ht, hp⟩ := Finset.mem_filter.1 (Finset.mem_coe.1 ht)
    have hlt : t / grid_size < grid_size := Nat.div_lt_of_lt_mul (Finset.mem_range.1 ht)
    have hmod : t % grid_size < grid_size := Nat.mod_lt t (by decide)
    refine Finset.mem_coe.2 (Finset.mem_filter.2 ⟨?_, hp⟩)
    exact Finset.mem_product.2 ⟨Finset.mem_range.2 hmod, Finset.mem_range.2 hlt⟩
  · intro q hq
    obtain ⟨hq, hp⟩ := Finset.mem_filter.1 (Finset.mem_coe.1 hq)
    obtain ⟨h1, h2⟩ := Finset.mem_product.1 hq
    rw [Finset.mem_range] at h1 h2
    have hmod : (q.2 * grid_size + q.1) % grid_size = q.1 := by
      rw [Nat.add_comm, Nat.add_mul_mod_self_right, Nat.mod_eq_of_lt h1]
    have hdiv : (q.2 * grid_size + q.1) / grid_size = q.2 := by
      rw [Nat.add_comm, Nat.add_mul_div_right _ _ (by decide), Nat.div_eq_of_lt h1, Nat.zero_add]
    refine Finset.mem_coe.2 (Finset.mem_filter.2 ⟨Finset.mem_range.2 ?_, ?_⟩)
    · simp only [grid_size, threads_per_block] at h1 h2 ⊢
      omega
    · rwa [hmod, hdiv]
  · intro t _
    exact (Nat.mul_comm _ _ ▸ Nat.div_add_mod t grid_size : t / grid_size * grid_size + _ = t)
  · intro q hq
    obtain ⟨h1, -⟩ := Finset.mem_product.1 (Finset.mem_filter.1 (Finset.mem_coe.1 hq)).1
    rw [Finset.mem_range] at h1
    refine Prod.ext ?_ ?_
    · change (q.2 * grid_size + q.1) % grid_size = q.1
      rw [Nat.add_comm, Nat.add_mul_mod_self_right, Nat.mod_eq_of_lt h1]
    · change (q.2 * grid_size + q.1) / grid_size = q.2
      rw [Nat.add_comm, Nat.add_mul_div_right _ _ (by decide), Nat.div_eq_of_lt h1, Nat.zero_add]

variable (sample device_grad_dot_table results) in
/-- After the loads the threads sample with the table and the octaves of their seed. -/
theorem exists_loaded (k : Nat) (s : Shared F W) :
    ∃ t : Shared F W,
      perform (alone (run sample device_grad_dot_table results) k) loading (s, 0) = (t, 0) ∧
      t.shared_count = 0 ∧ ∀ x y z, t.value sample x y z =
        sample (fun i => device_grad_dot_table i) (fun i => results k i) x y z := by
  obtain ⟨t, ht, htable, hload, hreset⟩ := perform_loads sample device_grad_dot_table
    results loading (fun a ha => loading_phase ha) k s
  refine ⟨t, ht, hreset reset_mem, ?_⟩
  intro x y z
  have hd : (fun i : Fin grad_table_words => t.shared_grad_dot_table i.val) =
      fun i => device_grad_dot_table i.val := funext fun i => htable i.val (copy_table_mem i.isLt)
  have ho : (fun i : Fin n_u4 => t.s_octaves i.val) = fun i => results k i.val :=
    funext fun i => hload i.val (load_mem i.isLt)
  rw [Shared.value, hd, ho]

theorem countP_hit (s : Shared F W) (hok : s.shared_origin_ok = true)
    (f : BitVec 32 → BitVec 32 → BitVec 32 → F) (hvalue : ∀ x y z, s.value sample x y z = f x y z) :
    (List.range threads_per_block).countP (s.hit sample) =
      ((Finset.range grid_size ×ˢ Finset.range grid_size).filter fun p =>
        f (coordinate p.1) 0 (coordinate p.2) < grid_threshold).card := by
  have hhit : s.hit sample = fun t => (fun q : Nat × Nat =>
      decide (f (coordinate q.1) 0 (coordinate q.2) < grid_threshold))
        (t % grid_size, t / grid_size) := by
    funext t
    simp only [Shared.hit, hok, hvalue, Bool.true_and]
  rw [hhit]
  refine (countP_grid fun q : Nat × Nat =>
    decide (f (coordinate q.1) 0 (coordinate q.2) < grid_threshold)).trans ?_
  simp only [decide_eq_true_eq]

theorem grid_card_le (p : Nat × Nat → Prop) [DecidablePred p] :
    ((Finset.range grid_size ×ˢ Finset.range grid_size).filter p).card ≤ 256 :=
  (Finset.card_filter_le _ _).trans_eq (by rw [Finset.card_product, Finset.card_range, grid_size])

theorem min_count_le {c : Nat} (h : c ≤ 256) :
    min_count ≤ BitVec.ofNat 32 c ↔ min_count.toNat ≤ c := by
  rw [BitVec.le_def, BitVec.toNat_ofNat, Nat.mod_eq_of_lt (by omega)]

theorem block_outputs (len k : Nat) (s : Shared F W) :
    (perform (alone (run sample device_grad_dot_table results) k) (sequential (kernel len k))
      (s, 0)).2 =
      if k < len ∧ passes sample device_grad_dot_table (fun i => results k i)
      then {⟨BitVec.ofNat 32 k, 0, 0⟩} else 0 := by
  by_cases h : k < len
  · obtain ⟨t, hloaded, hcount, hvalue⟩ := exists_loaded sample device_grad_dot_table results k s
    rw [sequential_kernel h, perform_append, hloaded, perform_cons]
    simp only [alone, run, add_zero]
    rw [perform_append, perform_counts]
    simp only [perform_cons, perform_nil, alone, run, hvalue, hcount, zero_add]
    by_cases horigin : sample (fun i => device_grad_dot_table i) (fun i => results k i) 0 0 0 <
        origin_threshold
    · simp only [horigin, decide_true]
      rw [countP_hit { t with shared_count := 0, shared_origin_ok := true } rfl _ hvalue]
      simp only [Bool.true_and, decide_eq_true_eq, min_count_le (grid_card_le _), passes, h,
        horigin, true_and]
      split_ifs <;> rfl
    · have hout : ¬ (k < len ∧ passes sample device_grad_dot_table fun i => results k i) :=
        fun hk => horigin hk.2.1
      simp only [horigin, decide_false, Bool.false_and, Bool.false_eq_true, if_false, if_neg hout]
  · have hout : ¬ (k < len ∧ passes sample device_grad_dot_table fun i => results k i) :=
      fun hk => h hk.1
    rw [if_neg hout, kernel, if_pos (Nat.not_lt.1 h), sequential, List.flatMap_cons,
      List.flatMap_nil, List.append_nil]
    obtain ⟨t, ht, -⟩ := perform_loads sample device_grad_dot_table results _
      (fun a ha => loading_phase (List.mem_append_left _ ha)) k s
    rw [ht]

end Block

section Origin

variable {F W : Type} [LT F] [DecidableLT F] [FloatOps F]
  (sample : (Fin grad_table_words → F) → (Fin n_u4 → W) → BitVec 32 → BitVec 32 → BitVec 32 → F)
  (device_grad_dot_table : Nat → F) (init_noise : BitVec 64 → Octave → Nat → W)

/-- Word `i` of a `Result`, whose octaves stand in the order `0A`, `0B`, `1A`, ... -/
def word (i : Nat) : Octave × Nat :=
  ((if i / KernelSeed1.u4_per_struct % 2 = 0 then .A else .B, i / KernelSeed1.u4_per_struct / 2),
    i % KernelSeed1.u4_per_struct)

/-- `results[seed_index]` as the kernel casts it. -/
def flat (m : KernelSeed1.Memory W) (seed_index i : Nat) : W :=
  m.results (seed_index, (word i).1, (word i).2)

/-- The seeds among the first `n` that the filter keeps. -/
def kept (seeds : Nat → BitVec 64) (n : Nat) : List Nat :=
  (List.range n).filter fun k => decide (passes sample device_grad_dot_table fun i =>
    init_noise (seeds k) (word i).1 (word i).2)

theorem word_mem (i : Fin n_u4) : (word i).1 ∈ init_octaves_full := by
  have hi : i.val / KernelSeed1.u4_per_struct / 2 < 9 := by
    have := i.isLt
    simp only [n_u4, KernelSeed1.u4_per_struct] at this ⊢
    omega
  simp only [word, init_octaves_full, List.mem_append, List.mem_map, List.mem_range, Prod.mk.injEq]
  split
  · exact .inl ⟨_, hi, rfl, rfl⟩
  · exact .inr ⟨_, hi, rfl, rfl⟩

/-- The seeds that the filter looks at all have their octaves. -/
theorem bound_le (n : Nat) : Kernel.filter_origin.bound n ≤
    (Kernel.init_seeds init_octaves_full).bound n := by
  refine Nat.le_min.2 ⟨Nat.min_le_left .., (Nat.min_le_right ..).trans ?_⟩
  decide

theorem sum_singletons (l : List Nat) (p : Nat → Prop) [DecidablePred p] (f : Nat → SeedPos) :
    (l.map fun k => if p k then ({f k} : Multiset SeedPos) else 0).sum =
      ((l.filter fun k => decide (p k)).map f : List SeedPos) := by
  induction l with
  | nil => rfl
  | cons k l ih =>
    rw [List.map_cons, List.sum_cons, ih, List.filter_cons]
    by_cases h : p k
    · simp only [h, decide_true, if_true, List.map_cons, ← Multiset.cons_coe,
        Multiset.singleton_add]
    · simp only [h, decide_false, Bool.false_eq_true, if_false, zero_add]

theorem filter_range (n len : Nat) (p : Nat → Prop) [DecidablePred p] :
    ((List.range n).filter fun k => decide (k < len ∧ p k)) =
      (List.range (min len n)).filter fun k => decide (p k) := by
  induction n with
  | zero =>
    rw [Nat.min_zero]
    rfl
  | succ n ih =>
    rw [List.range_succ, List.filter_append, ih]
    by_cases h : n < len
    · have h1 : min len n = n := by omega
      have h2 : min len (n + 1) = n + 1 := by omega
      rw [h1, h2, List.range_succ, List.filter_append]
      simp only [List.filter_singleton, h, true_and]
    · have h1 : min len (n + 1) = min len n := by omega
      rw [h1]
      simp only [List.filter_singleton, h, false_and, decide_false, cond_false, List.append_nil]

/-- Origin mode: in whatever order the threads of the two launches run, the filter puts out the
seeds whose own noise is below the thresholds, each once. -/
theorem origin_outputs (seeds : Nat → BitVec 64) (seeds_len : Nat) {l : List KernelSeed1.Op}
    {l' : List (Nat × Op)} (m : KernelSeed1.Memory W) (shared : Nat → Shared F W)
    (outputs : Multiset SeedPos)
    (hinit : Launched ((List.range KernelSeed1.init_grid).map
      (KernelSeed1.kernel init_octaves_full seeds_len)) l)
    (hcheck : Launched ((List.range threads_per_run).map fun k =>
      numbered k (kernel seeds_len k)) l') :
    (perform (privately (run sample device_grad_dot_table
        (flat (perform (KernelSeed1.act init_noise seeds) l m)))) l' (shared, outputs)).2 =
      outputs + ((kept sample device_grad_dot_table init_noise seeds
        (Kernel.filter_origin.bound seeds_len)).map fun k => ⟨BitVec.ofNat 32 k, 0, 0⟩ :
          List SeedPos) := by
  rw [hcheck.outputs List.nodup_range fun k phase hphase => phases_independent k hphase]
  have hblock : ∀ k, (perform (alone (run sample device_grad_dot_table
      (flat (perform (KernelSeed1.act init_noise seeds) l m))) k) (sequential (kernel seeds_len k))
        (shared k, 0)).2 =
      if k < seeds_len ∧ passes sample device_grad_dot_table
          (fun i => flat (perform (KernelSeed1.act init_noise seeds) l m) k i)
      then {⟨BitVec.ofNat 32 k, 0, 0⟩} else 0 := fun k => block_outputs seeds_len k (shared k)
  have hflat : ∀ k < Kernel.filter_origin.bound seeds_len, ∀ i : Fin n_u4,
      flat (perform (KernelSeed1.act init_noise seeds) l m) k i =
        init_noise (seeds k) (word i).1 (word i).2 := by
    intro k hk i
    refine KernelSeed1.results_of_reached hinit m (word_mem i) ?_ ?_
    · exact Nat.lt_of_lt_of_le hk (bound_le seeds_len)
    · exact Nat.mod_lt _ (by decide)
  simp only [hblock, sum_singletons, filter_range, kept]
  congr 3
  apply List.filter_congr
  intro k hk
  simp only [hflat k (List.mem_range.1 hk)]

/-- One seed whose noise is below the thresholds everywhere, and one whose noise is not. -/
theorem origin_outputs_one_island :
    (perform (privately (run (fun _ d _ _ _ => (d ⟨0, by decide⟩ : Rat)) (fun _ => 0)
        (flat (perform (KernelSeed1.act (fun seed _ _ => -(seed.toNat : Rat)) (BitVec.ofNat 64))
          (((List.range KernelSeed1.init_grid).map
            (KernelSeed1.kernel init_octaves_full 3)).flatMap sequential)
          ⟨fun _ _ => 0, fun _ => 0⟩))))
      (((List.range threads_per_run).map fun k => numbered k (kernel 3 k)).flatMap sequential)
      (fun _ => ⟨fun _ => 0, fun _ => 0, 0, false⟩, 0)).2 = {⟨2, 0, 0⟩} :=
  (origin_outputs _ _ _ _ 3 _ _ _ (launched_sequential _) (launched_sequential _)).trans (by
    decide +kernel)

end Origin

end Omission.Gpu.KernelFilterOriginCheck
