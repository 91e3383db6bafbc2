import Omission.Lib.Slots
import Omission.Lib.Tickets
import Omission.Main.Moves

namespace Omission.Main
open Omission.Lib Omission.Net Omission.Gpu Omission.Backend
set_option autoImplicit true

variable {C : Config} {s t : State} {start_seed : BitVec 64}

def GpuThread.start_seeds (g : GpuThread) : List (BitVec 64) := g.batch.toList.map Prod.fst

/-- The batches that devices work on. -/
def State.working (s : State) : List (BitVec 64) := s.gpu_threads.flatMap GpuThread.start_seeds

/-- A device has come to this memory in the batch it works on. -/
def GpuThread.Running (C : Config) (g : GpuThread) : Prop :=
  ∀ b es, g.batch = some (b, es) → ∃ old,
    exec (Pipeline.step (C.run b)) (Pipeline.State.start C.origin old) es = some g.memory

structure Ticketed (C : Config) (start_seed : BitVec 64) (s : State) : Prop where
  claimed : s.claimed = tickets start_seed Pipeline.seeds_per_run s.claimed.length
  pos : s.pos = start_seed + BitVec.ofNat 64 (s.claimed.length * Pipeline.seeds_per_run)
  batches : ∀ b, s.claimed.count b = (s.found.map Prod.fst ++ s.working).count b
  running : ∀ g ∈ s.gpu_threads, g.Running C
  found : ∀ p ∈ s.found, ∀ o ∈ p.2, InBatch Pipeline.seeds_per_run p.1 o.seed

/-- No buffer of the batch is full. -/
def GpuThread.fits (C : Config) (g : GpuThread) : Bool :=
  match g.batch with
  | none => true
  | some (_, es) => decide ((∀ l ∈ Pipeline.consumed C.origin,
      Pipeline.passing l (Pipeline.batch C.origin) es ≤ l.max_len) ∧
    (Pipeline.emitted (Pipeline.final_outputs C.origin) (Pipeline.batch C.origin) es).length <
      2 ^ 32)

/-- What a device pushes has not overflown a buffer. -/
def unspilled (C : Config) (s : State) : Event → Bool
  | .push d => s.gpu_threads[d]?.all (GpuThread.fits C)
  | _ => true

theorem running_set {g : GpuThread} (h : ∀ g ∈ s.gpu_threads, g.Running C) (hg : g.Running C)
    (d : Nat) : ∀ g' ∈ s.gpu_threads.set d g, g'.Running C := by
  intro g' hg'
  rcases List.mem_or_eq_of_mem_set hg' with hg' | rfl
  · exact h g' hg'
  · exact hg

/-- What a batch pushes lies in the batch. -/
theorem pushed_inBatch {memory : Pipeline.State} {b : BitVec 64} {es : List Pipeline.Event}
    (hrun : GpuThread.Running C ⟨memory, some (b, es)⟩) (hp : memory.program = [])
    (ho : Pipeline.push_outputs C.origin memory = some outputs)
    (hfit : ∀ l ∈ Pipeline.consumed C.origin,
      Pipeline.passing l (Pipeline.batch C.origin) es ≤ l.max_len)
    (hfinal : (Pipeline.emitted (Pipeline.final_outputs C.origin) (Pipeline.batch C.origin)
      es).length < 2 ^ 32) : ∀ o ∈ outputs, InBatch Pipeline.seeds_per_run b o.seed := by
  obtain ⟨old, hold⟩ := hrun b es rfl
  obtain ⟨hfits, htraced⟩ := Pipeline.traced_batch hold hfit hfinal
  cases ho.symm.trans (htraced.push_outputs_eq hp hfinal)
  intro o hmem
  obtain ⟨r, hr, rfl⟩ := List.mem_map.1 hmem
  obtain ⟨i, hi, hv⟩ := htraced.seed_of_record hfits hp (List.mem_of_mem_take hr)
  exact ⟨i, htraced.small i (List.mem_of_getElem? hi), hv⟩

theorem Ticketed.move (h : Ticketed C start_seed s) (hf : unspilled C s e = true)
    (m : Move C s e t) : Ticketed C start_seed t := by
  cases m with
  | @next d memory hd =>
    refine ⟨?_, ?_, ?_, running_set h.running ?_ d, h.found⟩
    · rw [List.length_append, List.length_singleton, tickets_succ, ← h.claimed, h.pos]
    · rw [List.length_append, List.length_singleton, Nat.add_mul, Nat.one_mul, BitVec.ofNat_add,
        ← BitVec.add_assoc, ← h.pos]
    · intro b
      have hb := h.batches b
      have hset := count_flatMap_set hd GpuThread.start_seeds
        (b := ⟨Pipeline.State.start C.origin memory, some (s.pos, [])⟩) b
      simp only [GpuThread.start_seeds, Option.toList_some, Option.toList_none, List.map_nil,
        List.map_cons, List.count_nil] at hset
      simp only [State.working, List.count_append, List.count_singleton] at hb hset ⊢
      omega
    · rintro b es ⟨⟩
      exact ⟨memory, rfl⟩
  | @device d e memory memory' b es hd hm =>
    refine ⟨h.claimed, h.pos, ?_, running_set h.running ?_ d, h.found⟩
    · intro b'
      have hb := h.batches b'
      have hset := count_flatMap_set hd GpuThread.start_seeds
        (b := ⟨memory', some (b, es ++ [e])⟩) b'
      simp only [GpuThread.start_seeds, Option.toList_some, List.map_cons, List.map_nil] at hset
      simp only [State.working, List.count_append] at hb ⊢
      omega
    · rintro b' es' ⟨⟩
      obtain ⟨old, hold⟩ := h.running _ (List.mem_of_getElem? hd) b es rfl
      exact ⟨old, exec_append.2 ⟨memory, hold, exec_cons.2 ⟨memory', hm, rfl⟩⟩⟩
  | @push d memory b es outputs hd hp ho =>
    have hrun := h.running _ (List.mem_of_getElem? hd)
    rw [unspilled, hd, Option.all_some] at hf
    obtain ⟨hfit, hfinal⟩ := of_decide_eq_true hf
    refine ⟨h.claimed, h.pos, ?_, running_set h.running ?_ d, ?_⟩
    · intro b'
      have hb := h.batches b'
      have hset := count_flatMap_set hd GpuThread.start_seeds (b := ⟨memory, none⟩) b'
      simp only [GpuThread.start_seeds, Option.toList_some, Option.toList_none, List.map_cons,
        List.map_nil, List.count_nil] at hset
      simp only [State.set_queue, State.working, List.count_append, List.map_append,
        List.map_cons, List.map_nil] at hb ⊢
      omega
    · intro b' es' he
      cases he
    · intro p hmem
      rcases List.mem_append.1 hmem with hmem | hmem
      · exact h.found p hmem
      · rw [List.mem_singleton.1 hmem]
        exact pushed_inBatch hrun hp ho hfit hfinal
  | collect =>
    unfold State.record
    split <;> exact ⟨h.claimed, h.pos, h.batches, h.running, h.found⟩
  | _ => exact ⟨h.claimed, h.pos, h.batches, h.running, h.found⟩

theorem ticketed_init (C : Config) (start_seed : BitVec 64) (memories : List Pipeline.State)
    (threads : Nat) (db : Option Table) (client : Bool) :
    Ticketed C start_seed (State.init C start_seed memories threads db client) where
  claimed := rfl
  pos := by
    simp [State.init]
  batches b := by
    have hnone : (memories.map fun memory => (⟨memory, none⟩ : GpuThread)).flatMap
        GpuThread.start_seeds = [] := by
      rw [List.flatMap_map, List.flatMap_eq_nil_iff]
      exact fun _ _ => rfl
    simp only [State.init, State.working, hnone]
    rfl
  running := by
    intro g hg b es hb
    obtain ⟨memory, -, rfl⟩ := List.mem_map.1 hg
    cases hb
  found := nofun

/-- Each batch of seeds goes to one device and is pushed once, and no seed is found in two
batches, until the counter comes round after `2 ^ 36` batches; these hold every seed once. -/
theorem seeds_searched_once {memories : List Pipeline.State} {threads : Nat} {db : Option Table}
    {client : Bool}
    (h : exec (step C) (State.init C start_seed memories threads db client) es = some s)
    (hf : Along (step C) (fun s e => unspilled C s e = true)
      (State.init C start_seed memories threads db client) es)
    (hround : s.claimed.length ≤ 2 ^ 36) :
    s.claimed.Nodup ∧ s.claimed.Perm (s.found.map Prod.fst ++ s.working) ∧
      (∀ p ∈ s.found, ∀ o ∈ p.2, InBatch Pipeline.seeds_per_run p.1 o.seed) ∧
      (∀ p ∈ s.found, ∀ q ∈ s.found, ∀ o ∈ p.2, ∀ o' ∈ q.2, o.seed = o'.seed → p = q) ∧
      (s.claimed.length = 2 ^ 36 → ∀ v, ∃! b, b ∈ s.claimed ∧
        InBatch Pipeline.seeds_per_run b v) := by
  have ht : Ticketed C start_seed s :=
    hf.invariant (fun _ _ _ hs hu he => hs.move hu (step_move he)) (ticketed_init ..) h
  have hpos : 0 < Pipeline.seeds_per_run := by decide
  have hle : s.claimed.length * Pipeline.seeds_per_run ≤ 2 ^ 64 :=
    Nat.mul_le_mul_right Pipeline.seeds_per_run hround
  have hnodup : s.claimed.Nodup := by
    rw [ht.claimed]
    exact nodup_tickets hpos hle
  have hperm : s.claimed.Perm (s.found.map Prod.fst ++ s.working) :=
    List.perm_iff_count.2 ht.batches
  have hunique : ∀ b ∈ s.claimed, ∀ c ∈ s.claimed, ∀ v,
      InBatch Pipeline.seeds_per_run b v → InBatch Pipeline.seeds_per_run c v → b = c := by
    intro b hb c hc v
    rw [ht.claimed] at hb hc
    exact inBatch_unique hpos hle hb hc
  refine ⟨hnodup, hperm, ht.found, ?_, ?_⟩
  · intro p hp q hq o ho o' ho' hseed
    have hpushed : (s.found.map Prod.fst).Nodup :=
      (List.nodup_append.1 (hperm.nodup_iff.1 hnodup)).1
    have hclaimed : ∀ p ∈ s.found, p.1 ∈ s.claimed := fun p hp =>
      hperm.mem_iff.2 (List.mem_append_left _ (List.mem_map_of_mem hp))
    have hfst : p.1 = q.1 := hunique _ (hclaimed p hp) _ (hclaimed q hq) _ (ht.found p hp o ho)
      (hseed ▸ ht.found q hq o' ho')
    exact List.inj_on_of_nodup_map hpushed hp hq hfst
  · intro hfull v
    have hall : s.claimed.length * Pipeline.seeds_per_run = 2 ^ 64 := by
      rw [hfull]
      decide
    obtain ⟨b, hb, hv⟩ : ∃ b ∈ tickets start_seed Pipeline.seeds_per_run s.claimed.length,
        InBatch Pipeline.seeds_per_run b v := exists_inBatch hpos hall v
    rw [← ht.claimed] at hb
    exact ⟨b, ⟨hb, hv⟩, fun c ⟨hc, hcv⟩ => hunique c hc b hb v hcv hv⟩

/-- What a device does for its batch is a run of the program. -/
theorem exec_device {memory : Pipeline.State} {es fs : List Pipeline.Event} {d : Nat}
    (hd : s.gpu_threads[d]? = some ⟨memory, some (b, es)⟩)
    (h : exec (Pipeline.step (C.run b)) memory fs = some memory') :
    exec (step C) s (fs.map (.device d)) =
      some { s with gpu_threads := s.gpu_threads.set d ⟨memory', some (b, es ++ fs)⟩ } := by
  induction fs generalizing s memory es with
  | nil =>
    cases h
    obtain ⟨hlt, hget⟩ := List.getElem?_eq_some_iff.1 hd
    rw [List.append_nil, ← hget, List.set_getElem_self]
    rfl
  | cons e fs ih =>
    obtain ⟨m, hm, hrest⟩ := exec_cons.1 h
    have hstep : step C s (.device d e) =
        some { s with gpu_threads := s.gpu_threads.set d ⟨m, some (b, es ++ [e])⟩ } := by
      simp only [step, hd, hm, Option.map_some]
    have hd' : (s.gpu_threads.set d ⟨m, some (b, es ++ [e])⟩)[d]? =
        some ⟨m, some (b, es ++ [e])⟩ :=
      List.getElem?_set_self (List.getElem?_eq_some_iff.1 hd).1
    rw [List.map_cons]
    refine exec_cons.2 ⟨_, hstep, (ih hd' hrest).trans ?_⟩
    simp only [List.set_set, List.append_assoc, List.singleton_append]

def scanner : Config := ⟨false, false, littleEndian, 5, fun _ => none⟩

def scanner_init : State := State.init scanner 1000 [Pipeline.State.zero] 0 none false

/-- The device searches the first batch, which has candidates. -/
def one_search : List Event :=
  .next 0 :: ((Pipeline.batch false).flatMap Pipeline.Kernel.two_seeds).map (.device 0)

theorem one_search_run : ∃ s t, exec (step scanner) scanner_init one_search = some s ∧
    unspilled scanner s (.push 0) = true ∧
    exec (step scanner) s [.push 0, .next 0] = some t ∧
    t.claimed = [1000, 1000 + 2 ^ 28] := by
  obtain ⟨u, hu, hdone⟩ := Pipeline.two_seeds_run
  have hfit : ∀ l ∈ Pipeline.consumed false, Pipeline.passing l (Pipeline.batch false)
      ((Pipeline.batch false).flatMap Pipeline.Kernel.two_seeds) ≤ l.max_len := by
    decide +kernel
  have hfinal : (Pipeline.emitted (Pipeline.final_outputs false) (Pipeline.batch false)
      ((Pipeline.batch false).flatMap Pipeline.Kernel.two_seeds)).length < 2 ^ 32 := by
    decide +kernel
  obtain ⟨-, htraced⟩ := Pipeline.traced_batch hu hfit hfinal
  have hpush := htraced.push_outputs_eq hdone hfinal
  generalize (List.map _ _) = outputs at hpush
  let started : State := { scanner_init with
    pos := 1000 + 2 ^ 28
    gpu_threads := [⟨Pipeline.State.start false .zero, some (1000, [])⟩]
    claimed := [1000] }
  let searched : State := { started with
    gpu_threads := [⟨u, some (1000, (Pipeline.batch false).flatMap Pipeline.Kernel.two_seeds)⟩] }
  let pushed : State := { searched.set_queue (searched.gpu_outputs ++ outputs) with
    gpu_threads := [⟨u, none⟩]
    found := [(1000, outputs)] }
  have hsearch : exec (step scanner) scanner_init one_search = some searched :=
    exec_cons.2 ⟨started, rfl, exec_device (C := scanner) (s := started) (d := 0) rfl hu⟩
  have hfits : unspilled scanner searched (.push 0) = true := by
    simp only [unspilled, searched, List.getElem?_cons_zero, Option.all_some, GpuThread.fits]
    exact decide_eq_true ⟨hfit, hfinal⟩
  have hstep : step scanner searched (.push 0) = some pushed := by
    change (if u.program = [] then (Pipeline.push_outputs false u).map _ else none) = _
    rw [if_pos hdone, hpush]
    rfl
  exact ⟨searched, _, hsearch, hfits, exec_cons.2 ⟨pushed, hstep, rfl⟩, rfl⟩

theorem seeds_searched_once_one_batch : ∃ t,
    exec (step scanner) scanner_init (one_search ++ [.push 0, .next 0]) = some t ∧
      t.claimed.Nodup := by
  obtain ⟨s, t, hs, hfits, ht, hc⟩ := one_search_run
  have hrun := exec_append.2 ⟨s, hs, ht⟩
  have hdevice : ∀ e ∈ one_search, ∀ s, unspilled scanner s e = true := by
    intro e he s
    rcases List.mem_cons.1 he with rfl | he
    · rfl
    · obtain ⟨_, -, rfl⟩ := List.mem_map.1 he
      rfl
  have hsearch : Along (step scanner) (fun s e => unspilled scanner s e = true) scanner_init
      one_search :=
    (along_of_forall hdevice scanner_init).imp fun s e h => h s
  have hrest : Along (step scanner) (fun s e => unspilled scanner s e = true) s
      [.push 0, .next 0] := ⟨hfits, fun _ _ => ⟨rfl, fun _ _ => trivial⟩⟩
  have hall := hsearch.append hs hrest
  exact ⟨t, hrun, (seeds_searched_once hrun hall (by rw [hc]; decide)).1⟩

end Omission.Main
