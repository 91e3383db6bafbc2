import Omission.Lib.Firsts
import Omission.Main.Flow

namespace Omission.Main
open Omission.Lib Omission.Net Omission.Gpu Omission.Backend
set_option autoImplicit true

variable {C : Config} {s t : State}

/-- The item that `UploaderThread::run` has off the queue. -/
def held : Uploader.Phase → List Uploader.UploadItem
  | .posting item => [item]
  | .retrying item => [item]
  | _ => []

/-- Where an item for the backend can be. -/
def uploads (up : Uploader.State) : List Uploader.UploadItem :=
  up.queue ++ held up.phase ++ up.left

structure Written (C : Config) (s : State) : Prop where
  file : s.output_file = firsts CpuOutput.key s.collected
  seen : ∀ k, k ∈ s.seen_outputs ↔ k ∈ s.output_file.map CpuOutput.key
  uploads : ∀ up, s.uploader = some up →
    ∀ x, (s.output_file.map (CpuOutput.item C.large_biomes)).count x = (uploads up).count x

/-- The uploader hands items on; it neither drops nor doubles one. -/
theorem uploads_step {up up' : Uploader.State} {e : Uploader.Event}
    (h : Uploader.step up e = some up') (he : ∀ item, e ≠ .enqueue item)
    (x : Uploader.UploadItem) : (uploads up').count x = (uploads up).count x := by
  cases e with
  | enqueue item => exact absurd rfl (he item)
  | stop =>
    simp only [Uploader.step] at h
    split at h
    · next hp =>
      cases h
      simp only [uploads, hp, held]
    · cases h
  | pop =>
    simp only [Uploader.step] at h
    split at h
    · next item rest hp hq =>
      cases h
      simp only [uploads, hp, hq, held, List.count_append, List.count_cons, List.count_nil]
      omega
    · cases h
      rfl
    · cases h
  | post d =>
    simp only [Uploader.step] at h
    split at h
    · next item hp =>
      split at h <;> cases h
      · simp only [uploads, hp, held, List.count_append, List.count_cons, List.count_nil]
        omega
      · simp only [uploads, hp, held]
    · cases h
  | requeue =>
    simp only [Uploader.step] at h
    split at h
    · next item hp =>
      cases h
      simp only [uploads, hp, held, List.count_append, List.count_nil]
      omega
    · cases h

theorem Written.collect (h : Written C s) (output : CpuOutput) (queue : List CpuOutput) :
    Written C (State.record C { s with
      cpu_outputs := queue, collected := s.collected ++ [output] } output) := by
  have hseen : output.key ∈ s.seen_outputs ↔ output.key ∈ s.collected.map CpuOutput.key := by
    rw [h.seen, h.file, mem_map_firsts]
  unfold State.record
  split
  · next hmem =>
    refine ⟨?_, h.seen, h.uploads⟩
    rw [firsts_concat, if_pos (hseen.1 hmem)]
    exact h.file
  · next hnew =>
    refine ⟨?_, ?_, ?_⟩
    · rw [firsts_concat, if_neg fun hmem => hnew (hseen.2 hmem)]
      exact congrArg (· ++ [output]) h.file
    · intro k
      rw [List.mem_cons, List.map_append, List.mem_append, List.map_singleton,
        List.mem_singleton, or_comm]
      exact or_congr (h.seen k) Iff.rfl
    · intro up hup x
      obtain ⟨up, hup', rfl⟩ := Option.map_eq_some_iff.1 hup
      have hx := h.uploads up hup' x
      simp only [Main.uploads, List.map_append, List.map_singleton, List.count_append] at hx ⊢
      omega

theorem Written.move (h : Written C s) (m : Move C s e t) : Written C t := by
  cases m with
  | collect hl hq => exact h.collect _ _
  | @upload up e up' hu hs he =>
    refine ⟨h.file, h.seen, ?_⟩
    intro up'' hup x
    cases hup
    rw [uploads_step hs he]
    exact h.uploads up hu x
  | _ => exact ⟨h.file, h.seen, h.uploads⟩

theorem written_init (start_seed : BitVec 64) (memories : List Pipeline.State) (threads : Nat)
    (db : Option Table) (client : Bool) :
    Written C (State.init C start_seed memories threads db client) where
  file := rfl
  seen _ := Iff.rfl
  uploads up hup x := by
    obtain ⟨db, -, rfl⟩ := Option.map_eq_some_iff.1 hup
    rfl

variable {start_seed : BitVec 64} {memories : List Pipeline.State} {threads : Nat}
  {db : Option Table} {client : Bool}

theorem written_run
    (h : exec (step C) (State.init C start_seed memories threads db client) es = some s) :
    Written C s :=
  exec_invariant (fun _ _ _ hs ht => hs.move (step_move ht)) (written_init ..) h

theorem mem_collected (h : Flow C s) (ho : o ∈ s.collected) :
    ∃ input ∈ s.processed, C.process input = some o := by
  have hcount := h.results o
  have hpos : 0 < s.results.count o :=
    List.count_pos_iff.2 (List.mem_append_right _ ho)
  rw [← hcount] at hpos
  exact List.mem_filterMap.1 (List.count_pos_iff.1 hpos)

theorem processed_candidate (h : Flow C s) (hc : c ∈ s.processed) : c ∈ s.candidates := by
  have hpos : 0 < s.places.count c :=
    List.count_pos_iff.2 (List.mem_append_left _ (List.mem_append_right _ hc))
  rw [← h.candidates] at hpos
  exact List.count_pos_iff.1 hpos

/-- The output file has one line for each key that was collected, that of the first result with
it; each line is what `process` says of a candidate, and each line is with the uploader once. -/
theorem output_file_spec
    (h : exec (step C) (State.init C start_seed memories threads db client) es = some s) :
    s.output_file = firsts CpuOutput.key s.collected ∧
      (s.output_file.map CpuOutput.key).Nodup ∧
      (∀ o ∈ s.output_file, ∃ c ∈ s.candidates, C.process c = some o) ∧
      ∀ up, s.uploader = some up →
        (s.output_file.map (CpuOutput.item C.large_biomes)).Perm (uploads up) := by
  have hflow := flow_run h
  have hwritten := written_run h
  refine ⟨hwritten.file, ?_, ?_, ?_⟩
  · rw [hwritten.file]
    exact nodup_map_firsts
  · intro o ho
    rw [hwritten.file] at ho
    obtain ⟨c, hc, hproc⟩ := mem_collected hflow (firsts_sublist.subset ho)
    exact ⟨c, processed_candidate hflow hc, hproc⟩
  · intro up hup
    exact List.perm_iff_count.2 (hwritten.uploads up hup)

theorem output_file_spec_twice : ∃ s,
    exec (step collector) collector_init twice = some s ∧
      firsts CpuOutput.key s.collected = [⟨7, -4, 8, 10000000⟩] := by
  obtain ⟨s, hs, hfile, -⟩ := twice_run
  exact ⟨s, hs, (output_file_spec hs).1.symm.trans hfile⟩

/-- An upload is answered while another database error keeps its row out. -/
def lossy (s : State) : Event → Bool
  | .upload e => s.uploader.any fun up => Uploader.lossy up e
  | _ => false

def Stored (s : State) : Prop := ∀ up, s.uploader = some up → Uploader.Stored up

theorem Stored.move (h : Stored s) (hl : lossy s e = false) (m : Move C s e t) : Stored t := by
  cases m with
  | collect hl hq =>
    intro up hup
    unfold State.record at hup
    split at hup
    · exact h up hup
    · obtain ⟨up, hup', rfl⟩ := Option.map_eq_some_iff.1 hup
      exact h up hup'
  | @upload up e up' hu hs he =>
    intro up'' hup
    cases hup
    rw [lossy, hu, Option.any_some] at hl
    exact (Uploader.stored_step (h up hu) hs).2 hl
  | _ =>
    intro up hup
    exact h up hup

/-- Nothing is under way any more, and nothing has gone to another program. -/
structure Quiet (s : State) : Prop where
  gpu_outputs : s.gpu_outputs = []
  cpu_threads : ∀ w ∈ s.cpu_threads, w = .waiting
  cpu_outputs : s.cpu_outputs = []
  client : s.client = none
  uploader : ∀ up, s.uploader = some up → up.queue = [] ∧ up.phase = .idle

theorem Quiet.flatMap_nil {f : CpuThread → List α} (h : Quiet s) (hf : f .waiting = []) :
    s.cpu_threads.flatMap f = [] := by
  rw [List.flatMap_eq_nil_iff]
  intro w hw
  rw [h.cpu_threads w hw, hf]

theorem Quiet.mem_processed (h : Quiet s) (hflow : Flow C s) (hc : c ∈ s.candidates) :
    c ∈ s.processed := by
  have hpos := List.count_pos_iff.2 hc
  rw [hflow.candidates, State.places, h.gpu_outputs, h.flatMap_nil rfl, h.client] at hpos
  have hmem := List.count_pos_iff.1 hpos
  simpa using hmem

theorem Quiet.mem_collected (h : Quiet s) (hflow : Flow C s) (hc : c ∈ s.candidates)
    (ho : C.process c = some o) : o ∈ s.collected := by
  have hmem : o ∈ s.processed.filterMap C.process :=
    List.mem_filterMap.2 ⟨c, h.mem_processed hflow hc, ho⟩
  have hpos := List.count_pos_iff.2 hmem
  rw [hflow.results, State.results, h.flatMap_nil rfl, h.cpu_outputs] at hpos
  exact List.count_pos_iff.1 hpos

theorem Quiet.mem_output_file (hq : Quiet s)
    (h : exec (step C) (State.init C start_seed memories threads db client) es = some s)
    (hc : c ∈ s.candidates) (ho : C.process c = some o) :
    o.key ∈ s.output_file.map CpuOutput.key := by
  rw [(written_run h).file, mem_map_firsts]
  exact List.mem_map_of_mem (hq.mem_collected (flow_run h) hc ho)

theorem stored_run
    (hl : Along (step C) (fun s e => lossy s e = false)
      (State.init C start_seed memories threads db client) es)
    (h : exec (step C) (State.init C start_seed memories threads db client) es = some s) :
    Stored s := by
  refine hl.invariant (fun _ _ _ hs hp ht => hs.move hp (step_move ht)) ?_ h
  intro up hup
  obtain ⟨db, -, rfl⟩ := Option.map_eq_some_iff.1 hup
  exact nofun

theorem Quiet.has_row {o : CpuOutput} (hq : Quiet s)
    (h : exec (step C) (State.init C start_seed memories threads db client) es = some s)
    (hstored : Stored s) (hkey : o.key ∈ s.output_file.map CpuOutput.key)
    (hup : s.uploader = some up) : up.db.has (o.item C.large_biomes).key = true := by
  obtain ⟨o', ho', he⟩ := List.mem_map.1 hkey
  have hitem : o'.item C.large_biomes ∈ uploads up :=
    (List.perm_iff_count.2 ((written_run h).uploads up hup)).mem_iff.1 (List.mem_map_of_mem ho')
  obtain ⟨hqueue, hphase⟩ := hq.uploader up hup
  rw [uploads, hqueue, hphase] at hitem
  have hrow := hstored up hup _ hitem
  have hsame : (o'.item C.large_biomes).key = (o.item C.large_biomes).key := by
    simp only [CpuOutput.key, Prod.mk.injEq] at he
    simp only [Uploader.UploadItem.key, CpuOutput.item, he]
  rwa [hsame] at hrow

/-- Once nothing is under way, every candidate with a result has its line in the output file, and
its row in the backend's table where no upload was answered in vain. -/
theorem candidates_stored
    (h : exec (step C) (State.init C start_seed memories threads db client) es = some s)
    (hq : Quiet s) (hc : c ∈ s.candidates) (ho : C.process c = some o) :
    o.key ∈ s.output_file.map CpuOutput.key ∧
      (Along (step C) (fun s e => lossy s e = false)
          (State.init C start_seed memories threads db client) es →
        ∀ up, s.uploader = some up → up.db.has (o.item C.large_biomes).key = true) := by
  have hkey := hq.mem_output_file h hc ho
  exact ⟨hkey, fun hl up hup => hq.has_row h (stored_run hl h) hkey hup⟩

theorem twice_quiet (h : exec (step collector) collector_init twice = some s) : Quiet s := by
  have hplaces : (exec (step collector) collector_init twice).map
      (fun s => (s.gpu_outputs, s.cpu_threads, s.cpu_outputs, s.client.isNone)) =
        some ([], [.waiting], [], true) := by
    decide +kernel
  have hup : (exec (step collector) collector_init twice).map
      (fun s => s.uploader.map fun up => (up.queue, up.phase)) = some (some ([], .idle)) := by
    decide +kernel
  rw [h] at hplaces hup
  simp only [Option.map_some, Option.some.injEq, Prod.mk.injEq] at hplaces
  obtain ⟨hgpu, hcpu, hout, hclient⟩ := hplaces
  refine ⟨hgpu, ?_, hout, Option.isNone_iff_eq_none.1 hclient, ?_⟩
  · intro w hw
    rw [hcpu] at hw
    exact List.mem_singleton.1 hw
  · intro up hs
    rw [Option.map_some, hs] at hup
    exact Prod.mk.inj (Option.some.inj (Option.some.inj hup))

theorem candidates_stored_twice : ∃ s,
    exec (step collector) collector_init twice = some s ∧
      ∀ up, s.uploader = some up → up.db.has (7, -4, 8) = true := by
  obtain ⟨s, hs, -, hc⟩ := twice_run
  have hmem : (⟨7, -4, 8⟩ : GpuOutput) ∈ s.candidates := hc ▸ List.mem_cons_self
  exact ⟨s, hs, (candidates_stored hs (twice_quiet hs) hmem rfl).2 (by decide +kernel)⟩

end Omission.Main
