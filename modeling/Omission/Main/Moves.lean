import Omission.Main.System

namespace Omission.Main
open Omission.Lib Omission.Net Omission.Gpu Omission.Backend
set_option autoImplicit true

variable {C : Config} {s t : State}

/-- Everything one step of the program can do. -/
inductive Move (C : Config) (s : State) : Event → State → Prop where
  | next (hd : s.gpu_threads[d]? = some ⟨memory, none⟩) :
      Move C s (.next d) { s with
        pos := s.pos + BitVec.ofNat 64 Pipeline.seeds_per_run
        gpu_threads := s.gpu_threads.set d
          ⟨Pipeline.State.start C.origin memory, some (s.pos, [])⟩
        claimed := s.claimed ++ [s.pos] }
  | device {memory memory' : Pipeline.State} {start_seed : BitVec 64}
      {es : List Pipeline.Event} (hd : s.gpu_threads[d]? = some ⟨memory, some (start_seed, es)⟩)
      (hm : Pipeline.step (C.run start_seed) memory e = some memory') :
      Move C s (.device d e) { s with
        gpu_threads := s.gpu_threads.set d ⟨memory', some (start_seed, es ++ [e])⟩ }
  | push {memory : Pipeline.State} {start_seed : BitVec 64} {es : List Pipeline.Event}
      {outputs : List GpuOutput} (hd : s.gpu_threads[d]? = some ⟨memory, some (start_seed, es)⟩)
      (hp : memory.program = []) (ho : Pipeline.push_outputs C.origin memory = some outputs) :
      Move C s (.push d) { s.set_queue (s.gpu_outputs ++ outputs) with
        gpu_threads := s.gpu_threads.set d ⟨memory, none⟩
        found := s.found ++ [(start_seed, outputs)] }
  | take (hw : s.cpu_threads[w]? = some .waiting) (hq : s.gpu_outputs = input :: queue) :
      Move C s (.take w) { s.set_queue queue with
        cpu_threads := s.cpu_threads.set w (.processing input) }
  | finish (hw : s.cpu_threads[w]? = some (.processing input)) :
      Move C s (.finish w) { s with
        cpu_threads := s.cpu_threads.set w (.after (C.process input))
        processed := s.processed ++ [input] }
  | submit (hw : s.cpu_threads[w]? = some (.finished output)) (hl : s.locked = false) :
      Move C s (.submit w) { s with
        cpu_threads := s.cpu_threads.set w .waiting
        cpu_outputs := s.cpu_outputs ++ [output] }
  | lock : Move C s .lock { s with locked := true }
  | collect (hl : s.locked = true) (hq : s.cpu_outputs = output :: queue) :
      Move C s .collect (State.record C { s with
        cpu_outputs := queue
        collected := s.collected ++ [output] } output)
  | unlock : Move C s .unlock { s with locked := false }
  | upload (hu : s.uploader = some up) (hs : Uploader.step up e = some up')
      (he : ∀ item, e ≠ .enqueue item) : Move C s (.upload e) { s with uploader := some up' }
  | drain (hc : s.client = some ⟨[], written, sent⟩) :
      Move C s .drain { s.set_queue [] with client := some ⟨s.gpu_outputs, written, sent⟩ }
  | send (hc : s.client = some ⟨pending_data, written, sent⟩) :
      Move C s .send { s with
        client := some ⟨[], written ++ pending_data.flatMap C.L.encode, sent ++ pending_data⟩ }
  | net (hs : Net.step C.L C.large_biomes s.server e = some server) (he : e ≠ .pop) :
      Move C s (.net e) { s with server := server }

theorem step_move (h : step C s e = some t) : Move C s e t := by
  cases e with
  | next d =>
    simp only [step] at h
    split at h
    · next hd =>
      obtain rfl := Option.some.inj h
      exact .next hd
    · cases h
  | device d e =>
    simp only [step] at h
    split at h
    · next hd =>
      obtain ⟨memory', hm, rfl⟩ := Option.map_eq_some_iff.1 h
      exact .device hd hm
    · cases h
  | push d =>
    simp only [step] at h
    split at h
    · next hd =>
      split at h
      · next hp =>
        obtain ⟨outputs, ho, rfl⟩ := Option.map_eq_some_iff.1 h
        exact .push hd hp ho
      · cases h
    · cases h
  | take w =>
    simp only [step] at h
    split at h
    · next hw hq =>
      cases h
      exact .take hw hq
    · cases h
  | finish w =>
    simp only [step] at h
    split at h
    · next hw =>
      cases h
      exact .finish hw
    · cases h
  | submit w =>
    simp only [step] at h
    split at h
    · next hw hl =>
      cases h
      exact .submit hw hl
    · cases h
  | lock =>
    simp only [step, Option.ite_none_right_eq_some, Option.some.injEq] at h
    obtain ⟨-, rfl⟩ := h
    exact .lock
  | collect =>
    simp only [step] at h
    split at h
    · next hl hq =>
      cases h
      exact .collect hl hq
    · cases h
  | unlock =>
    simp only [step, Option.ite_none_right_eq_some, Option.some.injEq] at h
    obtain ⟨-, rfl⟩ := h
    exact .unlock
  | upload e =>
    simp only [step] at h
    split at h
    · cases h
    · cases h
    · next up henq hstop hu =>
      obtain ⟨up', hs, rfl⟩ := Option.map_eq_some_iff.1 h
      exact .upload hu hs henq
    · cases h
  | drain =>
    simp only [step] at h
    split at h
    · next hc =>
      cases h
      exact .drain hc
    · cases h
  | send =>
    simp only [step] at h
    split at h
    · next hc =>
      simp only [Option.ite_none_left_eq_some, Option.some.injEq] at h
      obtain ⟨-, rfl⟩ := h
      exact .send hc
    · cases h
  | net e =>
    simp only [step] at h
    split at h
    · cases h
    · next he =>
      obtain ⟨server, hs, rfl⟩ := Option.map_eq_some_iff.1 h
      exact .net hs he

end Omission.Main
