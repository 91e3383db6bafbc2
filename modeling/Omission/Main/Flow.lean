import Omission.Lib.Slots
import Omission.Main.Moves

namespace Omission.Main
open Omission.Lib Omission.Net Omission.Gpu Omission.Backend
set_option autoImplicit true

variable {C : Config} {s t : State}

/-- What is pushed on the queue is logged. -/
def Pushes (v v' : Server) : Prop :=
  ∃ c outputs, v'.queue = v.queue ++ outputs ∧ v'.log = v.log ++ outputs.map (c, ·)

theorem pushes_none {v v' : Server} (hq : v'.queue = v.queue) (hl : v'.log = v.log) :
    Pushes v v' :=
  ⟨0, [], by rw [hq, List.append_nil], by rw [hl, List.map_nil, List.append_nil]⟩

theorem recv_pushes (L : Layout) (large_biomes : Bool) (v : Server) (c : Nat)
    (conn : tcp_connection) (k : Nat) : Pushes v (v.recv L large_biomes c conn k) := by
  unfold Server.recv
  dsimp only
  split
  · split <;> exact pushes_none rfl rfl
  · split
    · exact pushes_none rfl rfl
    · split
      · exact pushes_none rfl rfl
      · exact ⟨c, _, rfl, rfl⟩
  · exact pushes_none rfl rfl

theorem net_pushes {L : Layout} {large_biomes : Bool} {v v' : Server} {e : Net.Event}
    (h : Net.step L large_biomes v e = some v') (he : e ≠ .pop) : Pushes v v' := by
  cases e with
  | accept c sent handshake pending =>
    simp only [Net.step] at h
    split at h <;> cases h
    exact pushes_none rfl rfl
  | fail c =>
    simp only [Net.step] at h
    split at h
    · cases h
    · split at h <;> cases h <;> exact pushes_none rfl rfl
  | pop => exact absurd rfl he
  | recv c k =>
    simp only [Net.step] at h
    split at h
    · cases h
    · split at h
      · cases h
      · split at h
        · cases h
          exact pushes_none rfl rfl
        · split at h <;> cases h
          exact recv_pushes ..

def CpuThread.input : CpuThread → List GpuOutput
  | .processing input => [input]
  | _ => []

def CpuThread.output : CpuThread → List CpuOutput
  | .finished output => [output]
  | _ => []

def ClientThread.records (client : ClientThread) : List GpuOutput :=
  client.pending_data ++ client.sent

/-- Where a candidate can be. -/
def State.places (s : State) : List GpuOutput :=
  s.gpu_outputs ++ s.cpu_threads.flatMap CpuThread.input ++ s.processed ++
    s.client.toList.flatMap ClientThread.records

/-- Where a result of `process` can be. -/
def State.results (s : State) : List CpuOutput :=
  s.cpu_threads.flatMap CpuThread.output ++ s.cpu_outputs ++ s.collected

structure Flow (C : Config) (s : State) : Prop where
  candidates : ∀ x, s.candidates.count x = s.places.count x
  results : ∀ x, (s.processed.filterMap C.process).count x = s.results.count x

theorem record_frame (C : Config) (s : State) (output : CpuOutput) :
    (s.record C output).server = s.server ∧ (s.record C output).found = s.found ∧
      (s.record C output).cpu_threads = s.cpu_threads ∧
      (s.record C output).processed = s.processed ∧ (s.record C output).client = s.client ∧
      (s.record C output).cpu_outputs = s.cpu_outputs ∧
      (s.record C output).collected = s.collected := by
  unfold State.record
  split <;> exact ⟨rfl, rfl, rfl, rfl, rfl, rfl, rfl⟩

theorem input_after (o : Option CpuOutput) : (CpuThread.after o).input = [] := by
  cases o <;> rfl

theorem output_after (o : Option CpuOutput) : (CpuThread.after o).output = o.toList := by
  cases o <;> rfl

theorem candidates_move (h : ∀ x, s.candidates.count x = s.places.count x) (m : Move C s e t)
    (x : GpuOutput) : t.candidates.count x = t.places.count x := by
  have hx := h x
  simp only [State.candidates, State.places, State.gpu_outputs, List.count_append] at hx ⊢
  cases m with
  | next => exact hx
  | device => exact hx
  | push hd hp ho =>
    simp only [State.set_queue, State.gpu_outputs, List.flatMap_append, List.flatMap_singleton,
      List.count_append] at hx ⊢
    omega
  | @take w input queue hw hq =>
    have hset := count_flatMap_set hw CpuThread.input (b := .processing input) x
    simp only [CpuThread.input, List.count_nil] at hset
    rw [show s.server.queue = input :: queue from hq, List.count_cons] at hx
    rw [List.count_singleton] at hset
    simp only [State.set_queue]
    omega
  | @finish w input hw =>
    have hset := count_flatMap_set hw CpuThread.input (b := .after (C.process input)) x
    rw [input_after, List.count_nil] at hset
    simp only [CpuThread.input] at hset
    simp only [List.count_append]
    omega
  | submit hw =>
    have hset := count_flatMap_set hw CpuThread.input (b := .waiting) x
    simp only [CpuThread.input, List.count_nil] at hset
    simp only
    omega
  | lock => exact hx
  | collect =>
    obtain ⟨hserver, hfound, hcpu, hproc, hclient, -⟩ := record_frame C { s with
      cpu_outputs := _, collected := s.collected ++ [_] } _
    rw [hserver, hfound, hcpu, hproc, hclient]
    exact hx
  | unlock => exact hx
  | upload => exact hx
  | drain hc =>
    rw [hc] at hx
    simp only [State.set_queue, State.gpu_outputs, Option.toList_some, List.flatMap_singleton,
      ClientThread.records, List.count_append, List.count_nil] at hx ⊢
    omega
  | send hc =>
    rw [hc] at hx
    simp only [Option.toList_some, List.flatMap_singleton, ClientThread.records,
      List.count_append, List.count_nil] at hx ⊢
    omega
  | net hs he =>
    obtain ⟨c, outputs, hq, hl⟩ := net_pushes hs he
    simp only [hq, hl, List.map_append, List.map_map, Function.comp_def, List.map_id',
      List.count_append] at hx ⊢
    omega

theorem results_move (h : ∀ x, (s.processed.filterMap C.process).count x = s.results.count x)
    (m : Move C s e t) (x : CpuOutput) :
    (t.processed.filterMap C.process).count x = t.results.count x := by
  have hx := h x
  simp only [State.results, List.count_append] at hx ⊢
  cases m with
  | next => exact hx
  | device => exact hx
  | push => exact hx
  | @take w input queue hw hq =>
    have hset := count_flatMap_set hw CpuThread.output (b := .processing input) x
    simp only [CpuThread.output, List.count_nil] at hset
    simp only [State.set_queue]
    omega
  | @finish w input hw =>
    have hset := count_flatMap_set hw CpuThread.output (b := .after (C.process input)) x
    rw [output_after] at hset
    simp only [CpuThread.output, List.count_nil] at hset
    have hone : ([input].filterMap C.process).count x = (C.process input).toList.count x := by
      rw [List.filterMap_cons]
      cases C.process input <;> rfl
    rw [List.filterMap_append, List.count_append, hone]
    simp only
    omega
  | submit hw hl =>
    have hset := count_flatMap_set hw CpuThread.output (b := .waiting) x
    simp only [CpuThread.output, List.count_nil] at hset
    simp only [List.count_append]
    omega
  | lock => exact hx
  | collect hl hq =>
    obtain ⟨-, -, hcpu, hproc, -, hqueue, hcol⟩ := record_frame C { s with
      cpu_outputs := _, collected := s.collected ++ [_] } _
    rw [hcpu, hproc, hqueue, hcol]
    rw [hq, List.count_cons] at hx
    simp only [List.count_append, List.count_singleton]
    omega
  | unlock => exact hx
  | upload => exact hx
  | drain => exact hx
  | send => exact hx
  | net => exact hx

theorem flow_init (start_seed : BitVec 64) (memories : List Pipeline.State) (threads : Nat)
    (db : Option Table) (client : Bool) :
    Flow C (State.init C start_seed memories threads db client) where
  candidates x := by
    have hcpu : (List.replicate threads CpuThread.waiting).flatMap CpuThread.input = [] :=
      flatMap_replicate_nil rfl threads
    simp only [State.candidates, State.places, State.init, State.gpu_outputs, Server.init, hcpu]
    cases client <;> rfl
  results x := by
    have hcpu : (List.replicate threads CpuThread.waiting).flatMap CpuThread.output = [] :=
      flatMap_replicate_nil rfl threads
    simp only [State.results, State.init, hcpu]
    rfl

theorem Flow.move (h : Flow C s) (m : Move C s e t) : Flow C t :=
  ⟨candidates_move h.candidates m, results_move h.results m⟩

theorem flow_run {start_seed : BitVec 64} {memories : List Pipeline.State} {threads : Nat}
    {db : Option Table} {client : Bool}
    (h : exec (step C) (State.init C start_seed memories threads db client) es = some s) :
    Flow C s :=
  exec_invariant (fun _ _ _ hs ht => hs.move (step_move ht)) (flow_init ..) h

/-- In every interleaving of the threads, every candidate is in one place and every result of
`process` is in one place: nothing is lost and nothing is doubled. -/
theorem candidates_conserved {start_seed : BitVec 64} {memories : List Pipeline.State}
    {threads : Nat} {db : Option Table} {client : Bool}
    (h : exec (step C) (State.init C start_seed memories threads db client) es = some s) :
    s.candidates.Perm s.places ∧ (s.processed.filterMap C.process).Perm s.results :=
  ⟨List.perm_iff_count.2 (flow_run h).candidates, List.perm_iff_count.2 (flow_run h).results⟩

/-- A collecting program whose `process` accepts every candidate. -/
def collector : Config :=
  ⟨false, false, littleEndian, 0, fun c => some ⟨c.seed, c.x, c.z, 10000000⟩⟩

/-- A peer sends one candidate twice; both come through `process`, and one line is uploaded. -/
def twice : List Event :=
  [.net (.accept 0 (ClientThread_run littleEndian false [[⟨7, -4, 8⟩], [⟨7, -4, 8⟩]])
      (Block.fill 0) (Block.fill 0)),
    .net (.recv 0 16), .net (.recv 0 32), .take 0, .finish 0, .submit 0, .take 0, .finish 0,
    .submit 0, .lock, .collect, .collect, .unlock, .upload .pop,
    .upload (.post (.reached false 12))]

def collector_init : State := State.init collector 0 [] 1 (some []) false

theorem twice_run : ∃ s, exec (step collector) collector_init twice = some s ∧
    s.output_file = [⟨7, -4, 8, 10000000⟩] ∧ s.candidates = [⟨7, -4, 8⟩, ⟨7, -4, 8⟩] := by
  have hrun : (exec (step collector) collector_init twice).map
      (fun s => (s.output_file, s.candidates)) =
        some ([⟨7, -4, 8, 10000000⟩], [⟨7, -4, 8⟩, ⟨7, -4, 8⟩]) := by
    decide +kernel
  obtain ⟨s, hs, he⟩ := Option.map_eq_some_iff.1 hrun
  exact ⟨s, hs, Prod.mk.inj he⟩

theorem candidates_conserved_twice : ∃ s,
    exec (step collector) collector_init twice = some s ∧ s.places.length = 2 := by
  obtain ⟨s, hs, -, hc⟩ := twice_run
  refine ⟨s, hs, ?_⟩
  rw [← (candidates_conserved hs).1.length_eq, hc]
  rfl

end Omission.Main
