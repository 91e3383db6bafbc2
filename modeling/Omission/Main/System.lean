import Omission.Gpu.Outputs
import Omission.Net.Server
import Omission.Uploader

namespace Omission.Main
open Omission.Lib Omission.Net Omission.Gpu Omission.Backend
set_option autoImplicit true

structure CpuOutput where
  seed : BitVec 64
  x : BitVec 32
  z : BitVec 32
  score : BitVec 32
deriving DecidableEq, Repr

/-- The tuple that `seen_outputs` remembers. -/
abbrev Key := BitVec 64 × BitVec 32 × BitVec 32

def CpuOutput.key (output : CpuOutput) : Key := (output.seed, output.x, output.z)

/-- The arguments of `uploader_thread->enqueue`. -/
def CpuOutput.item (large_biomes : Bool) (output : CpuOutput) : Uploader.UploadItem :=
  ⟨output.seed, output.x, output.z, output.score, if large_biomes then .lb else .sb⟩

/-- One device: its memory and, while it works on a batch, the batch's first seed and what the
device has done for it so far. -/
structure GpuThread where
  memory : Pipeline.State
  batch : Option (BitVec 64 × List Pipeline.Event)

/-- Where `CpuThread::run` is between two locks. -/
inductive CpuThread where
  | waiting
  | processing (input : GpuOutput)
  | finished (output : CpuOutput)
deriving DecidableEq, Repr

/-- What `process` leaves a CPU thread with. -/
def CpuThread.after : Option CpuOutput → CpuThread
  | none => .waiting
  | some output => .finished output

/-- `ClientThread::run` once it is connected; `sent` are the records behind `written`. -/
structure ClientThread where
  pending_data : List GpuOutput
  written : List UInt8
  sent : List GpuOutput

/-- What the arguments and the build fix. -/
structure Config where
  origin : Bool
  large_biomes : Bool
  L : Layout
  /-- the rounds granted to each rejection loop on the devices -/
  fuel : Nat
  /-- `process`, or `process_origin` with `--origin` -/
  process : GpuOutput → Option CpuOutput

def Config.run (C : Config) (start_seed : BitVec 64) : Pipeline.Run :=
  ⟨start_seed, C.large_biomes, C.fuel⟩

/-- The objects of `main_inner`. The logs `claimed`, `found`, `processed` and `collected` keep
what was taken from the seed range, what each batch has pushed, what `process` has answered, and
what was taken off `cpu_outputs`. -/
structure State where
  /-- `SeedIterator::pos` -/
  pos : BitVec 64
  gpu_threads : List GpuThread
  cpu_threads : List CpuThread
  /-- the server thread; its queue is `gpu_outputs.queue` -/
  server : Server
  cpu_outputs : List CpuOutput
  /-- the main thread holds `cpu_outputs.mutex` -/
  locked : Bool
  seen_outputs : List Key
  output_file : List CpuOutput
  uploader : Option Uploader.State
  client : Option ClientThread
  claimed : List (BitVec 64)
  found : List (BitVec 64 × List GpuOutput)
  processed : List GpuOutput
  collected : List CpuOutput

def State.gpu_outputs (s : State) : List GpuOutput := s.server.queue

/-- The candidates that have come into the program, from its devices and over the network. -/
def State.candidates (s : State) : List GpuOutput :=
  s.found.flatMap Prod.snd ++ s.server.log.map Prod.snd

def State.set_queue (s : State) (queue : List GpuOutput) : State :=
  { s with server := { s.server with queue := queue } }

inductive Event where
  /-- a GPU thread takes its next batch -/
  | next (d : Nat)
  | device (d : Nat) (e : Pipeline.Event)
  /-- a GPU thread pushes the outputs of its batch -/
  | push (d : Nat)
  /-- a CPU thread pops a candidate -/
  | take (w : Nat)
  /-- `process` returns -/
  | finish (w : Nat)
  /-- a CPU thread pushes its output -/
  | submit (w : Nat)
  /-- the main thread starts to empty `cpu_outputs` -/
  | lock
  | collect
  | unlock
  | upload (e : Uploader.Event)
  /-- the client thread empties `gpu_outputs` -/
  | drain
  | send
  | net (e : Net.Event)

/-- One round of the inner loop of `main_inner`. -/
def State.record (C : Config) (s : State) (output : CpuOutput) : State :=
  if output.key ∈ s.seen_outputs then s
  else { s with
    seen_outputs := output.key :: s.seen_outputs
    output_file := s.output_file ++ [output]
    uploader := s.uploader.map fun up =>
      { up with queue := up.queue ++ [output.item C.large_biomes] } }

/-- One atomic step of the program: each thread touches a queue under its mutex only. -/
def step (C : Config) (s : State) : Event → Option State
  | .next d =>
    match s.gpu_threads[d]? with
    | some ⟨memory, none⟩ => some { s with
        pos := s.pos + BitVec.ofNat 64 Pipeline.seeds_per_run
        gpu_threads := s.gpu_threads.set d
          ⟨Pipeline.State.start C.origin memory, some (s.pos, [])⟩
        claimed := s.claimed ++ [s.pos] }
    | _ => none
  | .device d e =>
    match s.gpu_threads[d]? with
    | some ⟨memory, some (start_seed, es)⟩ =>
      (Pipeline.step (C.run start_seed) memory e).map fun memory =>
        { s with gpu_threads := s.gpu_threads.set d ⟨memory, some (start_seed, es ++ [e])⟩ }
    | _ => none
  | .push d =>
    match s.gpu_threads[d]? with
    | some ⟨memory, some (start_seed, _)⟩ =>
      if memory.program = [] then
        (Pipeline.push_outputs C.origin memory).map fun outputs =>
          { s.set_queue (s.gpu_outputs ++ outputs) with
            gpu_threads := s.gpu_threads.set d ⟨memory, none⟩
            found := s.found ++ [(start_seed, outputs)] }
      else none
    | _ => none
  | .take w =>
    match s.cpu_threads[w]?, s.gpu_outputs with
    | some .waiting, input :: queue =>
      some { s.set_queue queue with cpu_threads := s.cpu_threads.set w (.processing input) }
    | _, _ => none
  | .finish w =>
    match s.cpu_threads[w]? with
    | some (.processing input) =>
      some { s with
        cpu_threads := s.cpu_threads.set w (.after (C.process input))
        processed := s.processed ++ [input] }
    | _ => none
  | .submit w =>
    match s.cpu_threads[w]?, s.locked with
    | some (.finished output), false => some { s with
        cpu_threads := s.cpu_threads.set w .waiting
        cpu_outputs := s.cpu_outputs ++ [output] }
    | _, _ => none
  | .lock =>
    if s.cpu_threads ≠ [] ∧ s.locked = false then some { s with locked := true } else none
  | .collect =>
    match s.locked, s.cpu_outputs with
    | true, output :: queue =>
      some (State.record C { s with
        cpu_outputs := queue
        collected := s.collected ++ [output] } output)
    | _, _ => none
  | .unlock =>
    if s.locked = true ∧ s.cpu_outputs = [] then some { s with locked := false } else none
  | .upload e =>
    match e, s.uploader with
    -- only the main thread adds items, and it never gets to `stop`
    | .enqueue _, _ => none
    | .stop, _ => none
    | e, some up => (Uploader.step up e).map fun up => { s with uploader := some up }
    | _, none => none
  | .drain =>
    match s.client with
    | some ⟨[], written, sent⟩ => some { s.set_queue [] with
        client := some ⟨s.gpu_outputs, written, sent⟩ }
    | _ => none
  | .send =>
    match s.client with
    | some ⟨pending_data, written, sent⟩ =>
      if pending_data = [] then none
      else some { s with
        client := some ⟨[], written ++ pending_data.flatMap C.L.encode, sent ++ pending_data⟩ }
    | none => none
  | .net e =>
    match e with
    -- only the threads of this program pop
    | .pop => none
    | e => (Net.step C.L C.large_biomes s.server e).map fun server => { s with server := server }

/-- The client has sent its handshake. -/
def ClientThread.init (large_biomes : Bool) : ClientThread := ⟨[], net_handshake large_biomes, []⟩

def State.init (C : Config) (start_seed : BitVec 64) (memories : List Pipeline.State)
    (threads : Nat) (uploader : Option Table) (client : Bool) : State where
  pos := start_seed
  gpu_threads := memories.map (⟨·, none⟩)
  cpu_threads := List.replicate threads .waiting
  server := Server.init
  cpu_outputs := []
  locked := false
  seen_outputs := []
  output_file := []
  uploader := uploader.map (Uploader.State.init [])
  client := if client then some (.init C.large_biomes) else none
  claimed := []
  found := []
  processed := []
  collected := []

end Omission.Main
