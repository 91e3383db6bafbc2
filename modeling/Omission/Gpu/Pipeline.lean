import Mathlib.Data.List.Basic
import Mathlib.Logic.Function.Basic
import Omission.Gpu.Noise
import Omission.Gpu.Types
import Omission.Lib.Machine

namespace Omission.Gpu.Pipeline
open Omission.Lib
set_option autoImplicit true

/-- The counters of `BufferLens`; each belongs to one `OutputBuffer`. -/
inductive Len where
  | filter_seeds
  | filter_gradvecs_1
  | origin
  | filter_2_0a
  | filter_gradvecs_2
  | filter_2_0b
  | filter_2 (i : Nat)
deriving DecidableEq, Repr

inductive Buffer where
  | buffer_seeds
  | buffer_1
  | buffer_2
deriving DecidableEq, Repr

/-- `KernelSeed1::threads_per_run`, the number of entries of `results`. -/
def threads_per_run : Nat := 2 ^ 16

/-- `KernelFilterSeeds::threads_per_run`. -/
def seeds_per_run : Nat := 2 ^ 28

def Buffer.size : Buffer → Nat
  | .buffer_seeds => 8 * threads_per_run
  | .buffer_1 => 2 ^ 31
  | .buffer_2 => 2 ^ 29

def Len.buffer : Len → Buffer
  | .filter_seeds => .buffer_seeds
  | .filter_gradvecs_1 => .buffer_2
  | .origin => .buffer_2
  | .filter_2_0a => .buffer_1
  | .filter_gradvecs_2 => .buffer_2
  | .filter_2_0b => .buffer_2
  | .filter_2 i => if i % 2 = 0 then .buffer_1 else .buffer_2

def Len.record_size : Len → Nat
  | .filter_seeds => 8
  | _ => 12

def Len.max_len (l : Len) : Nat := l.buffer.size / l.record_size

/-- `continentalness_kA` or `continentalness_kB`. -/
abbrev Octave := Half × Nat

/-- The first octaves of a `Result`, as `Template` takes them. -/
def octaves (count : Nat) : List Octave :=
  (List.range count).map fun i => (if i % 2 = 0 then .A else .B, i / 2)

def init_octaves : List Octave := [(.A, 0), (.A, 1), (.B, 0), (.B, 1)]

def init_octaves_full : List Octave :=
  (List.range 9).map (fun k => (.A, k)) ++ (List.range 9).map (fun k => (.B, k))

/-- The octaves that `late_kernel<Stage>` initialises. -/
def late_octaves (Stage : Nat) : List Octave :=
  if Stage = 1 then
    [(.A, 2), (.A, 3), (.A, 4), (.A, 5), (.B, 2), (.B, 3), (.B, 4), (.B, 5)]
  else if Stage = 2 then [(.A, 6), (.B, 6)]
  else if Stage = 3 then [(.A, 7), (.B, 7)]
  else if Stage = 4 then [(.A, 8), (.B, 8)]
  else []

/-- What `run` enqueues on its stream, with the buffers and the octaves each launch gets. -/
inductive Kernel where
  | filter_seeds
  | init_seeds (octaves : List Octave)
  | filter_origin
  | filter_gradvecs_1
  | filter (inputs outputs : Len) (octaves : List Octave)
  | memset_late_init_flags
  | late (Stage : Nat) (inputs : Len)
  /-- the copy of the final outputs and of their seeds to the host -/
  | copy (outputs : Len)
deriving DecidableEq

/-- One round of the loop of `GpuThread::run`, after the counters are cleared. -/
def batch (origin : Bool) : List Kernel :=
  if origin then
    [.filter_seeds, .init_seeds init_octaves_full, .filter_origin, .copy .origin]
  else
    [.filter_seeds, .init_seeds init_octaves, .filter_gradvecs_1,
      .filter .filter_gradvecs_1 .filter_2_0a [(.A, 0), (.A, 1)],
      .filter .filter_2_0a .filter_gradvecs_2 [(.B, 0)],
      .filter .filter_gradvecs_2 .filter_2_0b [(.B, 0), (.B, 1)],
      .memset_late_init_flags, .late 1 .filter_2_0b,
      .filter .filter_2_0b (.filter_2 0) (octaves 12), .late 2 (.filter_2 0),
      .filter (.filter_2 0) (.filter_2 1) (octaves 14), .late 3 (.filter_2 1),
      .filter (.filter_2 1) (.filter_2 2) (octaves 16), .late 4 (.filter_2 2),
      .filter (.filter_2 2) (.filter_2 3) (octaves 18), .copy (.filter_2 3)]

def Kernel.output : Kernel → Option Len
  | .filter_seeds => some .filter_seeds
  | .filter_origin => some .origin
  | .filter_gradvecs_1 => some .filter_gradvecs_1
  | .filter _ outputs _ => some outputs
  | _ => none

/-- The counter that bounds the loop of a launch. -/
def Kernel.input : Kernel → Option Len
  | .init_seeds _ => some .filter_seeds
  | .filter_origin => some .filter_seeds
  | .filter_gradvecs_1 => some .filter_seeds
  | .filter inputs _ _ => some inputs
  | .late _ inputs => some inputs
  | .copy outputs => some outputs
  | _ => none

/-- What the grid or the host lets through of a counter. -/
def Kernel.bound : Kernel → Nat → Nat
  | .init_seeds _, n => min n (max (threads_per_run / 32) 4420 * 32)
  | .filter_origin, n => min n threads_per_run
  | .copy outputs, n => min n outputs.max_len
  | _, n => n

inductive Write where
  | seed (i : Nat) (v : BitVec 64)
  | record (l : Len) (i : Nat) (r : SeedPos)
  | octave (k : Nat) (o : Octave) (v : ImprovedNoise)
deriving DecidableEq

inductive Access where
  /-- entry `i` of what the stage with counter `l` has put out -/
  | record (l : Len) (i : Nat)
  /-- the filter with outputs `l` samples octave `o` of `results[k]` -/
  | read (l : Len) (k : Nat) (o : Octave) (v : ImprovedNoise)
  | write (k : Nat) (o : Octave) (v : ImprovedNoise)
deriving DecidableEq

structure State where
  /-- the running launch and those queued behind it -/
  program : List Kernel
  len : Len → BitVec 32
  seeds : Nat → BitVec 64
  data : Buffer → Nat → SeedPos
  results : Nat → Octave → ImprovedNoise
  late_init_flags : Nat → Nat
  pending : List Write
  /-- the loop indices that threads of the running launch have handled -/
  taken : List Nat
  /-- the seed indices that the running launch has met -/
  seen : List Nat
  /-- the newest access first -/
  log : List Access

/-- A batch starts with whatever the one before it left in memory. -/
def State.start (origin : Bool) (old : State) : State :=
  { old with
    program := batch origin, len := fun _ => 0, pending := [], taken := [], seen := []
    log := [] }

/-- `atomicAdd` on a counter and the guarded store that follows it. -/
def State.claim (s : State) (l : Len) (w : Nat → Write) : State :=
  { s with
    len := Function.update s.len l (s.len l + 1)
    pending := if (s.len l).toNat < l.max_len then w (s.len l).toNat :: s.pending
      else s.pending }

/-- A filter meets seed index `k`: it loads the octaves it samples. -/
def State.sample (s : State) (l : Len) (octaves : List Octave) (k : Nat) : State :=
  { s with
    seen := k :: s.seen
    log := octaves.map (fun o => .read l k o (s.results k o)) ++ s.log }

/-- What a batch depends on, besides the memory it starts with. -/
structure Run where
  start_seed : BitVec 64
  large_biomes : Bool
  /-- the rounds granted to each rejection loop of `nextInt` -/
  fuel : Nat

def Run.noise (R : Run) (seed : BitVec 64) (o : Octave) : Option ImprovedNoise :=
  octave_noise R.fuel R.large_biomes seed o.1 o.2

/-- The stores to `results[k]` of a thread that initialises octaves of a seed. -/
def Run.init_octaves (R : Run) (seed : BitVec 64) (k : Nat) (octaves : List Octave) :
    Option (List Write) :=
  octaves.mapM fun o => (R.noise seed o).map (.octave k o)

/-- A thread handles loop index `i` of a launch. -/
def Kernel.take (R : Run) (s : State) (i : Nat) : Kernel → Option State
  | .init_seeds octaves => do
    let writes ← R.init_octaves (s.seeds i) i octaves
    some { s with pending := writes ++ s.pending, log := .record .filter_seeds i :: s.log }
  | .filter_origin => some (s.sample .origin (octaves 18) i)
  | .filter_gradvecs_1 => some (s.sample .filter_gradvecs_1 [(.A, 0)] i)
  | .filter inputs outputs octaves =>
    let input := s.data inputs.buffer i
    some (State.sample { s with log := .record inputs i :: s.log } outputs octaves
      input.seed_index.toNat)
  | .late Stage inputs =>
    let k := (s.data inputs.buffer i).seed_index.toNat
    -- `atomicCAS` returns the old flag: only one thread sees `Stage - 1`
    if s.late_init_flags k = Stage - 1 then do
      let writes ← R.init_octaves (s.seeds k) k (late_octaves Stage)
      some { s with
        late_init_flags := Function.update s.late_init_flags k Stage
        pending := writes ++ s.pending
        log := .record .filter_seeds k :: .record inputs i :: s.log }
    else some { s with log := .record inputs i :: s.log }
  | .copy outputs =>
    let k := (s.data outputs.buffer i).seed_index.toNat
    some { s with
      log := (List.range (k + 1)).map (.record .filter_seeds) ++ .record outputs i :: s.log }
  | _ => none

def Write.apply (s : State) : Write → State
  | .seed i v => { s with seeds := Function.update s.seeds i v }
  | .record l i r =>
    { s with data := Function.update s.data l.buffer (Function.update (s.data l.buffer) i r) }
  | .octave k o v =>
    { s with
      results := Function.update s.results k (Function.update (s.results k) o v)
      log := .write k o v :: s.log }

/-- The indices that the running launch has to handle. -/
def Kernel.items (s : State) (kernel : Kernel) : Nat :=
  match kernel.input with
  | some l => kernel.bound (s.len l).toNat
  | none => 0

inductive Event where
  /-- the seed of thread `i` passes `filter_seeds` -/
  | pass (i : Nat)
  | take (i : Nat)
  /-- a thread of a filter puts out a record -/
  | emit (r : SeedPos)
  /-- one of the issued stores lands -/
  | commit (i : Nat)
  /-- the launch ends and the next one starts -/
  | next
deriving DecidableEq

def Kernel.step (R : Run) (s : State) (kernel : Kernel) (rest : List Kernel) :
    Event → Option State
  | .pass i =>
    if kernel = .filter_seeds ∧ i < seeds_per_run ∧ i ∉ s.taken then
      some (State.claim { s with taken := i :: s.taken } .filter_seeds
        fun r => .seed r (R.start_seed + BitVec.ofNat 64 i))
    else none
  | .take i =>
    if i < kernel.items s ∧ i ∉ s.taken then
      kernel.take R { s with taken := i :: s.taken } i
    else none
  | .emit r =>
    match kernel.output with
    | some l =>
      if r.seed_index.toNat ∈ s.seen then some (s.claim l fun i => .record l i r) else none
    | none => none
  | .commit i =>
    match s.pending[i]? with
    | some w => some (w.apply { s with pending := s.pending.eraseIdx i })
    | none => none
  | .next =>
    if s.pending = [] ∧ ∀ i < kernel.items s, i ∈ s.taken then
      some { s with
        program := rest, taken := [], seen := []
        late_init_flags := if kernel = .memset_late_init_flags then
            fun k => if k < threads_per_run then 0 else s.late_init_flags k
          else s.late_init_flags }
    else none

def step (R : Run) (s : State) (e : Event) : Option State :=
  match s.program with
  | [] => none
  | kernel :: rest => kernel.step R s rest e

/-- How many records pass the filter with counter `l` in a schedule. -/
def passing (l : Len) : List Kernel → List Event → Nat
  | [], _ => 0
  | _, [] => 0
  | kernel :: rest, e :: es =>
    match e with
    | .pass _ => passing l (kernel :: rest) es + if l = .filter_seeds then 1 else 0
    | .emit _ => passing l (kernel :: rest) es + if kernel.output = some l then 1 else 0
    | .next => passing l rest es
    | _ => passing l (kernel :: rest) es

/-- The counters that a device kernel reads as its loop bound. -/
def consumed (origin : Bool) : List Len :=
  if origin then [.filter_seeds]
  else [.filter_seeds, .filter_gradvecs_1, .filter_2_0a, .filter_gradvecs_2, .filter_2_0b,
    .filter_2 0, .filter_2 1, .filter_2 2]

end Omission.Gpu.Pipeline
