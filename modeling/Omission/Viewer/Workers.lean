import Omission.SeedText

namespace Omission.Viewer
open Omission.Lib Omission.SeedText
set_option autoImplicit true

structure Tile where
  originX : Int
  originZ : Int
  y4 : Int
  stride : Int
  w : Int
  h : Int
deriving DecidableEq

structure Init where
  seedLo : BitVec 32
  seedHi : BitVec 32
  largeBiomes : Bool
deriving DecidableEq

inductive ToWorker where
  | init (data : Init)
  | tile (id : Nat) (data : Tile)
deriving DecidableEq

inductive ToMain (β : Type) where
  | ready
  | tile_result (id : Nat) (pixels : β)
deriving DecidableEq

/-- A worker and the messages in flight to it and from it. -/
structure Worker (β : Type) where
  inbox : List ToWorker
  outbox : List (ToMain β)
  /-- the handlers of `init` that wait for `loadModule` -/
  loading : List Init
  /-- what `cubiomes_init` was called with -/
  generator : Option Init
  /-- the `ready` message has been received -/
  resolved : Bool
deriving DecidableEq

/-- `ready` is set in the same turn as the generator. -/
def Worker.ready (w : Worker β) : Bool := w.generator.isSome

/-- `new Worker(..)` followed by `postMessage({ type: 'init', .. })` -/
def Worker.created (data : Init) : Worker β := ⟨[.init data], [], [], none, false⟩

structure Request where
  id : Nat
  seed : Option (List Char)
  largeBiomes : Option Bool
  data : Tile
deriving DecidableEq

/-- The module variables of `wasm.ts`, the workers, and what the run has seen so far. -/
structure State (β : Type) where
  workers : List (Worker β)
  nextWorker : Nat
  requestId : Nat
  pending : List Nat
  currentSeed : Option (List Char)
  currentLargeBiomes : Option Bool
  /-- the `tile_result` listeners are attached to the workers -/
  listening : Bool
  /-- the caller whose `initCubiomes` waits for the workers -/
  awaiting : Option Nat
  /-- the callers whose `initCubiomes` has returned -/
  returned : List Nat
  requests : List Request
  discarded : List Nat
  delivered : List (Nat × β)
deriving DecidableEq

def State.start : State β := ⟨[], 0, 0, [], none, none, false, none, [], [], [], []⟩

inductive Event where
  | initCubiomes (caller : Nat) (seed : List Char) (largeBiomes : Bool)
  | sampleTile (caller : Nat) (data : Tile)
  /-- worker `i` starts on the next message -/
  | take (i : Nat)
  /-- the module has been loaded in worker `i`, and its handler of `init` goes on -/
  | loaded (i : Nat)
  /-- the next message of worker `i` reaches the page -/
  | receive (i : Nat)
deriving DecidableEq

section Step

variable (hardwareConcurrency : Nat) (cubiomes_sample_tile : BitVec 64 → Bool → Tile → β)

def numWorkers : Nat :=
  min 4 (min ((if hardwareConcurrency = 0 then 4 else hardwareConcurrency) - 1) 6)

/-- What follows `await Promise.all(..)` in `createAndInitWorkers`. -/
def State.settle (s : State β) : State β :=
  match s.awaiting with
  | some caller =>
    if s.workers.all (·.resolved) then
      { s with listening := true, awaiting := none, returned := caller :: s.returned }
    else s
  | none => s

/-- The old workers are terminated; a text that `BigInt` rejects leaves none. -/
def State.initCubiomes (s : State β) (caller : Nat) (seedStr : List Char) (largeBiomes : Bool) :
    State β :=
  if s.currentSeed = some seedStr ∧ s.currentLargeBiomes = some largeBiomes ∧ s.workers ≠ [] then
    { s with returned := caller :: s.returned }
  else
    let s : State β := { s with
      workers := []
      pending := if s.workers = [] then s.pending else []
      nextWorker := if s.workers = [] then s.nextWorker else 0
      currentSeed := some seedStr
      currentLargeBiomes := some largeBiomes
      listening := false
      awaiting := none }
    match SeedText.initCubiomes seedStr with
    | none => s
    | some (seedLo, seedHi) =>
      ({ s with
        workers := List.replicate (numWorkers hardwareConcurrency)
          (.created ⟨seedLo, seedHi, largeBiomes⟩)
        awaiting := some caller } : State β).settle

/-- Without workers the call throws. -/
def State.sampleTile (s : State β) (data : Tile) : State β :=
  match s.workers[s.nextWorker % s.workers.length]? with
  | none => s
  | some w =>
    let id := s.requestId + 1
    { s with
      requestId := id
      pending := id :: s.pending
      workers := s.workers.set (s.nextWorker % s.workers.length)
        { w with inbox := w.inbox ++ [.tile id data] }
      nextWorker := s.nextWorker + 1
      requests := ⟨id, s.currentSeed, s.currentLargeBiomes, data⟩ :: s.requests }

def Init.pixels (g : Init) (data : Tile) : β :=
  cubiomes_sample_tile (cubiomes_init g.seedLo g.seedHi) g.largeBiomes data

/-- The handler of a worker up to its first `await`. -/
def State.take (s : State β) (i : Nat) : Option (State β) := do
  let w ← s.workers[i]?
  match w.inbox with
  | [] => none
  | .init data :: inbox => some { s with
      workers := s.workers.set i { w with inbox := inbox, loading := w.loading ++ [data] } }
  | .tile id data :: inbox =>
    match w.generator with
    | some g => some { s with
        workers := s.workers.set i { w with
          inbox := inbox
          outbox := w.outbox ++ [.tile_result id (g.pixels cubiomes_sample_tile data)] } }
    | none => some { s with
        workers := s.workers.set i { w with inbox := inbox }
        discarded := id :: s.discarded }

/-- The handler of `init` after its `await`. -/
def State.loaded (s : State β) (i : Nat) : Option (State β) := do
  let w ← s.workers[i]?
  match w.loading with
  | [] => none
  | data :: loading => some { s with
      workers := s.workers.set i { w with
        loading := loading
        generator := some data
        outbox := w.outbox ++ [.ready] } }

/-- A result that nobody waits for any more is dropped. -/
def State.receive (s : State β) (i : Nat) : Option (State β) := do
  let w ← s.workers[i]?
  match w.outbox with
  | [] => none
  | .ready :: outbox => some ({ s with
      workers := s.workers.set i { w with outbox := outbox, resolved := true } } : State β).settle
  | .tile_result id pixels :: outbox =>
    let s := { s with workers := s.workers.set i { w with outbox := outbox } }
    if s.listening = true ∧ id ∈ s.pending then some { s with
      pending := s.pending.erase id
      delivered := (id, pixels) :: s.delivered }
    else some s

/-- A caller samples after its own `initCubiomes` has returned. -/
def step (s : State β) : Event → Option (State β)
  | .initCubiomes caller seed largeBiomes =>
    some (s.initCubiomes hardwareConcurrency caller seed largeBiomes)
  | .sampleTile caller data => if caller ∈ s.returned then some (s.sampleTile data) else none
  | .take i => s.take cubiomes_sample_tile i
  | .loaded i => s.loaded i
  | .receive i => s.receive i

end Step

end Omission.Viewer
