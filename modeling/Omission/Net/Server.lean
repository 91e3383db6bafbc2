import Omission.Lib.Machine
import Omission.Net.Wire

namespace Omission.Net
open Omission.Lib
set_option autoImplicit true

/-- What the peer of a connection writes, and how much of it has been read here. -/
structure Socket where
  sent : List UInt8
  received : Nat
  ended : Bool
deriving DecidableEq, Repr

def Socket.advance (s : Socket) (k : Nat) : Socket := { s with received := s.received + k }

/-- The read operation that is outstanding on a connection. -/
inductive Phase where
  /-- `asio::async_read` into `handshake_`, which has `got` bytes so far -/
  | handshaking (got : Nat)
  /-- `async_read_some` behind the pending data -/
  | reading
  | closed
deriving DecidableEq, Repr

/-- `tcp_connection`; both arrays start with whatever the memory held. -/
structure tcp_connection where
  socket_ : Socket
  handshake_ : Block UInt8 16
  pending_data_ : Block UInt8 1024
  pending_data_len_ : Nat
  phase : Phase
deriving DecidableEq, Repr

/-- `handle_handshake`: the error code is not looked at, only the bytes are. -/
def tcp_connection.handle_handshake (c : tcp_connection) (large_biomes : Bool) :
    tcp_connection :=
  if c.handshake_.bytes ≠ net_handshake large_biomes then { c with phase := .closed }
  else { c with phase := .reading }

/-- `handle_read` without an error: the connection and the records to push, `none` when a
copy leaves the buffer. -/
def tcp_connection.handle_read (c : tcp_connection) (L : Layout) (bytes_transferred : Nat) :
    Option (tcp_connection × List GpuOutput) :=
  let len := c.pending_data_len_ + bytes_transferred
  if len ≥ sizeofGpuOutput then
    let count := len / sizeofGpuOutput
    do
      let outputs ← (List.range count).mapM fun i =>
        (c.pending_data_.read (i * sizeofGpuOutput) sizeofGpuOutput).map L.decode
      let len' := len - count * sizeofGpuOutput
      let data ← c.pending_data_.move 0 (count * sizeofGpuOutput) len'
      some ({ c with pending_data_ := data, pending_data_len_ := len' }, outputs)
  else some ({ c with pending_data_len_ := len }, [])

/-- The server: its connections, the shared queue, and the log of what each connection
pushed on it. `oob` is raised by an access outside a buffer or an empty read. -/
structure Server where
  conns : Nat → Option tcp_connection
  queue : List GpuOutput
  log : List (Nat × GpuOutput)
  oob : Bool

inductive Event where
  | accept (c : Nat) (sent : List UInt8) (handshake : Block UInt8 16) (pending : Block UInt8 1024)
  /-- the transport hands the next `k` bytes to the outstanding read of `c` -/
  | recv (c : Nat) (k : Nat)
  /-- the outstanding read of `c` completes with an error -/
  | fail (c : Nat)
  /-- a worker takes the oldest record -/
  | pop

def Server.set (s : Server) (c : Nat) (conn : tcp_connection) : Server :=
  { s with conns := fun i => if i = c then some conn else s.conns i }

def Server.push (s : Server) (c : Nat) (outputs : List GpuOutput) : Server :=
  { s with queue := s.queue ++ outputs, log := s.log ++ outputs.map (c, ·) }

def Server.pushed (s : Server) (c : Nat) : List GpuOutput :=
  s.log.filterMap fun p => if p.1 = c then some p.2 else none

/-- `k` further bytes arrive on `conn`. -/
def Server.recv (L : Layout) (large_biomes : Bool) (s : Server) (c : Nat) (conn : tcp_connection)
    (k : Nat) : Server :=
  let chunk := (conn.socket_.sent.drop conn.socket_.received).take k
  let conn := { conn with socket_ := conn.socket_.advance k }
  match conn.phase with
  | .handshaking got =>
    match conn.handshake_.write got chunk with
    | none => { s with oob := true }
    | some handshake =>
      let conn := { conn with handshake_ := handshake, phase := .handshaking (got + k) }
      s.set c (if got + k = 16 then conn.handle_handshake large_biomes else conn)
  | .reading =>
    match conn.pending_data_.write conn.pending_data_len_ chunk with
    | none => { s with oob := true }
    | some data =>
      match { conn with pending_data_ := data }.handle_read L k with
      | none => { s with oob := true }
      | some (conn, outputs) => (s.push c outputs).set c conn
  | .closed => s

def tcp_connection.room (conn : tcp_connection) : Nat :=
  match conn.phase with
  | .handshaking got => 16 - got
  | .reading => 1024 - conn.pending_data_len_
  | .closed => 0

/-- One handler run by the io context; handlers of all connections interleave freely. -/
def step (L : Layout) (large_biomes : Bool) (s : Server) : Event → Option Server
  | .accept c sent handshake pending =>
    match s.conns c with
    | some _ => none
    | none => some (s.set c ⟨⟨sent, 0, false⟩, handshake, pending, 0, .handshaking 0⟩)
  | .recv c k =>
    match s.conns c with
    | none => none
    | some conn =>
      if conn.socket_.ended ∨ conn.phase = .closed then none
      -- an empty buffer would complete at once with zero bytes, for ever
      else if conn.room = 0 then some { s with oob := true }
      else if 1 ≤ k ∧ k ≤ conn.room ∧ conn.socket_.received + k ≤ conn.socket_.sent.length then
        some (s.recv L large_biomes c conn k)
      else none
  | .fail c =>
    match s.conns c with
    | none => none
    | some conn =>
      let conn := { conn with socket_ := { conn.socket_ with ended := true } }
      match conn.phase with
      | .handshaking _ => some (s.set c (conn.handle_handshake large_biomes))
      | .reading => some (s.set c { conn with phase := .closed })
      | .closed => none
  | .pop =>
    match s.queue with
    | [] => none
    | _ :: queue => some { s with queue := queue }

def Server.init : Server := ⟨fun _ => none, [], [], false⟩

end Omission.Net
