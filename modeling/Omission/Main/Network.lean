import Omission.Main.Output
import Omission.Net.Stream

namespace Omission.Main
open Omission.Lib Omission.Net Omission.Gpu Omission.Backend
set_option autoImplicit true

variable {C D : Config} {s t a b : State} {start_seed : BitVec 64}
  {memories : List Pipeline.State} {threads : Nat} {db : Option Table} {client : Bool}

structure Connected (C : Config) (s : State) : Prop where
  server : s.server.Inv C.L C.large_biomes
  client : ∀ c, s.client = some c →
    c.written = net_handshake C.large_biomes ++ c.sent.flatMap C.L.encode

theorem Connected.move (h : Connected C s) (m : Move C s e t) : Connected C t := by
  cases m with
  | collect =>
    unfold State.record
    split <;> exact ⟨h.server, h.client⟩
  | drain hc =>
    refine ⟨h.server, ?_⟩
    intro c he
    cases he
    have hw := h.client _ hc
    exact hw
  | send hc =>
    refine ⟨h.server, ?_⟩
    intro c he
    cases he
    have hw := h.client _ hc
    simp only at hw
    rw [hw, List.flatMap_append, List.append_assoc]
  | net hs he => exact ⟨h.server.step hs, h.client⟩
  | _ => exact ⟨h.server, h.client⟩

theorem connected_run
    (h : exec (step C) (State.init C start_seed memories threads db client) es = some s) :
    Connected C s := by
  refine exec_invariant (fun _ _ _ hs ht => hs.move (step_move ht)) ⟨Server.Inv.init, ?_⟩ h
  intro c hc
  cases client with
  | false => cases hc
  | true =>
    cases hc
    exact (List.append_nil _).symm

/-- The records that have come over a connection from a client of the same build. -/
theorem pushed_sent (ha : Connected C a) (hb : Connected D b) (hL : C.L = D.L)
    (hlb : C.large_biomes = D.large_biomes) (hclient : a.client = some c)
    (hconn : b.server.conns i = some conn) (hsent : conn.socket_.sent <+: c.written) :
    b.server.pushed i = c.sent.take ((conn.socket_.received - 16) / sizeofGpuOutput) := by
  rw [ha.client c hclient, hL, hlb] at hsent
  exact (hb.server.at hconn).pushed_client hsent

theorem pushed_sublist (v : Server) (i : Nat) : List.Sublist (v.pushed i) (v.log.map Prod.snd) := by
  rw [Server.pushed]
  induction v.log with
  | nil => exact List.Sublist.slnil
  | cons p log ih =>
    rw [List.filterMap_cons, List.map_cons]
    by_cases hp : p.1 = i
    · rw [if_pos hp]
      exact ih.cons_cons p.2
    · rw [if_neg hp]
      exact ih.cons p.2

theorem length_written (ha : Connected C a) (hclient : a.client = some c) :
    c.written.length = 16 + sizeofGpuOutput * c.sent.length := by
  have hrecords : ∀ rs : List GpuOutput,
      (rs.flatMap C.L.encode).length = sizeofGpuOutput * rs.length := by
    intro rs
    induction rs with
    | nil => rfl
    | cons r rs ih =>
      rw [List.flatMap_cons, List.length_append, C.L.length_encode, ih, List.length_cons,
        Nat.mul_succ, Nat.add_comm]
  rw [ha.client c hclient, List.length_append, length_net_handshake, hrecords]

def relay_init : State := State.init collector 0 [] 0 none true

/-- A program without CPU threads that hands two candidates from one peer on to another. -/
def relay : List Event :=
  [.net (.accept 0 (ClientThread_run littleEndian false [[⟨7, -4, 8⟩, ⟨7, -4, 8⟩]])
      (Block.fill 0) (Block.fill 0)),
    .net (.recv 0 16), .net (.recv 0 32), .drain, .send]

theorem relay_run : ∃ a c, exec (step collector) relay_init relay = some a ∧
    a.client = some c ∧ a.candidates = [⟨7, -4, 8⟩, ⟨7, -4, 8⟩] ∧
    (a.gpu_outputs = [] ∧ a.cpu_threads = [] ∧ a.processed = [] ∧ c.pending_data = []) ∧
    c.written = ClientThread_run littleEndian false [[⟨7, -4, 8⟩], [⟨7, -4, 8⟩]] := by
  have hplaces : (exec (step collector) relay_init relay).map
      (fun a => (a.candidates, a.gpu_outputs, a.cpu_threads, a.processed)) =
        some ([⟨7, -4, 8⟩, ⟨7, -4, 8⟩], [], [], []) := by
    decide +kernel
  have hclient : (exec (step collector) relay_init relay).map
      (fun a => a.client.map fun c => (c.pending_data, c.written)) =
        some (some ([], ClientThread_run littleEndian false [[⟨7, -4, 8⟩], [⟨7, -4, 8⟩]])) := by
    decide +kernel
  obtain ⟨a, ha, he⟩ := Option.map_eq_some_iff.1 hplaces
  rw [ha, Option.map_some, Option.some.injEq] at hclient
  obtain ⟨c, hc, hce⟩ := Option.map_eq_some_iff.1 hclient
  simp only [Prod.mk.injEq] at he hce
  exact ⟨a, c, ha, hc, he.1, ⟨he.2.1, he.2.2.1, he.2.2.2, hce.1⟩, hce.2⟩

theorem twice_conn (h : exec (step collector) collector_init twice = some b) :
    ∃ conn, b.server.conns 0 = some conn ∧ conn.socket_.received = 48 ∧
      conn.socket_.sent = ClientThread_run littleEndian false [[⟨7, -4, 8⟩], [⟨7, -4, 8⟩]] := by
  have hconn : (exec (step collector) collector_init twice).map
      (fun b => (b.server.conns 0).map fun conn => (conn.socket_.received, conn.socket_.sent)) =
        some (some (48, ClientThread_run littleEndian false [[⟨7, -4, 8⟩], [⟨7, -4, 8⟩]])) := by
    decide +kernel
  rw [h, Option.map_some, Option.some.injEq] at hconn
  obtain ⟨conn, hc, he⟩ := Option.map_eq_some_iff.1 hconn
  exact ⟨conn, hc, Prod.mk.inj he⟩

section TwoPrograms

variable {start_seed' : BitVec 64} {memories' : List Pipeline.State} {threads' : Nat}
  {db' : Option Table} {client' : Bool} {fs : List Event}

theorem candidates_handed
    (ha : exec (step C) (State.init C start_seed memories threads db client) es = some a)
    (hb : exec (step D) (State.init D start_seed' memories' threads' db' client') fs = some b)
    (hL : C.L = D.L) (hlb : C.large_biomes = D.large_biomes) (hclient : a.client = some c)
    (hconn : b.server.conns i = some conn) (hsent : conn.socket_.sent <+: c.written) :
    a.candidates.Perm (a.gpu_outputs ++ a.cpu_threads.flatMap CpuThread.input ++
        a.processed ++ c.pending_data ++ b.server.pushed i ++
        c.sent.drop ((conn.socket_.received - 16) / sizeofGpuOutput)) := by
  have hpushed := pushed_sent (connected_run ha) (connected_run hb) hL hlb hclient hconn hsent
  have hperm := List.perm_iff_count.2 (flow_run ha).candidates
  rw [State.places, hclient, Option.toList_some, List.flatMap_singleton,
    ClientThread.records] at hperm
  rw [hpushed, List.append_assoc _ (c.sent.take _), List.take_append_drop,
    List.append_assoc _ c.pending_data]
  exact hperm

/-- Nothing is on the wire once all is received. -/
theorem drop_received
    (ha : exec (step C) (State.init C start_seed memories threads db client) es = some a)
    (hclient : a.client = some c) (hall : received = c.written.length) :
    c.sent.drop ((received - 16) / sizeofGpuOutput) = [] := by
  rw [List.drop_eq_nil_iff, hall, length_written (connected_run ha) hclient,
    Nat.add_sub_cancel_left, Nat.mul_div_cancel_left _ (by decide)]

theorem pushed_candidates (b : State) (i : Nat) :
    List.Sublist (b.server.pushed i) b.candidates :=
  (pushed_sublist b.server i).trans (List.sublist_append_right _ _)

/-- Between a program that searches and one that collects, every candidate of the first is still
there, on the wire, or among the candidates of the second, once for each time it was found. On the
wire are the records sent behind the last one received whole. -/
theorem handed_over
    (ha : exec (step C) (State.init C start_seed memories threads db client) es = some a)
    (hb : exec (step D) (State.init D start_seed' memories' threads' db' client') fs = some b)
    (hL : C.L = D.L) (hlb : C.large_biomes = D.large_biomes) (hclient : a.client = some c)
    (hconn : b.server.conns i = some conn) (hsent : conn.socket_.sent <+: c.written) :
    let wire := c.sent.drop ((conn.socket_.received - 16) / sizeofGpuOutput)
    a.candidates.Perm (a.gpu_outputs ++ a.cpu_threads.flatMap CpuThread.input ++
        a.processed ++ c.pending_data ++ b.server.pushed i ++ wire) ∧
      (conn.socket_.received = c.written.length → wire = []) ∧
      List.Sublist (b.server.pushed i) b.candidates ∧ b.candidates.Perm b.places :=
  ⟨candidates_handed ha hb hL hlb hclient hconn hsent, drop_received ha hclient,
    pushed_candidates b i, List.perm_iff_count.2 (flow_run hb).candidates⟩

theorem handed_over_relay : ∃ a b, exec (step collector) relay_init relay = some a ∧
    exec (step collector) collector_init twice = some b ∧
      a.candidates.Perm (b.server.pushed 0) := by
  obtain ⟨a, c, ha, hc, -, ⟨hgpu, hcpu, hproc, hpend⟩, hwritten⟩ := relay_run
  obtain ⟨b, hb, -, -⟩ := twice_run
  obtain ⟨conn, hconn, hreceived, hsent⟩ := twice_conn hb
  obtain ⟨hperm, hwire, -⟩ :=
    handed_over ha hb rfl rfl hc hconn ⟨[], (List.append_nil _).trans (hsent.trans hwritten.symm)⟩
  refine ⟨a, b, ha, hb, ?_⟩
  rw [hgpu, hcpu, hproc, hpend, hwire (by rw [hreceived, hwritten]; rfl), List.append_nil] at hperm
  exact hperm

/-- A candidate found by a program that only searches has its line in the output of the program that
collects, once all is sent, received and processed, and its row in the table behind it where no
upload was answered in vain. -/
theorem found_reaches_table
    (ha : exec (step C) (State.init C start_seed memories threads db client) es = some a)
    (hb : exec (step D) (State.init D start_seed' memories' threads' db' client') fs = some b)
    (hL : C.L = D.L) (hlb : C.large_biomes = D.large_biomes) (hclient : a.client = some c)
    (hconn : b.server.conns i = some conn) (hsent : conn.socket_.sent <+: c.written)
    (hidle : a.gpu_outputs = [] ∧ a.cpu_threads = [] ∧ a.processed = [] ∧ c.pending_data = [])
    (hall : conn.socket_.received = c.written.length) (hq : Quiet b)
    (hx : x ∈ a.candidates) (ho : D.process x = some o) :
    o.key ∈ b.output_file.map CpuOutput.key ∧
      (Along (step D) (fun s e => lossy s e = false)
          (State.init D start_seed' memories' threads' db' client') fs →
        ∀ up, b.uploader = some up → up.db.has (o.item D.large_biomes).key = true) := by
  have hperm := candidates_handed ha hb hL hlb hclient hconn hsent
  obtain ⟨hgpu, hcpu, hproc, hpend⟩ := hidle
  have hmem := hperm.mem_iff.1 hx
  rw [hgpu, hcpu, hproc, hpend, drop_received ha hclient hall, List.append_nil] at hmem
  have hkey := hq.mem_output_file hb ((pushed_candidates b i).subset hmem) ho
  exact ⟨hkey, fun hl up hup => hq.has_row hb (stored_run hl hb) hkey hup⟩

theorem found_reaches_table_relay : ∃ b,
    exec (step collector) collector_init twice = some b ∧
      ∀ up, b.uploader = some up → up.db.has (7, -4, 8) = true := by
  obtain ⟨a, c, ha, hc, hcand, hidle, hwritten⟩ := relay_run
  obtain ⟨b, hb, -, -⟩ := twice_run
  obtain ⟨conn, hconn, hreceived, hsent⟩ := twice_conn hb
  have hmem : (⟨7, -4, 8⟩ : GpuOutput) ∈ a.candidates := hcand ▸ List.mem_cons_self
  exact ⟨b, hb, (found_reaches_table ha hb rfl rfl hc hconn
    ⟨[], (List.append_nil _).trans (hsent.trans hwritten.symm)⟩ hidle
    (by rw [hreceived, hwritten]; rfl) (twice_quiet hb) hmem rfl).2 (by decide +kernel)⟩

end TwoPrograms

end Omission.Main
