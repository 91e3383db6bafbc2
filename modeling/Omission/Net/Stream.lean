import Omission.Net.Server

namespace Omission.Net
open Omission.Lib
set_option autoImplicit true

def Socket.payload (k : Socket) : List UInt8 := (k.sent.take k.received).drop 16

def Socket.greeted (k : Socket) (large_biomes : Bool) : Prop :=
  16 ≤ k.received ∧ k.sent.take 16 = net_handshake large_biomes

def Consistent (L : Layout) (large_biomes : Bool) (k : Socket) (pushed : List GpuOutput) : Prop :=
  k.received ≤ k.sent.length ∧
    ((k.greeted large_biomes ∧ pushed = L.records k.payload) ∨
      (¬ k.greeted large_biomes ∧ pushed = []))

/-- The state of one connection against the bytes it has received. -/
def tcp_connection.Inv (L : Layout) (large_biomes : Bool) (pushed : List GpuOutput)
    (c : tcp_connection) : Prop :=
  Consistent L large_biomes c.socket_ pushed ∧
    match c.phase with
    | .handshaking got =>
      got = c.socket_.received ∧ got < 16 ∧ c.pending_data_len_ = 0 ∧
        c.handshake_.bytes.take got = c.socket_.sent.take got
    | .reading =>
      c.pending_data_len_ < sizeofGpuOutput ∧
        (c.socket_.ended = true ∨
          c.socket_.greeted large_biomes ∧
            c.pending_data_.bytes.take c.pending_data_len_ =
              rest sizeofGpuOutput c.socket_.payload)
    | .closed => True

/-- What `handle_read` does to a buffer whose first bytes are known. -/
theorem tcp_connection.handle_read_spec (c : tcp_connection) (L : Layout) {k : Nat}
    {bs : List UInt8} (hfit : c.pending_data_len_ + k ≤ 1024)
    (hbs : c.pending_data_.bytes.take (c.pending_data_len_ + k) = bs) :
    ∃ c', c.handle_read L k = some (c', L.records bs) ∧ c'.socket_ = c.socket_ ∧
      c'.phase = c.phase ∧ c'.pending_data_len_ < sizeofGpuOutput ∧
      c'.pending_data_.bytes.take c'.pending_data_len_ = rest sizeofGpuOutput bs := by
  have hlen : bs.length = c.pending_data_len_ + k := by
    rw [← hbs, List.length_take, c.pending_data_.length_bytes, Nat.min_eq_left hfit]
  by_cases hge : c.pending_data_len_ + k ≥ sizeofGpuOutput
  · have hdiv := Nat.div_mul_le_self (c.pending_data_len_ + k) sizeofGpuOutput
    have hmod := Nat.mod_lt (c.pending_data_len_ + k) (show sizeofGpuOutput > 0 by decide)
    have hsplit := Nat.div_add_mod' (c.pending_data_len_ + k) sizeofGpuOutput
    have hread := c.pending_data_.mapM_read L.decode sizeofGpuOutput hfit
    have hmoved : (c.pending_data_len_ + k) / sizeofGpuOutput * sizeofGpuOutput +
        (c.pending_data_len_ + k -
          (c.pending_data_len_ + k) / sizeofGpuOutput * sizeofGpuOutput) ≤ 1024 := by
      omega
    obtain ⟨data, hmove, htake⟩ := c.pending_data_.move_front_spec hmoved
    rw [hbs] at hread
    refine ⟨{ c with pending_data_ := data, pending_data_len_ := c.pending_data_len_ + k -
      (c.pending_data_len_ + k) / sizeofGpuOutput * sizeofGpuOutput }, ?_, rfl, rfl, ?_, ?_⟩
    · simp only [handle_read, if_pos hge, hread, hmove, Layout.records]
      rfl
    · change c.pending_data_len_ + k - _ < _
      omega
    · rw [htake, rest, hlen, ← hbs, List.drop_take]
  · have hshort : bs.length < sizeofGpuOutput := by omega
    refine ⟨{ c with pending_data_len_ := c.pending_data_len_ + k }, ?_, rfl, rfl, ?_, ?_⟩
    · simp only [handle_read, if_neg hge, Layout.records, frames_of_short hshort, List.map_nil]
    · exact Nat.lt_of_not_le hge
    · rw [rest_of_short hshort]
      exact hbs

theorem Socket.payload_recv {s : Socket} {k : Nat} (h16 : 16 ≤ s.received)
    (hk : s.received + k ≤ s.sent.length) :
    (s.advance k).payload = s.payload ++ (s.sent.drop s.received).take k := by
  simp only [Socket.payload, Socket.advance]
  rw [List.take_add, List.drop_append_of_le_length]
  rw [List.length_take]
  omega

theorem Socket.payload_short {s : Socket} (h : s.received ≤ 16) : s.payload = [] := by
  simp only [Socket.payload, List.drop_eq_nil_iff, List.length_take]
  omega

theorem Consistent.short (h : Consistent L lb k pushed) (hr : k.received < 16) : pushed = [] := by
  rcases h.2 with ⟨hg, -⟩ | ⟨-, hp⟩
  · exact absurd hg.1 (Nat.not_le.2 hr)
  · exact hp

/-- Nothing is pushed on the strength of a handshake comparison: before the greeting there
is nothing to push, and a comparison that succeeds after an error can read nothing more. -/
theorem tcp_connection.handle_handshake_inv {c : tcp_connection}
    (hc : Consistent L lb c.socket_ pushed) (hlen : c.pending_data_len_ = 0)
    (hread : c.socket_.ended = true ∨ c.socket_.received = 16 ∧
      c.handshake_.bytes = c.socket_.sent.take 16) :
    (c.handle_handshake lb).Inv L lb pushed := by
  unfold handle_handshake
  split
  · exact ⟨hc, trivial⟩
  · next heq =>
    have hlt : c.pending_data_len_ < sizeofGpuOutput := by rw [hlen]; decide
    refine ⟨hc, hlt, ?_⟩
    rcases hread with hend | ⟨h16, hbytes⟩
    · exact .inl hend
    · refine .inr ⟨⟨h16.ge, ?_⟩, ?_⟩
      · rw [← hbytes]
        exact Decidable.not_not.1 heq
      · rw [hlen, Socket.payload_short h16.le]
        rfl

theorem tcp_connection.Inv.recv_handshaking {conn : tcp_connection} {got k : Nat}
    (h : conn.Inv L lb pushed) (hphase : conn.phase = .handshaking got)
    (hk : k ≤ 16 - got) (hk' : conn.socket_.received + k ≤ conn.socket_.sent.length) :
    ∃ handshake, conn.handshake_.write got
        ((conn.socket_.sent.drop conn.socket_.received).take k) = some handshake ∧
      tcp_connection.Inv L lb pushed
        (let conn := { conn with
            socket_ := conn.socket_.advance k
            handshake_ := handshake, phase := .handshaking (got + k) }
         if got + k = 16 then conn.handle_handshake lb else conn) := by
  obtain ⟨hc, hrest⟩ := h
  rw [hphase] at hrest
  obtain ⟨hgot, hlt, hlen, hbytes⟩ := hrest
  have hnil := hc.short (hgot ▸ hlt)
  have hchunk : ((conn.socket_.sent.drop conn.socket_.received).take k).length = k := by
    rw [List.length_take, List.length_drop]
    omega
  have hfit : got + ((conn.socket_.sent.drop conn.socket_.received).take k).length ≤ 16 := by
    omega
  obtain ⟨handshake, hw, htake⟩ := conn.handshake_.write_spec hfit
  rw [hchunk, hbytes, ← hgot, ← List.take_add] at htake
  have hrec : (conn.socket_.advance k).received = got + k := by rw [hgot]; rfl
  have hall : got + k = 16 → handshake.bytes = conn.socket_.sent.take 16 := by
    intro h16
    have hfull := List.take_of_length_le (Nat.le_of_eq handshake.length_bytes)
    rw [h16] at htake
    exact hfull.symm.trans htake
  refine ⟨handshake, hw, ?_⟩
  dsimp only
  split
  · next h16 =>
    apply handle_handshake_inv
    · refine ⟨hk', ?_⟩
      by_cases hg : conn.socket_.sent.take 16 = net_handshake lb
      · refine .inl ⟨⟨(hrec.trans h16).ge, hg⟩, ?_⟩
        rw [Socket.payload_short (hrec.trans h16).le, hnil]
        rfl
      · exact .inr ⟨fun h => hg h.2, hnil⟩
    · exact hlen
    · exact .inr ⟨hrec.trans h16, hall h16⟩
  · next hne =>
    refine ⟨⟨hk', .inr ⟨fun h => ?_, hnil⟩⟩, hrec.symm, by omega, hlen, htake⟩
    have h16 := h.1
    simp only [hrec] at h16
    omega

theorem tcp_connection.Inv.recv_reading {conn : tcp_connection} {k : Nat}
    (h : conn.Inv L lb pushed) (hphase : conn.phase = .reading)
    (hend : conn.socket_.ended = false) (hk : conn.pending_data_len_ + k ≤ 1024)
    (hk' : conn.socket_.received + k ≤ conn.socket_.sent.length) :
    ∃ data c' outputs, conn.pending_data_.write conn.pending_data_len_
        ((conn.socket_.sent.drop conn.socket_.received).take k) = some data ∧
      tcp_connection.handle_read { conn with
          socket_ := conn.socket_.advance k
          pending_data_ := data } L k = some (c', outputs) ∧
      c'.Inv L lb (pushed ++ outputs) := by
  obtain ⟨hc, hrest⟩ := h
  rw [hphase] at hrest
  obtain ⟨hlt, hend' | ⟨hg, htail⟩⟩ := hrest
  · rw [hend] at hend'
    cases hend'
  have hchunk : ((conn.socket_.sent.drop conn.socket_.received).take k).length = k := by
    rw [List.length_take, List.length_drop]
    omega
  have hpushed : pushed = L.records conn.socket_.payload := by
    rcases hc.2 with ⟨-, hp⟩ | ⟨hn, -⟩
    · exact hp
    · exact absurd hg hn
  have hfit : conn.pending_data_len_ +
      ((conn.socket_.sent.drop conn.socket_.received).take k).length ≤ 1024 := by
    omega
  obtain ⟨data, hw, htake⟩ := conn.pending_data_.write_spec hfit
  rw [hchunk, htail] at htake
  obtain ⟨c', hread, hsocket, hphase', hlt', htail'⟩ := tcp_connection.handle_read_spec
    { conn with
      socket_ := conn.socket_.advance k
      pending_data_ := data } L hk htake
  refine ⟨data, c', _, hw, hread, ?_⟩
  have hpay := Socket.payload_recv hg.1 hk'
  have hg' : (conn.socket_.advance k).greeted lb :=
    ⟨le_trans hg.1 (Nat.le_add_right _ _), hg.2⟩
  have hsocket' : c'.socket_ = conn.socket_.advance k := hsocket
  have hphase'' : c'.phase = .reading := hphase'.trans hphase
  refine ⟨?_, ?_⟩
  · rw [hsocket']
    refine ⟨hk', .inl ⟨hg', ?_⟩⟩
    rw [hpay, hpushed]
    exact (L.records_append _ _).symm
  · rw [hphase'', hsocket']
    refine ⟨hlt', .inr ⟨hg', ?_⟩⟩
    rw [hpay, rest_append (by decide)]
    exact htail'

/-- No access has left a buffer, and every connection is in step with its bytes. -/
def Server.Inv (L : Layout) (lb : Bool) (s : Server) : Prop :=
  s.oob = false ∧ ∀ c,
    match s.conns c with
    | none => s.pushed c = []
    | some conn => conn.Inv L lb (s.pushed c)

@[simp] theorem Server.pushed_set (s : Server) (c i : Nat) (conn : tcp_connection) :
    (s.set c conn).pushed i = s.pushed i := rfl

@[simp] theorem Server.conns_push (s : Server) (c : Nat) (outputs : List GpuOutput) :
    (s.push c outputs).conns = s.conns := rfl

theorem Server.conns_set (s : Server) (c i : Nat) (conn : tcp_connection) :
    (s.set c conn).conns i = if i = c then some conn else s.conns i := rfl

theorem Server.pushed_push (s : Server) (c i : Nat) (outputs : List GpuOutput) :
    (s.push c outputs).pushed i = if i = c then s.pushed i ++ outputs else s.pushed i := by
  simp only [pushed, push, List.filterMap_append, List.filterMap_map, Function.comp_def]
  by_cases h : i = c
  · simp [h]
  · have hne : c ≠ i := fun he => h he.symm
    simp [h, hne]

theorem Server.Inv.update {s : Server} (h : s.Inv L lb) {c : Nat} {conn : tcp_connection}
    {outputs : List GpuOutput} (hconn : conn.Inv L lb (s.pushed c ++ outputs)) :
    ((s.push c outputs).set c conn).Inv L lb := by
  refine ⟨h.1, fun i => ?_⟩
  rw [Server.conns_set, Server.pushed_set, Server.pushed_push]
  by_cases hi : i = c
  · subst hi
    simpa only [if_true] using hconn
  · simpa only [if_neg hi, Server.conns_push] using h.2 i

theorem Server.push_nil (s : Server) (c : Nat) : s.push c [] = s := by
  simp [Server.push]

theorem Server.Inv.replace {s : Server} (h : s.Inv L lb) {c : Nat} {conn : tcp_connection}
    (hconn : conn.Inv L lb (s.pushed c)) : (s.set c conn).Inv L lb := by
  rw [← List.append_nil (s.pushed c)] at hconn
  have := h.update hconn
  rwa [Server.push_nil] at this

theorem Server.Inv.at {s : Server} {conn : tcp_connection} (h : s.Inv L lb)
    (hc : s.conns c = some conn) :
    conn.Inv L lb (s.pushed c) := by
  have := h.2 c
  rwa [hc] at this

theorem tcp_connection.Inv.room_pos {conn : tcp_connection} (h : conn.Inv L lb pushed)
    (hphase : conn.phase ≠ .closed) : 0 < conn.room := by
  obtain ⟨-, hrest⟩ := h
  unfold room
  cases hp : conn.phase with
  | handshaking got =>
    rw [hp] at hrest
    have := hrest.2.1
    simp only
    omega
  | reading =>
    rw [hp] at hrest
    have := hrest.1
    simp only [sizeofGpuOutput] at this ⊢
    omega
  | closed => exact absurd hp hphase

theorem Server.Inv.recv {s : Server} {conn : tcp_connection} (h : s.Inv L lb)
    (hc : s.conns c = some conn)
    (hend : conn.socket_.ended = false) (hphase : conn.phase ≠ .closed) (hk : k ≤ conn.room)
    (hk' : conn.socket_.received + k ≤ conn.socket_.sent.length) :
    (s.recv L lb c conn k).Inv L lb := by
  have hconn := h.at hc
  have hroom := hconn.room_pos hphase
  unfold tcp_connection.room at hk hroom
  cases hp : conn.phase with
  | handshaking got =>
    rw [hp] at hk
    obtain ⟨handshake, hw, hinv⟩ := hconn.recv_handshaking hp hk hk'
    simp only [Server.recv, hp, hw]
    exact h.replace hinv
  | reading =>
    rw [hp] at hk hroom
    have hfit : conn.pending_data_len_ + k ≤ 1024 := by
      simp only at hk hroom
      omega
    obtain ⟨data, c', outputs, hw, hread, hinv⟩ := hconn.recv_reading hp hend hfit hk'
    simp only [Server.recv, hp, hw]
    rw [hp] at hread
    rw [hread]
    exact h.update hinv
  | closed => exact absurd hp hphase

theorem Server.Inv.fail {s t : Server} (h : s.Inv L lb)
    (hstep : step L lb s (.fail c) = some t) : t.Inv L lb := by
  simp only [step] at hstep
  split at hstep
  · cases hstep
  · next conn hc =>
    obtain ⟨hcons, hrest⟩ := h.at hc
    split at hstep
    · next got hp =>
      cases hstep
      have hp' : conn.phase = .handshaking got := hp
      rw [hp'] at hrest
      exact h.replace (tcp_connection.handle_handshake_inv hcons hrest.2.2.1 (.inl rfl))
    · cases hstep
      exact h.replace ⟨hcons, trivial⟩
    · cases hstep

theorem Server.Inv.accept {s t : Server} (h : s.Inv L lb)
    (hstep : step L lb s (.accept c sent handshake pending) = some t) : t.Inv L lb := by
  have hnil := h.2 c
  simp only [step] at hstep
  split at hstep
  · cases hstep
  · next hc =>
    cases hstep
    rw [hc] at hnil
    apply h.replace
    refine ⟨⟨Nat.zero_le _, .inr ⟨fun hg => ?_, hnil⟩⟩, rfl, by decide, rfl, by simp⟩
    exact absurd hg.1 (by decide : ¬ 16 ≤ 0)

theorem Server.Inv.step {s t : Server} (h : s.Inv L lb)
    (hstep : step L lb s e = some t) : t.Inv L lb := by
  cases e with
  | accept c sent handshake pending => exact h.accept hstep
  | fail c => exact h.fail hstep
  | pop =>
    simp only [Net.step] at hstep
    split at hstep <;> cases hstep
    exact h
  | recv c k =>
    simp only [Net.step] at hstep
    split at hstep
    · cases hstep
    · next conn hc =>
      split at hstep
      · cases hstep
      · next hopen =>
        have hphase : conn.phase ≠ .closed := fun hp => hopen (.inr hp)
        have hend : conn.socket_.ended = false := by
          cases he : conn.socket_.ended
          · rfl
          · exact absurd (.inl he) hopen
        have hroom := (h.at hc).room_pos hphase
        rw [if_neg (by omega)] at hstep
        split at hstep
        · next hk =>
          cases hstep
          exact h.recv hc hend hphase hk.2.1 hk.2.2
        · cases hstep

theorem Server.Inv.init : Server.init.Inv L lb := ⟨rfl, fun _ => rfl⟩

/-- Every schedule of accepts, reads of any size, errors and pops keeps the buffers in
bounds and every connection in step with its bytes. -/
theorem Server.exec_inv (hrun : exec (Net.step L lb) Server.init es = some s) : s.Inv L lb :=
  exec_invariant (fun _ _ _ h hstep => h.step hstep) Server.Inv.init hrun

/-- The queue is what the log holds, less the records taken from its front. -/
def Server.Logged (s : Server) : Prop := ∃ taken, s.log.map Prod.snd = taken ++ s.queue

theorem Server.Logged.push {s : Server} (h : s.Logged) (c : Nat) (outputs : List GpuOutput) :
    (s.push c outputs).Logged := by
  obtain ⟨taken, ht⟩ := h
  refine ⟨taken, ?_⟩
  simp only [Server.push, List.map_append, ht, List.map_map, Function.comp_def, List.map_id',
    List.append_assoc]

theorem Server.Logged.recv {s : Server} (h : s.Logged) (c : Nat) (conn : tcp_connection)
    (k : Nat) : (s.recv L lb c conn k).Logged := by
  unfold Server.recv
  dsimp only
  split
  · split <;> exact h
  · split
    · exact h
    · split
      · exact h
      · exact h.push _ _
  · exact h

theorem Server.Logged.step {s t : Server} (h : s.Logged) (hstep : Net.step L lb s e = some t) :
    t.Logged := by
  cases e with
  | accept c sent handshake pending =>
    simp only [Net.step] at hstep
    split at hstep <;> cases hstep
    exact h
  | fail c =>
    simp only [Net.step] at hstep
    split at hstep
    · cases hstep
    · split at hstep <;> cases hstep <;> exact h
  | pop =>
    obtain ⟨taken, ht⟩ := h
    simp only [Net.step] at hstep
    split at hstep
    · cases hstep
    · next r queue hq =>
      cases hstep
      exact ⟨taken ++ [r], by rw [ht, hq, List.append_assoc]; rfl⟩
  | recv c k =>
    simp only [Net.step] at hstep
    split at hstep
    · cases hstep
    · split at hstep
      · cases hstep
      · split at hstep
        · cases hstep
          exact h
        · split at hstep <;> cases hstep
          exact h.recv _ _ _

theorem Server.exec_logged (hrun : exec (Net.step L lb) Server.init es = some s) : s.Logged :=
  exec_invariant (fun _ _ _ h hstep => h.step hstep) ⟨[], rfl⟩ hrun

theorem Socket.payload_client {L : Layout} {k : Socket} {rs : List GpuOutput}
    (hsent : k.sent <+: net_handshake lb ++ rs.flatMap L.encode)
    (hr : k.received ≤ k.sent.length) (h16 : 16 ≤ k.received) :
    k.sent.take 16 = net_handshake lb ∧
      k.payload = (rs.flatMap L.encode).take (k.received - 16) ∧
      k.received - 16 ≤ (rs.flatMap L.encode).length := by
  obtain ⟨tail, htail⟩ := hsent
  have hnet : (net_handshake lb).length = 16 := length_net_handshake lb
  have htake (n : Nat) (hn : n ≤ k.sent.length) :
      k.sent.take n = (net_handshake lb ++ rs.flatMap L.encode).take n := by
    rw [← htail, List.take_append_of_le_length hn]
  refine ⟨?_, ?_, ?_⟩
  · rw [htake 16 (le_trans h16 hr)]
    exact List.take_left' hnet
  · obtain ⟨n, hn⟩ := Nat.exists_eq_add_of_le h16
    rw [Socket.payload, htake _ hr, hn, Nat.add_sub_cancel_left, ← hnet,
      List.take_length_add_append, List.drop_left]
  · have hlen := congrArg List.length htail
    simp only [List.length_append, hnet] at hlen ⊢
    omega

theorem tcp_connection.Inv.pushed_client {L : Layout} {conn : tcp_connection} {rs : List GpuOutput}
    (h : conn.Inv L lb pushed)
    (hsent : conn.socket_.sent <+: net_handshake lb ++ rs.flatMap L.encode) :
    pushed = rs.take ((conn.socket_.received - 16) / sizeofGpuOutput) := by
  obtain ⟨⟨hr, hcases⟩, -⟩ := h
  by_cases h16 : 16 ≤ conn.socket_.received
  · obtain ⟨hg, hpay, hle⟩ := Socket.payload_client hsent hr h16
    rcases hcases with ⟨-, hp⟩ | ⟨hn, -⟩
    · rw [hp, hpay, L.records_take rs hle]
    · exact absurd ⟨h16, hg⟩ hn
  · have hzero : conn.socket_.received - 16 = 0 := by omega
    rcases hcases with ⟨hg, -⟩ | ⟨-, hp⟩
    · exact absurd hg.1 h16
    · rw [hp, hzero, Nat.zero_div, List.take_zero]

/-- The record stream, for every cut of the byte stream, every end of the connection and
every interleaving with other connections. -/
theorem record_stream (hrun : exec (step L lb) Server.init es = some s)
    (hc : s.conns c = some conn) :
    s.oob = false ∧ s.Logged ∧
      (s.pushed c ≠ [] → 16 ≤ conn.socket_.received ∧
        conn.socket_.sent.take 16 = net_handshake lb) ∧
      (∀ drained, conn.socket_.sent <+: ClientThread_run L lb drained →
        s.pushed c = drained.flatten.take ((conn.socket_.received - 16) / sizeofGpuOutput)) ∧
      (conn.phase ≠ .closed → 0 < conn.room) ∧
      (conn.phase = .reading → conn.pending_data_len_ < sizeofGpuOutput ∧
        (conn.socket_.ended = false →
          conn.pending_data_.bytes.take conn.pending_data_len_ =
            conn.socket_.payload.drop
              (conn.socket_.payload.length / sizeofGpuOutput * sizeofGpuOutput))) := by
  have hinv := Server.exec_inv hrun
  have hconn := hinv.at hc
  refine ⟨hinv.1, Server.exec_logged hrun, ?_, ?_, hconn.room_pos, ?_⟩
  · intro hne
    rcases hconn.1.2 with ⟨hg, -⟩ | ⟨-, hp⟩
    · exact hg
    · exact absurd hp hne
  · intro drained hsent
    rw [ClientThread_run_eq] at hsent
    exact hconn.pushed_client hsent
  · intro hp
    have hrest := hconn.2
    rw [hp] at hrest
    refine ⟨hrest.1, fun hend => ?_⟩
    rcases hrest.2 with he | ⟨-, htail⟩
    · rw [hend] at he
      cases he
    · exact htail

def firstOutput : GpuOutput := ⟨0x123456789abcdef0, 640, -1280⟩

def secondOutput : GpuOutput := ⟨7, -4, 8⟩

/-- A client that sends two records, of which a second read ends inside the last one. -/
def cutRun : List Event :=
  [.accept 0 (ClientThread_run littleEndian false [[firstOutput], [], [secondOutput]])
    (Block.fill 0) (Block.fill 0), .recv 0 16, .recv 0 20, .fail 0]

theorem record_stream_cut : ∃ s, exec (step littleEndian false) Server.init cutRun = some s ∧
    s.pushed 0 = [firstOutput] := by
  have hview : ((exec (step littleEndian false) Server.init cutRun).bind fun s =>
      (s.conns 0).map fun conn => (conn.socket_.received, conn.socket_.sent)) =
        some (36, ClientThread_run littleEndian false [[firstOutput], [], [secondOutput]]) := by
    decide +kernel
  obtain ⟨s, hrun, hs⟩ := Option.bind_eq_some_iff.1 hview
  obtain ⟨conn, hc, hconn⟩ := Option.map_eq_some_iff.1 hs
  obtain ⟨hreceived, hsent⟩ := Prod.mk.inj hconn
  refine ⟨s, hrun, ?_⟩
  have hpushed := (record_stream hrun hc).2.2.2.1 _ ⟨[], (List.append_nil _).trans hsent⟩
  rw [hpushed, hreceived]
  rfl

end Omission.Net
