import Omission.Lib.Machine
import Omission.Backend.Seeds

namespace Omission.Uploader
open Omission.Lib Omission.Backend
set_option autoImplicit true

structure UploadItem where
  seed : BitVec 64
  x : BitVec 32
  z : BitVec 32
  size : BitVec 32
  mode : Mode
deriving DecidableEq, Repr

/-- The request `UploaderThread::run` prints: `PRIu64` for the seed, `PRIi32` for the rest. -/
def UploadItem.query (item : UploadItem) : SingleQuery :=
  ⟨item.seed.toNat, item.x.toInt, item.z.toInt, item.size.toInt, item.mode.text, item.mode.accepted⟩

/-- The `(seed, x, z)` an item is stored under: the seed as a signed 64-bit integer. -/
def UploadItem.key (item : UploadItem) : Key :=
  (item.seed.toInt, item.x.toInt, item.z.toInt)

theorem wrapSeed_toNat (seed : BitVec 64) : wrapSeed seed.toNat = seed.toInt := by
  have hlt := seed.isLt
  simp only [wrapSeed, BitVec.toInt]
  split <;> split <;> omega

theorem UploadItem.query_key (item : UploadItem) : item.query.row.key = item.key := by
  simp only [SingleQuery.row, SeedRow.key, UploadItem.query, UploadItem.key, wrapSeed_toNat]

/-- The numbers of an item fit the columns. -/
theorem UploadItem.query_storable (item : UploadItem) : item.query.row.storable = true := by
  have hseed : Fits 64 (wrapSeed item.seed.toNat) :=
    wrapSeed_toNat item.seed ▸ fits_toInt le_rfl item.seed
  exact decide_eq_true ⟨hseed, fits_toInt (by decide) item.x, fits_toInt (by decide) item.z,
    fits_toInt (by decide) item.size⟩

inductive Delivery where
  /-- address lookup, socket, connect or send fails -/
  | unreached
  /-- the backend handles the request; the one `recv` returns `received` bytes of its answer -/
  | reached (fault : Bool) (received : Nat)
deriving DecidableEq, Repr

/-- The test on the bytes of the first `recv`; an empty or cut answer fails it. -/
def accepted (reply : Reply) (received : Nat) : Bool :=
  let buf := reply.statusLine.toList.take received
  "HTTP/1.1 200".toList.isPrefixOf buf || "HTTP/1.0 200".toList.isPrefixOf buf

/-- `http_post` against the backend: the table afterwards and the returned flag. -/
def http_post (db : Table) (q : SingleQuery) : Delivery → Table × Bool
  | .unreached => (db, false)
  | .reached fault received =>
    let (db', reply) := add_single_seed db q fault
    (db', accepted reply received)

theorem Reply.statusLine_eq (reply : Reply) : reply.statusLine = "HTTP/1.1 200 OK\r\n" := by
  cases reply <;> rfl

theorem accepted_iff (reply : Reply) (received : Nat) :
    accepted reply received = true ↔ 12 ≤ received := by
  rw [accepted, Reply.statusLine_eq]
  by_cases h : received < 17
  · revert h
    revert received
    decide
  · have hlen : "HTTP/1.1 200 OK\r\n".toList.length ≤ received := by
      change 17 ≤ received
      omega
    rw [List.take_of_length_le hlen]
    exact ⟨fun _ => by omega, fun _ => by decide⟩

inductive Phase where
  | idle
  | posting (item : UploadItem)
  | retrying (item : UploadItem)
  | stopped
deriving DecidableEq, Repr

/-- `left` collects the items the loop has let go of after a successful `http_post`. -/
structure State where
  queue : List UploadItem
  phase : Phase
  db : Table
  left : List UploadItem
deriving DecidableEq, Repr

inductive Event where
  | enqueue (item : UploadItem)
  | stop
  | pop
  | post (d : Delivery)
  | requeue
deriving DecidableEq, Repr

/-- One atomic step of the program; the queue is touched under its mutex only. -/
def step (s : State) : Event → Option State
  | .enqueue item => some { s with queue := s.queue ++ [item] }
  | .stop =>
    match s.phase with
    | .idle => some { s with phase := .stopped }
    | _ => none
  | .pop =>
    match s.phase, s.queue with
    | .idle, item :: rest => some { s with queue := rest, phase := .posting item }
    -- an empty queue: the loop only sleeps
    | .idle, [] => some s
    | _, _ => none
  | .post d =>
    match s.phase with
    | .posting item =>
      let (db, ok) := http_post s.db item.query d
      if ok then some { s with db := db, phase := .idle, left := item :: s.left }
      else some { s with db := db, phase := .retrying item }
    | _ => none
  | .requeue =>
    match s.phase with
    | .retrying item => some { s with queue := s.queue ++ [item], phase := .idle }
    | _ => none

/-- Before the first iteration: nothing taken, any items queued, any table. -/
def State.init (queue : List UploadItem) (db : Table) : State := ⟨queue, .idle, db, []⟩

/-- Every item that left the queue for good has its row. -/
def Stored (s : State) : Prop := ∀ item ∈ s.left, s.db.has item.key = true

instance : DecidablePred Stored := fun s =>
  inferInstanceAs (Decidable (∀ item ∈ s.left, s.db.has item.key = true))

/-- An answer that is read while another database error kept the row out. -/
def lossy (s : State) : Event → Bool
  | .post (.reached fault received) =>
    match s.phase with
    | .posting item => fault && decide (12 ≤ received) && !s.db.has item.key
    | _ => false
  | _ => false

theorem http_post_spec (db : Table) (item : UploadItem) (d : Delivery) :
    (∀ k, db.has k = true → (http_post db item.query d).1.has k = true) ∧
    ((http_post db item.query d).2 = true ↔
      ∃ fault received, d = .reached fault received ∧ 12 ≤ received) ∧
    (∀ fault received, d = .reached fault received →
      (http_post db item.query d).1.has item.key = (db.has item.key || !fault)) := by
  cases d with
  | unreached =>
    refine ⟨fun k hk => hk, ?_, fun _ _ h => by cases h⟩
    constructor
    · intro h
      cases h
    · rintro ⟨_, _, h, _⟩
      cases h
  | reached fault received =>
    have hhas := add_single_seed_has db item.query fault
    refine ⟨?_, ?_, ?_⟩
    · intro k hk
      simp only [http_post, hhas, hk, Bool.true_or]
    · simp only [http_post, accepted_iff]
      constructor
      · intro h
        exact ⟨fault, received, rfl, h⟩
      · rintro ⟨f, r, he, hr⟩
        cases he
        exact hr
    · intro f r he
      cases he
      simp only [http_post, hhas, UploadItem.query_key, UploadItem.query_storable, decide_true,
        Bool.and_true]

theorem step_frame (hstep : step s e = some t) (hpost : ∀ d, e ≠ .post d) :
    t.db = s.db ∧ t.left = s.left := by
  cases e with
  | enqueue item => cases hstep; exact ⟨rfl, rfl⟩
  | post d => exact absurd rfl (hpost d)
  | stop =>
    simp only [step] at hstep
    split at hstep <;> cases hstep
    exact ⟨rfl, rfl⟩
  | pop =>
    simp only [step] at hstep
    split at hstep <;> cases hstep <;> exact ⟨rfl, rfl⟩
  | requeue =>
    simp only [step] at hstep
    split at hstep <;> cases hstep
    exact ⟨rfl, rfl⟩

theorem step_post (hstep : step s (.post d) = some t) :
    ∃ item, s.phase = .posting item ∧ t.db = (http_post s.db item.query d).1 ∧
      t.left = if (http_post s.db item.query d).2 then item :: s.left else s.left := by
  simp only [step] at hstep
  split at hstep
  · next item hphase =>
    refine ⟨item, hphase, ?_⟩
    split at hstep <;> cases hstep <;> simp_all
  · cases hstep

/-- A delivery attempt keeps `Stored` exactly when it is not lossy. -/
theorem stored_post (hs : Stored s) (hstep : step s (.post d) = some t) :
    Stored t ↔ lossy s (.post d) = false := by
  obtain ⟨item, hphase, hdb, hleft⟩ := step_post hstep
  obtain ⟨hmono, hok, hhas⟩ := http_post_spec s.db item d
  have hkeep : ∀ i ∈ s.left, t.db.has i.key = true := by
    intro i hi
    rw [hdb]
    exact hmono _ (hs i hi)
  cases d with
  | unreached =>
    have hleft' : t.left = s.left := by rw [hleft]; rfl
    refine ⟨fun _ => rfl, fun _ => ?_⟩
    intro i hi
    exact hkeep i (hleft' ▸ hi)
  | reached fault received =>
    have hlossy : lossy s (.post (.reached fault received)) =
        (fault && decide (12 ≤ received) && !s.db.has item.key) := by
      simp only [lossy, hphase]
    have hrow : t.db.has item.key = (s.db.has item.key || !fault) := by
      rw [hdb]
      exact hhas fault received rfl
    rw [hlossy]
    by_cases hr : 12 ≤ received
    · have hleft' : t.left = item :: s.left := by
        rw [hleft, if_pos (hok.2 ⟨fault, received, rfl, hr⟩)]
      have hitem : t.db.has item.key = true ↔
          (fault && decide (12 ≤ received) && !s.db.has item.key) = false := by
        rw [hrow]
        cases fault <;> cases s.db.has item.key <;> simp [hr]
      rw [← hitem]
      constructor
      · intro hst
        exact hst item (by rw [hleft']; exact List.mem_cons_self)
      · intro hn i hi
        rw [hleft'] at hi
        rcases List.mem_cons.1 hi with rfl | hi
        · exact hn
        · exact hkeep i hi
    · have hleft' : t.left = s.left := by
        rw [hleft, if_neg]
        intro h
        obtain ⟨f, r, he, hr'⟩ := hok.1 h
        cases he
        exact hr hr'
      have hn : (fault && decide (12 ≤ received) && !s.db.has item.key) = false := by
        simp [hr]
      refine ⟨fun _ => hn, fun _ i hi => ?_⟩
      exact hkeep i (hleft' ▸ hi)

theorem stored_step (hs : Stored s) (hstep : step s e = some t) :
    Stored t ↔ lossy s e = false := by
  by_cases hpost : ∃ d, e = .post d
  · obtain ⟨d, rfl⟩ := hpost
    exact stored_post hs hstep
  · have hne : ∀ d, e ≠ .post d := fun d he => hpost ⟨d, he⟩
    obtain ⟨hdb, hleft⟩ := step_frame hstep hne
    have hn : lossy s e = false := by
      cases e with
      | post d => exact absurd rfl (hne d)
      | _ => rfl
    refine ⟨fun _ => hn, fun _ => ?_⟩
    intro i hi
    rw [hdb]
    exact hs i (hleft ▸ hi)

/-- In every run from a fresh uploader, every state reached has the rows of the items that
left exactly when no attempt is answered after another database error with its row absent. -/
theorem no_upload_lost_iff (hrun : exec step (State.init queue db) es = some t) :
    Throughout step Stored (State.init queue db) es ↔
      Along step (fun s e => lossy s e = false) (State.init queue db) es :=
  throughout_iff_along (fun _ _ _ hs hstep => stored_step hs hstep)
    (fun _ h => nomatch h) hrun

def island : UploadItem := ⟨1, 0, 0, 10000000, .sb⟩

/-- A reply lost after the insert: the retry meets the unique constraint and may leave. -/
theorem no_upload_lost_after_lost_reply :
    Throughout step Stored (State.init [] [])
      [.enqueue island, .pop, .post (.reached false 0), .requeue, .pop,
        .post (.reached false 17)] :=
  (no_upload_lost_iff (t := ⟨[], .idle, [island.query.row], [island]⟩) (by decide)).2
    (by decide)

/-- A locked database is answered as a duplicate: the item leaves and no row exists. -/
theorem upload_lost_on_database_error :
    ¬ ∀ queue db es t, exec step (State.init queue db) es = some t → Stored t := by
  intro h
  have hrun : exec step (State.init [] [])
      [.enqueue island, .pop, .post (.reached true 17)] =
        some ⟨[], .idle, [], [island]⟩ := by decide
  exact absurd (h _ _ _ _ hrun) (by decide)

end Omission.Uploader
