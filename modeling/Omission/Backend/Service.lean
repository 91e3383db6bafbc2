import Mathlib.Data.List.Infix
import Mathlib.Logic.Function.Basic
import Omission.Backend.Seeds
import Omission.Lib.Machine

namespace Omission.Backend
open Omission.Lib
set_option autoImplicit true

/-- A row of the `seeds` table with its primary key. -/
structure StoredRow extends SeedRow where
  id : Int
  has_thumb : Bool
deriving DecidableEq, Repr

/-- `not mode.startswith("u")` -/
def SeedRow.in_bounds (r : SeedRow) : Bool := !"u".toList.isPrefixOf r.mode.toList

/-- `"lb" in mode` -/
def SeedRow.large (r : SeedRow) : Bool := decide ("lb".toList <:+: r.mode.toList)

/-- What a thumbnail shows: a place and a size of biomes. It is complete once it is saved. -/
structure Picture where
  place : Key
  large : Bool
  complete : Bool
deriving DecidableEq, Repr

/-- What follows `render_thumb` in `_render_one`, `_batch_render_pending` and `get_thumb`. -/
inductive After where
  | by_key
  | batch (id : Int) (rows : List StoredRow)
  | reply (id : Int)
deriving DecidableEq, Repr

/-- Where a request, a background task or the thread of `startup` is between two accesses to the
database or the thumbnails. -/
inductive Task where
  | add_single_seed (q : SingleQuery)
  | select_pending
  | batch (rows : List StoredRow)
  | render (row : SeedRow) (after : After)
  | rendered (row : SeedRow) (after : After) (ok : Bool)
  | get_thumb (id : Int)
  | look (row : StoredRow)
  | respond (row : SeedRow)
  | delete_seed (id : Int)
  | unlink (row : StoredRow)
  | delete (id : Int)
deriving DecidableEq, Repr

/-- How it goes on when there is no picture. -/
def After.skip : After → Option Task
  | .batch _ rows => some (.batch rows)
  | _ => none

/-- The data directory, and the task that saves a picture under `render_lock`. `accepted` and
`served` are logs: the uploads with a row, and the rows and pictures of `get_thumb`. -/
structure Store where
  rows : List StoredRow
  next_id : Int
  thumbs : Key → Option Picture
  render_lock : Option (SeedRow × After)
  accepted : List SingleQuery
  served : List (SeedRow × Picture)

structure Service where
  store : Store
  tasks : List Task

namespace Store

def find (s : Store) (id : Int) : Option StoredRow := s.rows.find? fun r => r.id = id

/-- `SELECT .. FROM seeds WHERE has_thumb = 0 LIMIT 50` -/
def pending (s : Store) : List StoredRow := (s.rows.filter fun r => !r.has_thumb).take 50

def insert (s : Store) (q : SingleQuery) : Store :=
  { s with
    rows := s.rows ++ [⟨q.row, s.next_id, false⟩]
    next_id := s.next_id + 1
    accepted := s.accepted ++ [q] }

/-- `UPDATE seeds SET has_thumb = 1 WHERE ..` -/
def set_thumb (s : Store) (p : StoredRow → Bool) : Store :=
  { s with rows := s.rows.map fun r => if p r then { r with has_thumb := true } else r }

def put (s : Store) (k : Key) (picture : Option Picture) : Store :=
  { s with thumbs := Function.update s.thumbs k picture }

def mark (s : Store) (row : SeedRow) : After → Store × Option Task
  | .by_key => (s.set_thumb fun r => r.key = row.key, none)
  | .batch id rows => (s.set_thumb fun r => r.id = id, some (.batch rows))
  | .reply id => (s.set_thumb fun r => r.id = id, some (.respond row))

/-- The next step of a task: the store, and the task it goes on as. With `fault` an access to the
database or the renderer fails; without a result the task waits for the lock. -/
def act (s : Store) (fault : Bool) : Task → Option (Store × Option Task)
  | .add_single_seed q =>
    if fault ∨ q.row.storable = false ∨ ∃ r ∈ s.rows, r.key = q.row.key then some (s, none)
    else some (s.insert q, some (.render q.row .by_key))
  | .select_pending =>
    if fault ∨ s.pending = [] then some (s, none) else some (s, some (.batch s.pending))
  | .batch [] => some (s, some .select_pending)
  | .batch (r :: rows) => some (s, some (.render r.toSeedRow (.batch r.id rows)))
  | .render row after =>
    if s.render_lock.isSome then none
    else if (s.thumbs row.key).isSome then some (s, some (.rendered row after true))
    else if fault then some (s, some (.rendered row after false))
    else some ({ s.put row.key (some ⟨drawn_place row.key, row.large, false⟩) with
      render_lock := some (row, after) }, none)
  | .rendered row after true =>
    if fault then some (s, none) else some (s.mark row after)
  | .rendered _ after false => some (s, after.skip)
  | .get_thumb id =>
    match s.find id with
    | some r => if fault then some (s, none) else some (s, some (.look r))
    | none => some (s, none)
  | .look r =>
    if (s.thumbs r.key).isSome then some (s, some (.respond r.toSeedRow))
    else some (s, some (.render r.toSeedRow (.reply r.id)))
  | .respond row =>
    match s.thumbs row.key with
    | some picture => some ({ s with served := s.served ++ [(row, picture)] }, none)
    | none => some (s, none)
  | .delete_seed id =>
    match s.find id with
    | some r => if fault then some (s, none) else some (s, some (.unlink r))
    | none => some (s, none)
  | .unlink r => some (s.put r.key none, some (.delete r.id))
  | .delete id =>
    if fault then some (s, none)
    else some ({ s with rows := s.rows.filter fun r => r.id ≠ id }, none)

/-- The end of saving a picture; a file that was unlinked meanwhile stays away, and one whose
saving fails stays as it is. -/
def save (s : Store) (fault : Bool) : Option (Store × Task) :=
  s.render_lock.map fun (row, after) =>
    (if fault then { s with render_lock := none }
      else { s.put row.key ((s.thumbs row.key).map fun p => { p with complete := true }) with
        render_lock := none },
    .rendered row after !fault)

end Store

inductive Event where
  | request (t : Task)
  | run (i : Nat) (fault : Bool)
  | save (fault : Bool)
  | restart
deriving DecidableEq, Repr

def Task.is_request : Task → Bool
  | .add_single_seed _ => true
  | .get_thumb _ => true
  | .delete_seed _ => true
  | _ => false

namespace Service

/-- `startup` with an empty data directory -/
def init : Service := ⟨⟨[], 1, fun _ => none, none, [], []⟩, [.select_pending]⟩

/-- The tasks take turns as they like. -/
def step (s : Service) : Event → Option Service
  | .request t => if t.is_request then some ⟨s.store, s.tasks ++ [t]⟩ else none
  | .run i fault => do
    let t ← s.tasks[i]?
    let (store, next) ← s.store.act fault t
    some ⟨store, s.tasks.eraseIdx i ++ next.toList⟩
  | .save fault => do
    let (store, t) ← s.store.save fault
    some ⟨store, s.tasks ++ [t]⟩
  | .restart => some ⟨{ s.store with render_lock := none }, [.select_pending]⟩

end Service

namespace Store

/-- Everything one step of a task can do. -/
inductive Act (s : Store) (fault : Bool) : Task → Store → Option Task → Prop where
  | refused (h : fault = true ∨ q.row.storable = false ∨ ∃ r ∈ s.rows, r.key = q.row.key) :
      Act s fault (.add_single_seed q) s none
  | added (hs : q.row.storable = true) (h : ∀ r ∈ s.rows, r.key ≠ q.row.key) :
      Act s fault (.add_single_seed q) (s.insert q) (some (.render q.row .by_key))
  | idle (h : fault = true ∨ s.pending = []) : Act s fault .select_pending s none
  | fetched : Act s fault .select_pending s (some (.batch s.pending))
  | again : Act s fault (.batch []) s (some .select_pending)
  | taken {rows : List StoredRow} : Act s fault (.batch (r :: rows)) s
      (some (.render r.toSeedRow (.batch r.id rows)))
  | present (hl : s.render_lock = none) (hp : s.thumbs row.key = some picture) :
      Act s fault (.render row after) s (some (.rendered row after true))
  | failed (hl : s.render_lock = none) (hf : fault = true) :
      Act s fault (.render row after) s (some (.rendered row after false))
  | begun (hl : s.render_lock = none) (hp : s.thumbs row.key = none) :
      Act s fault (.render row after) { s.put row.key (some ⟨drawn_place row.key, row.large, false⟩) with
        render_lock := some (row, after) } none
  | broken (hf : fault = true) : Act s fault (.rendered row after true) s none
  | marked_key : Act s fault (.rendered row .by_key true)
      (s.set_thumb fun r => r.key = row.key) none
  | marked_row {id : Int} {rows : List StoredRow} :
      Act s fault (.rendered row (.batch id rows) true) (s.set_thumb fun r => r.id = id)
        (some (.batch rows))
  | marked_reply {id : Int} : Act s fault (.rendered row (.reply id) true)
      (s.set_thumb fun r => r.id = id) (some (.respond row))
  | skipped {id : Int} {rows : List StoredRow} :
      Act s fault (.rendered row (.batch id rows) false) s (some (.batch rows))
  | given_up : Act s fault (.rendered row after false) s none
  | not_found {id : Int} : Act s fault (.get_thumb id) s none
  | found {id : Int} (hr : r ∈ s.rows) (hid : r.id = id) :
      Act s fault (.get_thumb id) s (some (.look r))
  | there : Act s fault (.look r) s (some (.respond r.toSeedRow))
  | missing : Act s fault (.look r) s (some (.render r.toSeedRow (.reply r.id)))
  | responded (hp : s.thumbs row.key = some picture) :
      Act s fault (.respond row) { s with served := s.served ++ [(row, picture)] } none
  | gone : Act s fault (.respond row) s none
  | nothing {id : Int} : Act s fault (.delete_seed id) s none
  | selected {id : Int} (hr : r ∈ s.rows) : Act s fault (.delete_seed id) s (some (.unlink r))
  | unlinked : Act s fault (.unlink r) (s.put r.key none) (some (.delete r.id))
  | kept {id : Int} : Act s fault (.delete id) s none
  | deleted {id : Int} : Act s fault (.delete id)
      { s with rows := s.rows.filter fun r => r.id ≠ id } none

theorem mem_of_find {s : Store} {id : Int} (h : s.find id = some r) :
    r ∈ s.rows ∧ r.id = id := by
  rw [find] at h
  have hid := List.find?_some h
  exact ⟨List.mem_of_find?_eq_some h, of_decide_eq_true hid⟩

theorem act_cases {s s' : Store} (h : s.act fault t = some (s', next)) :
    Act s fault t s' next := by
  cases t with
  | add_single_seed q =>
    rw [act] at h
    split at h
    · next hr =>
      cases h
      exact .refused hr
    · next hr =>
      cases h
      obtain ⟨-, hr⟩ := not_or.1 hr
      obtain ⟨hs, hr⟩ := not_or.1 hr
      exact .added (Bool.not_eq_false _ ▸ hs) fun r hmem hkey => hr ⟨r, hmem, hkey⟩
  | select_pending =>
    rw [act] at h
    split at h
    · next hr =>
      cases h
      exact .idle hr
    · cases h
      exact .fetched
  | batch rows =>
    cases rows with
    | nil =>
      cases h
      exact .again
    | cons r rows =>
      cases h
      exact .taken
  | render row after =>
    rw [act] at h
    split at h
    · cases h
    next hl =>
    have hl : s.render_lock = none := by
      rwa [Option.not_isSome_iff_eq_none] at hl
    split at h
    · next hp =>
      obtain ⟨picture, hp⟩ := Option.isSome_iff_exists.1 hp
      cases h
      exact .present hl hp
    next hp =>
    split at h
    · next hf =>
      cases h
      exact .failed hl hf
    · cases h
      exact .begun hl (Option.not_isSome_iff_eq_none.1 hp)
  | rendered row after ok =>
    cases ok with
    | true =>
      rw [act] at h
      split at h
      · next hf =>
        cases h
        exact .broken hf
      · cases after with
        | by_key =>
          cases h
          exact .marked_key
        | batch id rows =>
          cases h
          exact .marked_row
        | reply id =>
          cases h
          exact .marked_reply
    | false =>
      cases after with
      | by_key =>
        cases h
        exact .given_up
      | batch id rows =>
        cases h
        exact .skipped
      | reply id =>
        cases h
        exact .given_up
  | get_thumb id =>
    rw [act] at h
    split at h
    · next hr =>
      obtain ⟨hmem, hid⟩ := mem_of_find hr
      split at h
      · cases h
        exact .not_found
      · cases h
        exact .found hmem hid
    · cases h
      exact .not_found
  | look r =>
    rw [act] at h
    split at h
    · cases h
      exact .there
    · cases h
      exact .missing
  | respond row =>
    rw [act] at h
    split at h
    · next hp =>
      cases h
      exact .responded hp
    · cases h
      exact .gone
  | delete_seed id =>
    rw [act] at h
    split at h
    · next hr =>
      split at h
      · cases h
        exact .nothing
      · cases h
        exact .selected (mem_of_find hr).1
    · cases h
      exact .nothing
  | unlink r =>
    cases h
    exact .unlinked
  | delete id =>
    rw [act] at h
    split at h
    · cases h
      exact .kept
    · cases h
      exact .deleted

end Store

end Omission.Backend
