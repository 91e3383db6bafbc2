import Mathlib.Algebra.Group.Int.Defs
import Mathlib.Data.List.Basic
import Omission.Lib.Pattern
import Omission.Lib.Wrap

namespace Omission.Backend
open Omission.Lib
set_option autoImplicit true

abbrev Text := List Char

/-- `Query(.., pattern=p)` accepts the text. -/
def Accepts (p t : Text) : Prop := (Regex.ofPattern p).Search t

instance (p t : Text) : Decidable (Accepts p t) :=
  inferInstanceAs (Decidable ((Regex.ofPattern p).Search t))

def single_mode_pattern : Text := "sb|lb".toList

/-- The two mode texts the search program sends, `large_biomes ? "lb" : "sb"`. -/
inductive Mode where
  | sb
  | lb
deriving DecidableEq, Repr

def Mode.text : Mode → String
  | .sb => "sb"
  | .lb => "lb"

theorem Mode.accepted (mode : Mode) : Accepts single_mode_pattern mode.text.toList := by
  cases mode <;> decide

/-- The query parameters of `POST /api/seeds/single` after validation. The pattern is searched, so
that `mode` may be any text around `sb` or `lb`. -/
structure SingleQuery where
  seed : Int
  x : Int
  z : Int
  size : Int
  mode : String
  mode_ok : Accepts single_mode_pattern mode.toList
deriving DecidableEq, Repr

/-- A row of the `seeds` table, as `add_single_seed` inserts it. -/
structure SeedRow where
  seed : Int
  x : Int
  z : Int
  size : Int
  mode : String
deriving DecidableEq, Repr

/-- The columns of `UNIQUE(seed, x, z)`. -/
abbrev Key := Int × Int × Int

def SeedRow.key (r : SeedRow) : Key := (r.seed, r.x, r.z)

/-- The place that `render_map` draws for a key: it keeps `--x` and `--z` in an `int32_t`. -/
def drawn_place (k : Key) : Key := (k.1, wrap 32 k.2.1, wrap 32 k.2.2)

theorem drawn_place_eq_iff (k : Key) : drawn_place k = k ↔ Fits 32 k.2.1 ∧ Fits 32 k.2.2 := by
  obtain ⟨seed, x, z⟩ := k
  simp only [drawn_place, Prod.mk.injEq, true_and, wrap_eq_iff (show 0 < 32 by decide)]

abbrev Table := List SeedRow

def Table.has (db : Table) (k : Key) : Bool := db.any fun r => r.key = k

theorem Table.has_cons (db : Table) (r : SeedRow) (k : Key) :
    Table.has (r :: db) k = (decide (r.key = k) || Table.has db k) := rfl

def WORLD_BORDER : Nat := 29999984

/-- `if seed >= 2**63: seed = seed - 2**64` -/
def wrapSeed (seed : Int) : Int := if seed ≥ 2 ^ 63 then seed - 2 ^ 64 else seed

def SingleQuery.lineMode (q : SingleQuery) : String :=
  if q.x.natAbs > WORLD_BORDER ∨ q.z.natAbs > WORLD_BORDER then "u" ++ q.mode
  else q.mode

def SingleQuery.row (q : SingleQuery) : SeedRow :=
  ⟨wrapSeed q.seed, q.x, q.z, q.size, q.lineMode⟩

/-- `sqlite3` takes signed 64-bit integers; others raise an `OverflowError`. -/
def SeedRow.storable (r : SeedRow) : Bool :=
  decide (Fits 64 r.seed ∧ Fits 64 r.x ∧ Fits 64 r.z ∧ Fits 64 r.size)

/-- The two bodies `add_single_seed` answers with; both carry HTTP status 200. -/
inductive Reply where
  | ok (mode : String)
  | duplicate
deriving DecidableEq, Repr

/-- `fault` is a database error other than the unique constraint: a lock that outlasts the
timeout, or a failing commit, after which the connection is closed without the row. -/
def add_single_seed (db : Table) (q : SingleQuery) (fault : Bool) : Table × Reply :=
  if fault then (db, .duplicate)
  -- the errors of the columns and of UNIQUE(seed, x, z) land in the same `except Exception`
  else if q.row.storable = false then (db, .duplicate)
  else if db.has q.row.key then (db, .duplicate)
  else (q.row :: db, .ok q.lineMode)

theorem add_single_seed_has (db : Table) (q : SingleQuery) (fault : Bool) (k : Key) :
    (add_single_seed db q fault).1.has k =
      (db.has k || (!fault && q.row.storable && decide (q.row.key = k))) := by
  unfold add_single_seed
  cases fault with
  | true => simp
  | false =>
    cases q.row.storable with
    | false => simp
    | true =>
      cases hk : db.has q.row.key with
      | false => simp [Table.has_cons, Bool.or_comm]
      | true =>
        by_cases he : q.row.key = k
        · subst he; simp [hk]
        · simp [he]

/-- The status line of the answer to a request that passed validation. -/
def Reply.statusLine : Reply → String
  | .ok _ => "HTTP/1.1 200 OK\r\n"
  | .duplicate => "HTTP/1.1 200 OK\r\n"

end Omission.Backend
