import Omission.Lib.Rect

namespace Omission.Cubiomes
open Omission.Lib
set_option autoImplicit true

/-- The operations on doubles behind the reported centres. -/
class DoubleOps (D : Type) where
  ofInt : Int → D
  half : D
  add : D → D → D
  mul : D → D → D
  div : D → D → D
  /-- `(int) round(x)` -/
  round : D → Int

/-- Exact arithmetic; halves are rounded away from zero. -/
instance : DoubleOps Rat where
  ofInt v := v
  half := 1 / 2
  add := (· + ·)
  mul := (· * ·)
  div := (· / ·)
  round v := if 0 ≤ v then (v + 1 / 2).floor else (v - 1 / 2).ceil

structure Range where
  scale : Int
  x : Int
  z : Int
  sx : Int
  sz : Int
deriving DecidableEq

structure Pos where
  x : Int
  z : Int
deriving DecidableEq

def INT_MAX : Int := 2 ^ 31 - 1

/-- The fields of `locate_info_t` besides the array; `evaluate` is `fast_eval`, or else
`getBiomeAt`, and none takes the entry of the array. -/
structure Info where
  r : Range
  target : Int
  tol : Int
  evaluate : Option (Int → Int → Int)

structure Entry where
  i : Int
  j : Int
  d : Int
deriving DecidableEq

def Entry.cell (e : Entry) : Int × Int := (e.i, e.j)

/-- The variables of `floodFillGen`; the top of the queue comes first. -/
structure FloodGen (r : Range) where
  ids : Rect Int r.sx r.sz
  queue : List Entry
  sumx : Int
  sumz : Int
  n : Int

namespace FloodGen

variable {info : Info}

/-- `queue[qn++] = e`; there is no entry behind the allocated ones. -/
def push (st : FloodGen info.r) (e : Entry) : Option (FloodGen info.r) :=
  if st.queue.length < info.r.sx.toNat * info.r.sz.toNat then
    some { st with queue := e :: st.queue }
  else none

def look (st : FloodGen info.r) (e : Entry) : Option (FloodGen info.r) :=
  if e.i < 0 ∨ e.i ≥ info.r.sx ∨ e.j < 0 ∨ e.j ≥ info.r.sz then some st
  else do
    let id ← st.ids.read e.i e.j
    if id = INT_MAX then some st else st.push e

def next (i j d : Int) : List Entry := [⟨i, j - 1, d⟩, ⟨i, j + 1, d⟩, ⟨i - 1, j, d⟩, ⟨i + 1, j, d⟩]

variable (info)

/-- The body of the loop for an entry that has been popped. -/
def round (st : FloodGen info.r) (e : Entry) : Option (FloodGen info.r) := do
  let id ← st.ids.read e.i e.j
  if id = INT_MAX then some st
  else do
    let ids ← st.ids.write e.i e.j INT_MAX
    let x := info.r.x + e.i
    let z := info.r.z + e.j
    let id := (info.evaluate.map fun f => f x z).getD id
    if id = info.target then
      (next e.i e.j 0).foldlM look
        { st with ids := ids, sumx := st.sumx + x, sumz := st.sumz + z, n := st.n + 1 }
    else if e.d + 1 ≥ info.tol then some { st with ids := ids }
    else (next e.i e.j (e.d + 1)).foldlM look { st with ids := ids }

/-- The loop, for at most `fuel` rounds. -/
def loop : Nat → FloodGen info.r → Option (FloodGen info.r)
  | 0, _ => none
  | fuel + 1, st =>
    match st.queue with
    | [] => some st
    | e :: queue => do
      let st ← round info { st with queue := queue } e
      loop fuel st

def start (ids : Rect Int info.r.sx info.r.sz) (i j : Int) : FloodGen info.r :=
  ⟨ids, [⟨i, j, 0⟩], 0, 0, 0⟩

end FloodGen

/-- A cell is marked at most once and pushes four entries at most. -/
def floodFillGen (info : Info) (ids : Rect Int info.r.sx info.r.sz) (i j : Int) :
    Option (FloodGen info.r) :=
  FloodGen.loop info (4 * (info.r.sx.toNat * info.r.sz.toNat) + 2) (.start info ids i j)

/-- The rounded mean of the cells, in blocks. -/
def meanPos (D : Type) [DoubleOps D] (r : Range) (sumx sumz n : Int) : Pos :=
  let mean (sum : Int) : Int := DoubleOps.round (DoubleOps.mul (DoubleOps.add
    (DoubleOps.div (DoubleOps.ofInt sum) (DoubleOps.ofInt n)) (DoubleOps.half : D))
    (DoubleOps.ofInt r.scale))
  ⟨mean sumx, mean sumz⟩

/-- What the caller finds in `p` when something was counted. -/
def FloodGen.center (D : Type) [DoubleOps D] {r : Range} (st : FloodGen r) : Pos :=
  meanPos D r st.sumx st.sumz st.n

end Omission.Cubiomes
