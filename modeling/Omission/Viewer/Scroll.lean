import Mathlib.Data.List.Nodup
import Omission.Backend.Listing
import Omission.Lib.Machine

namespace Omission.Viewer.Scroll
open Omission.Lib Omission.Backend
set_option autoImplicit true

def PAGE_SIZE : Nat := 50

/-- A call of `fetchPage` that waits for its answer; `Filter` is `filters` and `tab` together. -/
structure Request (Filter : Type) where
  id : Nat
  filter : Filter
  pageNum : Nat
  replace : Bool
deriving DecidableEq

structure State (Filter Row : Type) where
  filter : Filter
  seeds : List Row
  pageRef : Nat
  hasMoreRef : Bool
  loadingRef : Bool
  reqIdRef : Nat
  inflight : List (Request Filter)
  /-- the rows that were shown when the filter last changed -/
  kept : List Row
deriving DecidableEq

/-- A change of the filter is the moment at which its effects run. -/
inductive Event (Filter : Type) where
  | change (filter : Filter)
  | intersect
  | succeed (r : Request Filter)
  | fail (r : Request Filter)
deriving DecidableEq

namespace State

section Step

variable {Filter Row : Type} [DecidableEq Filter]

-- the rows of a filter and tab, in the order of the statement
variable (select : Filter → List Row)

/-- `fetchPage` up to its `await`. -/
def fetchPage (s : State Filter Row) (pageNum : Nat) (replace : Bool) : State Filter Row :=
  { s with
    reqIdRef := s.reqIdRef + 1
    loadingRef := true
    inflight := ⟨s.reqIdRef + 1, s.filter, pageNum, replace⟩ :: s.inflight }

def change (s : State Filter Row) (filter : Filter) : State Filter Row :=
  ({ s with
    filter := filter
    pageRef := 1
    hasMoreRef := true
    kept := s.seeds } : State Filter Row).fetchPage 1 true

def mount (filter : Filter) : State Filter Row :=
  change ⟨filter, [], 1, true, false, 0, [], []⟩ filter

def onIntersect (s : State Filter Row) : State Filter Row :=
  if s.loadingRef = false ∧ s.hasMoreRef = true then s.fetchPage (s.pageRef + 1) false else s

def arrive (s : State Filter Row) (r : Request Filter) : State Filter Row :=
  { s with inflight := s.inflight.erase r }

/-- What follows the `await`, with its `finally`. -/
def succeed (s : State Filter Row) (r : Request Filter) : State Filter Row :=
  if r.id ≠ s.reqIdRef then s.arrive r
  else
    let res := seed_page (select r.filter) r.pageNum PAGE_SIZE
    { s.arrive r with
      seeds := if r.replace then res.seeds else s.seeds ++ res.seeds
      hasMoreRef := r.pageNum < res.pages
      pageRef := r.pageNum
      loadingRef := false }

/-- The `catch`, with the `finally`. -/
def fail (s : State Filter Row) (r : Request Filter) : State Filter Row :=
  if r.id ≠ s.reqIdRef then s.arrive r else { s.arrive r with loadingRef := false }

def step (s : State Filter Row) : Event Filter → Option (State Filter Row)
  | .change filter => some (s.change filter)
  | .intersect => some s.onIntersect
  | .succeed r => if r ∈ s.inflight then some (s.succeed select r) else none
  | .fail r => if r ∈ s.inflight then some (s.fail r) else none

end Step

variable {Filter Row : Type} {select : Filter → List Row} {s t : State Filter Row}
  {r : Request Filter}

/-- Pages 1 to `n` of a filter, one after the other. -/
def pages (select : Filter → List Row) (filter : Filter) (n : Nat) : List Row :=
  (List.range n).flatMap fun k => (seed_page (select filter) (k + 1) PAGE_SIZE).seeds

/-- The page of the next request: the sentinel asks for it, or else a change of the filter. -/
def nextPage (s : State Filter Row) : Nat := if s.hasMoreRef then s.pageRef + 1 else 1

/-- The rows are pages 1 to `pageRef` of the filter, or still those of the filter before with
page 1 as the next request. -/
def Consistent (select : Filter → List Row) (s : State Filter Row) : Prop :=
  s.seeds = pages select s.filter s.pageRef ∨ s.seeds = s.kept ∧ s.nextPage = 1

/-- The latest request does not fail while it is one for page 1. -/
def Allowed (s : State Filter Row) : Event Filter → Prop
  | .fail r => r.id = s.reqIdRef → r.replace = false
  | _ => True

instance (s : State Filter Row) : DecidablePred s.Allowed
  | .change _ => isTrue trivial
  | .intersect => isTrue trivial
  | .succeed _ => isTrue trivial
  | .fail r => inferInstanceAs (Decidable (r.id = s.reqIdRef → r.replace = false))

theorem pages_succ (select : Filter → List Row) (filter : Filter) (n : Nat) :
    pages select filter (n + 1) =
      pages select filter n ++ (seed_page (select filter) (n + 1) PAGE_SIZE).seeds := by
  rw [pages, List.range_succ, List.flatMap_append, List.flatMap_singleton, pages]

theorem pages_one (select : Filter → List Row) (filter : Filter) :
    pages select filter 1 = (seed_page (select filter) 1 PAGE_SIZE).seeds := by
  rw [pages_succ]
  rfl

/-- What the latest request asks for: page 1 again, or the page behind those that are shown. -/
inductive Asks (select : Filter → List Row) (s : State Filter Row) (r : Request Filter) : Prop where
  | first (hr : r.replace = true) (hn : r.pageNum = 1) (hp : s.pageRef = 1)
      (hm : s.hasMoreRef = true)
  | next (hr : r.replace = false) (hn : r.pageNum = s.pageRef + 1)
      (hs : s.seeds = pages select s.filter s.pageRef)

structure Inv (select : Filter → List Row) (s : State Filter Row) : Prop where
  ids : ∀ r ∈ s.inflight, r.id ≤ s.reqIdRef
  nodup : (s.inflight.map (·.id)).Nodup
  loading : ∀ r ∈ s.inflight, r.id = s.reqIdRef → s.loadingRef = true
  filter : ∀ r ∈ s.inflight, r.id = s.reqIdRef → r.filter = s.filter
  latest : ∀ r ∈ s.inflight, r.id = s.reqIdRef → Asks select s r
  idle : (∀ r ∈ s.inflight, r.id ≠ s.reqIdRef) → s.seeds = pages select s.filter s.pageRef

theorem Inv.fetchPage {pageNum : Nat} {replace : Bool}
    (hids : ∀ r ∈ s.inflight, r.id ≤ s.reqIdRef) (hnodup : (s.inflight.map (·.id)).Nodup)
    (hasks : Asks select s ⟨s.reqIdRef + 1, s.filter, pageNum, replace⟩) :
    (s.fetchPage pageNum replace).Inv select := by
  have hold : ∀ r ∈ s.inflight, r.id ≠ s.reqIdRef + 1 := by
    intro r hr
    have hle := hids r hr
    omega
  have hself : ∀ r ∈ (s.fetchPage pageNum replace).inflight, r.id = s.reqIdRef + 1 →
      r = ⟨s.reqIdRef + 1, s.filter, pageNum, replace⟩ := by
    intro r hr hid
    rcases List.mem_cons.1 hr with rfl | hr
    · rfl
    · exact absurd hid (hold r hr)
  constructor
  · intro r hr
    rcases List.mem_cons.1 hr with rfl | hr
    · exact Nat.le_refl _
    · exact Nat.le_succ_of_le (hids r hr)
  · apply List.nodup_cons.2
    refine ⟨?_, hnodup⟩
    intro hmem
    obtain ⟨r, hr, hid⟩ := List.mem_map.1 hmem
    exact hold r hr hid
  · intro _ _ _
    rfl
  · intro r hr hid
    cases hself r hr hid
    rfl
  · intro r hr hid
    cases hself r hr hid
    cases hasks with
    | first hr hn hp hm => exact .first hr hn hp hm
    | next hr hn hs => exact .next hr hn hs
  · intro hno
    exact absurd rfl (hno _ List.mem_cons_self)

theorem Inv.change (h : s.Inv select) (filter : Filter) : (s.change filter).Inv select :=
  Inv.fetchPage h.ids h.nodup (.first rfl rfl rfl rfl)

theorem Inv.mount (select : Filter → List Row) (filter : Filter) :
    (State.mount filter : State Filter Row).Inv select := by
  apply Inv.fetchPage
  · intro r hr
    cases hr
  · exact List.nodup_nil
  · exact .first rfl rfl rfl rfl

theorem Inv.onIntersect (h : s.Inv select) : s.onIntersect.Inv select := by
  unfold State.onIntersect
  split
  · next hcond =>
    apply Inv.fetchPage h.ids h.nodup
    apply Asks.next rfl rfl
    apply h.idle
    intro r hr hid
    rw [h.loading r hr hid] at hcond
    cases hcond.1
  · exact h

variable [DecidableEq Filter]

theorem Inv.mem_erase {q : Request Filter} (h : s.Inv select) (hr : r ∈ s.inflight)
    (hq : q ∈ s.inflight.erase r) : q ∈ s.inflight ∧ q.id ≠ r.id := by
  have hmem := List.mem_of_mem_erase hq
  refine ⟨hmem, fun hid => ?_⟩
  have hqr : q = r := List.inj_on_of_nodup_map h.nodup hmem hr hid
  rw [hqr] at hq
  exact List.Nodup.not_mem_erase (List.Nodup.of_map _ h.nodup) hq

/-- An answer to a request that is not the latest changes nothing. -/
theorem Inv.arrive (h : s.Inv select) (hr : r ∈ s.inflight) (hid : r.id ≠ s.reqIdRef) :
    (s.arrive r).Inv select := by
  constructor
  · intro q hq
    exact h.ids q (h.mem_erase hr hq).1
  · exact h.nodup.sublist ((List.erase_sublist (a := r)).map _)
  · intro q hq
    exact h.loading q (h.mem_erase hr hq).1
  · intro q hq
    exact h.filter q (h.mem_erase hr hq).1
  · intro q hq hlast
    cases h.latest q (h.mem_erase hr hq).1 hlast with
    | first hr hn hp hm => exact .first hr hn hp hm
    | next hr hn hs => exact .next hr hn hs
  · intro hno
    apply h.idle
    intro q hq
    by_cases hqr : q = r
    · rw [hqr]
      exact hid
    · exact hno q ((List.mem_erase_of_ne hqr).2 hq)

/-- After the answer to the latest request no request counts any more. -/
theorem Inv.settled (h : s.Inv select) (hr : r ∈ s.inflight) (hid : r.id = s.reqIdRef)
    (hinflight : t.inflight = s.inflight.erase r) (hreq : t.reqIdRef = s.reqIdRef)
    (hseeds : t.seeds = pages select t.filter t.pageRef) : t.Inv select := by
  have hno : ∀ q ∈ t.inflight, q.id ≠ t.reqIdRef := by
    intro q hq
    rw [hinflight] at hq
    rw [hreq, ← hid]
    exact (h.mem_erase hr hq).2
  constructor
  · intro q hq
    rw [hinflight] at hq
    rw [hreq]
    exact h.ids q (h.mem_erase hr hq).1
  · rw [hinflight]
    exact h.nodup.sublist ((List.erase_sublist (a := r)).map _)
  · exact fun q hq hlast => absurd hlast (hno q hq)
  · exact fun q hq hlast => absurd hlast (hno q hq)
  · exact fun q hq hlast => absurd hlast (hno q hq)
  · exact fun _ => hseeds

theorem Inv.succeed (h : s.Inv select) (hr : r ∈ s.inflight) : (s.succeed select r).Inv select := by
  unfold State.succeed
  split
  · next hid => exact h.arrive hr hid
  · next hid =>
    rw [not_not] at hid
    have hfilter := h.filter r hr hid
    refine Inv.settled h hr hid ?_ ?_ ?_
    · rfl
    · rfl
    cases h.latest r hr hid with
    | first hrep hn hp hm => simp only [State.arrive, hrep, hn, if_true, pages_one, hfilter]
    | next hrep hn hs =>
      simp only [State.arrive, hrep, Bool.false_eq_true, if_false, hn, pages_succ, hs, hfilter]

theorem Inv.fail (h : s.Inv select) (hr : r ∈ s.inflight)
    (hallowed : r.id = s.reqIdRef → r.replace = false) : (s.fail r).Inv select := by
  unfold State.fail
  split
  · next hid => exact h.arrive hr hid
  · next hid =>
    rw [not_not] at hid
    refine Inv.settled h hr hid ?_ ?_ ?_
    · rfl
    · rfl
    cases h.latest r hr hid with
    | first hrep hn hp hm =>
      rw [hallowed hid] at hrep
      cases hrep
    | next hrep hn hs => exact hs

theorem Inv.step {e : Event Filter} (h : s.Inv select) (ha : s.Allowed e)
    (ht : s.step select e = some t) : t.Inv select := by
  cases e with
  | change filter =>
    cases ht
    exact h.change filter
  | intersect =>
    cases ht
    exact h.onIntersect
  | succeed r =>
    simp only [State.step] at ht
    split at ht
    · next hr =>
      cases ht
      exact h.succeed hr
    · cases ht
  | fail r =>
    simp only [State.step] at ht
    split at ht
    · next hr =>
      cases ht
      exact h.fail hr ha
    · cases ht

/-- When a request for page 1 fails that is the latest, page 1 is not asked for again. -/
theorem Inv.lost {e : Event Filter} (h : s.Inv select) (ha : ¬ s.Allowed e)
    (ht : s.step select e = some t) : t.seeds = s.seeds ∧
      (t.Consistent select ↔ t.seeds = pages select t.filter 1) ∧
      t.onIntersect = t.fetchPage 2 false := by
  cases e with
  | change => exact absurd trivial ha
  | intersect => exact absurd trivial ha
  | succeed => exact absurd trivial ha
  | fail r =>
    simp only [Allowed, not_forall, Bool.not_eq_false] at ha
    obtain ⟨hid, hrep⟩ := ha
    simp only [State.step] at ht
    split at ht
    · next hr =>
      cases ht
      rw [State.fail, if_neg (not_not.2 hid)]
      cases h.latest r hr hid with
      | first _ hn hp hm =>
        refine ⟨rfl, ?_, ?_⟩
        · simp only [Consistent, nextPage, State.arrive, hp, hm, if_true]
          exact or_iff_left (by omega)
        · rw [State.onIntersect, if_pos ⟨rfl, hm⟩]
          simp only [State.arrive, hp]
      | next hrep' _ _ =>
        rw [hrep] at hrep'
        cases hrep'
    · cases ht

end State

open State

/-- While no request for page 1 fails that is the latest, the rows are consistent whenever no
request that counts is in flight; one that fails leaves them inconsistent unless they happen to be
page 1, and page 2 is the next request. -/
theorem scroll_consistent {Filter Row : Type} [DecidableEq Filter] (select : Filter → List Row)
    (filter : Filter) (es : List (Event Filter)) (s : State Filter Row)
    (hrun : exec (step select) (mount filter) es = some s)
    (ha : Along (step select) Allowed (mount filter) es) :
    ((∀ r ∈ s.inflight, r.id ≠ s.reqIdRef) → s.Consistent select) ∧
    ∀ e t, ¬ s.Allowed e → s.step select e = some t → t.seeds = s.seeds ∧
      (t.Consistent select ↔ t.seeds = pages select t.filter 1) ∧
      t.onIntersect = t.fetchPage 2 false := by
  have hinv : s.Inv select :=
    ha.invariant (fun _ _ _ h hp ht => h.step hp ht) (Inv.mount select filter) hrun
  exact ⟨fun hidle => .inl (hinv.idle hidle), fun e t hn ht => hinv.lost hn ht⟩

/-- One row for each filter. -/
def oneRow (filter : Bool) : List Nat := if filter then [1] else [2]

theorem scroll_consistent_one_row :
    (⟨false, [2], 1, false, false, 2, [], [1]⟩ : State Bool Nat).Consistent oneRow :=
  (scroll_consistent oneRow true
    [.succeed ⟨1, true, 1, true⟩, .change false, .succeed ⟨2, false, 1, true⟩] _
    (by decide) (by decide)).1 (by decide)

/-- The request after a change of the filter fails: the old rows stay, and page 2 comes next. -/
theorem first_page_lost : ¬ ∀ (es : List (Event Bool)) (s : State Bool Nat),
    exec (step oneRow) (mount true) es = some s → s.inflight = [] → s.Consistent oneRow := by
  intro h
  have hrun : exec (step oneRow) (mount true) [.succeed ⟨1, true, 1, true⟩, .change false,
      .fail ⟨2, false, 1, true⟩] =
    some (⟨false, [1], 1, true, false, 2, [], [1]⟩ : State Bool Nat) := by decide
  rcases h _ _ hrun rfl with he | ⟨-, he⟩
  · exact absurd he (by decide)
  · exact absurd he (by decide)

end Omission.Viewer.Scroll
