import Mathlib.Data.List.Pairwise
import Omission.Lib.Drain

namespace Omission.Backend
open Omission.Lib
set_option autoImplicit true

/-- The columns of a row that `_batch_render_pending` reads; `has_thumb` holds 0 or 1. -/
structure ThumbRow where
  id : Int
  seed : Int
  x : Int
  z : Int
  mode : String
  has_thumb : Bool
deriving DecidableEq, Repr

def ThumbRow.set_thumb (id : Int) (r : ThumbRow) : ThumbRow :=
  if r.id = id then { r with has_thumb := true } else r

theorem ThumbRow.set_thumb_id (id : Int) (r : ThumbRow) : (ThumbRow.set_thumb id r).id = r.id := by
  unfold set_thumb
  split
  · rfl
  · rfl

/-- The table `seeds` in the order of its primary key. -/
structure ThumbTable where
  rows : List ThumbRow
  sorted : rows.Pairwise fun r s => r.id < s.id

namespace ThumbTable

def waiting (db : ThumbTable) : List ThumbRow := db.rows.filter fun r => !r.has_thumb

/-- `SELECT .. FROM seeds WHERE has_thumb = 0 LIMIT 50` -/
def pending (db : ThumbTable) : List ThumbRow := db.waiting.take 50

/-- `UPDATE seeds SET has_thumb = 1 WHERE id = ?` -/
def set_thumb (db : ThumbTable) (id : Int) : ThumbTable :=
  ⟨db.rows.map (ThumbRow.set_thumb id), by
    rw [List.pairwise_map]
    apply db.sorted.imp
    intro r s h
    rwa [ThumbRow.set_thumb_id, ThumbRow.set_thumb_id]⟩

/-- A row of the table has this primary key and a thumbnail. -/
def Thumbed (db : ThumbTable) (id : Int) : Prop := ∃ r ∈ db.rows, r.id = id ∧ r.has_thumb = true

end ThumbTable

section Render

-- whether the render of a seed, position and mode succeeds
variable (render_thumb : Int → Int → Int → String → Bool)

def ThumbRow.renders (r : ThumbRow) : Bool := render_thumb r.seed r.x r.z r.mode

namespace ThumbTable

def render_row (db : ThumbTable) (row : ThumbRow) : ThumbTable :=
  if row.renders render_thumb then db.set_thumb row.id else db

/-- The rows fetched by one query are rendered one after the other. -/
def round (db : ThumbTable) : ThumbTable := db.pending.foldl (render_row render_thumb) db

/-- `while True`, for at most `fuel` queries. -/
def batch_render_pending : Nat → ThumbTable → Option ThumbTable
  | 0, _ => none
  | fuel + 1, db =>
    if db.pending = [] then some db else batch_render_pending fuel (db.round render_thumb)

end ThumbTable

end Render

namespace ThumbTable

variable {render_thumb : Int → Int → Int → String → Bool} {db : ThumbTable} {r s : ThumbRow}

theorem row_unique (hr : r ∈ db.rows) (hs : s ∈ db.rows) (h : r.id = s.id) : r = s := by
  have hne : db.rows.Pairwise fun r s => r.id ≠ s.id := db.sorted.imp fun hlt => Int.ne_of_lt hlt
  have : Std.Symm fun r s : ThumbRow => r.id ≠ s.id := ⟨fun _ _ h => h.symm⟩
  by_contra hrs
  exact hne.forall hr hs hrs h

theorem mem_waiting : r ∈ db.waiting ↔ r ∈ db.rows ∧ r.has_thumb = false := by
  rw [waiting, List.mem_filter, Bool.not_eq_true']

theorem waiting_sorted (db : ThumbTable) : db.waiting.Pairwise fun r s => r.id < s.id :=
  db.sorted.filter _

theorem waiting_nodup (db : ThumbTable) : db.waiting.Nodup := by
  apply db.waiting_sorted.imp
  rintro r s h rfl
  omega

theorem pending_eq_nil : db.pending = [] ↔ db.waiting = [] := by
  rw [pending, List.take_eq_nil_iff]
  exact or_iff_right (by decide)

theorem waiting_eq_nil : db.waiting = [] ↔ ∀ r ∈ db.rows, r.has_thumb = true := by
  simp only [waiting, List.filter_eq_nil_iff, Bool.not_eq_true', Bool.not_eq_false]

theorem waiting_set_thumb (db : ThumbTable) (id : Int) :
    (db.set_thumb id).waiting = db.waiting.filter fun r => r.id ≠ id := by
  change (db.rows.map (ThumbRow.set_thumb id)).filter _ = (db.rows.filter _).filter _
  generalize db.rows = rows
  induction rows with
  | nil => rfl
  | cons r rows ih =>
    by_cases h : r.id = id
    · cases ht : r.has_thumb <;> simp_all [ThumbRow.set_thumb]
    · cases ht : r.has_thumb <;> simp_all [ThumbRow.set_thumb]

theorem waiting_render_row (db : ThumbTable) (row : ThumbRow) :
    (db.render_row render_thumb row).waiting =
      db.waiting.filter fun r => !(row.id = r.id && row.renders render_thumb) := by
  unfold render_row
  split
  · next h =>
    rw [waiting_set_thumb]
    congr 1
    funext r
    simp only [h, Bool.and_true, ne_eq, eq_comm, decide_not]
  · next h =>
    simp only [h, Bool.and_false, Bool.not_false, List.filter_true]

theorem waiting_render_rows (db : ThumbTable) (batch : List ThumbRow) :
    (batch.foldl (render_row render_thumb) db).waiting =
      db.waiting.filter fun r => !batch.any fun b => b.id = r.id && b.renders render_thumb := by
  induction batch generalizing db with
  | nil => simp only [List.foldl_nil, List.any_nil, Bool.not_false, List.filter_true]
  | cons b batch ih =>
    rw [List.foldl_cons, ih, waiting_render_row, List.filter_filter]
    congr 1
    funext r
    rw [List.any_cons, Bool.not_or, Bool.and_comm]

/-- A query and its renders are one round over the rows that wait. -/
theorem waiting_round (db : ThumbTable) :
    (db.round render_thumb).waiting = drain 50 (ThumbRow.renders render_thumb) db.waiting := by
  have hsorted := db.waiting_sorted
  rw [← List.take_append_drop 50 db.waiting, List.pairwise_append] at hsorted
  have hsplit : ∀ p, db.waiting.filter p =
      (db.waiting.take 50).filter p ++ (db.waiting.drop 50).filter p := by
    intro p
    rw [← List.filter_append, List.take_append_drop]
  rw [round, waiting_render_rows, pending, hsplit, drain]
  congr 1
  · apply List.filter_congr
    intro r hr
    congr 1
    rw [Bool.eq_iff_iff, List.any_eq_true]
    constructor
    · rintro ⟨b, hb, h⟩
      rw [Bool.and_eq_true, decide_eq_true_iff] at h
      have hrow : ∀ {q}, q ∈ db.waiting.take 50 → q ∈ db.rows :=
        fun hq => (mem_waiting.1 (List.mem_of_mem_take hq)).1
      cases row_unique (hrow hb) (hrow hr) h.1
      exact h.2
    · intro h
      exact ⟨r, hr, by rw [h, decide_eq_true rfl]; rfl⟩
  · rw [List.filter_eq_self]
    intro r hr
    rw [Bool.not_eq_true', List.any_eq_false]
    intro b hb h
    rw [Bool.and_eq_true, decide_eq_true_iff] at h
    have hlt := hsorted.2.2 b hb r hr
    omega

theorem waiting_iterate (k : Nat) (db : ThumbTable) :
    ((round render_thumb)^[k] db).waiting =
      (drain 50 (ThumbRow.renders render_thumb))^[k] db.waiting :=
  (show Function.Semiconj waiting (round render_thumb) _ from waiting_round).iterate_right k db

theorem set_thumb_ids (db : ThumbTable) (id : Int) :
    (db.set_thumb id).rows.map (·.id) = db.rows.map (·.id) := by
  rw [set_thumb, List.map_map]
  apply List.map_congr_left
  intro r _
  exact ThumbRow.set_thumb_id id r

theorem round_ids (db : ThumbTable) :
    (db.round render_thumb).rows.map (·.id) = db.rows.map (·.id) := by
  rw [round]
  generalize db.pending = batch
  induction batch generalizing db with
  | nil => rfl
  | cons b batch ih =>
    rw [List.foldl_cons, ih, render_row]
    split
    · exact set_thumb_ids db b.id
    · rfl

theorem iterate_ids (k : Nat) (db : ThumbTable) :
    ((round render_thumb)^[k] db).rows.map (·.id) = db.rows.map (·.id) := by
  induction k generalizing db with
  | zero => rfl
  | succ k ih => rw [Function.iterate_succ_apply, ih, round_ids]

/-- A row has its thumbnail after `k` rounds when it no longer waits. -/
theorem thumbed_iff (k : Nat) (hr : r ∈ db.rows) :
    ((round render_thumb)^[k] db).Thumbed r.id ↔
      r ∉ (drain 50 (ThumbRow.renders render_thumb))^[k] db.waiting := by
  rw [← waiting_iterate]
  constructor
  · rintro ⟨s, hs, hid, ht⟩ hw
    obtain ⟨hr', hf⟩ := mem_waiting.1 hw
    cases row_unique hs hr' hid
    rw [ht] at hf
    cases hf
  · intro hw
    have hid : r.id ∈ ((round render_thumb)^[k] db).rows.map (·.id) := by
      rw [iterate_ids]
      exact List.mem_map_of_mem hr
    obtain ⟨s, hs, hid⟩ := List.mem_map.1 hid
    refine ⟨s, hs, hid, ?_⟩
    by_contra hf
    have hsw : s ∈ ((round render_thumb)^[k] db).waiting :=
      mem_waiting.2 ⟨hs, Bool.eq_false_iff.2 hf⟩
    have hsdb := hsw
    rw [waiting_iterate] at hsdb
    have hmem := (mem_waiting.1 ((iterate_drain_sublist k).subset hsdb)).1
    cases row_unique hmem hr hid
    exact hw hsw

theorem batch_some {fuel : Nat} {db' : ThumbTable}
    (h : db.batch_render_pending render_thumb fuel = some db') :
    ∃ k, db' = (round render_thumb)^[k] db ∧ db'.pending = [] := by
  induction fuel generalizing db with
  | zero => cases h
  | succ fuel ih =>
    rw [batch_render_pending] at h
    split at h
    · next hp =>
      cases h
      exact ⟨0, rfl, hp⟩
    · obtain ⟨k, hk, hp⟩ := ih h
      exact ⟨k + 1, hk, hp⟩

theorem exists_batch {k : Nat} (h : ((round render_thumb)^[k] db).pending = []) :
    ∃ fuel db', db.batch_render_pending render_thumb fuel = some db' := by
  induction k generalizing db with
  | zero => exact ⟨1, db, by rw [batch_render_pending]; exact if_pos h⟩
  | succ k ih =>
    obtain ⟨fuel, db', hb⟩ := ih h
    by_cases hp : db.pending = []
    · exact ⟨1, db, by rw [batch_render_pending]; exact if_pos hp⟩
    · exact ⟨fuel + 1, db', by rw [batch_render_pending, if_neg hp]; exact hb⟩

theorem terminates_iff (render_thumb : Int → Int → Int → String → Bool) (db : ThumbTable) :
    (∃ fuel db', db.batch_render_pending render_thumb fuel = some db') ↔
      ∀ r ∈ db.rows, r.has_thumb = false → r.renders render_thumb = true := by
  have hiff : (∃ k, (drain 50 (ThumbRow.renders render_thumb))^[k] db.waiting = []) ↔
      ∀ r ∈ db.waiting, r.renders render_thumb = true :=
    exists_empty_iff (by decide)
  simp only [mem_waiting, and_imp] at hiff
  rw [← hiff]
  constructor
  · rintro ⟨fuel, db', h⟩
    obtain ⟨k, rfl, hp⟩ := batch_some h
    rw [pending_eq_nil, waiting_iterate] at hp
    exact ⟨k, hp⟩
  · rintro ⟨k, hk⟩
    apply exists_batch (k := k)
    rwa [pending_eq_nil, waiting_iterate]

theorem batch_thumbs {fuel : Nat} {db' : ThumbTable}
    (h : db.batch_render_pending render_thumb fuel = some db') (hr : r ∈ db'.rows) :
    r.has_thumb = true := by
  obtain ⟨k, -, hp⟩ := batch_some h
  exact waiting_eq_nil.1 (pending_eq_nil.1 hp) r hr

/-- The rows that wait in front of a waiting row are those with a smaller id. -/
theorem waiting_split (hr : r ∈ db.waiting) : ∃ u v, db.waiting = u ++ r :: v ∧
    u = db.waiting.filter fun q => q.id < r.id := by
  obtain ⟨u, v, huv⟩ := List.append_of_mem hr
  refine ⟨u, v, huv, ?_⟩
  have hsorted := db.waiting_sorted
  rw [huv, List.pairwise_append, List.pairwise_cons] at hsorted
  obtain ⟨-, ⟨hv, -⟩, hu⟩ := hsorted
  rw [huv, List.filter_append, List.filter_cons_of_neg (by simp), List.filter_eq_self.2,
    List.filter_eq_nil_iff.2, List.append_nil]
  · intro q hq
    have hlt := hv q hq
    simp only [decide_eq_true_iff]
    omega
  · intro q hq
    exact decide_eq_true (hu q hq r List.mem_cons_self)

/-- A good row is rendered in the end exactly when fewer than 50 failing rows wait in front. -/
theorem rendered_iff (hr : r ∈ db.rows) (hok : r.renders render_thumb = true) :
    (∃ k, ((round render_thumb)^[k] db).Thumbed r.id) ↔ r.has_thumb = true ∨
      db.rows.countP (fun q => q.id < r.id && !q.has_thumb && !q.renders render_thumb) < 50 := by
  simp only [thumbed_iff _ hr]
  cases ht : r.has_thumb with
  | true =>
    refine iff_of_true ⟨0, ?_⟩ (.inl rfl)
    intro hw
    rw [(mem_waiting.1 hw).2] at ht
    cases ht
  | false =>
    obtain ⟨u, v, huv, hu⟩ := waiting_split (mem_waiting.2 ⟨hr, ht⟩)
    have hnodup := db.waiting_nodup
    rw [huv] at hnodup ⊢
    rw [exists_drained_iff hnodup hok, hu, waiting, List.filter_filter, List.countP_filter]
    simp only [Bool.false_eq_true, false_or]
    have hcount : db.rows.countP (fun q => !q.renders render_thumb && (decide (q.id < r.id) &&
        !q.has_thumb)) = db.rows.countP (fun q => q.id < r.id && !q.has_thumb &&
        !q.renders render_thumb) := by
      congr 1
      funext q
      rw [Bool.and_comm]
    rw [hcount]

/-- The loop ends with every good row rendered exactly when no waiting row fails; otherwise it
still reaches the good rows that fewer than 50 failing ones precede, and no others. -/
theorem backlog_rendered_iff (render_thumb : Int → Int → Int → String → Bool) (db : ThumbTable) :
    (((∃ fuel db', db.batch_render_pending render_thumb fuel = some db') ∧
      ∀ fuel db', db.batch_render_pending render_thumb fuel = some db' →
        ∀ r ∈ db'.rows, r.renders render_thumb = true → r.has_thumb = true) ↔
      ∀ r ∈ db.rows, r.has_thumb = false → r.renders render_thumb = true) ∧
    ∀ r ∈ db.rows, r.renders render_thumb = true →
      ((∃ k, ((round render_thumb)^[k] db).Thumbed r.id) ↔ r.has_thumb = true ∨
        db.rows.countP (fun q => q.id < r.id && !q.has_thumb && !q.renders render_thumb) < 50) := by
  refine ⟨?_, fun r hr hok => rendered_iff hr hok⟩
  rw [← terminates_iff]
  constructor
  · exact fun h => h.1
  · exact fun h => ⟨h, fun fuel db' hb r hr _ => batch_thumbs hb hr⟩

/-- One row whose render fails keeps the loop going. -/
theorem failing_row_loops :
    ¬ ((∃ fuel db', batch_render_pending (fun _ _ _ _ => false) fuel
        ⟨[⟨1, 7, 0, 0, "sb", false⟩], List.pairwise_singleton _ _⟩ = some db') ∧
      ∀ fuel db', batch_render_pending (fun _ _ _ _ => false) fuel
        ⟨[⟨1, 7, 0, 0, "sb", false⟩], List.pairwise_singleton _ _⟩ = some db' →
        ∀ r ∈ db'.rows, r.renders (fun _ _ _ _ => false) = true → r.has_thumb = true) := by
  rintro ⟨h, -⟩
  rw [terminates_iff] at h
  exact absurd (h _ (List.mem_singleton_self _) rfl) (by decide)

end ThumbTable

end Omission.Backend
