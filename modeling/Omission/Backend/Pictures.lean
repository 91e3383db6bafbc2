import Mathlib.Data.List.Nodup
import Mathlib.Data.List.Pairwise
import Omission.Backend.Service

namespace Omission.Backend
open Omission.Lib
set_option autoImplicit true

/-- The row is that of an upload that was answered with ok. -/
def Uploaded (accepted : List SingleQuery) (row : SeedRow) : Prop :=
  row.storable = true ∧ ∃ q ∈ accepted, q.row = row

/-- The picture is of the position and the size of biomes of an upload. -/
def Picture.Drawn (accepted : List SingleQuery) (k : Key) (picture : Picture) : Prop :=
  picture.place = drawn_place k ∧
    ∃ row, Uploaded accepted row ∧ row.key = k ∧ picture.large = row.large

theorem Uploaded.mono {l m : List SingleQuery} (hlm : l ⊆ m) (h : Uploaded l row) :
    Uploaded m row := by
  obtain ⟨hs, q, hq, rfl⟩ := h
  exact ⟨hs, q, hlm hq, rfl⟩

theorem Picture.Drawn.mono {l m : List SingleQuery} {picture : Picture} (hlm : l ⊆ m)
    (h : picture.Drawn l k) : picture.Drawn m k := by
  obtain ⟨hk, row, hrow, hkey, hlarge⟩ := h
  exact ⟨hk, row, hrow.mono hlm, hkey, hlarge⟩

namespace Store

/-- What no step changes: a row is new, or was there with the same columns and no thumbnail lost. -/
structure Keeps (s s' : Store) : Prop where
  next_id : s.next_id ≤ s'.next_id
  rows : ∀ r' ∈ s'.rows, s.next_id ≤ r'.id ∨ ∃ r ∈ s.rows, r.id = r'.id ∧
    r.toSeedRow = r'.toSeedRow ∧ (r.has_thumb = true → r'.has_thumb = true)
  accepted : s.accepted ⊆ s'.accepted

theorem Keeps.of_eq {s s' : Store} (hn : s'.next_id = s.next_id) (hr : s'.rows = s.rows)
    (ha : s'.accepted = s.accepted) : s.Keeps s' :=
  ⟨Int.le_of_eq hn.symm, fun r' h => .inr ⟨r', hr ▸ h, rfl, rfl, fun h => h⟩,
    fun _ h => ha.symm ▸ h⟩

theorem Keeps.refl (s : Store) : s.Keeps s := .of_eq rfl rfl rfl

theorem Keeps.trans {s s' s'' : Store} (h : s.Keeps s') (h' : s'.Keeps s'') : s.Keeps s'' := by
  refine ⟨Int.le_trans h.next_id h'.next_id, fun r'' hr'' => ?_,
    fun q hq => h'.accepted (h.accepted hq)⟩
  rcases h'.rows r'' hr'' with hnew | ⟨r', hr', hid', hrow', hthumb'⟩
  · exact .inl (Int.le_trans h.next_id hnew)
  · rcases h.rows r' hr' with hnew | ⟨r, hr, hid, hrow, hthumb⟩
    · exact .inl (hid' ▸ hnew)
    · exact .inr ⟨r, hr, hid.trans hid', hrow.trans hrow', fun ht => hthumb' (hthumb ht)⟩

theorem keeps_insert (s : Store) (q : SingleQuery) : s.Keeps (s.insert q) := by
  refine ⟨Int.le_add_one (Int.le_refl _), fun r hr => ?_, List.subset_append_left _ _⟩
  rcases List.mem_append.1 hr with hr | hr
  · exact .inr ⟨r, hr, rfl, rfl, fun h => h⟩
  · obtain rfl := List.mem_singleton.1 hr
    exact .inl (Int.le_refl _)

theorem mem_set_thumb {s : Store} {p : StoredRow → Bool} (hr' : r' ∈ (s.set_thumb p).rows) :
    ∃ r ∈ s.rows, r.id = r'.id ∧ r.toSeedRow = r'.toSeedRow ∧
      (r.has_thumb = true → r'.has_thumb = true) ∧
      (r'.has_thumb = true → r.has_thumb = true ∨ p r = true) := by
  obtain ⟨r, hr, rfl⟩ := List.mem_map.1 hr'
  refine ⟨r, hr, ?_⟩
  split
  · next hp => exact ⟨rfl, rfl, fun _ => rfl, fun _ => .inr hp⟩
  · exact ⟨rfl, rfl, fun h => h, .inl⟩

theorem keeps_set_thumb (s : Store) (p : StoredRow → Bool) : s.Keeps (s.set_thumb p) := by
  refine ⟨Int.le_refl _, fun r' hr' => ?_, List.Subset.refl _⟩
  obtain ⟨r, hr, hid, hrow, hthumb, -⟩ := mem_set_thumb hr'
  exact .inr ⟨r, hr, hid, hrow, hthumb⟩

theorem keeps_filter (s : Store) (p : StoredRow → Bool) :
    s.Keeps { s with rows := s.rows.filter p } :=
  ⟨Int.le_refl _, fun r hr => .inr ⟨r, List.mem_of_mem_filter hr, rfl, rfl, fun h => h⟩,
    List.Subset.refl _⟩

theorem Act.keeps {s s' : Store} (h : Act s fault t s' next) : s.Keeps s' := by
  cases h with
  | added => exact keeps_insert s _
  | marked_key => exact keeps_set_thumb s _
  | marked_row => exact keeps_set_thumb s _
  | marked_reply => exact keeps_set_thumb s _
  | deleted => exact keeps_filter s _
  | begun => exact .of_eq rfl rfl rfl
  | responded => exact .of_eq rfl rfl rfl
  | unlinked => exact .of_eq rfl rfl rfl
  | _ => exact .refl s

theorem save_keeps {s s' : Store} (h : s.save fault = some (s', t)) : s.Keeps s' := by
  obtain ⟨⟨row, after⟩, -, he⟩ := Option.map_eq_some_iff.1 h
  cases he
  split
  · exact .of_eq rfl rfl rfl
  · exact .of_eq rfl rfl rfl

end Store

theorem Service.step_keeps {s s' : Service} (h : s.step e = some s') :
    s.store.Keeps s'.store := by
  cases e with
  | request t =>
    simp only [step, Option.ite_none_right_eq_some, Option.some.injEq] at h
    obtain ⟨-, rfl⟩ := h
    exact .refl _
  | run i fault =>
    simp only [step, Option.bind_eq_bind, Option.bind_eq_some_iff] at h
    obtain ⟨t, -, ⟨store, next⟩, hact, he⟩ := h
    cases he
    exact (Store.act_cases hact).keeps
  | save fault =>
    simp only [step, Option.bind_eq_bind, Option.bind_eq_some_iff] at h
    obtain ⟨⟨store, t⟩, hsave, he⟩ := h
    cases he
    exact Store.save_keeps hsave
  | restart =>
    cases h
    exact .of_eq rfl rfl rfl

theorem Service.run_keeps {s s' : Service} (h : exec step s es = some s') :
    s.store.Keeps s'.store := by
  apply exec_invariant (I := fun t => s.store.Keeps t.store) _ (.refl _) h
  intro t e u ht hstep
  exact ht.trans (step_keeps hstep)

namespace Store

/-- The primary key is, or was, that of this uploaded row. -/
structure Known (s : Store) (id : Int) (row : SeedRow) : Prop where
  uploaded : Uploaded s.accepted row
  old : id < s.next_id
  eq : ∀ r ∈ s.rows, r.id = id → r.toSeedRow = row

theorem Known.mono {s s' : Store} {id : Int} (h : s.Known id row) (hk : s.Keeps s') :
    s'.Known id row := by
  have hold := h.old
  have hnext := hk.next_id
  refine ⟨h.uploaded.mono hk.accepted, by omega, fun r' hr' hid => ?_⟩
  rcases hk.rows r' hr' with hnew | ⟨r, hr, hid', hrow, -⟩
  · omega
  · rw [← hrow]
    exact h.eq r hr (hid'.trans hid)

/-- The table, the thumbnails and the answers are of uploads. -/
structure Sound (s : Store) : Prop where
  ids : s.rows.Pairwise fun r r' => r.id < r'.id
  fresh : ∀ r ∈ s.rows, r.id < s.next_id
  keys : (s.rows.map fun r => r.key).Nodup
  uploaded : ∀ r ∈ s.rows, Uploaded s.accepted r.toSeedRow
  thumbs : ∀ k, ∀ p ∈ s.thumbs k, p.Drawn s.accepted k
  served : ∀ x ∈ s.served, Uploaded s.accepted x.1 ∧ x.2.Drawn s.accepted x.1.key

theorem Sound.eq_of_id {s : Store} (h : s.Sound) (hr : r ∈ s.rows) (hr' : r' ∈ s.rows)
    (hid : r.id = r'.id) : r = r' := by
  have hne : s.rows.Pairwise fun r r' => r.id ≠ r'.id := h.ids.imp fun hlt => Int.ne_of_lt hlt
  have hsymm : Std.Symm fun r r' : StoredRow => r.id ≠ r'.id := ⟨fun _ _ h => h.symm⟩
  by_contra hrr
  exact hne.forall hr hr' hrr hid

theorem Sound.known {s : Store} (h : s.Sound) (hr : r ∈ s.rows) : s.Known r.id r.toSeedRow :=
  ⟨h.uploaded r hr, h.fresh r hr, fun r' hr' hid => by rw [h.eq_of_id hr' hr hid]⟩

theorem Sound.insert {s : Store} {q : SingleQuery} (h : s.Sound) (hs : q.row.storable = true)
    (hkey : ∀ r ∈ s.rows, r.key ≠ q.row.key) : (s.insert q).Sound := by
  have hsub : s.accepted ⊆ s.accepted ++ [q] := List.subset_append_left _ _
  have hq : Uploaded (s.accepted ++ [q]) q.row :=
    ⟨hs, q, List.mem_append_right _ (List.mem_singleton_self q), rfl⟩
  refine ⟨?_, ?_, ?_, ?_, fun k p hp => (h.thumbs k p hp).mono hsub,
    fun x hx => ⟨(h.served x hx).1.mono hsub, (h.served x hx).2.mono hsub⟩⟩
  · refine List.pairwise_append.2 ⟨h.ids, List.pairwise_singleton _ _, ?_⟩
    rintro r hr r' hr'
    obtain rfl := List.mem_singleton.1 hr'
    exact h.fresh r hr
  · intro r hr
    change r.id < s.next_id + 1
    rcases List.mem_append.1 hr with hr | hr
    · have := h.fresh r hr
      omega
    · obtain rfl := List.mem_singleton.1 hr
      exact Int.lt_add_one_of_le (Int.le_refl _)
  · change ((s.rows ++ [_]).map _).Nodup
    rw [List.map_append, List.nodup_append]
    refine ⟨h.keys, List.nodup_singleton _, ?_⟩
    rintro k hk k' hk' rfl
    obtain ⟨r, hr, rfl⟩ := List.mem_map.1 hk
    exact hkey r hr (List.mem_singleton.1 hk')
  · intro r hr
    rcases List.mem_append.1 hr with hr | hr
    · exact (h.uploaded r hr).mono hsub
    · obtain rfl := List.mem_singleton.1 hr
      exact hq

theorem Sound.set_thumb {s : Store} (h : s.Sound) (p : StoredRow → Bool) :
    (s.set_thumb p).Sound := by
  have hcol : ∀ r : StoredRow, (if p r then { r with has_thumb := true } else r).id = r.id ∧
      (if p r then { r with has_thumb := true } else r).toSeedRow = r.toSeedRow := by
    intro r
    split
    · exact ⟨rfl, rfl⟩
    · exact ⟨rfl, rfl⟩
  refine ⟨?_, ?_, ?_, ?_, h.thumbs, h.served⟩
  · refine List.pairwise_map.2 (h.ids.imp fun {r r'} hlt => ?_)
    rwa [(hcol r).1, (hcol r').1]
  · intro r' hr'
    obtain ⟨r, hr, hid, -⟩ := mem_set_thumb hr'
    exact hid ▸ h.fresh r hr
  · have hkeys : (s.set_thumb p).rows.map (fun r => r.key) = s.rows.map fun r => r.key := by
      rw [Store.set_thumb, List.map_map]
      refine List.map_congr_left fun r _ => ?_
      exact congrArg SeedRow.key (hcol r).2
    exact hkeys ▸ h.keys
  · intro r' hr'
    obtain ⟨r, hr, -, hrow, -⟩ := mem_set_thumb hr'
    exact hrow ▸ h.uploaded r hr

theorem Sound.filter {s : Store} (h : s.Sound) (p : StoredRow → Bool) :
    Sound { s with rows := s.rows.filter p } :=
  ⟨h.ids.filter _, fun r hr => h.fresh r (List.mem_of_mem_filter hr),
    h.keys.sublist (List.filter_sublist.map _),
    fun r hr => h.uploaded r (List.mem_of_mem_filter hr), h.thumbs, h.served⟩

theorem Sound.put {s : Store} (h : s.Sound) {picture : Option Picture}
    (hp : ∀ p ∈ picture, p.Drawn s.accepted k) (lock : Option (SeedRow × After)) :
    Sound { s.put k picture with render_lock := lock } := by
  refine ⟨h.ids, h.fresh, h.keys, h.uploaded, fun k' p hp' => ?_, h.served⟩
  simp only [Store.put, Function.update_apply] at hp'
  split at hp'
  · next hk => exact hk ▸ hp p hp'
  · exact h.thumbs k' p hp'

/-- The arguments of a render, and what the task that asks for it knows of the table. -/
def Job (s : Store) (row : SeedRow) : After → Prop
  | .by_key => Uploaded s.accepted row
  | .batch id rows => s.Known id row ∧ ∀ r ∈ rows, s.Known r.id r.toSeedRow
  | .reply id => s.Known id row

/-- What a task has read from the table. -/
def Reads (s : Store) : Task → Prop
  | .batch rows => ∀ r ∈ rows, s.Known r.id r.toSeedRow
  | .render row after => s.Job row after
  | .rendered row after _ => s.Job row after
  | .look r => s.Known r.id r.toSeedRow
  | .respond row => Uploaded s.accepted row
  | .unlink r => s.Known r.id r.toSeedRow
  | _ => True

theorem Job.uploaded {s : Store} {after : After} (h : s.Job row after) :
    Uploaded s.accepted row := by
  cases after with
  | by_key => exact h
  | batch id rows => exact h.1.uploaded
  | reply id => exact Known.uploaded h

theorem Job.mono {s s' : Store} {after : After} (h : s.Job row after) (hk : s.Keeps s') :
    s'.Job row after := by
  cases after with
  | by_key => exact Uploaded.mono hk.accepted h
  | batch id rows => exact ⟨h.1.mono hk, fun r hr => (h.2 r hr).mono hk⟩
  | reply id => exact Known.mono h hk

theorem Reads.mono {s s' : Store} {t : Task} (h : s.Reads t) (hk : s.Keeps s') :
    s'.Reads t := by
  cases t with
  | batch rows => exact fun r hr => (h r hr).mono hk
  | render row after => exact Job.mono h hk
  | rendered row after ok => exact Job.mono h hk
  | look r => exact Known.mono h hk
  | respond row => exact Uploaded.mono hk.accepted h
  | unlink r => exact Known.mono h hk
  | _ => trivial

theorem Job.drawn {s : Store} {after : After} (h : s.Job row after) (complete : Bool) :
    Picture.Drawn s.accepted row.key ⟨drawn_place row.key, row.large, complete⟩ :=
  ⟨rfl, row, h.uploaded, rfl, rfl⟩

theorem Act.sound {s s' : Store} (h : Act s fault t s' next) (hs : s.Sound) (ht : s.Reads t) :
    s'.Sound := by
  cases h with
  | added hfits hkey => exact hs.insert hfits hkey
  | begun hl hp =>
    refine hs.put (fun p hp => ?_) _
    obtain rfl := Option.some.inj hp
    exact Job.drawn ht false
  | marked_key => exact hs.set_thumb _
  | marked_row => exact hs.set_thumb _
  | marked_reply => exact hs.set_thumb _
  | responded hp =>
    refine ⟨hs.ids, hs.fresh, hs.keys, hs.uploaded, hs.thumbs, fun x hx => ?_⟩
    rcases List.mem_append.1 hx with hx | hx
    · exact hs.served x hx
    · obtain rfl := List.mem_singleton.1 hx
      exact ⟨ht, hs.thumbs _ _ hp⟩
  | unlinked => exact hs.put (fun _ h => absurd h (Option.not_mem_none _)) _
  | deleted => exact hs.filter _
  | _ => exact hs

theorem Act.reads {s s' : Store} (h : Act s fault t s' next) (hs : s.Sound) (ht : s.Reads t) :
    ∀ t' ∈ next, s'.Reads t' := by
  have hkeeps := h.keeps
  intro t' ht'
  cases h with
  | added hfits hkey =>
    obtain rfl := Option.some.inj ht'
    exact ⟨hfits, _, List.mem_append_right _ (List.mem_singleton_self _), rfl⟩
  | fetched =>
    obtain rfl := Option.some.inj ht'
    exact fun r hr => hs.known (List.mem_of_mem_filter (List.mem_of_mem_take hr))
  | again =>
    obtain rfl := Option.some.inj ht'
    trivial
  | taken =>
    obtain rfl := Option.some.inj ht'
    exact List.forall_mem_cons.1 ht
  | present =>
    obtain rfl := Option.some.inj ht'
    exact ht
  | failed =>
    obtain rfl := Option.some.inj ht'
    exact ht
  | marked_row =>
    obtain rfl := Option.some.inj ht'
    exact fun r hr => (ht.2 r hr).mono hkeeps
  | marked_reply =>
    obtain rfl := Option.some.inj ht'
    exact (Known.uploaded ht).mono hkeeps.accepted
  | skipped =>
    obtain rfl := Option.some.inj ht'
    exact ht.2
  | found hr hid =>
    obtain rfl := Option.some.inj ht'
    exact hs.known hr
  | there =>
    obtain rfl := Option.some.inj ht'
    exact Known.uploaded ht
  | missing =>
    obtain rfl := Option.some.inj ht'
    exact ht
  | selected hr =>
    obtain rfl := Option.some.inj ht'
    exact hs.known hr
  | unlinked =>
    obtain rfl := Option.some.inj ht'
    trivial
  | _ => cases ht'

/-- The task that saves a picture knows its row. -/
def Holds (s : Store) : Prop := ∀ x ∈ s.render_lock, s.Job x.1 x.2

theorem Act.holds {s s' : Store} (h : Act s fault t s' next) (hh : s.Holds) (ht : s.Reads t) :
    s'.Holds := by
  have hkeeps := h.keeps
  cases h with
  | begun hl hp =>
    intro x hx
    obtain rfl := Option.some.inj hx
    exact Job.mono ht hkeeps
  | added => exact fun x hx => (hh x hx).mono hkeeps
  | marked_key => exact fun x hx => (hh x hx).mono hkeeps
  | marked_row => exact fun x hx => (hh x hx).mono hkeeps
  | marked_reply => exact fun x hx => (hh x hx).mono hkeeps
  | deleted => exact fun x hx => (hh x hx).mono hkeeps
  | responded => exact fun x hx => (hh x hx).mono hkeeps
  | unlinked => exact fun x hx => (hh x hx).mono hkeeps
  | _ => exact hh

theorem save_sound {s s' : Store} (h : s.save fault = some (s', t)) (hs : s.Sound)
    (hh : s.Holds) : s'.Sound ∧ s'.render_lock = none ∧ s'.Reads t := by
  have hkeeps := save_keeps h
  obtain ⟨⟨row, after⟩, hlock, he⟩ := Option.map_eq_some_iff.1 h
  cases he
  refine ⟨?_, ?_, Job.mono (hh _ hlock) hkeeps⟩
  · split
    · exact ⟨hs.ids, hs.fresh, hs.keys, hs.uploaded, hs.thumbs, hs.served⟩
    · refine hs.put (fun p hp => ?_) _
      obtain ⟨p', hp', rfl⟩ := Option.map_eq_some_iff.1 hp
      exact hs.thumbs _ p' hp'
  · split
    · rfl
    · rfl

end Store

/-- What holds of the backend at every moment. -/
structure Service.Sound (s : Service) : Prop where
  store : s.store.Sound
  holds : s.store.Holds
  reads : ∀ t ∈ s.tasks, s.store.Reads t

namespace Service

theorem Sound.step {s s' : Service} (h : s.Sound) (hstep : s.step e = some s') : s'.Sound := by
  have hkeeps := step_keeps hstep
  cases e with
  | request t =>
    simp only [Service.step, Option.ite_none_right_eq_some, Option.some.injEq] at hstep
    obtain ⟨hreq, rfl⟩ := hstep
    refine ⟨h.store, h.holds, fun t' ht' => ?_⟩
    rcases List.mem_append.1 ht' with ht' | ht'
    · exact h.reads t' ht'
    · obtain rfl := List.mem_singleton.1 ht'
      cases t' <;> trivial
  | run i fault =>
    simp only [Service.step, Option.bind_eq_bind, Option.bind_eq_some_iff] at hstep
    obtain ⟨t, ht, ⟨store, next⟩, hact, he⟩ := hstep
    cases he
    have hact := Store.act_cases hact
    have hreads := h.reads t (List.mem_of_getElem? ht)
    refine ⟨hact.sound h.store hreads, hact.holds h.holds hreads, fun t' ht' => ?_⟩
    rcases List.mem_append.1 ht' with ht' | ht'
    · exact (h.reads t' (List.mem_of_mem_eraseIdx ht')).mono hkeeps
    · exact hact.reads h.store hreads t' (Option.mem_toList.1 ht')
  | save fault =>
    simp only [Service.step, Option.bind_eq_bind, Option.bind_eq_some_iff] at hstep
    obtain ⟨⟨store, t⟩, hsave, he⟩ := hstep
    cases he
    obtain ⟨hsound, hlock, hreads⟩ := Store.save_sound hsave h.store h.holds
    refine ⟨hsound, fun x hx => ?_, fun t' ht' => ?_⟩
    · rw [hlock] at hx
      cases hx
    rcases List.mem_append.1 ht' with ht' | ht'
    · exact (h.reads t' ht').mono hkeeps
    · obtain rfl := List.mem_singleton.1 ht'
      exact hreads
  | restart =>
    cases hstep
    have hs := h.store
    refine ⟨⟨hs.ids, hs.fresh, hs.keys, hs.uploaded, hs.thumbs, hs.served⟩, fun x hx => ?_, ?_⟩
    · cases hx
    · exact List.forall_mem_singleton.2 trivial

theorem sound_init : init.Sound := by
  refine ⟨⟨.nil, ?_, List.nodup_nil, ?_, ?_, ?_⟩, ?_, List.forall_mem_singleton.2 trivial⟩
  · exact List.forall_mem_nil _
  · exact List.forall_mem_nil _
  · exact fun k p hp => absurd hp (Option.not_mem_none _)
  · exact List.forall_mem_nil _
  · exact fun x hx => absurd hx (Option.not_mem_none _)

theorem sound_run (h : exec step init es = some s) : s.Sound :=
  exec_invariant (fun _ _ _ => Sound.step) sound_init h

end Service

theorem text_prefixed (t : String) : ("u" ++ t).toList = 'u' :: t.toList := by
  rw [String.toList_append]
  rfl

/-- A mode text that starts with u puts a position outside of the border wherever it is. -/
theorem SingleQuery.in_bounds_iff (q : SingleQuery) : q.row.in_bounds = true ↔
    q.x.natAbs ≤ WORLD_BORDER ∧ q.z.natAbs ≤ WORLD_BORDER ∧ ¬ "u".toList <+: q.mode.toList := by
  have hmode : q.row.mode = q.lineMode := rfl
  rw [SeedRow.in_bounds, hmode, lineMode]
  split
  · next hout =>
    refine iff_of_false ?_ (by omega)
    rw [text_prefixed]
    exact Bool.false_ne_true
  · next hin =>
    rw [Bool.not_eq_true', ← Bool.not_eq_true, List.isPrefixOf_iff_prefix]
    constructor
    · exact fun h => ⟨by omega, by omega, h⟩
    · exact fun h => h.2.2

example : (⟨7, 0, 0, 9000, "usb", by decide⟩ : SingleQuery).row.in_bounds = false := by decide

theorem SingleQuery.large_iff (q : SingleQuery) :
    q.row.large = true ↔ "lb".toList <:+: q.mode.toList := by
  have hmode : q.row.mode = q.lineMode := rfl
  rw [SeedRow.large, hmode, lineMode, decide_eq_true_eq]
  split
  · rw [text_prefixed, List.infix_cons_iff]
    constructor
    · rintro (h | h)
      · exact absurd (List.cons_prefix_cons.1 h).1 (by decide)
      · exact h
    · exact .inr
  · rfl

def upload (seed x z : Int) (mode : Mode) : SingleQuery :=
  ⟨seed, x, z, 9000, mode.text, mode.accepted⟩

def one_upload : List Event :=
  [.request (.add_single_seed (upload 7 30000000 5 .lb)), .run 1 false, .run 1 false, .save false,
    .run 1 false, .request (.get_thumb 1), .run 1 false, .run 1 false, .run 1 false]

end Omission.Backend
