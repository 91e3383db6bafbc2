import Omission.Backend.Pictures

namespace Omission.Backend
open Omission.Lib
set_option autoImplicit true

def Task.deletes : Task → Bool
  | .delete_seed _ => true
  | .unlink _ => true
  | .delete _ => true
  | _ => false

def Event.deletes : Event → Bool
  | .request t => t.deletes
  | _ => false

/-- What can leave a picture unfinished. -/
def Event.breaks : Event → Bool
  | .save fault => fault
  | .restart => true
  | _ => false

def Event.faults : Event → Bool
  | .run _ fault => fault
  | e => e.breaks

namespace Store

/-- There is a picture of this name; with `whole` it is complete. -/
def Ready (whole : Bool) (s : Store) (k : Key) : Prop :=
  ∃ picture, s.thumbs k = some picture ∧ (whole = true → picture.complete = true)

/-- Without deletions uploads keep their rows and pictures stay. -/
structure Shows (whole : Bool) (s : Store) : Prop where
  rows : ∀ q ∈ s.accepted, ∃ r ∈ s.rows, r.toSeedRow = q.row
  thumbed : ∀ r ∈ s.rows, r.has_thumb = true → s.Ready whole r.key
  held : ∀ x ∈ s.render_lock, ∃ picture, s.thumbs x.1.key = some picture
  unfinished : whole = true → ∀ k, ∀ p ∈ s.thumbs k, p.complete = false →
    ∃ x ∈ s.render_lock, x.1.key = k

variable {whole : Bool} {s s' : Store} {t : Task} {next : Option Task}

theorem Ready.mono (h : s.Ready whole k)
    (hp : ∀ p ∈ s.thumbs k, ∃ p' ∈ s'.thumbs k, p.complete = true → p'.complete = true) :
    s'.Ready whole k := by
  obtain ⟨p, hk, hc⟩ := h
  obtain ⟨p', hk', hc'⟩ := hp p hk
  exact ⟨p', hk', fun hw => hc' (hc hw)⟩

/-- Only `unlink` takes a picture away. -/
theorem Act.thumbs (h : Act s fault t s' next) (ht : t.deletes = false) {p : Picture}
    (hp : s.thumbs k = some p) : s'.thumbs k = some p := by
  cases h with
  | begun hl hnone =>
    refine (Function.update_of_ne ?_ _ _).trans hp
    rintro rfl
    cases hp.symm.trans hnone
  | unlinked => cases ht
  | _ => exact hp

theorem Act.ready (h : Act s fault t s' next) (ht : t.deletes = false)
    (hr : s.Ready whole k) : s'.Ready whole k :=
  hr.mono fun p hp => ⟨p, h.thumbs ht hp, fun hc => hc⟩

theorem Shows.present (h : s.Shows whole) (hl : s.render_lock = none)
    (hp : s.thumbs k = some picture) : s.Ready whole k := by
  refine ⟨picture, hp, fun hw => ?_⟩
  by_contra hc
  obtain ⟨x, hx, -⟩ := h.unfinished hw k picture hp (Bool.eq_false_iff.2 hc)
  rw [hl] at hx
  cases hx

/-- A render that succeeds leaves a picture. -/
theorem Act.marks (h : Act s fault t s' next) (hs : s.Shows whole)
    (hn : next = some (.rendered row after true)) : s'.Ready whole row.key := by
  cases h with
  | present hl hp =>
    cases hn
    exact hs.present hl hp
  | _ => cases hn

theorem Shows.set_thumb (h : s.Shows whole) {p : StoredRow → Bool}
    (hp : ∀ r ∈ s.rows, p r = true → s.Ready whole r.key) : (s.set_thumb p).Shows whole := by
  refine ⟨fun q hq => ?_, fun r' hr' hthumb => ?_, h.held, h.unfinished⟩
  · obtain ⟨r, hr, hrow⟩ := h.rows q hq
    refine ⟨_, List.mem_map_of_mem hr, ?_⟩
    split
    · exact hrow
    · exact hrow
  · obtain ⟨r, hr, -, hrow, -, hback⟩ := mem_set_thumb hr'
    have hready : s.Ready whole r.key := by
      rcases hback hthumb with hthumb | hpr
      · exact h.thumbed r hr hthumb
      · exact hp r hr hpr
    have hkey : r.key = r'.key := congrArg SeedRow.key hrow
    exact hkey ▸ hready

theorem Known.ready {id : Int} (hk : s.Known id row) (hr : s.Ready whole row.key) :
    ∀ r ∈ s.rows, decide (r.id = id) = true → s.Ready whole r.key := by
  intro r hmem hid
  have hrow := hk.eq r hmem (of_decide_eq_true hid)
  have hkey : r.key = row.key := congrArg SeedRow.key hrow
  exact hkey ▸ hr

theorem Act.shows (h : Act s fault t s' next) (ht : t.deletes = false) (hr : s.Reads t)
    (hs : s.Shows whole) (hm : ∀ row after, t = .rendered row after true → s.Ready whole row.key) :
    s'.Shows whole := by
  cases h with
  | @added q hfits hkey =>
    refine ⟨fun q' hq' => ?_, fun r hmem hthumb => ?_, hs.held, hs.unfinished⟩
    · rcases List.mem_append.1 hq' with hq' | hq'
      · obtain ⟨r, hmem, hrow⟩ := hs.rows q' hq'
        exact ⟨r, List.mem_append_left _ hmem, hrow⟩
      · obtain rfl := List.mem_singleton.1 hq'
        exact ⟨_, List.mem_append_right _ (List.mem_singleton_self _), rfl⟩
    · rcases List.mem_append.1 hmem with hmem | hmem
      · exact hs.thumbed r hmem hthumb
      · obtain rfl := List.mem_singleton.1 hmem
        cases hthumb
  | @begun row after hl hp =>
    have hact : Act s fault (.render row after) _ none := .begun hl hp
    refine ⟨hs.rows, fun r hmem hthumb => hact.ready rfl (hs.thumbed r hmem hthumb), ?_, ?_⟩
    · intro x hx
      obtain rfl := Option.some.inj hx
      exact ⟨_, Function.update_self ..⟩
    · intro hw k p hpk hc
      by_cases hk : k = row.key
      · exact ⟨_, rfl, hk.symm⟩
      · have hold : s.thumbs k = some p := (Function.update_of_ne hk _ _).symm.trans hpk
        obtain ⟨x, hx, -⟩ := hs.unfinished hw k p hold hc
        rw [hl] at hx
        cases hx
  | @marked_key row =>
    refine hs.set_thumb fun r _ hkey => ?_
    exact (of_decide_eq_true hkey) ▸ hm row .by_key rfl
  | @marked_row row id rows => exact hs.set_thumb (hr.1.ready (hm row _ rfl))
  | @marked_reply row id => exact hs.set_thumb (Known.ready hr (hm row _ rfl))
  | responded hp => exact ⟨hs.rows, hs.thumbed, hs.held, hs.unfinished⟩
  | unlinked => cases ht
  | deleted => cases ht
  | _ => exact hs

/-- Saving a picture completes it, or else it stays as it is. -/
theorem save_shows (h : s.save fault = some (s', t)) (hs : s.Shows whole)
    (hw : whole = true → fault = false) :
    s'.Shows whole ∧ (∀ k, s.Ready whole k → s'.Ready whole k) ∧
      ∀ row after, t = .rendered row after true → s'.Ready whole row.key := by
  obtain ⟨⟨row, after⟩, hlock, he⟩ := Option.map_eq_some_iff.1 h
  obtain ⟨picture, hpicture⟩ := hs.held _ hlock
  cases he
  cases fault with
  | true =>
    have hf : ¬ whole = true := fun h => absurd (hw h) (by decide)
    refine ⟨⟨hs.rows, hs.thumbed, fun x hx => ?_, fun h => absurd h hf⟩, fun _ h => h, ?_⟩
    · cases hx
    · intro row' after' he
      cases he
  | false =>
    rw [if_neg (by decide), hpicture]
    have hself : Function.update s.thumbs row.key (some { picture with complete := true }) row.key =
        some { picture with complete := true } := Function.update_self ..
    have hother : ∀ k, k ≠ row.key → Function.update s.thumbs row.key
        (some { picture with complete := true }) k = s.thumbs k :=
      fun k hk => Function.update_of_ne hk ..
    have hready : ∀ k, s.Ready whole k → Ready whole { s.put row.key
        (some { picture with complete := true }) with render_lock := none } k := by
      rintro k ⟨p, hp, hc⟩
      by_cases hk : k = row.key
      · subst hk
        exact ⟨_, hself, fun _ => rfl⟩
      · exact ⟨p, (hother k hk).trans hp, hc⟩
    refine ⟨⟨hs.rows, fun r hr hthumb => hready _ (hs.thumbed r hr hthumb), fun x hx => ?_, ?_⟩,
      hready, ?_⟩
    · cases hx
    · intro hwhole k p hp hc
      by_cases hk : k = row.key
      · subst hk
        cases hself.symm.trans hp
        cases hc
      · obtain ⟨x, hx, hkey⟩ := hs.unfinished hwhole k p ((hother k hk).symm.trans hp) hc
        cases hlock.symm.trans hx
        exact absurd hkey.symm hk
    · intro row' after' he
      cases he
      exact ⟨_, hself, fun _ => rfl⟩

end Store

/-- What holds without deletions. -/
structure Service.Shows (whole : Bool) (s : Service) : Prop where
  store : s.store.Shows whole
  stays : ∀ t ∈ s.tasks, t.deletes = false
  marks : ∀ row after, .rendered row after true ∈ s.tasks → s.store.Ready whole row.key

/-- The events of a run without deletions, and with `whole` without unfinished pictures. -/
def Event.Allowed (whole : Bool) (e : Event) : Prop :=
  e.deletes = false ∧ (whole = true → e.breaks = false)

namespace Service

variable {whole : Bool} {s s' : Service}

theorem Act.stays {s s' : Store} (h : Store.Act s fault t s' next) (ht : t.deletes = false) :
    ∀ t' ∈ next, t'.deletes = false := by
  intro t' ht'
  cases h with
  | selected => cases ht
  | unlinked => cases ht
  | _ => cases ht' <;> rfl

theorem Shows.step (h : s.Shows whole) (hs : s.Sound) (ha : e.Allowed whole)
    (hstep : s.step e = some s') : s'.Shows whole := by
  obtain ⟨hd, hb⟩ := ha
  cases e with
  | request t =>
    simp only [Service.step, Option.ite_none_right_eq_some, Option.some.injEq] at hstep
    obtain ⟨hreq, rfl⟩ := hstep
    refine ⟨h.store, fun t' ht' => ?_, fun row after hmem => ?_⟩
    · rcases List.mem_append.1 ht' with ht' | ht'
      · exact h.stays t' ht'
      · exact List.mem_singleton.1 ht' ▸ hd
    · rcases List.mem_append.1 hmem with hmem | hmem
      · exact h.marks row after hmem
      · rw [← List.mem_singleton.1 hmem] at hreq
        cases hreq
  | run i fault =>
    simp only [Service.step, Option.bind_eq_bind, Option.bind_eq_some_iff] at hstep
    obtain ⟨t, ht, ⟨store, next⟩, hact, he⟩ := hstep
    cases he
    have hact := Store.act_cases hact
    have hmem := List.mem_of_getElem? ht
    have hstay := h.stays t hmem
    refine ⟨hact.shows hstay (hs.reads t hmem) h.store ?_, fun t' ht' => ?_, ?_⟩
    · rintro row after rfl
      exact h.marks row after hmem
    · rcases List.mem_append.1 ht' with ht' | ht'
      · exact h.stays t' (List.mem_of_mem_eraseIdx ht')
      · exact Act.stays hact hstay t' (Option.mem_toList.1 ht')
    · intro row after hmem'
      rcases List.mem_append.1 hmem' with hmem' | hmem'
      · exact hact.ready hstay (h.marks row after (List.mem_of_mem_eraseIdx hmem'))
      · exact hact.marks h.store (Option.mem_toList.1 hmem')
  | save fault =>
    simp only [Service.step, Option.bind_eq_bind, Option.bind_eq_some_iff] at hstep
    obtain ⟨⟨store, t⟩, hsave, he⟩ := hstep
    cases he
    obtain ⟨hshows, hready, hmark⟩ := Store.save_shows hsave h.store hb
    obtain ⟨⟨row', after'⟩, -, he⟩ := Option.map_eq_some_iff.1 hsave
    cases he
    refine ⟨hshows, fun t' ht' => ?_, fun row after hmem => ?_⟩
    · rcases List.mem_append.1 ht' with ht' | ht'
      · exact h.stays t' ht'
      · obtain rfl := List.mem_singleton.1 ht'
        rfl
    · rcases List.mem_append.1 hmem with hmem | hmem
      · exact hready _ (h.marks row after hmem)
      · exact hmark row after (List.mem_singleton.1 hmem).symm
  | restart =>
    cases hstep
    have hw : ¬ whole = true := fun hw => absurd (hb hw) (by decide)
    refine ⟨⟨h.store.rows, h.store.thumbed, fun x hx => ?_, fun hw' => absurd hw' hw⟩, ?_, ?_⟩
    · cases hx
    · exact List.forall_mem_singleton.2 rfl
    · intro row after hmem
      cases List.mem_singleton.1 hmem

theorem shows_init : init.Shows whole := by
  refine ⟨⟨?_, ?_, ?_, ?_⟩, List.forall_mem_singleton.2 rfl, fun row after hmem => ?_⟩
  · exact List.forall_mem_nil _
  · exact List.forall_mem_nil _
  · exact fun x hx => absurd hx (Option.not_mem_none _)
  · exact fun _ k p hp => absurd hp (Option.not_mem_none _)
  · cases List.mem_singleton.1 hmem

variable (whole) in
theorem shows_run (h : exec step init es = some s) (ha : ∀ e ∈ es, e.Allowed whole) :
    s.Sound ∧ s.Shows whole := by
  refine (along_of_forall ha init).invariant (I := fun s => s.Sound ∧ s.Shows whole) ?_
    ⟨sound_init, shows_init⟩ h
  intro s e t hs he hstep
  exact ⟨hs.1.step hstep, hs.2.step hs.1 he hstep⟩

/-- Without deletions an upload is the only one of its key. -/
theorem eq_of_key (hs : s.Sound) (h : s.Shows whole) (hrow : Uploaded s.store.accepted row)
    (hrow' : Uploaded s.store.accepted row') (hkey : row.key = row'.key) : row = row' := by
  obtain ⟨-, q, hq, rfl⟩ := hrow
  obtain ⟨-, q', hq', rfl⟩ := hrow'
  obtain ⟨r, hr, hrow⟩ := h.store.rows q hq
  obtain ⟨r', hr', hrow'⟩ := h.store.rows q' hq'
  have hsame : r = r' := by
    apply List.inj_on_of_nodup_map hs.store.keys hr hr'
    rw [hrow, hrow', hkey]
  rw [← hrow, ← hrow', hsame]

end Service

section Await

/-- The render that follows an upload is still to come, or to be noted. -/
def Service.Awaits (s : Service) (k : Key) : Prop := ∃ row : SeedRow, row.key = k ∧
  (.render row .by_key ∈ s.tasks ∨ .rendered row .by_key true ∈ s.tasks ∨
    s.store.render_lock = some (row, .by_key))

def Service.Queued (s : Service) : Prop :=
  ∀ r ∈ s.store.rows, r.has_thumb = false → s.Awaits r.key

variable {s s' : Store} {t : Task} {next : Option Task}

/-- A row that waits is new, or waited before and is not the one just noted. -/
theorem Store.Act.waits (h : Act s false t s' next) (hr' : r' ∈ s'.rows)
    (hthumb : r'.has_thumb = false) : next = some (.render r'.toSeedRow .by_key) ∨
      ∃ r ∈ s.rows, r.key = r'.key ∧ r.has_thumb = false ∧
        ∀ row, t = .rendered row .by_key true → row.key ≠ r'.key := by
  have hset : ∀ p : StoredRow → Bool, r' ∈ (s.set_thumb p).rows → ∃ r ∈ s.rows, r.key = r'.key ∧
      r.has_thumb = false ∧ p r = false := by
    intro p hmem
    obtain ⟨r, hr, rfl⟩ := List.mem_map.1 hmem
    cases hp : p r with
    | false =>
      rw [hp] at hthumb
      exact ⟨r, hr, rfl, hthumb, hp⟩
    | true =>
      rw [hp] at hthumb
      cases hthumb
  cases h with
  | added =>
    rcases List.mem_append.1 hr' with hr' | hr'
    · exact .inr ⟨r', hr', rfl, hthumb, fun _ h => nomatch h⟩
    · obtain rfl := List.mem_singleton.1 hr'
      exact .inl rfl
  | marked_key =>
    obtain ⟨r, hr, hkey, hfalse, hp⟩ := hset _ hr'
    refine .inr ⟨r, hr, hkey, hfalse, ?_⟩
    rintro row' ⟨⟩ he
    exact of_decide_eq_false hp (hkey.trans he.symm)
  | marked_row =>
    obtain ⟨r, hr, hkey, hfalse, -⟩ := hset _ hr'
    exact .inr ⟨r, hr, hkey, hfalse, fun _ h => nomatch h⟩
  | marked_reply =>
    obtain ⟨r, hr, hkey, hfalse, -⟩ := hset _ hr'
    exact .inr ⟨r, hr, hkey, hfalse, fun _ h => nomatch h⟩
  | deleted => exact .inr ⟨r', List.mem_of_mem_filter hr', rfl, hthumb, fun _ h => nomatch h⟩
  | broken hf => cases hf
  | _ => exact .inr ⟨r', hr', rfl, hthumb, fun _ h => nomatch h⟩

theorem Store.Act.lock (h : Act s fault t s' next) (hl : s.render_lock = some x) :
    s'.render_lock = some x := by
  cases h with
  | begun hnone => cases hl.symm.trans hnone
  | _ => exact hl

theorem Store.Act.goes_on (h : Act s false (.render row .by_key) s' next) :
    next = some (.rendered row .by_key true) ∨ s'.render_lock = some (row, .by_key) := by
  cases h with
  | present => exact .inl rfl
  | failed _ hf => cases hf
  | begun => exact .inr rfl

theorem mem_eraseIdx {l : List Task} (hi : l[i]? = some t) (h : t' ∈ l) :
    t' = t ∨ t' ∈ l.eraseIdx i := by
  obtain ⟨j, hj⟩ := List.mem_iff_getElem?.1 h
  by_cases hij : j = i
  · exact .inl (Option.some.inj (hj.symm.trans (hij ▸ hi)))
  · exact .inr (List.mem_eraseIdx_iff_getElem?.2 ⟨j, hij, hj⟩)

theorem Service.Queued.step {s s' : Service} (h : s.Queued) (hf : e.faults = false)
    (hstep : s.step e = some s') : s'.Queued := by
  intro r' hr' hthumb
  cases e with
  | request t =>
    simp only [Service.step, Option.ite_none_right_eq_some, Option.some.injEq] at hstep
    obtain ⟨-, rfl⟩ := hstep
    obtain ⟨row, hkey, hwait⟩ := h r' hr' hthumb
    exact ⟨row, hkey, hwait.imp (List.mem_append_left _) (Or.imp_left (List.mem_append_left _))⟩
  | run i fault =>
    simp only [Service.step, Option.bind_eq_bind, Option.bind_eq_some_iff] at hstep
    obtain ⟨t, ht, ⟨store, next⟩, hact, he⟩ := hstep
    cases he
    cases show fault = false from hf
    have hact := Store.act_cases hact
    rcases hact.waits hr' hthumb with rfl | ⟨r, hr, hkey, hfalse, hother⟩
    · exact ⟨_, rfl, .inl (List.mem_append_right _ (List.mem_singleton_self _))⟩
    obtain ⟨row, hrow, hwait⟩ := h r hr hfalse
    refine ⟨row, hrow.trans hkey, ?_⟩
    rcases hwait with hwait | hwait | hlock
    · rcases mem_eraseIdx ht hwait with rfl | hmem
      · rcases hact.goes_on with rfl | hlock
        · exact .inr (.inl (List.mem_append_right _ (List.mem_singleton_self _)))
        · exact .inr (.inr hlock)
      · exact .inl (List.mem_append_left _ hmem)
    · rcases mem_eraseIdx ht hwait with rfl | hmem
      · exact absurd (hrow.trans hkey) (hother row rfl)
      · exact .inr (.inl (List.mem_append_left _ hmem))
    · exact .inr (.inr (hact.lock hlock))
  | save fault =>
    simp only [Service.step, Option.bind_eq_bind, Option.bind_eq_some_iff] at hstep
    obtain ⟨⟨store, t⟩, hsave, he⟩ := hstep
    cases he
    cases show fault = false from hf
    obtain ⟨⟨row', after⟩, hl, he⟩ := Option.map_eq_some_iff.1 hsave
    cases he
    obtain ⟨row, hrow, hwait⟩ := h r' hr' hthumb
    refine ⟨row, hrow, ?_⟩
    rcases hwait with hwait | hwait | hlock
    · exact .inl (List.mem_append_left _ hwait)
    · exact .inr (.inl (List.mem_append_left _ hwait))
    · cases hl.symm.trans hlock
      exact .inr (.inl (List.mem_append_right _ (List.mem_singleton_self _)))
  | restart => cases hf

theorem Service.queued_run {s : Service} (h : exec Service.step Service.init es = some s)
    (hf : ∀ e ∈ es, e.faults = false) : s.Queued :=
  (along_of_forall hf Service.init).invariant (fun _ _ _ hs he hstep => hs.step he hstep)
    (List.forall_mem_nil _) h

end Await

/-- Without deletions a row with a thumbnail has a picture, and it shows the row, as do the
pictures handed out; it is complete if no saving was cut short. Without faults no row is left
without a thumbnail once all tasks are done. A picture is of another place if an int32 cannot hold
the position. -/
theorem thumbs_shown {s : Service} (h : exec Service.step Service.init es = some s)
    (hd : ∀ e ∈ es, e.deletes = false) :
    (∀ r ∈ s.store.rows, r.has_thumb = true → ∃ picture, s.store.thumbs r.key = some picture ∧
      picture.place = drawn_place r.key ∧ (drawn_place r.key = r.key ↔ Fits 32 r.x ∧ Fits 32 r.z) ∧
      picture.large = r.large) ∧
    (∀ row picture, (row, picture) ∈ s.store.served → picture.place = drawn_place row.key ∧
      (drawn_place row.key = row.key ↔ Fits 32 row.x ∧ Fits 32 row.z) ∧
      picture.large = row.large) ∧
    ((∀ e ∈ es, e.breaks = false) → ∀ r ∈ s.store.rows, r.has_thumb = true →
      ∃ picture, s.store.thumbs r.key = some picture ∧ picture.complete = true) ∧
    ((∀ e ∈ es, e.faults = false) → s.tasks = [] → s.store.render_lock = none →
      ∀ r ∈ s.store.rows, r.has_thumb = true) := by
  obtain ⟨hs, hshows⟩ := Service.shows_run false h fun e he =>
    ⟨hd e he, fun hw => nomatch hw⟩
  have hown : ∀ {row picture}, Uploaded s.store.accepted row →
      Picture.Drawn s.store.accepted row.key picture →
      picture.place = drawn_place row.key ∧
      (drawn_place row.key = row.key ↔ Fits 32 row.x ∧ Fits 32 row.z) ∧
      picture.large = row.large := by
    rintro row picture hrow ⟨hplace, row', hrow', hsame, hlarge⟩
    cases Service.eq_of_key hs hshows hrow' hrow hsame
    exact ⟨hplace, drawn_place_eq_iff row.key, hlarge⟩
  refine ⟨fun r hr hthumb => ?_, fun row picture hx => ?_, fun hb r hr hthumb => ?_, ?_⟩
  · obtain ⟨picture, hp, -⟩ := hshows.store.thumbed r hr hthumb
    exact ⟨picture, hp, hown (hs.store.uploaded r hr) (hs.store.thumbs _ _ hp)⟩
  · obtain ⟨hrow, hdrawn⟩ := hs.store.served _ hx
    exact hown hrow hdrawn
  · obtain ⟨-, hwhole⟩ := Service.shows_run true h fun e he =>
      ⟨hd e he, fun _ => hb e he⟩
    obtain ⟨picture, hp, hc⟩ := hwhole.store.thumbed r hr hthumb
    exact ⟨picture, hp, hc rfl⟩
  · intro hf htasks hlock r hr
    by_contra hthumb
    obtain ⟨row, -, hwait⟩ := Service.queued_run h hf r hr (Bool.eq_false_iff.2 hthumb)
    rw [htasks, hlock] at hwait
    rcases hwait with hwait | hwait | hwait
    · cases hwait
    · cases hwait
    · cases hwait

/-- A world uploaded with large biomes, deleted before its render, and uploaded with small ones:
the late render leaves the picture of the first. -/
def late_render : List Event :=
  [.request (.add_single_seed (upload 7 0 5 .lb)), .run 1 false, .request (.delete_seed 1),
    .run 2 false, .run 2 false, .run 2 false, .request (.add_single_seed (upload 7 0 5 .sb)),
    .run 2 false, .run 1 false, .save false, .request (.get_thumb 2), .run 3 false, .run 3 false,
    .run 3 false]

example : (exec Service.step Service.init late_render).map (fun s =>
    s.store.served.map fun x => (x.1.large, x.2.large)) = some [(false, true)] := by
  decide

theorem thumbs_shown_one : ∃ s, exec Service.step Service.init (one_upload ++ [.run 0 false]) =
    some s ∧ ∀ r ∈ s.store.rows, r.has_thumb = true := by
  have hdone : (exec Service.step Service.init (one_upload ++ [.run 0 false])).map
      (fun s => (s.tasks, s.store.render_lock)) = some ([], none) := by
    decide
  obtain ⟨s, hs, hdone⟩ := Option.map_eq_some_iff.1 hdone
  obtain ⟨htasks, hlock⟩ := Prod.mk.inj hdone
  exact ⟨s, hs, (thumbs_shown hs (by decide)).2.2.2 (by decide) htasks hlock⟩

end Omission.Backend
