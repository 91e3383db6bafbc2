import Omission.Viewer.Workers

namespace Omission.Viewer
open Omission.Lib Omission.SeedText
set_option autoImplicit true

def initData (seed : Option (List Char)) (largeBiomes : Option Bool) : Option Init := do
  let (seedLo, seedHi) ← SeedText.initCubiomes (← seed)
  some ⟨seedLo, seedHi, ← largeBiomes⟩

variable {hardwareConcurrency : Nat} {cubiomes_sample_tile : BitVec 64 → Bool → Tile → β}

/-- The pixels come from the seed and the biome size of the request. -/
def Request.Answered (cubiomes_sample_tile : BitVec 64 → Bool → Tile → β) (r : Request)
    (pixels : β) : Prop :=
  ∃ g, initData r.seed r.largeBiomes = some g ∧ pixels = g.pixels cubiomes_sample_tile r.data

/-- All that a worker holds belongs to the generator `g`, and its tiles have been asked for. -/
structure Worker.Serves (cubiomes_sample_tile : BitVec 64 → Bool → Tile → β) (g : Init)
    (asked : Nat → Tile → Prop) (w : Worker β) : Prop where
  inits : ∀ d, ToWorker.init d ∈ w.inbox → d = g
  loading : ∀ d ∈ w.loading, d = g
  generator : ∀ d, w.generator = some d → d = g
  tiles : ∀ id t, ToWorker.tile id t ∈ w.inbox → asked id t
  results : ∀ id pixels, ToMain.tile_result id pixels ∈ w.outbox →
    ∃ t, asked id t ∧ pixels = g.pixels cubiomes_sample_tile t

theorem Worker.Serves.created (g : Init) (asked : Nat → Tile → Prop) :
    (Worker.created g).Serves cubiomes_sample_tile g asked := by
  refine ⟨?_, ?_, ?_, ?_, ?_⟩
  · intro d hd
    cases List.mem_singleton.1 hd
    rfl
  · intro d hd
    cases hd
  · intro d hd
    cases hd
  · intro id t ht
    cases List.mem_singleton.1 ht
  · intro id pixels hp
    cases hp

theorem Worker.Serves.mono {asked asked' : Nat → Tile → Prop} {w : Worker β}
    (h : w.Serves cubiomes_sample_tile g asked) (hle : ∀ id t, asked id t → asked' id t) :
    w.Serves cubiomes_sample_tile g asked' := by
  refine ⟨h.inits, h.loading, h.generator, fun id t ht => hle id t (h.tiles id t ht), ?_⟩
  intro id pixels hp
  obtain ⟨t, ht, he⟩ := h.results id pixels hp
  exact ⟨t, hle id t ht, he⟩

def State.asked (s : State β) (id : Nat) (data : Tile) : Prop :=
  ⟨id, s.currentSeed, s.currentLargeBiomes, data⟩ ∈ s.requests

structure State.Inv (cubiomes_sample_tile : BitVec 64 → Bool → Tile → β) (s : State β) : Prop where
  workers : ∀ w ∈ s.workers, ∃ g, initData s.currentSeed s.currentLargeBiomes = some g ∧
    w.Serves cubiomes_sample_tile g s.asked
  ids : ∀ r ∈ s.requests, r.id ≤ s.requestId
  nodup : (s.requests.map (·.id)).Nodup
  delivered : ∀ x ∈ s.delivered, ∃ r ∈ s.requests, r.id = x.1 ∧
    r.Answered cubiomes_sample_tile x.2

theorem forall_mem_set {ws : List α} {P : α → Prop} (h : ∀ w ∈ ws, P w) (hw : P w') :
    ∀ w ∈ ws.set i w', P w := by
  intro w hmem
  rcases List.mem_or_eq_of_mem_set hmem with hmem | rfl
  · exact h w hmem
  · exact hw

namespace State

variable {s t : State β} {w w' : Worker β} {i : Nat}

theorem Inv.start : (State.start : State β).Inv cubiomes_sample_tile := by
  refine ⟨?_, ?_, List.nodup_nil, ?_⟩
  · intro w hw
    cases hw
  · intro r hr
    cases hr
  · intro x hx
    cases hx

theorem settle_frame (s : State β) : s.settle.workers = s.workers ∧
    s.settle.currentSeed = s.currentSeed ∧ s.settle.currentLargeBiomes = s.currentLargeBiomes ∧
    s.settle.requestId = s.requestId ∧ s.settle.requests = s.requests ∧
    s.settle.discarded = s.discarded ∧ s.settle.delivered = s.delivered := by
  unfold settle
  split
  · split <;> exact ⟨rfl, rfl, rfl, rfl, rfl, rfl, rfl⟩
  · exact ⟨rfl, rfl, rfl, rfl, rfl, rfl, rfl⟩

theorem Inv.settle (h : s.Inv cubiomes_sample_tile) : s.settle.Inv cubiomes_sample_tile := by
  obtain ⟨hw, hc, hl, hi, hr, -, hd⟩ := s.settle_frame
  have ha : s.settle.asked = s.asked := by
    funext id data
    simp only [asked, hc, hl, hr]
  refine ⟨?_, ?_, ?_, ?_⟩
  · rw [hw, hc, hl, ha]
    exact h.workers
  · rw [hr, hi]
    exact h.ids
  · rw [hr]
    exact h.nodup
  · rw [hd, hr]
    exact h.delivered

theorem Inv.set (h : s.Inv cubiomes_sample_tile) (hi : s.workers[i]? = some w)
    (hw : ∀ g, w.Serves cubiomes_sample_tile g s.asked →
      w'.Serves cubiomes_sample_tile g s.asked) :
    ({ s with workers := s.workers.set i w' } : State β).Inv cubiomes_sample_tile := by
  refine ⟨forall_mem_set h.workers ?_, h.ids, h.nodup, h.delivered⟩
  obtain ⟨g, hg, hs⟩ := h.workers w (List.mem_of_getElem? hi)
  exact ⟨g, hg, hw g hs⟩

theorem Inv.initCubiomes (h : s.Inv cubiomes_sample_tile) (caller : Nat) (seed : List Char)
    (largeBiomes : Bool) :
    (s.initCubiomes hardwareConcurrency caller seed largeBiomes).Inv cubiomes_sample_tile := by
  unfold State.initCubiomes
  split
  · exact ⟨h.workers, h.ids, h.nodup, h.delivered⟩
  · simp only
    split
    · refine ⟨?_, h.ids, h.nodup, h.delivered⟩
      intro w hw
      cases hw
    · next seedLo seedHi hinit =>
      apply Inv.settle
      refine ⟨?_, h.ids, h.nodup, h.delivered⟩
      intro w hw
      cases (List.mem_replicate.1 hw).2
      refine ⟨⟨seedLo, seedHi, largeBiomes⟩, ?_, .created _ _⟩
      simp only [initData, Option.bind_eq_bind, Option.bind_some, hinit]

theorem Inv.sampleTile (h : s.Inv cubiomes_sample_tile) (data : Tile) :
    (s.sampleTile data).Inv cubiomes_sample_tile := by
  unfold State.sampleTile
  split
  · exact h
  · next w hi =>
    have hnew : ∀ id t, s.asked id t → (⟨id, s.currentSeed, s.currentLargeBiomes, t⟩ : Request) ∈
        ⟨s.requestId + 1, s.currentSeed, s.currentLargeBiomes, data⟩ :: s.requests :=
      fun id t ht => List.mem_cons_of_mem _ ht
    refine ⟨?_, ?_, ?_, ?_⟩
    · refine forall_mem_set ?_ ?_
      · intro w hw
        obtain ⟨g, hg, hs⟩ := h.workers w hw
        exact ⟨g, hg, hs.mono hnew⟩
      · obtain ⟨g, hg, hs⟩ := h.workers w (List.mem_of_getElem? hi)
        have hs' := hs.mono hnew
        refine ⟨g, hg, ?_, hs'.loading, hs'.generator, ?_, hs'.results⟩
        · intro d hd
          rcases List.mem_append.1 hd with hd | hd
          · exact hs'.inits d hd
          · cases List.mem_singleton.1 hd
        · intro id t ht
          rcases List.mem_append.1 ht with ht | ht
          · exact hs'.tiles id t ht
          · cases List.mem_singleton.1 ht
            exact List.mem_cons_self
    · intro r hr
      rcases List.mem_cons.1 hr with rfl | hr
      · exact Nat.le_refl _
      · exact Nat.le_succ_of_le (h.ids r hr)
    · refine List.nodup_cons.2 ⟨?_, h.nodup⟩
      intro hmem
      obtain ⟨r, hr, he⟩ := List.mem_map.1 hmem
      have hle := h.ids r hr
      simp only at he
      omega
    · intro x hx
      obtain ⟨r, hr, hid, ha⟩ := h.delivered x hx
      exact ⟨r, List.mem_cons_of_mem _ hr, hid, ha⟩

theorem Inv.take (h : s.Inv cubiomes_sample_tile) (ht : s.take cubiomes_sample_tile i = some t) :
    t.Inv cubiomes_sample_tile := by
  obtain ⟨w, hi, ht⟩ := Option.bind_eq_some_iff.1 ht
  split at ht
  · cases ht
  · next data inbox hin =>
    cases ht
    apply h.set hi
    intro g hs
    refine ⟨?_, ?_, hs.generator, ?_, hs.results⟩
    · intro d hd
      exact hs.inits d (by rw [hin]; exact List.mem_cons_of_mem _ hd)
    · intro d hd
      rcases List.mem_append.1 hd with hd | hd
      · exact hs.loading d hd
      · cases List.mem_singleton.1 hd
        exact hs.inits _ (by rw [hin]; exact List.mem_cons_self)
    · intro id t ht
      exact hs.tiles id t (by rw [hin]; exact List.mem_cons_of_mem _ ht)
  · next id data inbox hin =>
    have htail : ∀ m ∈ inbox, m ∈ w.inbox := by
      rw [hin]
      exact fun m hm => List.mem_cons_of_mem _ hm
    split at ht
    · next g' hg' =>
      cases ht
      apply h.set hi
      intro g hs
      refine ⟨fun d hd => hs.inits d (htail _ hd), hs.loading, hs.generator,
        fun id t ht => hs.tiles id t (htail _ ht), ?_⟩
      intro id' pixels hp
      rcases List.mem_append.1 hp with hp | hp
      · exact hs.results id' pixels hp
      · cases List.mem_singleton.1 hp
        refine ⟨data, hs.tiles id data (by rw [hin]; exact List.mem_cons_self), ?_⟩
        rw [hs.generator g' hg']
    · cases ht
      have hset := h.set hi fun g hs => (⟨fun d hd => hs.inits d (htail _ hd), hs.loading,
        hs.generator, fun id t ht => hs.tiles id t (htail _ ht), hs.results⟩ :
          Worker.Serves cubiomes_sample_tile g s.asked { w with inbox := inbox })
      exact ⟨hset.workers, hset.ids, hset.nodup, hset.delivered⟩

theorem Inv.loaded (h : s.Inv cubiomes_sample_tile) (ht : s.loaded i = some t) :
    t.Inv cubiomes_sample_tile := by
  obtain ⟨w, hi, ht⟩ := Option.bind_eq_some_iff.1 ht
  split at ht
  · cases ht
  · next data loading hl =>
    cases ht
    apply h.set hi
    intro g hs
    have hdata : data = g := hs.loading data (by rw [hl]; exact List.mem_cons_self)
    refine ⟨hs.inits, ?_, ?_, hs.tiles, ?_⟩
    · intro d hd
      exact hs.loading d (by rw [hl]; exact List.mem_cons_of_mem _ hd)
    · intro d hd
      cases hd
      exact hdata
    · intro id pixels hp
      rcases List.mem_append.1 hp with hp | hp
      · exact hs.results id pixels hp
      · cases List.mem_singleton.1 hp

theorem Inv.receive (h : s.Inv cubiomes_sample_tile) (ht : s.receive i = some t) :
    t.Inv cubiomes_sample_tile := by
  obtain ⟨w, hi, ht⟩ := Option.bind_eq_some_iff.1 ht
  have hserves : ∀ (m : ToMain β) outbox resolved, w.outbox = m :: outbox → ∀ g,
      w.Serves cubiomes_sample_tile g s.asked →
      ({ w with outbox := outbox, resolved := resolved } : Worker β).Serves
        cubiomes_sample_tile g s.asked := by
    intro m outbox resolved hout g hs
    refine ⟨hs.inits, hs.loading, hs.generator, hs.tiles, ?_⟩
    intro id pixels hp
    exact hs.results id pixels (by rw [hout]; exact List.mem_cons_of_mem _ hp)
  split at ht
  · cases ht
  · next outbox hout =>
    cases ht
    exact (h.set hi (hserves _ outbox true hout)).settle
  · next id pixels outbox hout =>
    have hset := h.set hi (hserves _ outbox w.resolved hout)
    simp only at ht
    split at ht
    · cases ht
      refine ⟨hset.workers, hset.ids, hset.nodup, ?_⟩
      intro x hx
      rcases List.mem_cons.1 hx with rfl | hx
      · obtain ⟨g, hg, hs⟩ := h.workers w (List.mem_of_getElem? hi)
        obtain ⟨data, hasked, hpix⟩ := hs.results id pixels (by rw [hout]; exact List.mem_cons_self)
        exact ⟨_, hasked, rfl, g, hg, hpix⟩
      · exact h.delivered x hx
    · cases ht
      exact hset

theorem Inv.step (h : s.Inv cubiomes_sample_tile)
    (ht : step hardwareConcurrency cubiomes_sample_tile s e = some t) :
    t.Inv cubiomes_sample_tile := by
  cases e with
  | initCubiomes caller seed largeBiomes =>
    cases ht
    exact h.initCubiomes caller seed largeBiomes
  | sampleTile caller data =>
    simp only [Viewer.step] at ht
    split at ht
    · cases ht
      exact h.sampleTile data
    · cases ht
  | take i => exact h.take ht
  | loaded i => exact h.loaded ht
  | receive i => exact h.receive ht

def Posted (s : State β) : Event → Prop
  | .sampleTile _ _ => ∀ w, s.workers[s.nextWorker % s.workers.length]? = some w → w.ready = true
  | _ => True

instance (s : State β) : DecidablePred s.Posted
  | .sampleTile _ _ => inferInstanceAs
      (Decidable (∀ w ∈ s.workers[s.nextWorker % s.workers.length]?, w.ready = true))
  | .initCubiomes _ _ _ => isTrue trivial
  | .take _ => isTrue trivial
  | .loaded _ => isTrue trivial
  | .receive _ => isTrue trivial

/-- Tiles wait at ready workers only, and none has been discarded. -/
structure Served (s : State β) : Prop where
  tiles : ∀ w ∈ s.workers, ∀ id data, ToWorker.tile id data ∈ w.inbox → w.ready = true
  discarded : s.discarded = []

theorem Served.settle (h : s.Served) : s.settle.Served := by
  obtain ⟨hw, -, -, -, -, hd, -⟩ := s.settle_frame
  refine ⟨?_, hd.trans h.discarded⟩
  rw [hw]
  exact h.tiles

theorem Served.set (h : s.Served) (hi : s.workers[i]? = some w)
    (hin : ∀ m ∈ w'.inbox, m ∈ w.inbox) (hready : w.ready = true → w'.ready = true) :
    ({ s with workers := s.workers.set i w' } : State β).Served := by
  refine ⟨forall_mem_set h.tiles ?_, h.discarded⟩
  intro id data hm
  exact hready (h.tiles w (List.mem_of_getElem? hi) id data (hin _ hm))

theorem Served.initCubiomes (h : s.Served) (caller : Nat) (seed : List Char)
    (largeBiomes : Bool) :
    (s.initCubiomes hardwareConcurrency caller seed largeBiomes).Served := by
  unfold State.initCubiomes
  split
  · exact ⟨h.tiles, h.discarded⟩
  · simp only
    split
    · refine ⟨?_, h.discarded⟩
      intro w hw
      cases hw
    · apply Served.settle
      refine ⟨?_, h.discarded⟩
      intro w hw id data hm
      cases (List.mem_replicate.1 hw).2
      cases List.mem_singleton.1 hm

theorem Served.sampleTile (h : s.Served) (hp : s.Posted (.sampleTile caller data)) :
    (s.sampleTile data).Served := by
  unfold State.sampleTile
  split
  · exact h
  · next w hi => exact ⟨forall_mem_set h.tiles fun _ _ _ => hp w hi, h.discarded⟩

theorem Served.take (h : s.Served) (ht : s.take cubiomes_sample_tile i = some t) : t.Served := by
  obtain ⟨w, hi, ht⟩ := Option.bind_eq_some_iff.1 ht
  split at ht
  · cases ht
  · next data inbox hin =>
    cases ht
    refine h.set hi ?_ id
    rw [hin]
    exact fun m hm => List.mem_cons_of_mem _ hm
  · next id data inbox hin =>
    split at ht
    · cases ht
      refine h.set hi ?_ fun hr => hr
      rw [hin]
      exact fun m hm => List.mem_cons_of_mem _ hm
    · next hg =>
      have hr := h.tiles w (List.mem_of_getElem? hi) id data (by rw [hin]; exact List.mem_cons_self)
      rw [Worker.ready, hg] at hr
      cases hr

theorem Served.loaded (h : s.Served) (ht : s.loaded i = some t) : t.Served := by
  obtain ⟨w, hi, ht⟩ := Option.bind_eq_some_iff.1 ht
  split at ht
  · cases ht
  · cases ht
    exact h.set hi (fun m hm => hm) fun _ => rfl

theorem Served.receive (h : s.Served) (ht : s.receive i = some t) : t.Served := by
  obtain ⟨w, hi, ht⟩ := Option.bind_eq_some_iff.1 ht
  split at ht
  · cases ht
  · next outbox hout =>
    cases ht
    have hset : ({ s with
        workers := s.workers.set i { w with outbox := outbox, resolved := true } } :
            State β).Served :=
      h.set hi (fun m hm => hm) fun hr => hr
    exact hset.settle
  · next id pixels outbox hout =>
    have hset : ({ s with workers := s.workers.set i { w with outbox := outbox } } :
        State β).Served :=
      h.set hi (fun m hm => hm) fun hr => hr
    simp only at ht
    split at ht
    · cases ht
      exact ⟨hset.tiles, hset.discarded⟩
    · cases ht
      exact hset

theorem Served.step (h : s.Served) (hp : s.Posted e)
    (ht : step hardwareConcurrency cubiomes_sample_tile s e = some t) : t.Served := by
  cases e with
  | initCubiomes caller seed largeBiomes =>
    cases ht
    exact h.initCubiomes caller seed largeBiomes
  | sampleTile caller data =>
    simp only [Viewer.step] at ht
    split at ht
    · cases ht
      exact h.sampleTile hp
    · cases ht
  | take i => exact h.take ht
  | loaded i => exact h.loaded ht
  | receive i => exact h.receive ht

theorem take_unready (hi : s.workers[i]? = some w) (hr : w.generator = none)
    (hin : w.inbox = m :: ms) : ∃ t w', s.take cubiomes_sample_tile i = some t ∧
      t.workers[i]? = some w' ∧ w'.generator = none ∧ w'.inbox = ms ∧
      ∀ id data, m = .tile id data → id ∈ t.discarded := by
  have hlt : i < s.workers.length := (List.getElem?_eq_some_iff.1 hi).1
  cases m with
  | init data =>
    refine ⟨{ s with
      workers := s.workers.set i { w with inbox := ms, loading := w.loading ++ [data] } },
      { w with inbox := ms, loading := w.loading ++ [data] }, ?_, List.getElem?_set_self hlt,
        hr, rfl,
      fun _ _ he => by cases he⟩
    simp only [State.take, hi, hin, Option.bind_eq_bind, Option.bind_some]
  | tile id data =>
    refine ⟨{ s with
      workers := s.workers.set i { w with inbox := ms }, discarded := id :: s.discarded },
      { w with inbox := ms }, ?_, List.getElem?_set_self hlt, hr, rfl, ?_⟩
    · simp only [State.take, hi, hin, hr, Option.bind_eq_bind, Option.bind_some]
    · intro id' data' he
      cases he
      exact List.mem_cons_self

/-- A worker that is not ready takes the messages before a tile and discards the tile. -/
theorem exists_discard {ms : List ToWorker} {id : Nat} {data : Tile} (hi : s.workers[i]? = some w)
    (hr : w.generator = none) (hin : w.inbox = ms ++ [.tile id data]) :
    ∃ es u, exec (Viewer.step hardwareConcurrency cubiomes_sample_tile) s es = some u ∧
      id ∈ u.discarded := by
  induction ms generalizing s w with
  | nil =>
    obtain ⟨t, w', ht, -, -, -, hd⟩ := take_unready hi hr hin
    exact ⟨[.take i], t, exec_cons.2 ⟨t, ht, rfl⟩, hd id data rfl⟩
  | cons m ms ih =>
    obtain ⟨t, w', ht, hi', hr', hin', -⟩ := take_unready hi hr hin
    obtain ⟨es, u, he, hd⟩ := ih hi' hr' hin'
    exact ⟨.take i :: es, u, exec_cons.2 ⟨t, ht, he⟩, hd⟩

theorem exists_discard_of_not_posted (h : ¬ s.Posted e)
    (ht : Viewer.step hardwareConcurrency cubiomes_sample_tile s e = some t) :
    ∃ es u, exec (Viewer.step hardwareConcurrency cubiomes_sample_tile) t es = some u ∧
      t.requestId ∈ u.discarded := by
  cases e with
  | sampleTile caller data =>
    simp only [Posted, not_forall] at h
    obtain ⟨w, hi, hr⟩ := h
    simp only [Viewer.step] at ht
    split at ht
    · cases ht
      have hlt := (List.getElem?_eq_some_iff.1 hi).1
      have hgen : w.generator = none := by
        cases hg : w.generator with
        | none => rfl
        | some g => exact absurd (by rw [Worker.ready, hg]; rfl) hr
      have hset : (s.sampleTile data).workers[s.nextWorker % s.workers.length]? =
          some { w with inbox := w.inbox ++ [.tile (s.requestId + 1) data] } := by
        simp only [State.sampleTile, hi]
        exact List.getElem?_set_self hlt
      have hid : (s.sampleTile data).requestId = s.requestId + 1 := by
        simp only [State.sampleTile, hi]
      rw [hid]
      exact exists_discard hset hgen rfl
    · cases ht
  | initCubiomes => exact absurd trivial h
  | take => exact absurd trivial h
  | loaded => exact absurd trivial h
  | receive => exact absurd trivial h

end State

/-- What is delivered was computed from the seed and the biome size of its request. While every
tile is posted to a ready worker none is discarded, and a request that is not can be. -/
theorem tiles_served (hardwareConcurrency : Nat)
    (cubiomes_sample_tile : BitVec 64 → Bool → Tile → β) (es : List Event) (s : State β)
    (hrun : exec (step hardwareConcurrency cubiomes_sample_tile) .start es = some s) :
    (Along (step hardwareConcurrency cubiomes_sample_tile) State.Posted .start es →
      s.discarded = []) ∧
    (s.requests.map (·.id)).Nodup ∧
    (∀ x ∈ s.delivered, ∃ r ∈ s.requests, r.id = x.1 ∧ r.Answered cubiomes_sample_tile x.2) ∧
    ∀ e t, ¬ s.Posted e → step hardwareConcurrency cubiomes_sample_tile s e = some t →
      ∃ fs u, exec (step hardwareConcurrency cubiomes_sample_tile) t fs = some u ∧
        t.requestId ∈ u.discarded := by
  have hinv : s.Inv cubiomes_sample_tile :=
    exec_invariant (fun _ _ _ h ht => h.step ht) .start hrun
  refine ⟨?_, hinv.nodup, hinv.delivered, fun e t => State.exists_discard_of_not_posted⟩
  intro ha
  have hserved : s.Served := by
    refine ha.invariant (fun _ _ _ h hp ht => h.step hp ht) ⟨?_, rfl⟩ hrun
    intro w hw
    cases hw
  exact hserved.discarded

/-- One worker; the pixels are the seed. -/
def seedStep : State (BitVec 64) → Event → Option (State (BitVec 64)) :=
  step 2 fun seed _ _ => seed

def oneTile : List Event :=
  [.initCubiomes 0 ['7'] false, .take 0, .loaded 0, .receive 0, .sampleTile 0 ⟨0, 0, 15, 1, 2, 2⟩,
    .take 0, .receive 0]

theorem oneTile_run : exec seedStep .start oneTile = some ⟨[⟨[], [], [], some ⟨7, 0, false⟩, true⟩],
    1, 1, [], some ['7'], some false, true, none, [0],
    [⟨1, some ['7'], some false, ⟨0, 0, 15, 1, 2, 2⟩⟩], [], [(1, 7)]⟩ := by decide

theorem tiles_served_one_tile : ∃ s, exec seedStep .start oneTile = some s ∧
    s.delivered = [(1, 7)] ∧ s.discarded = [] ∧
    (∀ x ∈ s.delivered, ∃ r ∈ s.requests, r.id = x.1 ∧ r.Answered (fun seed _ _ => seed) x.2) :=
  have h := tiles_served 2 (fun seed _ _ => seed) oneTile _ oneTile_run
  ⟨_, oneTile_run, rfl, h.1 (by decide), h.2.2.1⟩

/-- A second caller with the same seed returns before the worker has loaded the module. -/
theorem tile_discarded : ∃ s, exec seedStep .start [.initCubiomes 0 ['7'] false,
    .initCubiomes 1 ['7'] false, .sampleTile 1 ⟨0, 0, 15, 1, 2, 2⟩, .take 0, .take 0] = some s ∧
    0 < numWorkers 2 ∧ s.discarded ≠ [] :=
  ⟨⟨[⟨[], [], [⟨7, 0, false⟩], none, false⟩], 1, 1, [1], some ['7'], some false, false, some 0, [1],
    [⟨1, some ['7'], some false, ⟨0, 0, 15, 1, 2, 2⟩⟩], [1], []⟩, by decide⟩

end Omission.Viewer
