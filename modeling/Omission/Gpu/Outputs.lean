import Omission.Gpu.Staged
import Omission.Gpu.Stats
import Omission.Net.Wire

namespace Omission.Gpu.Pipeline
open Omission.Lib Omission.Net
set_option autoImplicit true

variable {R : Run} {s t u : State} {l : Len} {kernel : Kernel} {rest : List Kernel}
  {origin : Bool} {es : List Event} {old : State} {ps : List Nat} {rs : List SeedPos}

/-- `final_outputs`: the stage that feeds the queue of candidates. -/
def final_outputs (origin : Bool) : Len := if origin then .origin else .filter_2 3

/-- `h_buffer`: the final records, as many as the clamped length says. -/
def h_buffer (origin : Bool) (s : State) : List SeedPos :=
  (List.range (clamp origin s.len (final_outputs origin)).toNat).map
    (s.data (final_outputs origin).buffer)

def max_seed_index (h_buffer : List SeedPos) : BitVec 32 :=
  h_buffer.foldl (fun m result => if m < result.seed_index then result.seed_index else m) 0

/-- `h_seeds`: the seeds up to the highest index, copied in one piece. -/
def h_seeds (s : State) (h_buffer : List SeedPos) : List (BitVec 64) :=
  (List.range (max_seed_index h_buffer + 1).toNat).map s.seeds

/-- What the host pushes on `outputs.queue` after a batch; `none` is a read behind `h_seeds`. -/
def push_outputs (origin : Bool) (s : State) : Option (List GpuOutput) :=
  let h_buffer := h_buffer origin s
  let h_seeds := h_seeds s h_buffer
  h_buffer.mapM fun result =>
    h_seeds[result.seed_index.toNat]?.map fun seed => ⟨seed, result.x * 4, result.z * 4⟩

/-- The seed of the batch that an event lets through `filter_seeds`. -/
def Event.passes : Event → Option Nat
  | .pass i => some i
  | _ => none

/-- The record that an event makes the running filter put out behind counter `l`. -/
def Event.emits (l : Len) (program : List Kernel) : Event → Option SeedPos
  | .emit r => if program.head?.bind Kernel.output = some l then some r else none
  | _ => none

/-- The seeds that pass `filter_seeds` in a schedule, in the order of their indices. -/
def passed (es : List Event) : List Nat := es.filterMap Event.passes

/-- The records that the filter with counter `l` puts out, in the order of their indices. -/
def emitted (l : Len) : List Kernel → List Event → List SeedPos
  | _, [] => []
  | program, e :: es =>
    (e.emits l program).toList ++ emitted l (if e = .next then program.tail else program) es

theorem le_max_seed_index (h_buffer : List SeedPos) (m : BitVec 32) :
    (m ≤ h_buffer.foldl (fun m result => if m < result.seed_index then result.seed_index else m)
        m) ∧
      ∀ r ∈ h_buffer, r.seed_index ≤
        h_buffer.foldl (fun m result => if m < result.seed_index then result.seed_index else m)
          m := by
  induction h_buffer generalizing m with
  | nil => exact ⟨BitVec.le_refl m, nofun⟩
  | cons a h_buffer ih =>
    rw [List.foldl_cons]
    have hstep : m ≤ (if m < a.seed_index then a.seed_index else m) ∧
        a.seed_index ≤ if m < a.seed_index then a.seed_index else m := by
      split
      · next hlt => exact ⟨BitVec.le_of_lt hlt, BitVec.le_refl _⟩
      · next hge => exact ⟨BitVec.le_refl m, BitVec.not_lt.1 hge⟩
    obtain ⟨hm, hall⟩ := ih (if m < a.seed_index then a.seed_index else m)
    refine ⟨BitVec.le_trans hstep.1 hm, ?_⟩
    intro r hr
    rcases List.mem_cons.1 hr with rfl | hr
    · exact BitVec.le_trans hstep.2 hm
    · exact hall r hr

theorem max_seed_index_lt {n : Nat} (hn : 0 < n) {h_buffer : List SeedPos}
    (h : ∀ r ∈ h_buffer, r.seed_index.toNat < n) : (max_seed_index h_buffer).toNat < n := by
  have hfold : ∀ m : BitVec 32, m.toNat < n → (h_buffer.foldl (fun m result =>
      if m < result.seed_index then result.seed_index else m) m).toNat < n := by
    induction h_buffer with
    | nil => exact fun _ hm => hm
    | cons a h_buffer ih =>
      intro m hm
      rw [List.foldl_cons]
      apply ih fun r hr => h r (List.mem_cons_of_mem a hr)
      split
      · exact h a List.mem_cons_self
      · exact hm
  exact hfold 0 hn

/-- Every record finds its seed in `h_seeds`. -/
theorem h_seeds_get {n : Nat} (hn : n < 2 ^ 32) {h_buffer : List SeedPos}
    (h : ∀ r ∈ h_buffer, r.seed_index.toNat < n) {r : SeedPos} (hr : r ∈ h_buffer) :
    (h_seeds s h_buffer)[r.seed_index.toNat]? = some (s.seeds r.seed_index.toNat) := by
  have hmax : (max_seed_index h_buffer).toNat < n :=
    max_seed_index_lt (Nat.zero_lt_of_lt (h r hr)) h
  have hle : r.seed_index.toNat ≤ (max_seed_index h_buffer).toNat :=
    BitVec.le_def.1 ((le_max_seed_index h_buffer 0).2 r hr)
  have hsucc : (max_seed_index h_buffer + 1).toNat = (max_seed_index h_buffer).toNat + 1 := by
    rw [BitVec.toNat_add]
    exact Nat.mod_eq_of_lt (show _ + 1 < 2 ^ 32 by omega)
  rw [h_seeds, hsucc, List.getElem?_map, List.getElem?_range (by omega)]
  rfl

/-- The schedule so far has passed the seeds `ps` and put out the final records `rs`. -/
structure Traced (R : Run) (origin : Bool) (ps : List Nat) (rs : List SeedPos) (s : State) :
    Prop where
  program : s.program <:+ batch origin
  nodup : ps.Nodup
  small : ∀ i ∈ ps, i < seeds_per_run
  taken : .filter_seeds ∈ s.program → ∀ i ∈ ps, i ∈ s.taken
  unseen : .filter_seeds ∈ s.program → s.seen = []
  seeds_len : s.len .filter_seeds = BitVec.ofNat 32 ps.length
  seed_issued : ∀ k v, .seed k v ∈ s.pending →
    ∃ i, ps[k]? = some i ∧ v = R.start_seed + BitVec.ofNat 64 i
  seed : ∀ k i, ps[k]? = some i → k < Len.filter_seeds.max_len →
    s.seeds k = R.start_seed + BitVec.ofNat 64 i ∨
      .seed k (R.start_seed + BitVec.ofNat 64 i) ∈ s.pending
  len : s.len (final_outputs origin) = BitVec.ofNat 32 rs.length
  record_issued : ∀ k r, .record (final_outputs origin) k r ∈ s.pending → rs[k]? = some r
  record : ∀ k r, rs[k]? = some r → k < (final_outputs origin).max_len →
    s.data (final_outputs origin).buffer k = r ∨ .record (final_outputs origin) k r ∈ s.pending
  alone : rs ≠ [] → ∀ k ∈ s.program, ∀ l ∈ k.output, l = final_outputs origin
  held : Held (· < ps.length) s
  index : ∀ r ∈ rs, r.seed_index.toNat < ps.length
  settled : s.program = [] → s.pending = []

theorem final_ne_seeds (origin : Bool) : final_outputs origin ≠ .filter_seeds := by
  cases origin <;> decide

theorem final_wired (origin : Bool) : ∀ p ∈ (batch origin).tails, ∀ kernel ∈ p.head?,
    (kernel.output = some (final_outputs origin) →
      ∀ k ∈ p, ∀ l ∈ k.output, l = final_outputs origin) ∧
    (.filter_seeds ∈ kernel.output → kernel = .filter_seeds) ∧
    .filter_seeds ∉ p.tail := by
  cases origin <;> decide

theorem Traced.room (h : Traced R origin ps rs s) : ps.length ≤ seeds_per_run := by
  have hsub : ps ⊆ List.range seeds_per_run := fun i hi => List.mem_range.2 (h.small i hi)
  have hle := (h.nodup.subperm hsub).length_le
  rwa [List.length_range] at hle

theorem Traced.seeds_toNat (h : Traced R origin ps rs s) :
    (s.len .filter_seeds).toNat = ps.length := by
  rw [h.seeds_len, BitVec.toNat_ofNat]
  exact Nat.mod_eq_of_lt (h.room.trans_lt (by decide))

theorem traced_start : Traced R origin [] [] (State.start origin old) where
  program := List.suffix_rfl
  nodup := List.nodup_nil
  small := nofun
  taken := nofun
  unseen := fun _ => rfl
  seeds_len := rfl
  seed_issued := nofun
  seed := nofun
  len := rfl
  record_issued := nofun
  record := nofun
  alone := fun h => absurd rfl h
  held := ⟨nofun, nofun, nofun, nofun⟩
  index := nofun
  settled := by
    intro h
    cases origin <;> cases h

theorem Traced.head_seeds (h : Traced R origin ps rs s) (hp : s.program = kernel :: rest)
    (hm : .filter_seeds ∈ s.program) : kernel = .filter_seeds := by
  have hwired := final_wired origin _ ((List.mem_tails _ _).2 h.program) kernel (mem_head hp)
  rw [hp] at hm hwired
  exact ((List.mem_cons.1 hm).resolve_right hwired.2.2).symm

theorem Traced.pass (h : Traced R origin ps rs s) (hp : s.program = .filter_seeds :: rest)
    (hi : i < seeds_per_run) (hn : i ∉ s.taken) :
    Traced R origin (ps ++ [i]) rs (State.claim { s with taken := i :: s.taken } .filter_seeds
      fun r => .seed r (R.start_seed + BitVec.ofNat 64 i)) where
  program := h.program
  nodup := by
    refine List.nodup_append.2 ⟨h.nodup, List.nodup_singleton i, ?_⟩
    intro a ha b hb hab
    rw [List.mem_singleton] at hb
    exact hn (hb ▸ hab ▸ h.taken (hp ▸ List.mem_cons_self) a ha)
  small := by
    intro j hj
    rcases List.mem_append.1 hj with hj | hj
    · exact h.small j hj
    · exact List.mem_singleton.1 hj ▸ hi
  taken := by
    intro _ j hj
    rcases List.mem_append.1 hj with hj | hj
    · exact List.mem_cons_of_mem i (h.taken (hp ▸ List.mem_cons_self) j hj)
    · exact List.mem_singleton.1 hj ▸ List.mem_cons_self
  unseen := h.unseen
  seeds_len := by
    rw [claim_len_self, List.length_append, BitVec.ofNat_add, ← h.seeds_len]
    rfl
  seed_issued := by
    intro k v hm
    rcases mem_claim.1 hm with ⟨-, he⟩ | hm
    · cases he
      refine ⟨i, ?_, rfl⟩
      rw [h.seeds_toNat, List.getElem?_concat_length]
    · obtain ⟨j, hj, hv⟩ := h.seed_issued k v hm
      exact ⟨j, List.getElem?_append_left (List.getElem?_eq_some_iff.1 hj).1 ▸ hj, hv⟩
  seed := by
    intro k j hj hk
    by_cases hlt : k < ps.length
    · rw [List.getElem?_append_left hlt] at hj
      exact (h.seed k j hj hk).imp_right fun hm => mem_claim.2 (.inr hm)
    · have hlen : k = ps.length := by
        have := (List.getElem?_eq_some_iff.1 hj).1
        rw [List.length_append, List.length_singleton] at this
        omega
      rw [hlen, List.getElem?_concat_length] at hj
      cases hj
      refine .inr (mem_claim.2 (.inl ⟨?_, ?_⟩))
      · rw [h.seeds_toNat, ← hlen]
        exact hk
      · rw [h.seeds_toNat, hlen]
  len := by
    rw [claim_len_of_ne (final_ne_seeds origin)]
    exact h.len
  record_issued := by
    intro k r hm
    rcases mem_claim.1 hm with ⟨-, he⟩ | hm
    · cases he
    · exact h.record_issued k r hm
  record := fun k r hr hk =>
    (h.record k r hr hk).imp_right fun hm => mem_claim.2 (.inr hm)
  alone := h.alone
  held := by
    refine (h.held.pass _ _).mono fun k hk => ?_
    rw [List.length_append]
    exact Nat.lt_add_right _ hk
  index := by
    intro r hr
    rw [List.length_append]
    exact Nat.lt_add_right _ (h.index r hr)
  settled := by
    intro he
    change s.program = [] at he
    rw [hp] at he
    cases he

/-- Handling an index issues stores to `results` only. -/
theorem take_pending (h : Take R s i kernel t) : s.pending ⊆ t.pending ∧
    ∀ w ∈ t.pending, w ∈ s.pending ∨ ∃ k o v, w = .octave k o v := by
  have hnew : ∀ {seed k os ws}, R.init_octaves seed k os = some ws →
      ∀ w ∈ ws ++ s.pending, w ∈ s.pending ∨ ∃ k o v, w = .octave k o v := by
    intro seed k os ws hws w hw
    rcases List.mem_append.1 hw with hw | hw
    · obtain ⟨o, -, v, -, rfl⟩ := mem_init_octaves hws hw
      exact .inr ⟨k, o, v, rfl⟩
    · exact .inl hw
  cases h with
  | init_seeds hw => exact ⟨List.subset_append_right _ _, hnew hw⟩
  | late hk hf hw => exact ⟨List.subset_append_right _ _, hnew hw⟩
  | _ => exact ⟨List.Subset.refl _, fun w hw => .inl hw⟩

theorem Traced.take (h : Traced R origin ps rs s) (hf : Fits origin s)
    (hp : s.program = kernel :: rest) (hi : i < kernel.items s)
    (ht : Take R { s with taken := i :: s.taken } i kernel t) : Traced R origin ps rs t := by
  obtain ⟨hprog, hlen, hseeds, hdata, -, htaken⟩ := take_frame ht
  obtain ⟨hsub, hnew⟩ := take_pending ht
  have hseed : kernel.input = some .filter_seeds → i < ps.length := fun hl =>
    h.seeds_toNat ▸ (items_lt h.program hf hp hl hi).1
  have hindex : ∀ l, kernel.input = some l → kernel ∉ [.filter_origin, .filter_gradvecs_1,
      .init_seeds init_octaves, .init_seeds init_octaves_full] →
      (s.data l.buffer i).seed_index.toNat < ps.length :=
    fun l hl hk => h.held.record h.program hf hp hl (not_seeds h.program hp hl hk) hi
  constructor
  case program => exact hprog ▸ h.program
  case nodup => exact h.nodup
  case small => exact h.small
  case taken =>
    intro hm j hj
    rw [htaken]
    exact List.mem_cons_of_mem i (h.taken (hprog ▸ hm) j hj)
  case unseen =>
    intro hm
    obtain rfl := h.head_seeds hp (hprog ▸ hm)
    exact absurd hi (Nat.not_lt_zero i)
  case seeds_len => exact hlen ▸ h.seeds_len
  case seed_issued =>
    intro k v hm
    rcases hnew _ hm with hm | ⟨_, _, _, he⟩
    · exact h.seed_issued k v hm
    · cases he
  case seed =>
    intro k j hj hk
    rw [hseeds]
    exact (h.seed k j hj hk).imp_right fun hm => hsub hm
  case len => exact hlen ▸ h.len
  case record_issued =>
    intro k r hm
    rcases hnew _ hm with hm | ⟨_, _, _, he⟩
    · exact h.record_issued k r hm
    · cases he
  case record =>
    intro k r hr hk
    rw [hdata]
    exact (h.record k r hr hk).imp_right fun hm => hsub hm
  case alone => exact hprog ▸ h.alone
  case held =>
    apply h.held.take ht
    cases ht with
    | filter_origin => exact Held.met (hseed rfl)
    | filter_gradvecs_1 => exact Held.met (hseed rfl)
    | filter hk => exact Held.met (hk ▸ hindex _ rfl (by simp))
    | _ => exact fun _ => .inl
  case index => exact h.index
  case settled =>
    intro he
    rw [hprog] at he
    change s.program = [] at he
    rw [hp] at he
    cases he

theorem Traced.emit (h : Traced R origin ps rs s) (hp : s.program = kernel :: rest)
    (hl : kernel.output = some l) (hr : r.seed_index.toNat ∈ s.seen)
    (hroom : (rs ++ if l = final_outputs origin then [r] else []).length ≤ 2 ^ 32) :
    Traced R origin ps (rs ++ if l = final_outputs origin then [r] else [])
      (s.claim l fun i => .record l i r) := by
  obtain ⟨hfinal, hseeds, -⟩ :=
    final_wired origin _ ((List.mem_tails _ _).2 h.program) kernel (mem_head hp)
  have hne : l ≠ .filter_seeds := by
    rintro rfl
    obtain rfl := hseeds hl
    rw [h.unseen (hp ▸ List.mem_cons_self)] at hr
    cases hr
  have hlen : l = final_outputs origin → (s.len (final_outputs origin)).toNat = rs.length := by
    intro he
    rw [if_pos he, List.length_append, List.length_singleton] at hroom
    rw [h.len, BitVec.toNat_ofNat]
    exact Nat.mod_eq_of_lt (show rs.length < 2 ^ 32 by omega)
  have hmem : ∀ {r'}, r' ∈ rs ++ (if l = final_outputs origin then [r] else []) →
      r' ∈ rs ∨ r' = r := by
    intro r' hr'
    rcases List.mem_append.1 hr' with hr' | hr'
    · exact .inl hr'
    · split at hr'
      · exact .inr (List.mem_singleton.1 hr')
      · cases hr'
  have hold : ∀ {k : Nat} {r'}, rs[k]? = some r' →
      (rs ++ if l = final_outputs origin then [r] else [])[k]? = some r' := by
    intro k r' hk
    rwa [List.getElem?_append_left (List.getElem?_eq_some_iff.1 hk).1]
  constructor
  case program => exact h.program
  case nodup => exact h.nodup
  case small => exact h.small
  case taken => exact h.taken
  case unseen => exact h.unseen
  case seeds_len =>
    rw [claim_len_of_ne hne.symm]
    exact h.seeds_len
  case seed_issued =>
    intro k v hm
    rcases mem_claim.1 hm with ⟨-, he⟩ | hm
    · cases he
    · exact h.seed_issued k v hm
  case seed =>
    intro k j hj hk
    exact (h.seed k j hj hk).imp_right fun hm => mem_claim.2 (.inr hm)
  case len =>
    by_cases he : l = final_outputs origin
    · rw [if_pos he, he, claim_len_self, List.length_append, BitVec.ofNat_add, ← h.len]
      rfl
    · rw [if_neg he, List.append_nil, claim_len_of_ne (Ne.symm he)]
      exact h.len
  case record_issued =>
    intro k r' hm
    rcases mem_claim.1 hm with ⟨-, he⟩ | hm
    · cases he
      rw [if_pos rfl, hlen rfl, List.getElem?_concat_length]
    · exact hold (h.record_issued k r' hm)
  case record =>
    intro k r' hk hk'
    by_cases hlt : k < rs.length
    · rw [List.getElem?_append_left hlt] at hk
      exact (h.record k r' hk hk').imp_right fun hm => mem_claim.2 (.inr hm)
    · by_cases he : l = final_outputs origin
      · subst he
        have heq : k = rs.length := by
          have hbound := (List.getElem?_eq_some_iff.1 hk).1
          rw [if_pos rfl, List.length_append, List.length_singleton] at hbound
          omega
        subst heq
        rw [if_pos rfl, List.getElem?_concat_length] at hk
        cases hk
        refine .inr (mem_claim.2 (.inl ⟨?_, ?_⟩))
        · rw [hlen rfl]
          exact hk'
        · rw [hlen rfl]
      · rw [if_neg he, List.append_nil] at hk
        exact absurd (List.getElem?_eq_some_iff.1 hk).1 hlt
  case alone =>
    intro hrs
    by_cases he : l = final_outputs origin
    · exact hfinal (he ▸ hl)
    · rw [if_neg he, List.append_nil] at hrs
      exact h.alone hrs
  case held => exact h.held.emit hp hl hr
  case index =>
    intro r' hr'
    rcases hmem hr' with hr' | rfl
    · exact h.index r' hr'
    · exact h.held.seen _ hr
  case settled =>
    intro he
    change s.program = [] at he
    rw [hp] at he
    cases he

theorem Traced.commit (h : Traced R origin ps rs s) (hw : s.pending.Perm (w :: ws)) :
    Traced R origin ps rs (w.apply { s with pending := ws }) := by
  have hsub : ∀ w' ∈ ws, w' ∈ s.pending := fun w' hw' => hw.mem_iff.2 (List.mem_cons_of_mem w hw')
  have hmem : w ∈ s.pending := hw.mem_iff.2 List.mem_cons_self
  have hseed : ∀ k i, ps[k]? = some i → k < Len.filter_seeds.max_len →
      (w.apply { s with pending := ws }).seeds k = R.start_seed + BitVec.ofNat 64 i ∨
        .seed k (R.start_seed + BitVec.ofNat 64 i) ∈ ws := by
    intro k i hk hk'
    by_cases hwk : ∃ v, w = .seed k v
    · obtain ⟨v, rfl⟩ := hwk
      obtain ⟨j, hj, rfl⟩ := h.seed_issued k v hmem
      cases hk.symm.trans hj
      exact .inl (Function.update_self ..)
    · have hkeep : (w.apply { s with pending := ws }).seeds k = s.seeds k := by
        cases w with
        | seed k' v =>
          exact Function.update_of_ne (by
            rintro rfl
            exact hwk ⟨v, rfl⟩) ..
        | _ => rfl
      rw [hkeep]
      refine (h.seed k i hk hk').imp_right fun hm => ?_
      exact (List.mem_cons.1 (hw.mem_iff.1 hm)).resolve_left fun he => hwk ⟨_, he.symm⟩
  have hrecord : ∀ k r, rs[k]? = some r → k < (final_outputs origin).max_len →
      (w.apply { s with pending := ws }).data (final_outputs origin).buffer k = r ∨
        .record (final_outputs origin) k r ∈ ws := by
    intro k r hk hk'
    by_cases hwk : ∃ r', w = .record (final_outputs origin) k r'
    · obtain ⟨r', rfl⟩ := hwk
      cases hk.symm.trans (h.record_issued k r' hmem)
      left
      simp only [Write.apply, Function.update_self]
    · have hkeep : (w.apply { s with pending := ws }).data (final_outputs origin).buffer k =
          s.data (final_outputs origin).buffer k := by
        cases w with
        | record l k' r' =>
          -- a store of another stage would come from a launch that is over
          have hown := h.held.own l k' r' hmem
          have hl : l = final_outputs origin := by
            cases hp : s.program with
            | nil =>
              rw [hp] at hown
              cases hown
            | cons kernel rest =>
              rw [hp] at hown
              exact h.alone (List.ne_nil_of_mem (List.mem_of_getElem? hk)) kernel
                (hp ▸ List.mem_cons_self) l hown
          subst hl
          have hkk : k ≠ k' := by
            rintro rfl
            exact hwk ⟨r', rfl⟩
          simp only [Write.apply, Function.update_self, Function.update_of_ne hkk]
        | _ => rfl
      rw [hkeep]
      refine (h.record k r hk hk').imp_right fun hm => ?_
      exact (List.mem_cons.1 (hw.mem_iff.1 hm)).resolve_left fun he => hwk ⟨_, he.symm⟩
  constructor
  case program =>
    rw [apply_program]
    exact h.program
  case nodup => exact h.nodup
  case small => exact h.small
  case taken =>
    rw [apply_program, apply_taken]
    exact h.taken
  case unseen =>
    rw [apply_program, apply_seen]
    exact h.unseen
  case seeds_len =>
    rw [apply_len]
    exact h.seeds_len
  case seed_issued =>
    intro k v hm
    rw [apply_pending] at hm
    exact h.seed_issued k v (hsub _ hm)
  case seed =>
    rw [apply_pending]
    exact hseed
  case len =>
    rw [apply_len]
    exact h.len
  case record_issued =>
    intro k r hm
    rw [apply_pending] at hm
    exact h.record_issued k r (hsub _ hm)
  case record =>
    rw [apply_pending]
    exact hrecord
  case alone =>
    rw [apply_program]
    exact h.alone
  case held => exact h.held.commit hw
  case index => exact h.index
  case settled =>
    intro he
    rw [apply_program] at he
    have hnil := h.settled he
    rw [hnil] at hmem
    cases hmem

theorem Traced.next (h : Traced R origin ps rs s) (hp : s.program = kernel :: rest)
    (hq : s.pending = []) (flags : Nat → Nat) : Traced R origin ps rs { s with
      program := rest, taken := [], seen := [], late_init_flags := flags } := by
  obtain ⟨-, -, hseeds⟩ :=
    final_wired origin _ ((List.mem_tails _ _).2 h.program) kernel (mem_head hp)
  rw [hp] at hseeds
  constructor
  case program => exact (List.suffix_cons kernel rest).trans (hp ▸ h.program)
  case nodup => exact h.nodup
  case small => exact h.small
  case taken => exact fun hm => absurd hm hseeds
  case unseen => exact fun _ => rfl
  case seeds_len => exact h.seeds_len
  case seed_issued => exact h.seed_issued
  case seed => exact h.seed
  case len => exact h.len
  case record_issued => exact h.record_issued
  case record => exact h.record
  case alone => exact fun hrs k hk => h.alone hrs k (hp ▸ List.mem_cons_of_mem kernel hk)
  case held => exact h.held.next hp hq flags
  case index => exact h.index
  case settled => exact fun _ => hq

/-- Each event extends the two traces by what it passes and what it puts out. -/
theorem Traced.step (h : Traced R origin ps rs s) (hf : Fits origin s)
    (hs : Pipeline.step R s e = some t)
    (hroom : (rs ++ (e.emits (final_outputs origin) s.program).toList).length ≤ 2 ^ 32) :
    Traced R origin (ps ++ e.passes.toList)
      (rs ++ (e.emits (final_outputs origin) s.program).toList) t := by
  cases hp : s.program with
  | nil =>
    rw [Pipeline.step, hp] at hs
    cases hs
  | cons kernel rest =>
    rw [step_running hp] at hs
    cases e with
    | pass i =>
      simp only [Kernel.step, Option.ite_none_right_eq_some, Option.some.injEq] at hs
      obtain ⟨⟨rfl, hi, hn⟩, rfl⟩ := hs
      simpa only [Event.passes, Event.emits, Option.toList_some, Option.toList_none,
        List.append_nil] using h.pass hp hi hn
    | take i =>
      simp only [Kernel.step, Option.ite_none_right_eq_some] at hs
      simpa only [Event.passes, Event.emits, Option.toList_none, List.append_nil] using
        h.take hf hp hs.1.1 (take_cases hs.2)
    | emit r =>
      cases hl : kernel.output with
      | none => simp only [Kernel.step, hl, reduceCtorEq] at hs
      | some l =>
        simp only [Kernel.step, hl, Option.ite_none_right_eq_some, Option.some.injEq] at hs
        obtain ⟨hr, rfl⟩ := hs
        have hemits : (Event.emits (final_outputs origin) s.program (.emit r)).toList =
            if l = final_outputs origin then [r] else [] := by
          simp only [Event.emits, hp, List.head?_cons, Option.bind_some, hl, Option.some.injEq]
          split <;> rfl
        rw [hemits] at hroom
        rw [← hp, hemits]
        simpa only [Event.passes, Option.toList_none, List.append_nil] using
          h.emit hp hl hr hroom
    | commit i =>
      cases hw : s.pending[i]? with
      | none => simp only [Kernel.step, hw, reduceCtorEq] at hs
      | some w =>
        simp only [Kernel.step, hw, Option.some.injEq] at hs
        cases hs
        simpa only [Event.passes, Event.emits, Option.toList_none, List.append_nil] using
          h.commit (getElem?_perm hw)
    | next =>
      simp only [Kernel.step, Option.ite_none_right_eq_some, Option.some.injEq] at hs
      obtain ⟨⟨hq, -⟩, rfl⟩ := hs
      simpa only [Event.passes, Event.emits, Option.toList_none, List.append_nil] using
        h.next hp hq _

theorem step_program (h : step R s e = some t) :
    t.program = if e = .next then s.program.tail else s.program := by
  cases hp : s.program with
  | nil =>
    rw [step, hp] at h
    cases h
  | cons kernel rest =>
    rw [step_running hp] at h
    cases e with
    | pass i =>
      simp only [Kernel.step, Option.ite_none_right_eq_some, Option.some.injEq] at h
      obtain ⟨-, rfl⟩ := h
      exact hp
    | take i =>
      simp only [Kernel.step, Option.ite_none_right_eq_some] at h
      exact (take_frame (take_cases h.2)).1.trans hp
    | emit r =>
      cases hl : kernel.output with
      | none => simp only [Kernel.step, hl, reduceCtorEq] at h
      | some l =>
        simp only [Kernel.step, hl, Option.ite_none_right_eq_some, Option.some.injEq] at h
        obtain ⟨-, rfl⟩ := h
        exact hp
    | commit i =>
      cases hw : s.pending[i]? with
      | none => simp only [Kernel.step, hw, reduceCtorEq] at h
      | some w =>
        simp only [Kernel.step, hw, Option.some.injEq] at h
        subst h
        rw [apply_program]
        exact hp
    | next =>
      simp only [Kernel.step, Option.ite_none_right_eq_some, Option.some.injEq] at h
      obtain ⟨-, rfl⟩ := h
      rfl

theorem Traced.run (h : Traced R origin ps rs s) (hs : exec (Pipeline.step R) s es = some u)
    (hf : Fits origin u)
    (hroom : (rs ++ emitted (final_outputs origin) s.program es).length ≤ 2 ^ 32) :
    Traced R origin (ps ++ passed es)
      (rs ++ emitted (final_outputs origin) s.program es) u := by
  induction es generalizing s ps rs with
  | nil =>
    cases hs
    simpa only [passed, emitted, List.filterMap_nil, List.append_nil] using h
  | cons e es ih =>
    obtain ⟨t, ht, hu⟩ := exec_cons.1 hs
    have hft : Fits origin t := exec_back (fun _ _ _ hst => Fits.back (step_move hst)) hu hf
    have hpassed : passed (e :: es) = e.passes.toList ++ passed es := by
      rw [passed, List.filterMap_cons]
      cases e.passes <;> rfl
    rw [emitted, ← step_program ht, ← List.append_assoc] at hroom ⊢
    rw [hpassed, ← List.append_assoc]
    have hfirst := (List.length_append ▸ Nat.le_add_right _ _).trans hroom
    exact ih (h.step (Fits.back (step_move ht) hft) ht hfirst) hu hroom

theorem clamp_final (origin : Bool) (lens : Len → BitVec 32) :
    (clamp origin lens (final_outputs origin)).toNat =
      min (lens (final_outputs origin)).toNat (final_outputs origin).max_len := by
  have hmin : ∀ (a : BitVec 32) (n : Nat), n < 2 ^ 32 →
      (std_min a (BitVec.ofNat 32 n)).toNat = min a.toNat n := by
    intro a n hn
    have hb : (BitVec.ofNat 32 n).toNat = n := (BitVec.toNat_ofNat n 32).trans (Nat.mod_eq_of_lt hn)
    unfold std_min
    split
    · next hlt =>
      have := BitVec.lt_def.1 hlt
      omega
    · next hge =>
      have := BitVec.le_def.1 (BitVec.not_lt.1 hge)
      omega
  cases origin with
  | false => exact hmin _ _ (by decide)
  | true => exact hmin _ _ (by decide)

theorem Traced.h_buffer (h : Traced R origin ps rs s) (hdone : s.program = [])
    (hroom : rs.length < 2 ^ 32) :
    Pipeline.h_buffer origin s = rs.take (final_outputs origin).max_len := by
  have hlen : (s.len (final_outputs origin)).toNat = rs.length := by
    rw [h.len, BitVec.toNat_ofNat]
    exact Nat.mod_eq_of_lt hroom
  apply List.ext_getElem?
  intro k
  rw [Pipeline.h_buffer, clamp_final, hlen, List.getElem?_map, List.getElem?_take]
  by_cases hk : k < min rs.length (final_outputs origin).max_len
  · have hmax : k < (final_outputs origin).max_len := hk.trans_le (Nat.min_le_right ..)
    have hrs := List.getElem?_eq_getElem (hk.trans_le (Nat.min_le_left ..))
    rw [List.getElem?_range hk, if_pos hmax, hrs]
    rcases h.record k _ hrs hmax with hdata | hm
    · exact congrArg some hdata
    · rw [h.settled hdone] at hm
      cases hm
  · rw [List.getElem?_eq_none (by rw [List.length_range]; exact Nat.not_lt.1 hk)]
    split
    · next hmax =>
      rw [List.getElem?_eq_none (by omega)]
      rfl
    · rfl

theorem traced_batch (h : exec (step R) (State.start origin old) es = some u)
    (hfit : ∀ l ∈ consumed origin, passing l (batch origin) es ≤ l.max_len)
    (hfinal : (emitted (final_outputs origin) (batch origin) es).length < 2 ^ 32) :
    Fits origin u ∧
      Traced R origin (passed es) (emitted (final_outputs origin) (batch origin) es) u := by
  have hlens := batch_counters h
  have hfits : Fits origin u := by
    intro l hl _
    rw [hlens, counters, BitVec.toNat_ofNat]
    exact (Nat.mod_le _ _).trans (hfit l hl)
  have hrun := traced_start.run h hfits hfinal.le
  rw [List.nil_append, List.nil_append] at hrun
  exact ⟨hfits, hrun⟩

theorem Traced.push_outputs_eq (h : Traced R origin ps rs s) (hdone : s.program = [])
    (hroom : rs.length < 2 ^ 32) : push_outputs origin s =
      some ((rs.take (final_outputs origin).max_len).map fun r =>
        ⟨s.seeds r.seed_index.toNat, r.x * 4, r.z * 4⟩) := by
  rw [push_outputs, h.h_buffer hdone hroom]
  apply mapM_eq_some_map
  intro r hr
  have hindex : ∀ r ∈ rs.take (final_outputs origin).max_len, r.seed_index.toNat < ps.length :=
    fun r hr => h.index r (List.mem_of_mem_take hr)
  rw [h_seeds_get (h.room.trans_lt (by decide)) hindex hr]
  rfl

/-- The seed of a record is one that has passed. -/
theorem Traced.seed_of_record (h : Traced R origin ps rs s) (hfits : Fits origin s)
    (hdone : s.program = []) (hr : r ∈ rs) : ∃ i, ps[r.seed_index.toNat]? = some i ∧
      s.seeds r.seed_index.toNat = R.start_seed + BitVec.ofNat 64 i := by
  have hk := h.index r hr
  have hcount : ps.length ≤ Len.filter_seeds.max_len := by
    rw [← h.seeds_toNat]
    exact hfits .filter_seeds (by cases origin <;> decide) (by rw [hdone]; nofun)
  refine ⟨_, List.getElem?_eq_getElem hk, ?_⟩
  rcases h.seed _ _ (List.getElem?_eq_getElem hk) (hk.trans_le hcount) with hs | hm
  · exact hs
  · rw [h.settled hdone] at hm
    cases hm

/-- What a finished batch pushes are the records of its last filter in the order of their
indices, as many as the buffer holds, each with the seed of the batch that it was found for. -/
theorem batch_pushes (h : exec (step R) (State.start origin old) es = some u)
    (hu : u.program = [])
    (hfit : ∀ l ∈ consumed origin, passing l (batch origin) es ≤ l.max_len)
    (hfinal : (emitted (final_outputs origin) (batch origin) es).length < 2 ^ 32) :
    (passed es).Nodup ∧ (∀ i ∈ passed es, i < seeds_per_run) ∧
    push_outputs origin u = some (((emitted (final_outputs origin) (batch origin) es).take
      (final_outputs origin).max_len).map fun r =>
        ⟨u.seeds r.seed_index.toNat, r.x * 4, r.z * 4⟩) ∧
    ∀ r ∈ emitted (final_outputs origin) (batch origin) es, ∃ i,
      (passed es)[r.seed_index.toNat]? = some i ∧
        u.seeds r.seed_index.toNat = R.start_seed + BitVec.ofNat 64 i := by
  obtain ⟨hfits, htraced⟩ := traced_batch h hfit hfinal
  exact ⟨htraced.nodup, htraced.small, htraced.push_outputs_eq hu hfinal,
    fun r hr => htraced.seed_of_record hfits hu hr⟩

theorem batch_pushes_two_seeds : ∃ u,
    exec (step ⟨1000, false, 5⟩) (State.start false State.zero)
      ((batch false).flatMap Kernel.two_seeds) = some u ∧
    push_outputs false u = some [⟨1005, 400, -28⟩, ⟨1003, 12, 16⟩, ⟨1003, 32, 16⟩] := by
  obtain ⟨u, hu, hdone⟩ := two_seeds_run
  obtain ⟨-, -, hpush, hseed⟩ := batch_pushes hu hdone (by decide +kernel) (by decide +kernel)
  have hout : emitted (final_outputs false) (batch false)
      ((batch false).flatMap Kernel.two_seeds) = found_records := by
    decide +kernel
  have hpassed : passed ((batch false).flatMap Kernel.two_seeds) = [5, 3] := by decide +kernel
  rw [hout] at hpush hseed
  rw [hpassed] at hseed
  have hfirst : u.seeds 0 = 1005 := by
    obtain ⟨i, hi, hs⟩ := hseed _ List.mem_cons_self
    cases hi
    exact hs
  have hsecond : u.seeds 1 = 1003 := by
    obtain ⟨i, hi, hs⟩ := hseed _ (List.mem_cons_of_mem _ List.mem_cons_self)
    cases hi
    exact hs
  refine ⟨u, hu, hpush.trans ?_⟩
  rw [List.take_of_length_le (by decide)]
  change some [(⟨u.seeds 0, _, _⟩ : Net.GpuOutput), ⟨u.seeds 1, _, _⟩, ⟨u.seeds 1, _, _⟩] = _
  rw [hfirst, hsecond]
  rfl

end Omission.Gpu.Pipeline
