import Mathlib.Algebra.Order.BigOperators.Group.Finset
import Mathlib.Data.Fintype.Basic
import Mathlib.Data.List.FinRange
import Mathlib.Data.List.Perm.Subperm
import Mathlib.Logic.Function.Basic
import Omission.Lib.Machine

namespace Omission.Gpu
open Omission.Lib
set_option autoImplicit true

/-- What a thread submits in its call number `call`. -/
structure GpuReportSnapshot (N : Nat) where
  thread : Fin N
  call : Nat
deriving DecidableEq

/-- Where a thread is in `submit`; `unlocked` is before the copy of `print_combined`. -/
inductive SubmitPhase (N : Nat) where
  | outside
  | asleep (my_generation : BitVec 64)
  | awake (my_generation : BitVec 64)
  | unlocked
  | copied (sorted : List (GpuReportSnapshot N))
  | printed
deriving DecidableEq

/-- The aggregator, its threads, and what the run has printed and cleared so far. -/
structure GlobalReportAggregator (N : Nat) where
  snapshots : List (GpuReportSnapshot N)
  generation : BitVec 64
  printing : Bool
  phase : Fin N → SubmitPhase N
  /-- how often each thread has called `submit` -/
  calls : Fin N → Nat
  reports : List (List (GpuReportSnapshot N))
  cleared : List (GpuReportSnapshot N)

inductive SubmitEvent (N : Nat) where
  /-- thread `k` calls `submit`, up to where it sleeps or unlocks -/
  | push (k : Fin N)
  /-- a spurious wake-up -/
  | wake (k : Fin N)
  /-- a thread that is awake has the mutex again -/
  | recheck (k : Fin N)
  | copy (k : Fin N) (sorted : List (GpuReportSnapshot N))
  | print (k : Fin N)
  | finish (k : Fin N)
deriving DecidableEq

/-- `notify_all` -/
def SubmitPhase.notified : SubmitPhase N → SubmitPhase N
  | .asleep my_generation => .awake my_generation
  | p => p

namespace GlobalReportAggregator

def start : GlobalReportAggregator N := ⟨[], 0, false, fun _ => .outside, fun _ => 0, [], []⟩

def enter (s : GlobalReportAggregator N) (k : Fin N) (p : SubmitPhase N) :
    GlobalReportAggregator N :=
  { s with phase := Function.update s.phase k p }

/-- `submit` with `expected_count = N`, up to where it gives the mutex away. -/
def push (s : GlobalReportAggregator N) (k : Fin N) : GlobalReportAggregator N :=
  let s : GlobalReportAggregator N := { s with
    snapshots := s.snapshots ++ [⟨k, s.calls k⟩]
    calls := Function.update s.calls k (s.calls k + 1) }
  if s.snapshots.length < N then s.enter k (.asleep s.generation)
  else ({ s with printing := true } : GlobalReportAggregator N).enter k .unlocked

/-- The print in `print_combined`, which returns before it where nothing has been copied. -/
def print (s : GlobalReportAggregator N) (sorted : List (GpuReportSnapshot N)) :
    GlobalReportAggregator N :=
  { s with reports := if sorted = [] then s.reports else s.reports ++ [sorted] }

/-- The rest of `submit` behind `print_combined`. -/
def finish (s : GlobalReportAggregator N) (k : Fin N) : GlobalReportAggregator N :=
  { s with
    snapshots := []
    printing := false
    generation := s.generation + 1
    phase := fun j => if j = k then .outside else (s.phase j).notified
    cleared := s.cleared ++ s.snapshots }

/-- The order that `std::sort` leaves equal devices in is not specified. -/
def step (device : Fin N → Int) (s : GlobalReportAggregator N) :
    SubmitEvent N → Option (GlobalReportAggregator N)
  | .push k => if s.phase k = .outside then some (s.push k) else none
  | .wake k =>
    match s.phase k with
    | .asleep my_generation => some (s.enter k (.awake my_generation))
    | _ => none
  | .recheck k =>
    match s.phase k with
    | .awake my_generation =>
      some (s.enter k (if s.generation ≠ my_generation then .outside else .asleep my_generation))
    | _ => none
  | .copy k sorted =>
    if s.phase k = .unlocked ∧ sorted.Perm s.snapshots ∧
        sorted.Pairwise (fun a b => device a.thread ≤ device b.thread) then
      some (s.enter k (.copied sorted))
    else none
  | .print k =>
    match s.phase k with
    | .copied sorted => some ((s.print sorted).enter k .printed)
    | _ => none
  | .finish k => if s.phase k = .printed then some (s.finish k) else none

end GlobalReportAggregator

variable {N r : Nat} {calls : Fin N → Nat} {snapshots sorted : List (GpuReportSnapshot N)}
  {k : Fin N}

/-- One snapshot of every thread, all from its call number `i`. -/
def full_report (N i : Nat) : List (GpuReportSnapshot N) := (List.finRange N).map fun k => ⟨k, i⟩

theorem mem_full_report {x : GpuReportSnapshot N} : x ∈ full_report N i ↔ x.call = i := by
  obtain ⟨k, j⟩ := x
  simp only [full_report, List.mem_map, List.mem_finRange, true_and, GpuReportSnapshot.mk.injEq]
  constructor
  · rintro ⟨k', -, rfl⟩
    rfl
  · rintro rfl
    exact ⟨k, rfl, rfl⟩

theorem length_full_report (N i : Nat) : (full_report N i).length = N := by
  rw [full_report, List.length_map, List.length_finRange]

theorem nodup_full_report (N i : Nat) : (full_report N i).Nodup := by
  apply (List.nodup_finRange N).map
  intro k k' he
  exact (GpuReportSnapshot.mk.inj he).1

/-- The vector holds the snapshots of the threads that have arrived in round `r`. -/
structure Arrived (r : Nat) (calls : Fin N → Nat) (snapshots : List (GpuReportSnapshot N)) :
    Prop where
  nodup : snapshots.Nodup
  mem : ∀ x, x ∈ snapshots ↔ x.call = r ∧ calls x.thread = r + 1

namespace Arrived

theorem subperm (h : Arrived r calls snapshots) : snapshots.Subperm (full_report N r) := by
  apply List.subperm_of_subset h.nodup
  intro x hx
  exact mem_full_report.2 ((h.mem x).1 hx).1

theorem length_le (h : Arrived r calls snapshots) : snapshots.length ≤ N :=
  h.subperm.length_le.trans_eq (length_full_report N r)

theorem perm_of_all (h : Arrived r calls snapshots) (hall : ∀ k, calls k = r + 1) :
    snapshots.Perm (full_report N r) := by
  apply (List.perm_ext_iff_of_nodup h.nodup (nodup_full_report N r)).2
  intro x
  rw [h.mem, mem_full_report]
  exact and_iff_left (hall x.thread)

theorem all_of_length (h : Arrived r calls snapshots) (hlen : N ≤ snapshots.length) (k : Fin N) :
    calls k = r + 1 := by
  have hperm := h.subperm.perm_of_length_le ((length_full_report N r).trans_le hlen)
  exact ((h.mem ⟨k, r⟩).1 (hperm.mem_iff.2 (mem_full_report.2 rfl))).2

theorem push (h : Arrived r calls snapshots) (hk : calls k = r) :
    Arrived r (Function.update calls k (calls k + 1)) (snapshots ++ [⟨k, calls k⟩]) := by
  have hnew : ∀ x : GpuReportSnapshot N, x ∈ snapshots → x ≠ ⟨k, calls k⟩ := by
    rintro x hx rfl
    have harrived := ((h.mem _).1 hx).2
    dsimp only at harrived
    omega
  refine ⟨?_, fun x => ?_⟩
  · apply h.nodup.append (List.nodup_singleton _)
    intro x hx hx'
    exact hnew x hx (List.mem_singleton.1 hx')
  · obtain ⟨j, i⟩ := x
    rw [List.mem_append, List.mem_singleton, h.mem]
    by_cases hj : j = k
    · subst hj
      rw [Function.update_self, GpuReportSnapshot.mk.injEq, hk]
      dsimp only
      omega
    · rw [Function.update_of_ne hj, GpuReportSnapshot.mk.injEq]
      simp only [hj, false_and, or_false]

theorem nil (hcalls : ∀ k, calls k = r) : Arrived r calls [] := by
  refine ⟨List.nodup_nil, fun x => ?_⟩
  rw [hcalls]
  simp only [List.not_mem_nil, false_iff]
  omega

end Arrived

namespace SubmitPhase

def Prints : SubmitPhase N → Prop
  | .unlocked | .copied _ | .printed => True
  | _ => False

/-- What a thread in `p` has called, and the generation it waits for. -/
def Fits (generation : BitVec 64) (r calls : Nat) : SubmitPhase N → Prop
  | .outside => calls = r
  | .asleep my_generation => my_generation = generation ∧ calls = r + 1
  | .awake my_generation => calls = if my_generation = generation then r + 1 else r
  | _ => calls = r + 1

/-- The steps that the thread can still take in the round, if it is not woken spuriously. -/
def work (generation : BitVec 64) : SubmitPhase N → Nat
  | .outside => 4
  | .asleep _ => 0
  | .awake my_generation => if my_generation = generation then 0 else 5
  | .unlocked => 3
  | .copied _ => 2
  | .printed => 1

/-- The thread can go on in `submit`, or call it. -/
def Ready (generation : BitVec 64) : SubmitPhase N → Prop
  | .asleep _ => False
  | .awake my_generation => my_generation ≠ generation
  | _ => True

theorem Fits.calls_le {p : SubmitPhase N} {c : Nat} (h : p.Fits generation r c) : c ≤ r + 1 := by
  cases p with
  | outside => exact h.trans_le (Nat.le_succ r)
  | asleep my_generation => exact h.2.le
  | awake my_generation =>
    change c = if my_generation = generation then r + 1 else r at h
    split at h <;> omega
  | unlocked | copied sorted | printed => exact Nat.le_of_eq h

theorem generation_ne (generation : BitVec 64) : generation ≠ generation + 1 := by
  intro he
  have hnat := congrArg BitVec.toNat he
  rw [BitVec.toNat_add] at hnat
  have hlt := generation.isLt
  change generation.toNat = (generation.toNat + 1) % 2 ^ 64 at hnat
  omega

/-- `notify_all` behind the increment lets all waiting threads return. -/
theorem Fits.notified {p : SubmitPhase N} (h : p.Fits generation r (r + 1)) (hp : ¬ p.Prints) :
    p.notified.Fits (generation + 1) (r + 1) (r + 1) := by
  cases p with
  | outside => rfl
  | asleep my_generation =>
    obtain ⟨rfl, -⟩ := h
    change r + 1 = if my_generation = my_generation + 1 then r + 1 + 1 else r + 1
    rw [if_neg (generation_ne my_generation)]
  | awake my_generation =>
    change r + 1 = if my_generation = generation then r + 1 else r at h
    change r + 1 = if my_generation = generation + 1 then r + 1 + 1 else r + 1
    by_cases he : my_generation = generation
    · subst he
      rw [if_neg (generation_ne my_generation)]
    · rw [if_neg he] at h
      omega
  | unlocked => exact absurd trivial hp
  | copied sorted => exact absurd trivial hp
  | printed => exact absurd trivial hp

theorem prints_notified (p : SubmitPhase N) : p.notified.Prints ↔ p.Prints := by
  cases p <;> rfl

end SubmitPhase

/-- Report `i` is that of the calls number `i`; that of round `r` is there once it is printed. -/
structure Reported (r : Nat) (phase : Fin N → SubmitPhase N)
    (reports : List (List (GpuReportSnapshot N))) : Prop where
  perm : ∀ (i : Nat) (report : List (GpuReportSnapshot N)), reports[i]? = some report →
    report.Perm (full_report N i)
  printed : ∀ k, phase k = .printed → reports.length = r + 1
  pending : (∀ k, phase k ≠ .printed) → reports.length = r

namespace Reported

variable {phase : Fin N → SubmitPhase N} {reports : List (List (GpuReportSnapshot N))}
  {p : SubmitPhase N}

theorem enter (h : Reported r phase reports) (hold : phase k ≠ .printed) (hnew : p ≠ .printed) :
    Reported r (Function.update phase k p) reports := by
  have hphase : ∀ j, Function.update phase k p j = .printed ↔ phase j = .printed :=
    (Function.forall_update_iff phase fun j q => q = .printed ↔ phase j = .printed).2
      ⟨iff_of_false hnew hold, fun j _ => Iff.rfl⟩
  exact ⟨h.perm, fun j hj => h.printed j ((hphase j).1 hj),
    fun hno => h.pending fun j hj => hno j ((hphase j).2 hj)⟩

theorem print (h : Reported r phase reports) (hno : ∀ k, phase k ≠ .printed)
    (hsorted : sorted.Perm (full_report N r)) :
    Reported r (Function.update phase k .printed) (reports ++ [sorted]) := by
  have hlen := h.pending hno
  refine ⟨fun i report hi => ?_, fun _ _ => ?_, fun hno' => ?_⟩
  · by_cases hlt : i < reports.length
    · rw [List.getElem?_append_left hlt] at hi
      exact h.perm i report hi
    · have hle := (List.getElem?_eq_some_iff.1 hi).1
      rw [List.length_append, List.length_singleton] at hle
      obtain rfl : i = r := by omega
      rw [← hlen, List.getElem?_concat_length] at hi
      cases hi
      exact hsorted
  · rw [List.length_append, hlen, List.length_singleton]
  · exact absurd (Function.update_self k _ phase) (hno' k)

end Reported

namespace GlobalReportAggregator

/-- The state in round `r`: a thread that has arrived has called `submit` `r + 1` times. -/
structure Inv (r : Nat) (s : GlobalReportAggregator N) : Prop where
  arrived : Arrived r s.calls s.snapshots
  phases : ∀ k, (s.phase k).Fits s.generation r (s.calls k)
  full : ∀ k, (s.phase k).Prints → ∀ j, s.calls j = r + 1
  single : ∀ j k, (s.phase j).Prints → (s.phase k).Prints → j = k
  lead : 0 < N → (∀ k, s.calls k = r + 1) → ∃ k, (s.phase k).Prints
  copied : ∀ k sorted, s.phase k = .copied sorted → sorted.Perm (full_report N r)
  reported : Reported r s.phase s.reports
  cleared : ∀ x ∈ s.cleared, x.call < r

namespace Inv

variable {device : Fin N → Int} {s t : GlobalReportAggregator N} {p q : SubmitPhase N}
  {reports : List (List (GpuReportSnapshot N))}

theorem start : Inv (N := N) 0 .start := by
  refine ⟨.nil fun _ => rfl, fun _ => rfl, ?_, ?_, ?_, ?_, ?_, ?_⟩
  · intro k hk
    exact hk.elim
  · intro j k hj
    exact hj.elim
  · intro hN hall
    exact absurd (hall ⟨0, hN⟩) (Nat.zero_ne_add_one 0)
  · intro k sorted hk
    cases hk
  · refine ⟨?_, ?_, fun _ => rfl⟩
    · intro i report hi
      cases hi
    · intro k hk
      cases hk
  · intro x hx
    cases hx

theorem copied_update (h : Inv r s)
    (hcopied : ∀ sorted, p = .copied sorted → sorted.Perm (full_report N r)) :
    ∀ j sorted, Function.update s.phase k p j = .copied sorted → sorted.Perm (full_report N r) :=
  (Function.forall_update_iff s.phase fun _ q =>
    ∀ sorted, q = .copied sorted → sorted.Perm (full_report N r)).2
      ⟨hcopied, fun j _ => h.copied j⟩

/-- A step of one thread inside of its round. -/
theorem enter (h : Inv r s) (hfits : p.Fits s.generation r (s.calls k))
    (hprints : p.Prints ↔ (s.phase k).Prints)
    (hcopied : ∀ sorted, p = .copied sorted → sorted.Perm (full_report N r))
    (hreported : Reported r (Function.update s.phase k p) reports) :
    Inv r (({ s with reports := reports } : GlobalReportAggregator N).enter k p) := by
  have hphases : ∀ j, (Function.update s.phase k p j).Fits s.generation r (s.calls j) :=
    (Function.forall_update_iff s.phase fun j q => q.Fits s.generation r (s.calls j)).2
      ⟨hfits, fun j _ => h.phases j⟩
  have hupdate : ∀ j, (Function.update s.phase k p j).Prints ↔ (s.phase j).Prints :=
    (Function.forall_update_iff s.phase fun j q => q.Prints ↔ (s.phase j).Prints).2
      ⟨hprints, fun j _ => Iff.rfl⟩
  refine ⟨h.arrived, hphases, fun j hj => h.full j ((hupdate j).1 hj),
    fun i j hi hj => h.single i j ((hupdate i).1 hi) ((hupdate j).1 hj), fun hN hall => ?_,
    h.copied_update hcopied, hreported, h.cleared⟩
  obtain ⟨j, hj⟩ := h.lead hN hall
  exact ⟨j, (hupdate j).2 hj⟩

theorem calls_eq (h : Inv r s) (hk : s.phase k = .outside) : s.calls k = r := by
  have hfits := h.phases k
  rw [hk] at hfits
  exact hfits

/-- Nobody prints while a thread has not arrived. -/
theorem not_prints (h : Inv r s) (hk : s.calls k = r) (j : Fin N) : ¬ (s.phase j).Prints := by
  intro hj
  have hfull := h.full j hj k
  omega

/-- The thread that arrives goes on to print exactly if it is the last one. -/
theorem arrive (h : Inv r s) (hk : s.phase k = .outside) (p : SubmitPhase N)
    (hfits : p.Fits s.generation r (r + 1))
    (hprints : p.Prints ↔ N ≤ (s.snapshots ++ [(⟨k, s.calls k⟩ : GpuReportSnapshot N)]).length)
    (hcopied : ∀ sorted, p ≠ .copied sorted) (hprinted : p ≠ .printed) (printing : Bool) :
    Inv r (({ s with
      snapshots := s.snapshots ++ [⟨k, s.calls k⟩]
      calls := Function.update s.calls k (s.calls k + 1)
      printing := printing } : GlobalReportAggregator N).enter k p) := by
  have hcalls := h.calls_eq hk
  have hquiet := h.not_prints hcalls
  have harrived := h.arrived.push hcalls
  have hphases : ∀ j, (Function.update s.phase k p j).Fits s.generation r
      (Function.update s.calls k (s.calls k + 1) j) := by
    intro j
    by_cases hj : j = k
    · subst hj
      rw [Function.update_self, Function.update_self, hcalls]
      exact hfits
    · rw [Function.update_of_ne hj, Function.update_of_ne hj]
      exact h.phases j
  have hlast : ∀ j, (Function.update s.phase k p j).Prints → j = k ∧ p.Prints :=
    (Function.forall_update_iff s.phase fun j q => q.Prints → j = k ∧ p.Prints).2
      ⟨fun hp => ⟨rfl, hp⟩, fun j _ hj => absurd hj (hquiet j)⟩
  have hreported : Reported r (Function.update s.phase k p) s.reports :=
    h.reported.enter (by rw [hk]; nofun) hprinted
  refine ⟨harrived, hphases, fun j hj => ?_, fun i j hi hj => ?_, fun _ hall => ⟨k, ?_⟩,
    h.copied_update fun sorted he => absurd he (hcopied sorted), hreported, h.cleared⟩
  · exact harrived.all_of_length (hprints.1 (hlast j hj).2)
  · exact (hlast i hi).1.trans (hlast j hj).1.symm
  · have hlen := (harrived.perm_of_all hall).length_eq
    rw [length_full_report] at hlen
    dsimp only [GlobalReportAggregator.enter]
    rw [Function.update_self]
    exact hprints.2 hlen.ge

theorem push (h : Inv r s) (hk : s.phase k = .outside) : Inv r (s.push k) := by
  rw [GlobalReportAggregator.push]
  dsimp only
  split
  case isTrue hlen =>
    exact h.arrive hk (.asleep s.generation) ⟨rfl, rfl⟩
      (iff_of_false id (Nat.not_le_of_lt hlen)) nofun nofun s.printing
  case isFalse hlen =>
    exact h.arrive hk .unlocked rfl (iff_of_true trivial (Nat.le_of_not_lt hlen)) nofun nofun true

/-- The clearing of the vector ends the round. -/
theorem finish (h : Inv r s) (hk : s.phase k = .printed) : Inv (r + 1) (s.finish k) := by
  have hprints : (s.phase k).Prints := by
    rw [hk]
    trivial
  have hfull := h.full k hprints
  have hothers : ∀ j, j ≠ k → ¬ (s.phase j).Prints := fun j hj hp => hj (h.single j k hp hprints)
  have hquiet : ∀ j, ¬ ((s.finish k).phase j).Prints := by
    intro j hj
    dsimp only [GlobalReportAggregator.finish] at hj
    by_cases hjk : j = k
    · rw [if_pos hjk] at hj
      exact hj
    · rw [if_neg hjk, SubmitPhase.prints_notified] at hj
      exact hothers j hjk hj
  refine ⟨.nil hfull, fun j => ?_, fun j hj => absurd hj (hquiet j),
    fun i j hi => absurd hi (hquiet i), fun _ hall => ?_, fun j sorted hj => ?_, ?_, ?_⟩
  · dsimp only [GlobalReportAggregator.finish]
    by_cases hjk : j = k
    · rw [if_pos hjk]
      exact hfull j
    · have hfits := h.phases j
      rw [hfull j] at hfits
      rw [if_neg hjk, hfull j]
      exact hfits.notified (hothers j hjk)
  · have hcalls := (hall k).symm.trans (hfull k)
    omega
  · refine absurd ?_ (hquiet j)
    rw [hj]
    trivial
  · refine ⟨h.reported.perm, fun j hj => ?_, fun _ => h.reported.printed k hk⟩
    refine absurd ?_ (hquiet j)
    rw [hj]
    trivial
  · intro x hx
    rcases List.mem_append.1 hx with hx | hx
    · exact (h.cleared x hx).trans (Nat.lt_succ_self r)
    · rw [((h.arrived.mem x).1 hx).1]
      exact Nat.lt_succ_self r

/-- A step in which a thread neither arrives nor prints. -/
theorem pass (h : Inv r s) (hk : s.phase k = q)
    (hfits : q.Fits s.generation r (s.calls k) → p.Fits s.generation r (s.calls k))
    (hprints : p.Prints ↔ q.Prints)
    (hcopied : ∀ sorted, p = .copied sorted → sorted.Perm (full_report N r))
    (hq : q ≠ .printed) (hp : p ≠ .printed) : Inv r (s.enter k p) := by
  subst hk
  exact h.enter (hfits (h.phases k)) hprints hcopied (h.reported.enter hq hp)

theorem wake (h : Inv r s) (hk : s.phase k = .asleep my_generation) :
    Inv r (s.enter k (.awake my_generation)) := by
  refine h.pass hk ?_ Iff.rfl nofun nofun nofun
  rintro ⟨rfl, hcalls⟩
  exact hcalls.trans (if_pos rfl).symm

theorem recheck (h : Inv r s) (hk : s.phase k = .awake my_generation) :
    Inv r (s.enter k
      (if s.generation ≠ my_generation then .outside else .asleep my_generation)) := by
  by_cases he : my_generation = s.generation
  · rw [if_neg (not_not.2 he.symm)]
    refine h.pass hk (fun hcalls => ⟨he, ?_⟩) Iff.rfl nofun nofun nofun
    exact hcalls.trans (if_pos he)
  · rw [if_pos (Ne.symm he)]
    exact h.pass hk (fun hcalls => hcalls.trans (if_neg he)) Iff.rfl nofun nofun nofun

theorem all_of_prints (h : Inv r s) (hk : s.phase k = p) (hp : p.Prints) (j : Fin N) :
    s.calls j = r + 1 := by
  subst hk
  exact h.full k hp j

theorem copy (h : Inv r s) (hk : s.phase k = .unlocked) (hsorted : sorted.Perm s.snapshots) :
    Inv r (s.enter k (.copied sorted)) := by
  refine h.pass hk id Iff.rfl ?_ nofun nofun
  rintro _ ⟨rfl⟩
  exact hsorted.trans (h.arrived.perm_of_all (h.all_of_prints hk trivial))

theorem print (h : Inv r s) (hk : s.phase k = .copied sorted) :
    Inv r ((s.print sorted).enter k .printed) := by
  have hprints : (s.phase k).Prints := by
    rw [hk]
    trivial
  have hsorted := h.copied k sorted hk
  have hne : sorted ≠ [] := by
    rintro rfl
    exact List.not_mem_nil (hsorted.mem_iff.2 (mem_full_report (x := ⟨k, r⟩).2 rfl))
  have hunprinted : ∀ j, s.phase j ≠ .printed := by
    intro j hj
    have hjk : j = k := by
      apply h.single j k _ hprints
      rw [hj]
      trivial
    rw [hjk, hk] at hj
    cases hj
  rw [GlobalReportAggregator.print, if_neg hne]
  exact h.enter (h.full k hprints k) (iff_of_true trivial hprints) nofun
    (h.reported.print hunprinted hsorted)

theorem step (h : Inv r s) (e : SubmitEvent N) (hs : s.step device e = some t) :
    ∃ r', Inv r' t := by
  cases e with
  | push k =>
    obtain ⟨hk, hs⟩ := Option.ite_none_right_eq_some.1 hs
    cases hs
    exact ⟨r, h.push hk⟩
  | wake k =>
    simp only [GlobalReportAggregator.step] at hs
    split at hs
    case h_1 my_generation hk =>
      cases hs
      exact ⟨r, h.wake hk⟩
    case h_2 => cases hs
  | recheck k =>
    simp only [GlobalReportAggregator.step] at hs
    split at hs
    case h_1 my_generation hk =>
      cases hs
      exact ⟨r, h.recheck hk⟩
    case h_2 => cases hs
  | copy k sorted =>
    obtain ⟨⟨hk, hperm, -⟩, hs⟩ := Option.ite_none_right_eq_some.1 hs
    cases hs
    exact ⟨r, h.copy hk hperm⟩
  | print k =>
    simp only [GlobalReportAggregator.step] at hs
    split at hs
    case h_1 sorted hk =>
      cases hs
      exact ⟨r, h.print hk⟩
    case h_2 => cases hs
  | finish k =>
    obtain ⟨hk, hs⟩ := Option.ite_none_right_eq_some.1 hs
    cases hs
    exact ⟨r + 1, h.finish hk⟩

theorem run (he : exec (GlobalReportAggregator.step device) .start events = some s) :
    ∃ r, Inv r s :=
  exec_invariant (I := fun s => ∃ r, Inv r s) (fun _ e _ ⟨_, h⟩ hs => h.step e hs) ⟨0, start⟩ he

/-- All reports of earlier rounds have been printed. -/
theorem le_length (h : Inv r s) : r ≤ s.reports.length := by
  by_cases hprinted : ∃ k, s.phase k = .printed
  · obtain ⟨k, hk⟩ := hprinted
    rw [h.reported.printed k hk]
    exact Nat.le_succ r
  · rw [h.reported.pending (not_exists.1 hprinted)]

theorem mem_report (h : Inv r s) (hi : i < s.reports.length) (k : Fin N) :
    ∃ report, s.reports[i]? = some report ∧ ⟨k, i⟩ ∈ report := by
  refine ⟨s.reports[i], List.getElem?_eq_getElem hi, ?_⟩
  exact (h.reported.perm i _ (List.getElem?_eq_getElem hi)).mem_iff.2 (mem_full_report.2 rfl)

/-- A thread that returns from `submit` has been reported. -/
theorem reported_or_inside (h : Inv r s) (hi : i < s.calls k) :
    (∃ report, s.reports[i]? = some report ∧ ⟨k, i⟩ ∈ report) ∨
      ⟨k, i⟩ ∈ s.snapshots ∧ s.phase k ≠ .outside := by
  by_cases hir : i < r
  · exact .inl (h.mem_report (hir.trans_le h.le_length) k)
  · have hle := (h.phases k).calls_le
    have hcalls : s.calls k = r + 1 := by omega
    obtain rfl : i = r := by omega
    refine .inr ⟨(h.arrived.mem _).2 ⟨rfl, hcalls⟩, fun hk => ?_⟩
    have hout := h.calls_eq hk
    omega

/-- No wake-up is lost: some thread does not have to wait. -/
theorem exists_ready (h : Inv r s) (hN : 0 < N) : ∃ k, (s.phase k).Ready s.generation := by
  by_contra hnone
  have hwaits : ∀ k, s.calls k = r + 1 := by
    intro k
    have hfits := h.phases k
    have hready := not_exists.1 hnone k
    cases hk : s.phase k with
    | asleep my_generation =>
      rw [hk] at hfits
      exact hfits.2
    | awake my_generation =>
      rw [hk] at hfits hready
      exact hfits.trans (if_pos (not_not.1 hready))
    | outside | unlocked | copied sorted | printed =>
      rw [hk] at hready
      exact absurd trivial hready
  obtain ⟨k, hk⟩ := h.lead hN hwaits
  apply hnone
  refine ⟨k, ?_⟩
  cases hp : s.phase k with
  | unlocked | copied sorted | printed => trivial
  | outside | asleep my_generation | awake my_generation =>
    rw [hp] at hk
    exact hk.elim

end Inv

/-- What all threads together can still do in the round. -/
def work (s : GlobalReportAggregator N) : Nat := ∑ k, (s.phase k).work s.generation

theorem work_enter {s : GlobalReportAggregator N} {p : SubmitPhase N}
    (hp : p.work s.generation < (s.phase k).work s.generation) : (s.enter k p).work < s.work := by
  apply Finset.sum_lt_sum
  · intro j _
    dsimp only [enter]
    by_cases hj : j = k
    · subst hj
      rw [Function.update_self]
      exact hp.le
    · rw [Function.update_of_ne hj]
  · refine ⟨k, Finset.mem_univ k, ?_⟩
    dsimp only [enter]
    rw [Function.update_self]
    exact hp

theorem work_push {s : GlobalReportAggregator N} (hk : s.phase k = .outside) :
    (s.push k).work < s.work := by
  have hstart : (s.phase k).work s.generation = 4 := by
    rw [hk]
    rfl
  rw [push]
  dsimp only
  split
  · apply work_enter
    rw [hstart]
    exact Nat.zero_lt_succ 3
  · apply work_enter
    rw [hstart]
    exact Nat.lt_succ_self 3

namespace Inv

variable {s : GlobalReportAggregator N}

/-- A thread that does not wait ends the round, or leaves less to do in it. -/
theorem ready_step (device : Fin N → Int) (h : Inv r s) (hk : (s.phase k).Ready s.generation) :
    ∃ e t, s.step device e = some t ∧ (Inv (r + 1) t ∨ Inv r t ∧ t.work < s.work) := by
  cases hp : s.phase k with
  | outside => exact ⟨.push k, s.push k, if_pos hp, .inr ⟨h.push hp, work_push hp⟩⟩
  | asleep my_generation =>
    rw [hp] at hk
    exact hk.elim
  | awake my_generation =>
    rw [hp] at hk
    have hrecheck := h.recheck hp
    rw [if_pos (Ne.symm hk)] at hrecheck
    refine ⟨.recheck k, s.enter k .outside, ?_, .inr ⟨hrecheck, work_enter ?_⟩⟩
    · simp only [GlobalReportAggregator.step, hp]
      rw [if_pos (Ne.symm hk)]
    · rw [hp]
      change 4 < if my_generation = s.generation then 0 else 5
      rw [if_neg hk]
      exact Nat.lt_succ_self 4
  | unlocked =>
    -- any sorted copy will do
    let sorted := s.snapshots.mergeSort fun a b => decide (device a.thread ≤ device b.thread)
    have hperm : sorted.Perm s.snapshots := List.mergeSort_perm _ _
    have hsorted : sorted.Pairwise fun a b => device a.thread ≤ device b.thread := by
      refine (List.pairwise_mergeSort ?_ ?_ s.snapshots).imp of_decide_eq_true
      · intro a b c hab hbc
        exact decide_eq_true ((of_decide_eq_true hab).trans (of_decide_eq_true hbc))
      · intro a b
        rw [Bool.or_eq_true, decide_eq_true_iff, decide_eq_true_iff]
        exact Int.le_total _ _
    refine ⟨.copy k sorted, s.enter k (.copied sorted), if_pos ⟨hp, hperm, hsorted⟩,
      .inr ⟨h.copy hp hperm, work_enter ?_⟩⟩
    rw [hp]
    exact Nat.lt_succ_self 2
  | copied sorted =>
    refine ⟨.print k, (s.print sorted).enter k .printed, ?_, .inr ⟨h.print hp, ?_⟩⟩
    · simp only [GlobalReportAggregator.step, hp]
    · apply work_enter (s := s.print sorted)
      change 1 < (s.phase k).work s.generation
      rw [hp]
      exact Nat.lt_succ_self 1
  | printed => exact ⟨.finish k, s.finish k, if_pos hp, .inl (h.finish hp)⟩

/-- The round can always be brought to its end. -/
theorem next_round (device : Fin N → Int) (h : Inv r s) (hN : 0 < N) :
    ∃ events t, exec (GlobalReportAggregator.step device) s events = some t ∧ Inv (r + 1) t := by
  induction hw : s.work using Nat.strong_induction_on generalizing s with
  | _ n ih =>
    obtain ⟨k, hk⟩ := h.exists_ready hN
    obtain ⟨e, t, hstep, hend | ⟨ht, hless⟩⟩ := h.ready_step device hk
    · exact ⟨[e], t, exec_cons.2 ⟨t, hstep, rfl⟩, hend⟩
    · obtain ⟨events, u, hrun, hu⟩ := ih t.work (hw ▸ hless) ht rfl
      exact ⟨e :: events, u, exec_cons.2 ⟨t, hstep, hrun⟩, hu⟩

theorem later_round (device : Fin N → Int) (h : Inv r s) (hN : 0 < N) (n : Nat) :
    ∃ events t, exec (GlobalReportAggregator.step device) s events = some t ∧ Inv (r + n) t := by
  induction n with
  | zero => exact ⟨[], s, rfl, h⟩
  | succ n ih =>
    obtain ⟨events, t, hrun, ht⟩ := ih
    obtain ⟨events', u, hrun', hu⟩ := ht.next_round device hN
    exact ⟨events ++ events', u, exec_append.2 ⟨t, hrun, hrun'⟩, hu⟩

end Inv

/-- Whatever the interleaving, each report has the `i`-th snapshot of every thread, what is cleared
has been printed, and what has been submitted is printed or can still be. -/
theorem submit_reports (device : Fin N → Int) (events : List (SubmitEvent N))
    {s : GlobalReportAggregator N} (he : exec (step device) start events = some s) :
    s.snapshots.length ≤ N ∧
    (∀ (i : Nat) (report : List (GpuReportSnapshot N)), s.reports[i]? = some report →
      report.Perm (full_report N i)) ∧
    (∀ x ∈ s.cleared, ∃ report, s.reports[x.call]? = some report ∧ x ∈ report) ∧
    ∀ (k : Fin N) (i : Nat), i < s.calls k →
      ((∃ report, s.reports[i]? = some report ∧ ⟨k, i⟩ ∈ report) ∨
        ⟨k, i⟩ ∈ s.snapshots ∧ s.phase k ≠ .outside) ∧
      ∃ more t, exec (step device) s more = some t ∧
        ∃ report, t.reports[i]? = some report ∧ ⟨k, i⟩ ∈ report := by
  obtain ⟨r, h⟩ := Inv.run he
  refine ⟨h.arrived.length_le, h.reported.perm, fun x hx => ?_, fun k i hi =>
    ⟨h.reported_or_inside hi, ?_⟩⟩
  · exact h.mem_report ((h.cleared x hx).trans_le h.le_length) x.thread
  · obtain ⟨more, t, hrun, ht⟩ := h.later_round device (Nat.zero_lt_of_lt k.isLt) (i + 1)
    have hlen := ht.le_length
    exact ⟨more, t, hrun, ht.mem_report (by omega) k⟩

/-- Thread 1 submits again before thread 0 is back from the first round. -/
def two_rounds : List (SubmitEvent 2) :=
  [.push 0, .wake 0, .recheck 0, .push 1, .copy 1 [⟨0, 0⟩, ⟨1, 0⟩], .print 1, .finish 1,
    .push 1, .recheck 0, .push 0, .copy 0 [⟨0, 1⟩, ⟨1, 1⟩], .print 0, .finish 0]

theorem submit_reports_two : ∃ s : GlobalReportAggregator 2,
    exec (step fun k => k.val) start two_rounds = some s ∧
    s.reports = [[⟨0, 0⟩, ⟨1, 0⟩], [⟨0, 1⟩, ⟨1, 1⟩]] ∧ s.snapshots.length ≤ 2 ∧
    ∀ x ∈ s.cleared, ∃ report, s.reports[x.call]? = some report ∧ x ∈ report := by
  refine ⟨_, rfl, rfl, ?_, ?_⟩
  · exact (submit_reports (fun k => k.val) two_rounds rfl).1
  · exact (submit_reports (fun k => k.val) two_rounds rfl).2.2.1

end GlobalReportAggregator

end Omission.Gpu
