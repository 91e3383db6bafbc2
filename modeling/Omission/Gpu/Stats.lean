import Omission.Gpu.Reads

namespace Omission.Gpu.Pipeline
open Omission.Lib
set_option autoImplicit true

/-- The counters of one stage; the two lengths point into `host_buffer_lens`. -/
structure StageStats where
  name : String
  inputs_len : Option Len
  outputs_len : Len
  inputs_multiplier : Nat
  max_outputs_len : BitVec 32
  total_inputs : BitVec 64
  total_outputs : BitVec 64

def StageStats.of (name : String) (inputs_len : Option Len) (outputs_len : Len)
    (inputs_multiplier : Nat) (max_outputs_len : Nat) : StageStats :=
  ⟨name, inputs_len, outputs_len, inputs_multiplier, BitVec.ofNat 32 max_outputs_len, 0, 0⟩

/-- The stages of `filter_2_runs`; all but the last have a late stage behind them. -/
def filter_2_stages : List StageStats :=
  [.of "filter_2a" (some .filter_2_0b) (.filter_2 0) 1 (Len.filter_2 0).max_len,
    .of "init_seeds_late_2" (some (.filter_2 0)) (.filter_2 0) 1 (Len.filter_2 0).max_len,
    .of "filter_2b" (some (.filter_2 0)) (.filter_2 1) 1 (Len.filter_2 1).max_len,
    .of "init_seeds_late_3" (some (.filter_2 1)) (.filter_2 1) 1 (Len.filter_2 1).max_len,
    .of "filter_2c" (some (.filter_2 1)) (.filter_2 2) 1 (Len.filter_2 2).max_len,
    .of "init_seeds_late_4" (some (.filter_2 2)) (.filter_2 2) 1 (Len.filter_2 2).max_len,
    .of "filter_2d" (some (.filter_2 2)) (.filter_2 3) 1 (Len.filter_2 3).max_len]

def stage_stats (origin : Bool) (threads_per_seed : Nat) : List StageStats :=
  [.of "filter_seeds" none .filter_seeds seeds_per_run Len.filter_seeds.max_len,
    .of "init_seeds" (some .filter_seeds) .filter_seeds 1 threads_per_run] ++
  if origin then
    [.of "filter_origin" (some .filter_seeds) .origin 1 Len.origin.max_len]
  else
    [.of "filter_gradvecs_1" (some .filter_seeds) .filter_gradvecs_1 (256 * 256)
        Len.filter_gradvecs_1.max_len,
      .of "filter_2_01a" (some .filter_gradvecs_1) .filter_2_0a 1 Len.filter_2_0a.max_len,
      .of "filter_gradvecs_2" (some .filter_2_0a) .filter_gradvecs_2 threads_per_seed
        Len.filter_gradvecs_2.max_len,
      .of "filter_2_01b" (some .filter_gradvecs_2) .filter_2_0b 1 Len.filter_2_0b.max_len,
      .of "init_seeds_late_1" (some .filter_2_0b) .filter_2_0b 1 Len.filter_2_0b.max_len] ++
    filter_2_stages

/-- An init stage has no outputs of its own: both lengths are those of its inputs. -/
def StageStats.IsFilter (stage : StageStats) : Prop := stage.inputs_len ≠ some stage.outputs_len

instance (stage : StageStats) : Decidable stage.IsFilter := by
  unfold StageStats.IsFilter
  infer_instance

def std_min (a b : BitVec 32) : BitVec 32 := if b < a then b else a

/-- `host_buffer_lens` after the block of `std::min`. -/
def clamp (origin : Bool) (lens : Len → BitVec 32) : Len → BitVec 32
  | .filter_2 k =>
    if ¬ origin ∧ k < 4 then
      std_min (lens (.filter_2 k)) (BitVec.ofNat 32 (Len.filter_2 k).max_len)
    else lens (.filter_2 k)
  | l => std_min (lens l) (BitVec.ofNat 32 l.max_len)

def StageStats.overflow (stage : StageStats) (len : BitVec 32) : String :=
  stage.name ++ " outputs overflow: len = " ++ toString len.toNat ++ " max_len = " ++
    toString stage.max_outputs_len.toNat ++ "\n"

/-- `StageStats::update`, with the line it prints. -/
def StageStats.update (stage : StageStats) (lens : Len → BitVec 32) : StageStats × Option String :=
  let inputs : BitVec 32 := match stage.inputs_len with
    | some l => lens l
    | none => 1
  let outputs := lens stage.outputs_len
  ({ stage with
      total_inputs := stage.total_inputs + inputs.setWidth 64
      total_outputs := stage.total_outputs + outputs.setWidth 64 },
    if outputs > stage.max_outputs_len then some (stage.overflow outputs) else none)

def report (origin : Bool) (stages : List StageStats) (lens : Len → BitVec 32) : List String :=
  stages.filterMap fun stage => (stage.update (clamp origin lens)).2

def counters (count : Len → Nat) : Len → BitVec 32 := fun l => BitVec.ofNat 32 (count l)

/-- A finished batch hands the host the numbers of passing records. -/
theorem batch_counters {R : Run} {old u : State}
    (h : exec (step R) (State.start origin old) es = some u) :
    u.len = counters fun l => passing l (batch origin) es := by
  funext l
  exact (run_len l h).trans (BitVec.zero_add _)

theorem std_min_not_gt (a b : BitVec 32) : ¬ std_min a b > b := by
  unfold std_min
  split
  · exact BitVec.lt_irrefl b
  · assumption

/-- Every registered stage points to a length that the block clamps, to its own bound. -/
theorem stages_clamped (origin : Bool) (threads_per_seed : Nat) (lens : Len → BitVec 32) :
    ∀ stage ∈ stage_stats origin threads_per_seed, clamp origin lens stage.outputs_len =
      std_min (lens stage.outputs_len) stage.max_outputs_len := by
  cases origin <;>
    simp [stage_stats, filter_2_stages, StageStats.of, clamp, show threads_per_run =
      Len.filter_seeds.max_len from rfl]

theorem report_nil (origin : Bool) (threads_per_seed : Nat) (lens : Len → BitVec 32) :
    report origin (stage_stats origin threads_per_seed) lens = [] := by
  rw [report, List.filterMap_eq_nil_iff]
  intro stage hstage
  have hlen := stages_clamped origin threads_per_seed lens stage hstage
  exact if_neg (hlen ▸ std_min_not_gt _ _)

/-- The run prints the overflow line of a stage, whatever length it shows. -/
def Reported (origin : Bool) (threads_per_seed : Nat) (lens : Len → BitVec 32)
    (stage : StageStats) : Prop :=
  ∃ len, stage.overflow len ∈ report origin (stage_stats origin threads_per_seed) lens

/-- Dropped records are reported exactly where none are dropped: the lengths are clamped
before `update` compares them. -/
theorem overflow_reported_iff (origin : Bool) (threads_per_seed : Nat) (count : Len → Nat) :
    (∀ stage ∈ stage_stats origin threads_per_seed, stage.IsFilter →
      (Reported origin threads_per_seed (counters count) stage ↔
        stage.max_outputs_len.toNat < count stage.outputs_len)) ↔
    ∀ stage ∈ stage_stats origin threads_per_seed, stage.IsFilter →
      count stage.outputs_len ≤ stage.max_outputs_len.toNat := by
  have hsilent : ∀ stage, ¬ Reported origin threads_per_seed (counters count) stage := by
    rintro stage ⟨len, hlen⟩
    rw [report_nil] at hlen
    cases hlen
  constructor
  · intro h stage hstage hfilter
    apply Nat.le_of_not_lt
    intro hlt
    exact hsilent stage ((h stage hstage hfilter).2 hlt)
  · intro h stage hstage hfilter
    exact iff_of_false (hsilent stage) (Nat.not_lt_of_le (h stage hstage hfilter))

/-- One seed too many passes `filter_seeds`, and nothing is printed. -/
theorem overflow_not_reported :
    ¬ ∀ stage ∈ stage_stats false 13225, stage.IsFilter →
      (Reported false 13225 (counters fun _ => 65537) stage ↔
        stage.max_outputs_len.toNat < 65537) := by
  intro h
  obtain ⟨len, hlen⟩ := (h _ List.mem_cons_self (by decide)).2 (by decide)
  rw [report_nil] at hlen
  cases hlen

end Omission.Gpu.Pipeline
