import Mathlib.Data.List.Nodup
import Omission.Lib.Verdict
import Omission.Options.Spec

namespace Omission.Options
open Omission.Lib
set_option autoImplicit true

theorem split_address_isNone : (split_address a).isNone = true ↔ ':' ∉ a := by
  rw [← split_address_isSome, Bool.not_eq_true, Option.isSome_eq_false_iff]

/-- The number of a value that is taken. -/
def int_value (v : Text) : Option Int := (from_chars INT64_MIN INT64_MAX v).map (·.1)

def Args.has (a : Args) : Key → Bool
  | .threads => a.threads.isSome
  | .client => a.client.isSome
  | .server => a.server.isSome
  | .output => a.output_file.isSome
  | .upload => a.upload.isSome
  | .start => a.start_seed.isSome
  | .size => a.min_size.isSome

namespace Opt

def name : Opt → Text
  | device _ _ => "--device".toList
  | value k _ => k.name
  | flag f => f.name

/-- The option is accepted by a parser that holds `a`. -/
def Admitted (a : Args) : Opt → Prop
  | device v ids => v = "all".toList ∧ ids = [-1] ∨
      DeviceList v ids ∧ ids.Nodup ∧ a.devices.Disjoint ids
  | value k v => a.has k = false ∧ ((value k v).Malformed ∨ k.Takes v)
  | flag _ => True

def apply (a : Args) : Opt → Args
  | device _ ids => { a with devices := a.devices ++ ids }
  | value .threads v => { a with threads := int_value v }
  | value .client v => { a with client := split_address v }
  | value .server v => { a with server := split_address v }
  | value .output v => { a with output_file := some v }
  | value .upload v => { a with upload := split_address v }
  | value .start v => { a with start_seed := int_value v }
  | value .size v => { a with min_size := int_value v }
  | flag .no_upload => { a with no_upload := true }
  | flag .fast_cpu => { a with fast_cpu := true }
  | flag .origin => { a with origin := true }

def warnings (o : Opt) : List Text :=
  if o.Malformed then ["invalid argument to ".toList ++ o.name] else []

end Opt

def Frame.after (s : Frame) (o : Opt) : Frame :=
  ⟨o.apply s.args, s.i + o.words.length, s.stderr ++ o.warnings⟩

variable {argv : List Text} {s t : Frame} {o : Opt} {k : Key} {f : Flag}

theorem Key.name_inj {k k' : Key} : k.name = k'.name → k = k' := by
  cases k <;> cases k' <;> first | exact fun _ => rfl | exact fun h => absurd h (by decide)

theorem Flag.name_inj {f f' : Flag} : f.name = f'.name → f = f' := by
  cases f <;> cases f' <;> first | exact fun _ => rfl | exact fun h => absurd h (by decide)

theorem Key.name_ne_flag (k : Key) (f : Flag) : k.name ≠ f.name := by
  cases k <;> cases f <;> decide

theorem Key.name_ne_device (k : Key) : k.name ≠ "--device".toList := by
  cases k <;> decide

theorem Flag.name_ne_device (f : Flag) : f.name ≠ "--device".toList := by
  cases f <;> decide

/-- The words of the option stand in `argv` from the index of the parser on. -/
def Opt.At (argv : List Text) (i : Nat) (o : Opt) : Prop :=
  argv.drop i = o.words ++ argv.drop (i + o.words.length)

/-- What one round of the parser leaves when it accepts. -/
def Taken (argv : List Text) (s t : Frame) : Prop :=
  ∃ o, Opt.At argv s.i o ∧ o.Admitted s.args ∧ t = s.after o

theorem drop_eq_cons {l : List α} : l.drop i = a :: l.drop (i + 1) ↔ l[i]? = some a := by
  constructor
  · intro h
    rw [← List.head?_drop, h]
    rfl
  · intro h
    obtain ⟨hi, rfl⟩ := List.getElem?_eq_some_iff.1 h
    exact List.drop_eq_getElem_cons hi

theorem Opt.At.name (h : o.At argv i) : argv[i]? = some o.name := by
  rw [← List.head?_drop, h]
  cases o <;> rfl

theorem drop_eq_cons_cons {l : List α} :
    l.drop i = a :: b :: l.drop (i + 2) ↔ l[i]? = some a ∧ l[i + 1]? = some b := by
  constructor
  · intro h
    have hi : l[i]? = some a := by
      rw [← List.head?_drop, h]
      rfl
    refine ⟨hi, drop_eq_cons.1 ?_⟩
    rw [drop_eq_cons.2 hi] at h
    exact (List.cons.inj h).2
  · rintro ⟨ha, hb⟩
    rw [drop_eq_cons.2 ha, drop_eq_cons.2 hb]

theorem taken_value (h : argv[s.i]? = some k.name) : Taken argv s t ↔
    ∃ v, argv[s.i + 1]? = some v ∧ (Opt.value k v).Admitted s.args ∧ t = s.after (.value k v) := by
  constructor
  · rintro ⟨o, hat, ho⟩
    have hname := hat.name
    rw [h, Option.some.injEq] at hname
    cases o with
    | device => exact absurd hname k.name_ne_device
    | flag => exact absurd hname (k.name_ne_flag _)
    | value k' v =>
      cases Key.name_inj hname
      exact ⟨v, (drop_eq_cons_cons.1 hat).2, ho⟩
  · rintro ⟨v, hv, ho⟩
    exact ⟨.value k v, drop_eq_cons_cons.2 ⟨h, hv⟩, ho⟩

theorem taken_flag (h : argv[s.i]? = some f.name) : Taken argv s t ↔ t = s.after (.flag f) := by
  constructor
  · rintro ⟨o, hat, -, ho⟩
    have hname := hat.name
    rw [h, Option.some.injEq] at hname
    cases o with
    | device => exact absurd hname f.name_ne_device
    | value k v => exact absurd hname.symm (k.name_ne_flag f)
    | flag f' =>
      cases Flag.name_inj hname
      exact ho
  · exact fun ht => ⟨.flag f, drop_eq_cons.2 h, trivial, ht⟩

theorem taken_device (h : argv[s.i]? = some "--device".toList) : Taken argv s t ↔
    ∃ v, argv[s.i + 1]? = some v ∧ ∃ ids, (Opt.device v ids).Admitted s.args ∧
      t = s.after (.device v ids) := by
  constructor
  · rintro ⟨o, hat, ho⟩
    have hname := hat.name
    rw [h, Option.some.injEq] at hname
    cases o with
    | value k v => exact absurd hname.symm k.name_ne_device
    | flag f => exact absurd hname.symm f.name_ne_device
    | device v ids => exact ⟨v, (drop_eq_cons_cons.1 hat).2, ids, ho⟩
  · rintro ⟨v, hv, ids, ho⟩
    exact ⟨.device v ids, drop_eq_cons_cons.2 ⟨h, hv⟩, ho⟩

theorem not_deviceList_all : ¬ DeviceList "all".toList ids := by
  rw [deviceList_iff (by decide)]
  rintro ⟨d, ptr, ds', -, he, -⟩
  have hnone : from_chars INT32_MIN INT32_MAX "all".toList = none := by decide
  rw [hnone] at he
  cases he

theorem warnings_of_not (h : ¬ o.Malformed) : o.warnings = [] := if_neg h

theorem after_of_not (h : ¬ o.Malformed) :
    s.after o = ⟨o.apply s.args, s.i + o.words.length, s.stderr⟩ := by
  rw [Frame.after, warnings_of_not h, List.append_nil]

namespace Parser

theorem set_args_apply (f : Args → Args) (s : Frame) :
    set_args f s = some ((), { s with args := f s.args }) := rfl

theorem set_args_accept (f : Args → Args) (s : Frame) :
    (do set_args f; return true : Parser Bool) s = some (true, { s with args := f s.args }) := rfl

theorem get_apply (s : Frame) : (get : Parser Frame) s = some (s, s) := rfl

theorem check_duplicate_apply (d : Bool) (option : Text) : check_duplicate d option s =
    some (d, if d then
      { s with stderr := s.stderr ++ ["duplicate ".toList ++ option ++ " option".toList] }
      else s) := by
  cases d <;> rfl

theorem verdict_duplicate {d : Bool} {option : Text} {rest : Parser Bool} {P : Frame → Prop}
    (h : d = false → Verdict rest s P) :
    Verdict (do
      if ← check_duplicate d option then return false
      rest) s (fun t => d = false ∧ P t) := by
  apply Verdict.bind (check_duplicate_apply d option)
  cases d with
  | true => exact Verdict.reject rfl (fun _ hu => Bool.noConfusion hu.1)
  | false => exact (h rfl).congr fun _ => (and_iff_right rfl).symm

theorem verdict_argument {option : Text} {rest : Text → Parser Bool} {P : Text → Frame → Prop}
    (h : ∀ v, argv[s.i]? = some v → Verdict (rest v) { s with i := s.i + 1 } (P v)) :
    Verdict (do
      if ← check_argument argv option then return false
      let v ← next argv
      rest v) s (fun t => ∃ v, argv[s.i]? = some v ∧ P v t) := by
  cases hv : argv[s.i]? with
  | none =>
    have hle : argv.length ≤ s.i := List.getElem?_eq_none_iff.1 hv
    have hcheck : check_argument argv option s = some (true,
        { s with stderr := s.stderr ++ ["missing argument to ".toList ++ option] }) := by
      change (if argv.length ≤ s.i then _ else _ : Parser Bool) s = _
      rw [if_pos hle]
      rfl
    apply Verdict.bind hcheck
    apply Verdict.reject rfl
    rintro _ ⟨v, hv', -⟩
    cases hv'
  | some v =>
    have hlt : ¬ argv.length ≤ s.i := Nat.not_le.2 (List.getElem?_eq_some_iff.1 hv).1
    have hcheck : check_argument argv option s = some (false, s) := by
      change (if argv.length ≤ s.i then _ else _ : Parser Bool) s = _
      rw [if_neg hlt]
      rfl
    apply Verdict.bind hcheck
    have hnext : next argv s = some (v, { s with i := s.i + 1 }) := by
      rw [next, hv]
      rfl
    apply Verdict.bind hnext
    apply (h v hv).congr
    intro u
    constructor
    · exact fun hu => ⟨v, rfl, hu⟩
    · rintro ⟨v', hv', hu⟩
      cases hv'
      exact hu

theorem parse_argument_int_verdict {lo hi : Int} {out : Args → Option Int}
    {set : Int → Args → Args} {test : Int → Bool} {option arg : Text}
    (hlast : argv[s.i - 1]? = some arg) :
    Verdict (parse_argument_int argv lo hi out set test option) s fun t =>
      (out s.args).isSome = false ∧ ∃ v, argv[s.i]? = some v ∧
        ∃ n, (Spells v n ∧ lo ≤ n ∧ n ≤ hi) ∧ test n = true ∧
          t = ⟨set n s.args, s.i + 1, s.stderr⟩ := by
  apply Verdict.bind (get_apply s)
  apply verdict_duplicate
  intro _
  have hlast' : last argv s = some (arg, s) := by
    rw [last, hlast]
    rfl
  apply Verdict.bind hlast'
  apply verdict_argument
  intro v _
  simp only [← from_chars_all]
  cases hfrom : from_chars lo hi v with
  | none =>
    apply Verdict.reject rfl
    rintro u ⟨n, hn, -⟩
    cases hn
  | some p =>
    obtain ⟨n, ptr⟩ := p
    cases ptr with
    | cons c ptr =>
      apply Verdict.reject rfl
      rintro u ⟨n, hn, -⟩
      cases hn
    | nil =>
      apply Verdict.ite
      · intro htest
        apply (Verdict.accept rfl).congr
        intro u
        constructor
        · exact fun hu => ⟨n, rfl, htest, hu⟩
        · rintro ⟨n', hn', -, hu⟩
          cases hn'
          exact hu
      · intro htest
        apply Verdict.reject rfl
        rintro u ⟨n', hn', htest', -⟩
        cases hn'
        exact htest htest'

theorem endpoint_verdict {out : Args → Option HostService}
    {set : Option HostService → Args → Args} {arg : Text} :
    Verdict (endpoint argv out set arg) s fun t => (out s.args).isSome = false ∧
      ∃ v, argv[s.i]? = some v ∧ t = ⟨set (split_address v) s.args, s.i + 1,
        s.stderr ++ if ':' ∈ v then [] else ["invalid argument to ".toList ++ arg]⟩ := by
  apply Verdict.bind (get_apply s)
  apply verdict_duplicate
  intro _
  apply verdict_argument
  intro v _
  by_cases hv : ':' ∈ v
  · have haddress : (split_address v).isNone = false := by
      rw [← Bool.not_eq_true, split_address_isNone, not_not]
      exact hv
    simp only [haddress, Bool.false_eq_true, if_false, if_pos hv, List.append_nil]
    exact Verdict.accept rfl
  · simp only [split_address_isNone.2 hv, if_true, if_neg hv]
    exact Verdict.accept rfl

theorem upload_verdict {arg : Text} :
    Verdict (upload argv arg) s fun t => s.args.upload.isSome = false ∧
      ∃ v, argv[s.i]? = some v ∧ ':' ∈ v ∧
        t = ⟨{ s.args with upload := split_address v }, s.i + 1, s.stderr⟩ := by
  apply Verdict.bind (get_apply s)
  apply verdict_duplicate
  intro _
  apply verdict_argument
  intro v _
  apply (Verdict.guard (fun _ => rfl) fun _ => Verdict.accept rfl).congr
  intro u
  rw [split_address_isNone, not_not]

theorem output_verdict {arg : Text} :
    Verdict (output argv arg) s fun t => s.args.output_file.isSome = false ∧
      ∃ v, argv[s.i]? = some v ∧
        t = ⟨{ s.args with output_file := some v }, s.i + 1, s.stderr⟩ := by
  apply Verdict.bind (get_apply s)
  apply verdict_duplicate
  intro _
  apply verdict_argument
  intro v _
  exact Verdict.accept rfl

theorem fresh_cons {devices ds : List Int} {d : Int} :
    (d :: ds).Nodup ∧ devices.Disjoint (d :: ds) ↔
      d ∉ devices ∧ ds.Nodup ∧ (devices ++ [d]).Disjoint ds := by
  rw [List.nodup_cons, List.disjoint_cons_right, List.disjoint_append_left,
    List.singleton_disjoint]
  constructor
  · rintro ⟨⟨hd, hds⟩, hnot, hdisj⟩
    exact ⟨hnot, hds, hdisj, hd⟩
  · rintro ⟨hnot, hds, hdisj, hd⟩
    exact ⟨⟨hd, hds⟩, hnot, hdisj⟩

theorem parse_devices_verdict {devices_str first : Text} {fuel : Nat}
    (hfuel : first.length ≤ fuel) : Verdict (parse_devices devices_str fuel first) s fun t =>
      ∃ ds, DeviceList first ds ∧ (ds.Nodup ∧ s.args.devices.Disjoint ds) ∧
        t = ⟨{ s.args with devices := s.args.devices ++ ds }, s.i, s.stderr⟩ := by
  have hnil (s : Frame) : Verdict (pure true) s fun t =>
      ∃ ds, DeviceList [] ds ∧ (ds.Nodup ∧ s.args.devices.Disjoint ds) ∧
        t = ⟨{ s.args with devices := s.args.devices ++ ds }, s.i, s.stderr⟩ := by
    have haccept : Verdict (pure true) s (· = s) := Verdict.accept rfl
    apply haccept.congr
    intro t
    constructor
    · rintro rfl
      refine ⟨[], .nil, ⟨List.nodup_nil, List.disjoint_nil_right _⟩, ?_⟩
      rw [List.append_nil]
    · rintro ⟨ds, hds, -, rfl⟩
      cases hds.eq_nil
      rw [List.append_nil]
  induction fuel generalizing first s with
  | zero =>
    cases List.length_eq_zero_iff.1 (Nat.le_zero.1 hfuel)
    exact hnil s
  | succ fuel ih =>
    rw [parse_devices]
    by_cases hne : first = []
    · rw [if_pos hne, hne]
      exact hnil s
    rw [if_neg hne]
    simp only [deviceList_iff hne]
    cases hfrom : from_chars INT32_MIN INT32_MAX first with
    | none =>
      apply Verdict.reject rfl
      rintro u ⟨_, ⟨d, ptr, ds', -, he, -⟩, -⟩
      cases he
    | some p =>
      obtain ⟨d, ptr⟩ := p
      apply Verdict.bind (get_apply s)
      apply Verdict.ite
      · intro hcond
        apply Verdict.reject rfl
        rintro u ⟨_, ⟨_, _, ds', rfl, he, hd, hptr, -⟩, hfresh, -⟩
        cases he
        rcases hcond with hlt | hmem | ⟨hne', hhead⟩
        · exact Int.not_le.2 hlt hd
        · exact (fresh_cons.1 hfresh).1 hmem
        · exact hptr.elim hne' hhead
      · intro hcond
        rw [not_or, not_or, not_and_or, not_not, not_not, Int.not_lt] at hcond
        obtain ⟨hd, hmem, hptr⟩ := hcond
        apply Verdict.bind (set_args_apply _ s)
        have hlen := from_chars_length hfrom
        have hrest : (if ptr ≠ [] then ptr.tail else ptr).length ≤ fuel := by
          split
          · rw [List.length_tail]
            omega
          · omega
        apply (ih hrest).congr
        intro u
        constructor
        · rintro ⟨ds', hds', hfresh, rfl⟩
          refine ⟨d :: ds', ⟨d, ptr, ds', rfl, rfl, hd, hptr, hds'⟩,
            fresh_cons.2 ⟨hmem, hfresh⟩, ?_⟩
          rw [List.append_assoc]
          rfl
        · rintro ⟨_, ⟨_, _, ds', rfl, he, -, -, hds'⟩, hfresh, rfl⟩
          cases he
          refine ⟨ds', hds', (fresh_cons.1 hfresh).2, ?_⟩
          rw [List.append_assoc]
          rfl

theorem device_verdict {arg : Text} : Verdict (device argv arg) s fun t =>
    ∃ v, argv[s.i]? = some v ∧ ∃ ids, (Opt.device v ids).Admitted s.args ∧
      t = ⟨{ s.args with devices := s.args.devices ++ ids }, s.i + 1, s.stderr⟩ := by
  apply verdict_argument
  intro v _
  apply Verdict.ite
  · rintro rfl
    have haccept := Verdict.accept (set_args_accept (fun a : Args =>
      { a with devices := a.devices ++ [-1] }) { s with i := s.i + 1 })
    apply haccept.congr
    intro u
    constructor
    · exact fun hu => ⟨[-1], .inl ⟨rfl, rfl⟩, hu⟩
    · rintro ⟨ids, ⟨-, rfl⟩ | ⟨hds, -⟩, hu⟩
      · exact hu
      · exact absurd hds not_deviceList_all
  · intro hall
    apply (parse_devices_verdict (Nat.le_refl _)).congr
    intro u
    constructor
    · rintro ⟨ds, hds, hfresh, hu⟩
      exact ⟨ds, .inr ⟨hds, hfresh⟩, hu⟩
    · rintro ⟨ds, ⟨hv, -⟩ | ⟨hds, hfresh⟩, hu⟩
      · exact absurd hv hall
      · exact ⟨ds, hds, hfresh, hu⟩

/-- A branch for an option with a value. -/
theorem value_taken {m : Parser Bool} (k : Key) (hk : argv[s.i]? = some k.name)
    {P : Text → Frame → Prop} {d : Bool} (hd : d = s.args.has k)
    (h : Verdict m { s with i := s.i + 1 } fun t =>
      d = false ∧ ∃ v, argv[s.i + 1]? = some v ∧ P v t)
    (hP : ∀ v t, P v t ↔
      ((Opt.value k v).Malformed ∨ k.Takes v) ∧ t = s.after (.value k v)) :
    Verdict m { s with i := s.i + 1 } (Taken argv s) := by
  apply h.congr
  intro t
  rw [taken_value hk]
  constructor
  · rintro ⟨hfree, v, hv, ht⟩
    obtain ⟨hvalue, ht⟩ := (hP v t).1 ht
    exact ⟨v, hv, ⟨hd.symm.trans hfree, hvalue⟩, ht⟩
  · rintro ⟨v, hv, ⟨hfree, hvalue⟩, ht⟩
    exact ⟨hd.trans hfree, v, hv, (hP v t).2 ⟨hvalue, ht⟩⟩

theorem int_taken {arg : Text} {lo hi : Int} {out : Args → Option Int} {set : Int → Args → Args}
    {test : Int → Bool} (k : Key) (low high : Int) (hk : argv[s.i]? = some k.name)
    (hout : (out s.args).isSome = s.args.has k) (hwide : INT64_MIN ≤ lo ∧ hi ≤ INT64_MAX)
    (hset : ∀ v n, int_value v = some n → (Opt.value k v).apply s.args = set n s.args)
    (htakes : ∀ v, k.Takes v ↔ ∃ n, Spells v n ∧ low ≤ n ∧ n ≤ high)
    (hmalformed : ∀ v, ¬ (Opt.value k v).Malformed)
    (htest : ∀ n, (lo ≤ n ∧ n ≤ hi) ∧ test n = true ↔ low ≤ n ∧ n ≤ high) :
    Verdict (parse_argument_int argv lo hi out set test arg) { s with i := s.i + 1 }
      (Taken argv s) := by
  apply value_taken k hk hout (parse_argument_int_verdict hk)
  intro v t
  have hafter : ∀ n, Spells v n → lo ≤ n → n ≤ hi →
      s.after (.value k v) = ⟨set n s.args, s.i + 1 + 1, s.stderr⟩ := by
    intro n hv hlo hhi
    have hint : int_value v = some n := by
      rw [int_value, from_chars_all.2 ⟨hv, Int.le_trans hwide.1 hlo, Int.le_trans hhi hwide.2⟩]
      rfl
    rw [after_of_not (hmalformed v), hset v n hint]
    rfl
  rw [or_iff_right (hmalformed v), htakes]
  constructor
  · rintro ⟨n, ⟨hv, hlo, hhi⟩, hn, rfl⟩
    exact ⟨⟨n, hv, (htest n).1 ⟨⟨hlo, hhi⟩, hn⟩⟩, (hafter n hv hlo hhi).symm⟩
  · rintro ⟨⟨n, hv, hn⟩, rfl⟩
    obtain ⟨⟨hlo, hhi⟩, hn⟩ := (htest n).2 hn
    exact ⟨n, ⟨hv, hlo, hhi⟩, hn, hafter n hv hlo hhi⟩

theorem endpoint_taken {out : Args → Option HostService}
    {set : Option HostService → Args → Args} (k : Key) (hk : argv[s.i]? = some k.name)
    (hout : (out s.args).isSome = s.args.has k)
    (hset : ∀ v, (Opt.value k v).apply s.args = set (split_address v) s.args)
    (htakes : ∀ v, k.Takes v ↔ ':' ∈ v)
    (hmalformed : ∀ v, (Opt.value k v).Malformed ↔ ':' ∉ v) :
    Verdict (endpoint argv out set k.name) { s with i := s.i + 1 } (Taken argv s) := by
  apply value_taken k hk hout endpoint_verdict
  intro v t
  have hafter : s.after (.value k v) = ⟨set (split_address v) s.args, s.i + 1 + 1,
      s.stderr ++ if ':' ∈ v then [] else ["invalid argument to ".toList ++ k.name]⟩ := by
    rw [Frame.after, hset, Opt.warnings, if_congr (hmalformed v) rfl rfl, ite_not]
    rfl
  rw [hafter, hmalformed, htakes]
  exact (and_iff_right (em (':' ∈ v)).symm).symm

theorem flag_taken (f : Flag) (hf : argv[s.i]? = some f.name) : Verdict (do
    set_args fun a => (Opt.flag f).apply a
    return true) { s with i := s.i + 1 } (Taken argv s) := by
  apply (Verdict.accept (set_args_accept _ _)).congr
  intro t
  rw [taken_flag hf, after_of_not (show ¬ (Opt.flag f).Malformed from id)]
  rfl

theorem output_taken (hk : argv[s.i]? = some Key.output.name) :
    Verdict (output argv Key.output.name) { s with i := s.i + 1 } (Taken argv s) := by
  apply value_taken .output hk rfl output_verdict
  intro v t
  rw [after_of_not (show ¬ (Opt.value .output v).Malformed from id)]
  exact (and_iff_right (.inr trivial)).symm

theorem upload_taken (hk : argv[s.i]? = some Key.upload.name) :
    Verdict (upload argv Key.upload.name) { s with i := s.i + 1 } (Taken argv s) := by
  have hmalformed : ∀ v, ¬ (Opt.value .upload v).Malformed := fun v => id
  apply value_taken .upload hk rfl upload_verdict
  intro v t
  rw [after_of_not (hmalformed v), or_iff_right (hmalformed v)]
  rfl

theorem device_taken {arg : Text} (harg : argv[s.i]? = some "--device".toList) :
    Verdict (device argv arg) { s with i := s.i + 1 } (Taken argv s) := by
  apply device_verdict.congr
  intro t
  rw [taken_device harg]
  simp only [after_of_not (show ¬ (Opt.device _ _).Malformed from id)]
  rfl

theorem option_verdict (hi : s.i < argv.length) : Verdict (option argv) s (Taken argv s) := by
  obtain ⟨arg, harg⟩ : ∃ arg, argv[s.i]? = some arg := ⟨_, List.getElem?_eq_getElem hi⟩
  have hnext : next argv s = some (arg, { s with i := s.i + 1 }) := by
    rw [next, harg]
    rfl
  apply Verdict.bind hnext
  apply Verdict.ite
  · rintro rfl
    exact device_taken harg
  intro hdevice
  apply Verdict.ite
  · rintro rfl
    apply int_taken .threads 1 1024 harg
    · rfl
    · decide
    · intro v n hn
      rw [Opt.apply, hn]
    · exact fun v => Iff.rfl
    · exact fun v => id
    · intro n
      simp only [INT32_MIN, INT32_MAX, decide_eq_true_eq]
      omega
  intro hthreads
  apply Verdict.ite
  · rintro rfl
    apply endpoint_taken .client harg
    · rfl
    · exact fun v => rfl
    · exact fun v => Iff.rfl
    · exact fun v => Iff.rfl
  intro hclient
  apply Verdict.ite
  · rintro rfl
    apply endpoint_taken .server harg
    · rfl
    · exact fun v => rfl
    · exact fun v => Iff.rfl
    · exact fun v => Iff.rfl
  intro hserver
  apply Verdict.ite
  · rintro rfl
    exact output_taken harg
  intro houtput
  apply Verdict.ite
  · rintro rfl
    exact upload_taken harg
  intro hupload
  apply Verdict.ite
  · rintro rfl
    exact flag_taken .no_upload harg
  intro hno_upload
  apply Verdict.ite
  · rintro rfl
    apply int_taken .start INT64_MIN INT64_MAX harg
    · rfl
    · decide
    · intro v n hn
      rw [Opt.apply, hn]
    · exact fun v => Iff.rfl
    · exact fun v => id
    · exact fun n => and_iff_left rfl
  intro hstart
  apply Verdict.ite
  · rintro rfl
    apply int_taken .size 0 INT32_MAX harg
    · rfl
    · decide
    · intro v n hn
      rw [Opt.apply, hn]
    · exact fun v => Iff.rfl
    · exact fun v => id
    · intro n
      simp only [INT32_MIN, INT32_MAX, decide_eq_true_eq]
      omega
  intro hsize
  apply Verdict.ite
  · rintro rfl
    exact flag_taken .fast_cpu harg
  intro hfast_cpu
  apply Verdict.ite
  · rintro rfl
    exact flag_taken .origin harg
  intro horigin
  apply Verdict.reject rfl
  rintro t ⟨o, hat, -⟩
  have hname := hat.name
  rw [harg, Option.some.injEq] at hname
  cases o with
  | device => exact hdevice hname
  | value k =>
    cases k with
    | threads => exact hthreads hname
    | client => exact hclient hname
    | server => exact hserver hname
    | output => exact houtput hname
    | upload => exact hupload hname
    | start => exact hstart hname
    | size => exact hsize hname
  | flag f =>
    cases f with
    | no_upload => exact hno_upload hname
    | fast_cpu => exact hfast_cpu hname
    | origin => exact horigin hname

end Parser

/-- The options are accepted one after the other. -/
def Admits : Args → List Opt → Prop
  | _, [] => True
  | a, o :: opts => o.Admitted a ∧ Admits (o.apply a) opts

/-- The checks behind the loop. -/
structure Final (a : Args) : Prop where
  threads : ¬ (a.threads.isSome = true ∧ a.client.isSome = true)
  output : ¬ (a.output_file.isSome = true ∧ a.client.isSome = true)
  all : ¬ (-1 ∈ a.completed.devices ∧ a.completed.devices.length ≠ 1)
  start : ¬ (a.completed.start_seed.isSome = true ∧ a.completed.devices = [])
  size : ¬ (a.completed.min_size.isSome = true ∧ a.completed.threads.isNone = true ∧
    a.completed.client.isSome = true)

namespace Parser

theorem options_verdict {fuel : Nat} (hfuel : argv.length ≤ s.i + fuel) :
    Verdict (options argv fuel) s fun t => ∃ opts, argv.drop s.i = opts.flatMap Opt.words ∧
      Admits s.args opts ∧ t = opts.foldl Frame.after s := by
  have hdone {s : Frame} (hi : ¬ s.i < argv.length) : Verdict (pure true) s fun t =>
      ∃ opts, argv.drop s.i = opts.flatMap Opt.words ∧ Admits s.args opts ∧
        t = opts.foldl Frame.after s := by
    have haccept : Verdict (pure true) s (· = s) := Verdict.accept rfl
    have hdrop : argv.drop s.i = [] := List.drop_eq_nil_of_le (Nat.not_lt.1 hi)
    apply haccept.congr
    intro t
    rw [hdrop]
    constructor
    · exact fun ht => ⟨[], rfl, trivial, ht⟩
    · rintro ⟨opts, hwords, -, ht⟩
      cases opts with
      | nil => exact ht
      | cons o opts => cases o <;> cases hwords
  induction fuel generalizing s with
  | zero =>
    have hi : ¬ s.i < argv.length := Nat.not_lt.2 hfuel
    apply Verdict.bind (get_apply s)
    rw [if_neg hi]
    exact hdone hi
  | succ fuel ih =>
    apply Verdict.bind (get_apply s)
    apply Verdict.ite
    · intro hi
      apply (Verdict.seq (option_verdict hi) (fun t ht => ih (s := t) ?_)).congr
      · intro u
        constructor
        · rintro ⟨t, ⟨o, hat, ho, rfl⟩, opts, hwords, hopts, hu⟩
          refine ⟨o :: opts, ?_, ⟨ho, hopts⟩, hu⟩
          rw [List.flatMap_cons, ← hwords]
          exact hat
        · rintro ⟨opts, hwords, hopts, hu⟩
          cases opts with
          | nil =>
            rw [List.flatMap_nil, List.drop_eq_nil_iff] at hwords
            omega
          | cons o opts =>
            have hrest : argv.drop (s.after o).i = opts.flatMap Opt.words := by
              rw [Frame.after, ← List.drop_drop, hwords, List.flatMap_cons, List.drop_left]
            refine ⟨s.after o, ⟨o, ?_, hopts.1, rfl⟩, opts, hrest, hopts.2, hu⟩
            rw [Opt.At, hwords, List.flatMap_cons]
            exact congrArg _ hrest.symm
      · obtain ⟨o, -, -, rfl⟩ := ht
        have hpos : 0 < o.words.length := by
          cases o <;> exact Nat.zero_lt_succ _
        change argv.length ≤ s.i + o.words.length + fuel
        omega
    · exact hdone

theorem finish_verdict : Verdict finish s fun t =>
    Final s.args ∧ t = { s with args := s.args.completed } := by
  apply Verdict.bind (get_apply s)
  apply Verdict.bind (get_apply s)
  apply Verdict.ite
  · exact fun h => Verdict.reject rfl fun u hu => hu.1.threads h
  intro hthreads
  apply Verdict.bind (get_apply s)
  apply Verdict.bind (get_apply s)
  apply Verdict.ite
  · exact fun h => Verdict.reject rfl fun u hu => hu.1.output h
  intro houtput
  apply Verdict.bind (set_args_apply _ s)
  apply Verdict.bind (get_apply _)
  apply Verdict.bind (get_apply _)
  apply Verdict.ite
  · exact fun h => Verdict.reject rfl fun u hu => hu.1.all h
  intro hall
  apply Verdict.bind (get_apply _)
  apply Verdict.bind (get_apply _)
  apply Verdict.ite
  · exact fun h => Verdict.reject rfl fun u hu => hu.1.start h
  intro hstart
  apply Verdict.bind (get_apply _)
  apply Verdict.bind (get_apply _)
  apply Verdict.bind (get_apply _)
  apply Verdict.ite
  · exact fun h => Verdict.reject rfl fun u hu => hu.1.size h
  intro hsize
  apply (Verdict.accept rfl).congr
  exact fun u => (and_iff_right ⟨hthreads, houtput, hall, hstart, hsize⟩).symm

theorem foldl_after (opts : List Opt) (s : Frame) :
    (opts.foldl Frame.after s).args = opts.foldl Opt.apply s.args ∧
    (opts.foldl Frame.after s).stderr = s.stderr ++ opts.flatMap Opt.warnings := by
  induction opts generalizing s with
  | nil => exact ⟨rfl, (List.append_nil _).symm⟩
  | cons o opts ih =>
    refine ⟨(ih (s.after o)).1, (ih (s.after o)).2.trans ?_⟩
    rw [List.flatMap_cons, ← List.append_assoc]
    rfl

theorem parse_verdict (argv : List Text) : Verdict (parse argv) Frame.start fun t =>
    ∃ opts, Reads argv opts ∧ Admits .default opts ∧ Final (opts.foldl Opt.apply .default) ∧
      t.stderr = opts.flatMap Opt.warnings ∧ t = { opts.foldl Frame.after Frame.start with
        args := (opts.foldl Opt.apply .default).completed } := by
  have hoptions : Verdict (options argv argv.length) Frame.start _ :=
    options_verdict (Nat.le_add_left _ _)
  apply (Verdict.seq hoptions fun t _ => finish_verdict (s := t)).congr
  intro u
  constructor
  · rintro ⟨t, ⟨opts, hwords, hopts, rfl⟩, hfinal, rfl⟩
    rw [(foldl_after opts Frame.start).1] at hfinal ⊢
    exact ⟨opts, hwords, hopts, hfinal, (foldl_after opts Frame.start).2, rfl⟩
  · rintro ⟨opts, hwords, hopts, hfinal, -, rfl⟩
    refine ⟨_, ⟨opts, hwords, hopts, rfl⟩, ?_⟩
    rw [(foldl_after opts Frame.start).1]
    exact ⟨hfinal, rfl⟩

end Parser

end Omission.Options
