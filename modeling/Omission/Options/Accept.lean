import Omission.Options.Verdict

namespace Omission.Options
open Omission.Lib
set_option autoImplicit true

variable {a : Args} {o : Opt} {k : Key} {f : Flag}

/-- The numbers in a list of devices without the -1 of `all`. -/
def numbers (ids : List Int) : List Int := ids.filter (0 ≤ ·)

/-- The value is well formed, or a malformed address that is let through. -/
def Opt.Fits (o : Opt) : Prop := o.Malformed ∨ o.Valid

theorem DeviceList.nonneg (h : DeviceList v ids) : ∀ d ∈ ids, 0 ≤ d := by
  induction h with
  | nil => exact fun d hd => (List.not_mem_nil hd).elim
  | last h hd => exact fun d hmem => List.mem_singleton.1 hmem ▸ hd.1
  | cons h hd hrest ih => exact List.forall_mem_cons.2 ⟨hd.1, ih⟩

theorem numbers_of_nonneg (h : ∀ d ∈ ids, 0 ≤ d) : numbers ids = ids :=
  List.filter_eq_self.2 fun d hd => decide_eq_true (h d hd)

namespace Opt

theorem Fits.ids (h : o.Fits) : ∀ d ∈ o.ids, d = -1 ∨ 0 ≤ d := by
  cases o with
  | device v ids =>
    obtain h | ⟨-, rfl⟩ | h := h
    · exact h.elim
    · exact fun d hd => .inl (List.mem_singleton.1 hd)
    · exact fun d hd => .inr (h.nonneg d hd)
  | value k v => exact fun d hd => (List.not_mem_nil hd).elim
  | flag f => exact fun d hd => (List.not_mem_nil hd).elim

theorem admitted_iff {a : Args} : o.Admitted a ↔ o.Fits ∧
    (∀ k, o.key = some k → a.has k = false) ∧ (numbers o.ids).Nodup ∧
      a.devices.Disjoint (numbers o.ids) := by
  cases o with
  | device v ids =>
    constructor
    · rintro (⟨rfl, rfl⟩ | ⟨hds, hnodup, hdisj⟩)
      · exact ⟨.inr (.inl ⟨rfl, rfl⟩), nofun, List.nodup_nil,
          List.disjoint_nil_right _⟩
      · have hids : numbers ids = ids := numbers_of_nonneg hds.nonneg
        refine ⟨.inr (.inr hds), nofun, ?_⟩
        rw [Opt.ids, hids]
        exact ⟨hnodup, hdisj⟩
    · rintro ⟨h | hall | hds, -, hfresh⟩
      · exact h.elim
      · exact .inl hall
      · have hids : numbers ids = ids := numbers_of_nonneg hds.nonneg
        rw [Opt.ids, hids] at hfresh
        exact .inr ⟨hds, hfresh⟩
  | value k v =>
    constructor
    · rintro ⟨hfree, hv⟩
      refine ⟨hv, ?_, List.nodup_nil, List.disjoint_nil_right _⟩
      intro k' hk'
      cases hk'
      exact hfree
    · rintro ⟨hv, hfree, -⟩
      exact ⟨hfree k rfl, hv⟩
  | flag f =>
    exact iff_of_true trivial ⟨.inr trivial, nofun, List.nodup_nil,
      List.disjoint_nil_right _⟩

theorem apply_devices (o : Opt) (a : Args) : (o.apply a).devices = a.devices ++ o.ids := by
  cases o with
  | device v ids => rfl
  | value k v => cases k <;> exact (List.append_nil _).symm
  | flag f => cases f <;> exact (List.append_nil _).symm

theorem apply_has_of_ne {a : Args} (h : o.key ≠ some k) : (o.apply a).has k = a.has k := by
  cases o with
  | device v ids => cases k <;> rfl
  | value k' v => cases k' <;> cases k <;> first | rfl | exact absurd rfl h
  | flag f => cases f <;> cases k <;> rfl

theorem int_value_isSome (h : Spells v n) (hn : INT64_MIN ≤ n ∧ n ≤ INT64_MAX) :
    (int_value v).isSome = true := by
  rw [int_value, from_chars_all.2 ⟨h, hn⟩]
  rfl

/-- A value sets its field unless it is a malformed address. -/
theorem apply_has_self {a : Args} (h : (value k v).Fits) :
    ((value k v).apply a).has k = true ↔ ¬ (value k v).Malformed := by
  have hint {lo hi : Int} (hv : ∃ n, Spells v n ∧ lo ≤ n ∧ n ≤ hi)
      (hwide : INT64_MIN ≤ lo ∧ hi ≤ INT64_MAX) : (int_value v).isSome = true := by
    obtain ⟨n, hn, hlo, hhi⟩ := hv
    exact int_value_isSome hn ⟨Int.le_trans hwide.1 hlo, Int.le_trans hhi hwide.2⟩
  cases k with
  | client => exact split_address_isSome.trans not_not.symm
  | server => exact split_address_isSome.trans not_not.symm
  | output => exact iff_of_true rfl id
  | threads => exact iff_of_true (hint (h.resolve_left id) (by decide)) id
  | upload => exact iff_of_true (split_address_isSome.2 (h.resolve_left id)) id
  | start => exact iff_of_true (hint (h.resolve_left id) (by decide)) id
  | size => exact iff_of_true (hint (h.resolve_left id) (by decide)) id

theorem Admitted.has {a : Args} (h : o.Admitted a) (k : Key) : (o.apply a).has k = true ↔
    a.has k = true ∨ o.key = some k ∧ ¬ o.Malformed := by
  obtain ⟨hfits, hfree, -⟩ := admitted_iff.1 h
  by_cases hk : o.key = some k
  · rw [hfree k hk, and_iff_right hk, or_iff_right Bool.false_ne_true]
    cases o with
    | device => cases hk
    | value k' v =>
      cases hk
      exact apply_has_self hfits
    | flag => cases hk
  · rw [apply_has_of_ne hk]
    exact (or_iff_left fun h => hk h.1).symm

end Opt

theorem disjoint_numbers (ids ds : List Int) :
    ids.Disjoint (numbers ds) ↔ (numbers ids).Disjoint (numbers ds) := by
  constructor
  · exact fun h d hd => h (List.mem_of_mem_filter hd)
  · intro h d hd hmem
    exact h (List.mem_filter.2 ⟨hd, (List.mem_filter.1 hmem).2⟩) hmem

/-- Which options the parser accepts one after the other. -/
theorem admits_iff {a : Args} {opts : List Opt} : Admits a opts ↔ (∀ o ∈ opts, o.Fits) ∧
    (∀ o ∈ opts, ∀ k, o.key = some k → a.has k = false) ∧
    (opts.Pairwise fun o o' => ¬ o.Malformed → ∀ k, o.key = some k → o'.key ≠ some k) ∧
    (numbers (device_ids opts)).Nodup ∧ a.devices.Disjoint (numbers (device_ids opts)) := by
  induction opts generalizing a with
  | nil =>
    exact iff_of_true trivial ⟨List.forall_mem_nil _, List.forall_mem_nil _, List.Pairwise.nil,
      List.nodup_nil, List.disjoint_nil_right _⟩
  | cons o opts ih =>
    have hids : numbers (device_ids (o :: opts)) = numbers o.ids ++ numbers (device_ids opts) := by
      rw [device_ids, List.flatMap_cons, numbers, List.filter_append]
      rfl
    rw [Admits, ih, List.forall_mem_cons, List.forall_mem_cons, List.pairwise_cons, hids,
      List.nodup_append', List.disjoint_append_right, Opt.apply_devices,
      List.disjoint_append_left, disjoint_numbers o.ids]
    constructor
    · rintro ⟨ho, hfits, hfree, hlate, hnodup, hdisj, hids⟩
      have hhas := fun k => (ho.has k).not.1
      obtain ⟨hofits, hofree, honodup, hodisj⟩ := Opt.admitted_iff.1 ho
      refine ⟨⟨hofits, hfits⟩, ⟨hofree, ?_⟩, ⟨?_, hlate⟩, ⟨honodup, hnodup, hids⟩, hodisj, hdisj⟩
      · intro o' ho' k hk
        have hnot := hhas k (Bool.eq_false_iff.1 (hfree o' ho' k hk))
        exact Bool.eq_false_iff.2 fun h => hnot (.inl h)
      · intro o' ho' hmal k hk hk'
        exact hhas k (Bool.eq_false_iff.1 (hfree o' ho' k hk')) (.inr ⟨hk, hmal⟩)
    · rintro ⟨⟨hofits, hfits⟩, ⟨hofree, hfree⟩, ⟨holate, hlate⟩, ⟨honodup, hnodup, hids⟩,
        hodisj, hdisj⟩
      have ho : o.Admitted a := Opt.admitted_iff.2 ⟨hofits, hofree, honodup, hodisj⟩
      refine ⟨ho, hfits, ?_, hlate, hnodup, hdisj, hids⟩
      intro o' ho' k hk
      rw [Bool.eq_false_iff]
      intro h
      rcases (ho.has k).1 h with h | ⟨hok, hmal⟩
      · exact Bool.eq_false_iff.1 (hfree o' ho' k hk) h
      · exact holate o' ho' hmal k hok hk

theorem mem_taken {opts : List Opt} : o ∈ taken opts ↔ o ∈ opts ∧ ¬ o.Malformed := by
  rw [taken, List.mem_filter, decide_eq_true_eq]

theorem taken_cons {opts : List Opt} (h : ¬ o.Malformed) :
    taken (o :: opts) = o :: taken opts := List.filter_cons_of_pos (decide_eq_true h)

theorem taken_cons_malformed {opts : List Opt} (h : o.Malformed) :
    taken (o :: opts) = taken opts :=
  List.filter_cons_of_neg (by rwa [decide_eq_true_eq, not_not])

theorem given_cons {opts : List Opt} :
    Given k (o :: opts) ↔ o.key = some k ∨ Given k opts := List.exists_mem_cons_iff ..

theorem Admits.has {a : Args} {opts : List Opt} (h : Admits a opts) (k : Key) :
    (opts.foldl Opt.apply a).has k = true ↔ a.has k = true ∨ Given k (taken opts) := by
  induction opts generalizing a with
  | nil =>
    apply (or_iff_left _).symm
    rintro ⟨o, ho, -⟩
    cases ho
  | cons o opts ih =>
    rw [List.foldl_cons, ih h.2, h.1.has, or_assoc]
    apply or_congr_right
    by_cases hmal : o.Malformed
    · rw [taken_cons_malformed hmal]
      exact or_iff_right fun h => h.2 hmal
    · rw [taken_cons hmal, given_cons, and_iff_left hmal]

theorem device_ids_taken (opts : List Opt) : device_ids (taken opts) = device_ids opts := by
  induction opts with
  | nil => rfl
  | cons o opts ih =>
    by_cases hmal : o.Malformed
    · rw [taken_cons_malformed hmal, ih]
      cases o with
      | device => exact hmal.elim
      | value => rfl
      | flag => exact hmal.elim
    · rw [taken_cons hmal]
      exact congrArg (o.ids ++ ·) ih

theorem foldl_apply_devices (opts : List Opt) (a : Args) :
    (opts.foldl Opt.apply a).devices = a.devices ++ device_ids opts := by
  induction opts generalizing a with
  | nil => exact (List.append_nil _).symm
  | cons o opts ih =>
    rw [List.foldl_cons, ih, Opt.apply_devices, List.append_assoc]
    rfl

theorem isNone_iff {x : Option α} : x.isNone = true ↔ ¬ x.isSome = true := by
  rw [← Option.isSome_eq_false_iff, Bool.not_eq_true]

theorem completed_has (a : Args) (k : Key) : a.completed.has k = a.has k := by
  unfold Args.completed
  split <;> cases k <;> rfl

theorem completed_devices (a : Args) : a.completed.devices =
    if a.devices = [] ∧ ¬ a.has .server = true then [0] else a.devices := by
  have hserver : a.server.isNone = true ↔ ¬ a.has .server = true := isNone_iff
  unfold Args.completed
  rw [if_congr (and_congr_right fun _ => hserver) rfl rfl]
  split
  · next h => rw [h.1, List.nil_append]
  · rfl

theorem completed_devices_eq_nil : a.completed.devices = [] ↔
    a.devices = [] ∧ a.has .server = true := by
  rw [completed_devices]
  split
  · next h => exact iff_of_false (List.cons_ne_nil _ _) fun h' => h.2 h'.2
  · next h => exact ⟨fun hnil => ⟨hnil, not_not.1 fun hs => h ⟨hnil, hs⟩⟩, And.left⟩

/-- The device that is filled in is never the -1 of `all`. -/
theorem all_alone_iff : ¬ (-1 ∈ a.completed.devices ∧ a.completed.devices.length ≠ 1) ↔
    (-1 ∈ a.devices → a.devices = [-1]) := by
  rw [completed_devices, not_and, not_not]
  split
  · next h =>
    rw [h.1]
    exact iff_of_true (fun _ => rfl) fun h => (List.not_mem_nil h).elim
  · apply imp_congr_right
    intro hmem
    rw [List.length_eq_one_iff]
    constructor
    · rintro ⟨d, hd⟩
      rw [hd] at hmem ⊢
      rw [List.mem_singleton.1 hmem]
    · exact fun h => ⟨-1, h⟩

/-- The last checks, for an object whose fields are set as the options tell. -/
theorem final_iff {a : Args} {opts : List Opt} (hdevices : a.devices = device_ids opts)
    (hhas : ∀ k, a.has k = true ↔ Given k opts) : Final a ↔
      (-1 ∈ device_ids opts → device_ids opts = [-1]) ∧
      (Given .threads opts → ¬ Given .client opts) ∧
      (Given .output opts → ¬ Given .client opts) ∧
      (Given .start opts → Given .server opts → device_ids opts ≠ []) ∧
      (Given .size opts → Given .client opts → Given .threads opts) := by
  have hcompleted : ∀ k, a.completed.has k = true ↔ Given k opts := by
    intro k
    rw [completed_has, hhas]
  have hall : ¬ (-1 ∈ a.completed.devices ∧ a.completed.devices.length ≠ 1) ↔
      (-1 ∈ device_ids opts → device_ids opts = [-1]) := by
    rw [all_alone_iff, hdevices]
  have hnone : a.completed.devices = [] ↔ device_ids opts = [] ∧ Given .server opts := by
    rw [completed_devices_eq_nil, hdevices, hhas]
  have hthreads : a.completed.threads.isNone = true ↔ ¬ Given .threads opts := by
    rw [← hcompleted]
    exact isNone_iff
  constructor
  · intro h
    refine ⟨hall.1 h.all, ?_, ?_, ?_, ?_⟩
    · exact fun ht hc => h.threads ⟨(hhas .threads).2 ht, (hhas .client).2 hc⟩
    · exact fun ho hc => h.output ⟨(hhas .output).2 ho, (hhas .client).2 hc⟩
    · exact fun hs hserver hnil => h.start ⟨(hcompleted .start).2 hs, hnone.2 ⟨hnil, hserver⟩⟩
    · intro hs hc
      by_contra ht
      exact h.size ⟨(hcompleted .size).2 hs, hthreads.2 ht, (hcompleted .client).2 hc⟩
  · rintro ⟨h, ht, ho, hstart, hsize⟩
    constructor
    · exact fun h => ht ((hhas .threads).1 h.1) ((hhas .client).1 h.2)
    · exact fun h => ho ((hhas .output).1 h.1) ((hhas .client).1 h.2)
    · exact hall.2 h
    · rintro ⟨hs, hnil⟩
      obtain ⟨hnil, hserver⟩ := hnone.1 hnil
      exact hstart ((hcompleted .start).1 hs) hserver hnil
    · rintro ⟨hs, hno, hc⟩
      exact hthreads.1 hno (hsize ((hcompleted .size).1 hs) ((hcompleted .client).1 hc))

/-- The options that are accepted are those that are tolerated. -/
theorem admits_final_iff {opts : List Opt} :
    Admits .default opts ∧ Final (opts.foldl Opt.apply .default) ↔ Tolerated opts := by
  have hdefault : ∀ k, ¬ Args.default.has k = true := by
    intro k
    cases k <;> exact Bool.false_ne_true
  have hdevices : (opts.foldl Opt.apply .default).devices = device_ids (taken opts) := by
    rw [foldl_apply_devices, device_ids_taken]
    rfl
  have hfinal (h : Admits .default opts) := final_iff hdevices fun k =>
    (h.has k).trans (or_iff_right (hdefault k))
  constructor
  · rintro ⟨hadmits, hf⟩
    obtain ⟨hall, hthreads, houtput, hstart, hsize⟩ := (hfinal hadmits).1 hf
    obtain ⟨hfits, -, hlate, hnodup, -⟩ := admits_iff.1 hadmits
    refine ⟨⟨?_, ?_, ?_, hall, hthreads, houtput, hstart, hsize⟩, hlate⟩
    · intro o ho
      obtain ⟨ho, hmal⟩ := mem_taken.1 ho
      exact (hfits o ho).resolve_left hmal
    · apply (hlate.sublist List.filter_sublist).imp_of_mem
      exact fun ho _ h => h (mem_taken.1 ho).2
    · rw [device_ids_taken] at hall ⊢
      by_cases hmem : -1 ∈ device_ids opts
      · rw [hall hmem]
        exact List.nodup_singleton _
      · rw [numbers_of_nonneg] at hnodup
        · exact hnodup
        · intro d hd
          obtain ⟨o, ho, hdo⟩ := List.mem_flatMap.1 hd
          apply ((hfits o ho).ids d hdo).resolve_left
          rintro rfl
          exact hmem hd
  · intro h
    have hadmits : Admits .default opts := by
      rw [admits_iff]
      refine ⟨?_, ?_, h.late, ?_, List.disjoint_nil_left _⟩
      · intro o ho
        by_cases hmal : o.Malformed
        · exact .inl hmal
        · exact .inr (h.rest.values o (mem_taken.2 ⟨ho, hmal⟩))
      · exact fun o _ k _ => Bool.eq_false_iff.2 (hdefault k)
      · rw [← device_ids_taken]
        exact h.rest.distinct.filter _
    exact ⟨hadmits, (hfinal hadmits).2
      ⟨h.rest.all, h.rest.threads, h.rest.output, h.rest.start, h.rest.size⟩⟩

theorem taken_eq_self {opts : List Opt} (h : ∀ o ∈ opts, ¬ o.Malformed) : taken opts = opts :=
  List.filter_eq_self.2 fun o ho => decide_eq_true (h o ho)

theorem invalid_of_malformed (h : o.Malformed) :
    ∃ line ∈ o.warnings, "invalid argument".toList <+: line := by
  rw [Opt.warnings, if_pos h]
  exact ⟨_, List.mem_cons_self, " to ".toList ++ o.name, rfl⟩

/-- The parser ends without a read outside of `argv`, and what it accepts is well formed and has
not been announced as invalid. -/
def ParsesWell (argv : List Text) : Prop :=
  ∃ b t, Parser.parse argv .start = some (b, t) ∧ (b = true →
    (∃ opts, Reads argv opts ∧ WellFormed opts) ∧
      ∀ line ∈ t.stderr, ¬ "invalid argument".toList <+: line)

/-- This holds exactly when the address of each `--client` and `--server` has a `:`, unless the
other options are rejected as well. -/
theorem parses_well_iff (argv : List Text) : ParsesWell argv ↔
    ∀ opts, Reads argv opts → Tolerated opts → ∀ o ∈ opts, ¬ o.Malformed := by
  have hverdict := Parser.parse_verdict argv
  constructor
  · rintro ⟨b, t, hrun, hb⟩ opts hreads htol o ho hmal
    obtain ⟨hadmits, hfinal⟩ := admits_final_iff.2 htol
    have herr := (Parser.foldl_after opts Frame.start).2
    have hrun' := (hverdict.accepts { opts.foldl Frame.after Frame.start with
      args := (opts.foldl Opt.apply .default).completed }).2
        ⟨opts, hreads, hadmits, hfinal, herr, rfl⟩
    rw [hrun] at hrun'
    cases hrun'
    obtain ⟨line, hline, hprefix⟩ := invalid_of_malformed hmal
    refine (hb rfl).2 line ?_ hprefix
    rw [herr]
    exact List.mem_flatMap.2 ⟨o, ho, hline⟩
  · intro h
    obtain ⟨b, t, hrun⟩ := hverdict.total
    refine ⟨b, t, hrun, ?_⟩
    rintro rfl
    obtain ⟨opts, hreads, hadmits, hfinal, herr, -⟩ := (hverdict.accepts t).1 hrun
    have htol := admits_final_iff.1 ⟨hadmits, hfinal⟩
    have hgood := h opts hreads htol
    refine ⟨⟨opts, hreads, taken_eq_self hgood ▸ htol.rest⟩, ?_⟩
    intro line hline
    rw [herr] at hline
    obtain ⟨o, ho, hline⟩ := List.mem_flatMap.1 hline
    rw [warnings_of_not (hgood o ho)] at hline
    cases hline

/-- An address without a port is announced and then accepted. -/
theorem address_without_port : ¬ ∀ argv, ParsesWell argv := by
  intro h
  obtain ⟨b, t, hrun, hb⟩ := h ["omission".toList, "--client".toList, "foo".toList]
  have hclient : Parser.parse ["omission".toList, "--client".toList, "foo".toList] .start =
      some (true, ⟨{ Args.default with devices := [0] }, 3,
        ["invalid argument to --client".toList]⟩) := by
    decide
  rw [hclient] at hrun
  cases hrun
  exact (hb rfl).2 _ List.mem_cons_self (by decide)

end Omission.Options
