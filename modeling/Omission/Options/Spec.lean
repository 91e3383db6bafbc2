import Mathlib.Data.List.Basic
import Omission.Options.Args

namespace Omission.Options
open Omission.Lib
set_option autoImplicit true

theorem from_chars_iff : from_chars lo hi t = some (n, more) ↔
    ∃ v, t = v ++ more ∧ Spells v n ∧ (∀ c ∈ more.head?, Char.isDigit c = false) ∧
      lo ≤ n ∧ n ≤ hi := by
  constructor
  · intro h
    have hsplit (u : Text) : u = digits u ++ u.dropWhile Char.isDigit :=
      (List.takeWhile_append_dropWhile).symm
    have hrest (u : Text) : ∀ c ∈ (u.dropWhile Char.isDigit).head?, Char.isDigit c = false := by
      intro c hc
      have hnot := List.head?_dropWhile_not Char.isDigit u
      rw [hc] at hnot
      simpa using hnot
    have hdigit (u : Text) : ∀ c ∈ digits u, Char.isDigit c = true := fun c hc =>
      List.mem_takeWhile_imp hc
    by_cases hneg : t.head? = some '-'
    · simp only [from_chars, hneg, decide_true, if_true] at h
      split at h
      · next hcond =>
        cases h
        obtain ⟨hne, hlo, hhi⟩ := hcond
        refine ⟨'-' :: digits t.tail, ?_, ⟨digits t.tail, hne, hdigit _, .inr ⟨rfl, rfl⟩⟩,
          hrest _, hlo, hhi⟩
        rw [List.cons_append, ← hsplit]
        exact (List.cons_head?_tail hneg).symm
      · cases h
    · simp only [from_chars, hneg, decide_false, if_false, Bool.false_eq_true] at h
      split at h
      · next hcond =>
        cases h
        obtain ⟨hne, hlo, hhi⟩ := hcond
        exact ⟨digits t, hsplit t, ⟨digits t, hne, hdigit _, .inl ⟨rfl, rfl⟩⟩, hrest _, hlo, hhi⟩
      · cases h
  · rintro ⟨v, rfl, ⟨u, hne, hu, ⟨rfl, rfl⟩ | ⟨rfl, rfl⟩⟩, hrest, hlo, hhi⟩
    · have hneg : (v ++ more).head? ≠ some '-' := by
        cases v with
        | nil => exact absurd rfl hne
        | cons c v =>
          intro he
          cases he
          exact absurd (hu '-' List.mem_cons_self) (by decide)
      simp only [from_chars, hneg, decide_false, if_false, Bool.false_eq_true, leadingNat,
        digits_append hu hrest, dropWhile_digits_append hu hrest]
      rw [if_pos ⟨hne, hlo, hhi⟩]
    · simp only [from_chars, List.cons_append, List.head?_cons, decide_true, if_true,
        List.tail_cons, leadingNat, digits_append hu hrest, dropWhile_digits_append hu hrest]
      rw [if_pos ⟨hne, hlo, hhi⟩]

theorem split_address_isSome : (split_address a).isSome = true ↔ ':' ∈ a := by
  simp only [split_address, find_last_of, Option.isSome_map, List.findIdx?_isSome, List.any_reverse,
    List.any_eq_true, decide_eq_true_eq, exists_eq_right]

theorem from_chars_all : from_chars lo hi t = some (n, []) ↔ Spells t n ∧ lo ≤ n ∧ n ≤ hi := by
  rw [from_chars_iff]
  constructor
  · rintro ⟨v, rfl, hv, -, hn⟩
    rw [List.append_nil]
    exact ⟨hv, hn⟩
  · rintro ⟨ht, hn⟩
    exact ⟨t, (List.append_nil t).symm, ht, fun c hc => (Option.not_mem_none c hc).elim, hn⟩

theorem from_chars_length (h : from_chars lo hi t = some (n, more)) :
    more.length < t.length := by
  obtain ⟨v, rfl, hv, -⟩ := from_chars_iff.1 h
  have hpos := List.length_pos_of_ne_nil hv.ne_nil
  rw [List.length_append]
  omega

/-- Device numbers set apart by commas; one comma may follow the last of them. -/
inductive DeviceList : Text → List Int → Prop where
  | nil : DeviceList [] []
  | last (h : Spells t d) (hd : 0 ≤ d ∧ d ≤ INT32_MAX) : DeviceList t [d]
  | cons (h : Spells t d) (hd : 0 ≤ d ∧ d ≤ INT32_MAX) (hrest : DeviceList more ds) :
      DeviceList (t ++ ',' :: more) (d :: ds)

theorem DeviceList.eq_nil (h : DeviceList [] ds) : ds = [] := by
  generalize ht : ([] : Text) = t at h
  cases h with
  | nil => rfl
  | last h hd => exact absurd ht.symm h.ne_nil
  | cons h hd hrest => exact absurd (List.append_eq_nil_iff.1 ht.symm).2 (List.cons_ne_nil _ _)

/-- A list of devices as the loop takes it apart. -/
theorem deviceList_iff (hne : first ≠ []) : DeviceList first ds ↔
    ∃ d ptr ds', ds = d :: ds' ∧ from_chars INT32_MIN INT32_MAX first = some (d, ptr) ∧ 0 ≤ d ∧
      (ptr = [] ∨ ptr.head? = some ',') ∧ DeviceList (if ptr ≠ [] then ptr.tail else ptr) ds' := by
  have hmin {d : Int} (hd : 0 ≤ d ∧ d ≤ INT32_MAX) : INT32_MIN ≤ d ∧ d ≤ INT32_MAX :=
    ⟨Int.le_trans (by decide) hd.1, hd.2⟩
  constructor
  · intro h
    cases h with
    | nil => exact absurd rfl hne
    | last h hd =>
      exact ⟨_, [], [], rfl, from_chars_all.2 ⟨h, hmin hd⟩, hd.1, .inl rfl, .nil⟩
    | cons h hd hrest =>
      refine ⟨_, _, _, rfl, from_chars_iff.2 ⟨_, rfl, h, ?_, hmin hd⟩, hd.1, .inr rfl, hrest⟩
      intro c hc
      cases hc
      decide
  · rintro ⟨d, ptr, ds', rfl, hfrom, hd, hptr, hrest⟩
    obtain ⟨v, rfl, hv, -, -, hmax⟩ := from_chars_iff.1 hfrom
    cases ptr with
    | nil =>
      cases hrest.eq_nil
      rw [List.append_nil]
      exact .last hv ⟨hd, hmax⟩
    | cons c ptr =>
      obtain hptr | hptr := hptr
      · cases hptr
      · cases hptr
        exact .cons hv ⟨hd, hmax⟩ hrest

inductive Key where
  | threads | client | server | output | upload | start | size
deriving DecidableEq

inductive Flag where
  | no_upload | fast_cpu | origin
deriving DecidableEq

/-- One option of the command line with its value; `ids` are the numbers that a list of devices
holds, with -1 for `all`. -/
inductive Opt where
  | device (v : Text) (ids : List Int)
  | value (k : Key) (v : Text)
  | flag (f : Flag)
deriving DecidableEq

def Key.name : Key → Text
  | .threads => "--threads".toList
  | .client => "--client".toList
  | .server => "--server".toList
  | .output => "--output".toList
  | .upload => "--upload".toList
  | .start => "--start".toList
  | .size => "--size".toList

def Flag.name : Flag → Text
  | .no_upload => "--no-upload".toList
  | .fast_cpu => "--fast-cpu".toList
  | .origin => "--origin".toList

/-- The value is well formed. -/
def Key.Takes (v : Text) : Key → Prop
  | .threads => ∃ n, Spells v n ∧ 1 ≤ n ∧ n ≤ 1024
  | .client => ':' ∈ v
  | .server => ':' ∈ v
  | .output => True
  | .upload => ':' ∈ v
  | .start => ∃ n, Spells v n ∧ INT64_MIN ≤ n ∧ n ≤ INT64_MAX
  | .size => ∃ n, Spells v n ∧ 0 ≤ n ∧ n ≤ INT32_MAX

namespace Opt

def words : Opt → List Text
  | device v _ => ["--device".toList, v]
  | value k v => [k.name, v]
  | flag f => [f.name]

def ids : Opt → List Int
  | device _ ids => ids
  | _ => []

/-- The option, for one that may be given once. -/
def key : Opt → Option Key
  | value k _ => some k
  | _ => none

def Valid : Opt → Prop
  | device v ids => v = "all".toList ∧ ids = [-1] ∨ DeviceList v ids
  | value k v => k.Takes v
  | flag _ => True

/-- The address of `--client` or `--server` has no `:`. -/
def Malformed : Opt → Prop
  | value .client v => ':' ∉ v
  | value .server v => ':' ∉ v
  | _ => False

instance : DecidablePred Malformed
  | device _ _ => isFalse id
  | flag _ => isFalse id
  | value .client v => inferInstanceAs (Decidable (':' ∉ v))
  | value .server v => inferInstanceAs (Decidable (':' ∉ v))
  | value .threads _ => isFalse id
  | value .output _ => isFalse id
  | value .upload _ => isFalse id
  | value .start _ => isFalse id
  | value .size _ => isFalse id

end Opt

def Given (k : Key) (opts : List Opt) : Prop := ∃ o ∈ opts, o.key = some k

def device_ids (opts : List Opt) : List Int := opts.flatMap Opt.ids

/-- What the command line is to be: each value is well formed, no option of one value is given
twice, and none is given that another one excludes. -/
structure WellFormed (opts : List Opt) : Prop where
  values : ∀ o ∈ opts, o.Valid
  once : opts.Pairwise fun o o' => ∀ k, o.key = some k → o'.key ≠ some k
  distinct : (device_ids opts).Nodup
  all : -1 ∈ device_ids opts → device_ids opts = [-1]
  threads : Given .threads opts → ¬ Given .client opts
  output : Given .output opts → ¬ Given .client opts
  start : Given .start opts → Given .server opts → device_ids opts ≠ []
  size : Given .size opts → Given .client opts → Given .threads opts

/-- The options that stay when the malformed addresses are left out. -/
def taken (opts : List Opt) : List Opt := opts.filter fun o => ¬ o.Malformed

/-- What the command line is to be when the malformed addresses of `--client` and `--server` are
left out; none of them comes after an address that is taken. -/
structure Tolerated (opts : List Opt) : Prop where
  rest : WellFormed (taken opts)
  late : opts.Pairwise fun o o' => ¬ o.Malformed → ∀ k, o.key = some k → o'.key ≠ some k

/-- The arguments behind the name of the program are those of the options. -/
def Reads (argv : List Text) (opts : List Opt) : Prop := argv.drop 1 = opts.flatMap Opt.words

end Omission.Options
