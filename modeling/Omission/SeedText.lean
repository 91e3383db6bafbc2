import Mathlib.Algebra.Group.Int.Defs
import Mathlib.Algebra.Group.Nat.Defs
import Omission.Lib.Decimal
import Omission.Uploader

namespace Omission.SeedText
open Omission.Lib Omission.Backend Omission.Uploader
set_option autoImplicit true

def PRIu64 (v : BitVec 64) : List Char := decimal v.toNat

def PRIi64 (v : BitVec 64) : List Char := signedDecimal v.toInt

def PRIi32 (v : BitVec 32) : List Char := signedDecimal v.toInt

/-- The path that `UploaderThread::run` prints. -/
def upload_path (item : UploadItem) : List Char :=
  "/api/seeds/single?seed=".toList ++ PRIu64 item.seed ++ "&x=".toList ++ PRIi32 item.x ++
    "&z=".toList ++ PRIi32 item.z ++ "&size=".toList ++ PRIi32 item.size ++
    "&mode=".toList ++ item.mode.text.toList

/-- What `sqlite3` does with a Python integer: the column holds signed 64-bit values, and an
integer outside of them raises an `OverflowError`. -/
def sqlite_bind (v : Int) : Option (BitVec 64) :=
  if -2 ^ 63 ≤ v ∧ v < 2 ^ 63 then some (BitVec.ofInt 64 v) else none

/-- The seed column of the row that an upload leaves. -/
def stored_seed (query_seed : List Char → Option Int) (item : UploadItem) :
    Option (BitVec 64) := do
  let seed ← query_seed (upload_path item)
  sqlite_bind (wrapSeed seed)

/-- `str(d["seed"])` -/
def str_seed (column : BitVec 64) : List Char := signedDecimal column.toInt

/-- The text as a JSON string; none of its characters is escaped. -/
def json_string (t : List Char) : List Char := '"' :: t ++ ['"']

def json_parse : List Char → Option (List Char)
  | '"' :: t => some (t.takeWhile (· ≠ '"'))
  | _ => none

/-- `BigInt(text)` on decimal texts; others raise a `SyntaxError`. -/
def BigInt (t : List Char) : Option Int :=
  if (t = [] ∨ (splitSign t).2 ≠ []) ∧ (splitSign t).2.all Char.isDigit then some (leadingInt t)
  else none

/-- `x >>> 0` -/
def toUint32 (x : Int) : BitVec 32 := BitVec.ofInt 32 x

/-- The halves that `initCubiomes` posts to the workers. On a `BigInt` the mask
`& 0xffffffffn` is the remainder, also of a negative number. -/
def initCubiomes (seedStr : List Char) : Option (BitVec 32 × BitVec 32) := do
  let s ← BigInt seedStr
  let seedLo := toUint32 (s % 2 ^ 32)
  let seedHi := toUint32 ((s >>> (32 : Nat)) % 2 ^ 32)
  some (seedLo, seedHi)

def cubiomes_init (seed_lo seed_hi : BitVec 32) : BitVec 64 :=
  (seed_hi.setWidth 64 <<< 32) ||| seed_lo.setWidth 64

/-- The seed that the map of the viewer is drawn from. -/
def viewer_seed (column : BitVec 64) : Option (BitVec 64) := do
  let seedStr ← json_parse (json_string (str_seed column))
  let (seedLo, seedHi) ← initCubiomes seedStr
  some (cubiomes_init seedLo seedHi)

def isspace (c : Char) : Bool :=
  c = ' ' ∨ c = '\t' ∨ c = '\n' ∨ c = '\x0b' ∨ c = '\x0c' ∨ c = '\r'

/-- `strtoll(t, NULL, 10)`, which stops at the limits of the type. -/
def strtoll (t : List Char) : BitVec 64 :=
  BitVec.ofInt 64 (max (-2 ^ 63) (min (leadingInt (t.dropWhile isspace)) (2 ^ 63 - 1)))

/-- `strtol` and `atoi`, stored in an `int32_t`. -/
def strtol32 (t : List Char) : BitVec 32 := (strtoll t).setWidth 32

/-- The variables of `main` in `sizecheck.cpp` that its arguments set. -/
structure Sizecheck where
  worldseed : BitVec 64
  x : BitVec 32
  z : BitVec 32
  min_size : BitVec 32
  large : Bool
  has_mode : Bool
  positionals : List (List Char)

def Sizecheck.positional (a : Sizecheck) (arg : List Char) : Sizecheck :=
  if a.positionals.length < 3 then { a with positionals := a.positionals ++ [arg] } else a

def Sizecheck.scan (a : Sizecheck) : List (List Char) → Sizecheck
  | [] => a
  | [arg] =>
    if arg = "--sb".toList then { a with large := false, has_mode := true }
    else if arg = "--lb".toList then { a with large := true, has_mode := true }
    else a.positional arg
  | arg :: value :: rest =>
    if arg = "--sb".toList then
      Sizecheck.scan { a with large := false, has_mode := true } (value :: rest)
    else if arg = "--lb".toList then
      Sizecheck.scan { a with large := true, has_mode := true } (value :: rest)
    else if arg = "--worldseed".toList ∨ arg = "--seed".toList then
      Sizecheck.scan { a with worldseed := strtoll value } rest
    else if arg = "--x".toList then Sizecheck.scan { a with x := strtol32 value } rest
    else if arg = "--z".toList then Sizecheck.scan { a with z := strtol32 value } rest
    else if arg = "--size".toList then Sizecheck.scan { a with min_size := strtol32 value } rest
    else Sizecheck.scan (a.positional arg) (value :: rest)

/-- The seed that `sizecheck` applies; `none` is the usage message. -/
def sizecheck_seed (argv : List (List Char)) : Option (BitVec 64) :=
  let a := Sizecheck.scan ⟨0, 0, 0, 0, false, false, []⟩ argv
  if ¬ a.has_mode then none
  else
    match a.positionals with
    | seed :: _ =>
      if a.worldseed = 0 ∧ a.x = 0 ∧ a.z = 0 then some (strtoll seed) else some a.worldseed
    | [] => some a.worldseed

/-- The variables of `main` in `render_map.cpp` that its arguments set. -/
structure RenderMap where
  worldseed : BitVec 64
  cx : BitVec 32
  cz : BitVec 32
  scale : BitVec 32
  width : BitVec 32
  height : BitVec 32
  y : BitVec 32
  large_biomes : Bool
  zoom : BitVec 32
  sample_mode : Bool
  output_path : Option (List Char)

/-- An option of `render_map` that takes a value. -/
def RenderMap.option (a : RenderMap) (arg value : List Char) : Option RenderMap :=
  if arg = "--seed".toList then some { a with worldseed := strtoll value }
  else if arg = "--x".toList then some { a with cx := strtol32 value }
  else if arg = "--z".toList then some { a with cz := strtol32 value }
  else if arg = "--scale".toList then some { a with scale := strtol32 value }
  else if arg = "--width".toList then some { a with width := strtol32 value }
  else if arg = "--height".toList then some { a with height := strtol32 value }
  else if arg = "--y".toList then some { a with y := strtol32 value }
  else if arg = "--output".toList then some { a with output_path := some value }
  else if arg = "--zoom".toList then some { a with zoom := strtol32 value }
  else none

def RenderMap.flag (a : RenderMap) (arg : List Char) : RenderMap :=
  if arg = "--large-biomes".toList then { a with large_biomes := true }
  else if arg = "--sample".toList then { a with sample_mode := true }
  else a

/-- The loop over `argv`; `none` where the usage text ends the program. -/
def RenderMap.scan (a : RenderMap) : List (List Char) → Option RenderMap
  | [] => some a
  | [arg] =>
    if arg = "-h".toList ∨ arg = "--help".toList then none else some (a.flag arg)
  | arg :: value :: rest =>
    match a.option arg value with
    | some a => RenderMap.scan a rest
    | none =>
      if arg = "-h".toList ∨ arg = "--help".toList then none
      else RenderMap.scan (a.flag arg) (value :: rest)

/-- What `render_thumb` runs. -/
def render_args (column : BitVec 64) (x z : Int) (large : Bool) : List (List Char) :=
  ["--seed".toList, str_seed column, "--x".toList, signedDecimal x, "--z".toList, signedDecimal z,
    "--width".toList, "256".toList, "--height".toList, "256".toList, "--scale".toList, "4".toList,
    "--zoom".toList, "8".toList, "--sample".toList, "--output".toList,
    "/tmp/thumb_".toList ++ str_seed column ++ "_".toList ++ signedDecimal x ++ "_".toList ++
      signedDecimal z ++ ".ppm".toList] ++
    if large then ["--large-biomes".toList] else []

/-- The seed that `render_map` applies. -/
def render_seed (argv : List (List Char)) : Option (BitVec 64) := do
  let a ← RenderMap.scan ⟨0, 0, 0, 4, 512, 512, -1, false, 1, false, none⟩ argv
  if a.output_path.isNone then none else some a.worldseed

theorem sqlite_bind_toInt (v : BitVec 64) : sqlite_bind v.toInt = some v := by
  have hlt := v.isLt
  have hrange : -2 ^ 63 ≤ v.toInt ∧ v.toInt < 2 ^ 63 := by
    rw [BitVec.toInt]
    split <;> omega
  rw [sqlite_bind, if_pos hrange, BitVec.ofInt_toInt]

theorem halves_toInt (v : BitVec 64) : v.toInt % 2 ^ 32 = (v.toNat % 2 ^ 32 : Nat) ∧
    (v.toInt >>> (32 : Nat)) % 2 ^ 32 = (v.toNat / 2 ^ 32 : Nat) := by
  have hlt := v.isLt
  rw [Int.shiftRight_eq_div_pow, BitVec.toInt]
  constructor <;> split <;> omega

theorem toUint32_ofNat (h : n < 2 ^ 32) : (toUint32 (n : Nat)).toNat = n := by
  rw [toUint32, BitVec.ofInt_natCast, BitVec.toNat_ofNat]
  exact Nat.mod_eq_of_lt h

theorem cubiomes_init_halves (v : BitVec 64) :
    cubiomes_init (toUint32 (v.toInt % 2 ^ 32))
      (toUint32 ((v.toInt >>> (32 : Nat)) % 2 ^ 32)) = v := by
  have hlt := v.isLt
  obtain ⟨hlo, hhi⟩ := halves_toInt v
  have hlow : v.toNat % 2 ^ 32 < 2 ^ 32 := Nat.mod_lt _ (by decide)
  have hhigh : v.toNat / 2 ^ 32 < 2 ^ 32 := by omega
  apply BitVec.eq_of_toNat_eq
  rw [hlo, hhi, cubiomes_init, BitVec.toNat_or, BitVec.toNat_shiftLeft, BitVec.toNat_setWidth,
    BitVec.toNat_setWidth, toUint32_ofNat hlow, toUint32_ofNat hhigh,
    Nat.mod_eq_of_lt (hlow.trans (by decide)), Nat.mod_eq_of_lt (hhigh.trans (by decide)),
    Nat.mod_eq_of_lt (by rw [Nat.shiftLeft_eq]; omega), ← Nat.shiftLeft_add_eq_or_of_lt hlow,
    Nat.shiftLeft_eq]
  omega

theorem signedDecimal_chars (v : Int) : ∀ c ∈ signedDecimal v, c = '-' ∨ c.isDigit = true := by
  intro c hc
  cases v with
  | ofNat n => exact .inr (decimal_isDigit hc)
  | negSucc n =>
    rcases List.mem_cons.1 hc with rfl | hc
    · exact .inl rfl
    · exact .inr (decimal_isDigit hc)

theorem json_round_trip (v : Int) :
    json_parse (json_string (signedDecimal v)) = some (signedDecimal v) := by
  have hall : ∀ c ∈ signedDecimal v, decide (c ≠ '"') = true := by
    intro c hc
    rcases signedDecimal_chars v c hc with rfl | hdigit
    · decide
    · apply decide_eq_true
      rintro rfl
      exact absurd hdigit (by decide)
  change some ((signedDecimal v ++ ['"']).takeWhile _) = _
  rw [List.takeWhile_append_of_pos hall, List.takeWhile_cons_of_neg (by decide), List.append_nil]

theorem BigInt_signedDecimal (v : Int) : BigInt (signedDecimal v) = some v := by
  have hread : leadingInt (signedDecimal v) = v := by
    have h := leadingInt_signedDecimal (t := []) v nofun
    rwa [List.append_nil] at h
  have hform : (splitSign (signedDecimal v)).2 ≠ [] ∧
      (splitSign (signedDecimal v)).2.all Char.isDigit = true := by
    cases v with
    | ofNat n =>
      obtain ⟨c, t, hc, hdigit⟩ := decimal_head n
      rw [signedDecimal, hc, splitSign_digit hdigit, ← hc]
      exact ⟨decimal_ne_nil n, List.all_eq_true.2 fun c => decimal_isDigit⟩
    | negSucc n => exact ⟨decimal_ne_nil _, List.all_eq_true.2 fun c => decimal_isDigit⟩
  rw [BigInt, if_pos ⟨.inr hform.1, hform.2⟩, hread]

/-- The map of the viewer is drawn from the stored seed. -/
theorem viewer_seed_eq (v : BitVec 64) : viewer_seed v = some v := by
  rw [viewer_seed, str_seed, json_round_trip]
  simp only [initCubiomes, BigInt_signedDecimal, Option.bind_eq_bind, Option.bind_some,
    cubiomes_init_halves]

theorem isspace_digit (h : Char.isDigit c = true) : ¬ isspace c = true := by
  intro hspace
  simp only [isspace, decide_eq_true_eq] at hspace
  rcases hspace with rfl | rfl | rfl | rfl | rfl | rfl <;> exact absurd h (by decide)

theorem strtoll_signedDecimal (v : BitVec 64) : strtoll (signedDecimal v.toInt) = v := by
  have hlt := v.isLt
  have hspace : (signedDecimal v.toInt).dropWhile isspace = signedDecimal v.toInt := by
    obtain ⟨c, t, hdigit, hc | hc⟩ := signedDecimal_head v.toInt
    · rw [hc, List.dropWhile_cons_of_neg (isspace_digit hdigit)]
    · rw [hc]
      exact List.dropWhile_cons_of_neg (by decide)
  have hread : leadingInt (signedDecimal v.toInt) = v.toInt := by
    have h := leadingInt_signedDecimal (t := []) v.toInt nofun
    rwa [List.append_nil] at h
  have hclamp : max (-2 ^ 63) (min v.toInt (2 ^ 63 - 1)) = v.toInt := by
    rw [BitVec.toInt]
    split <;> omega
  rw [strtoll, hspace, hread, hclamp, BitVec.ofInt_toInt]

theorem signedDecimal_ne_option (v : Int) (t : List Char) : signedDecimal v ≠ '-' :: '-' :: t := by
  intro h
  obtain ⟨c, u, hdigit, hc | hc⟩ := signedDecimal_head v
  · rw [hc] at h
    cases h
    exact absurd hdigit (by decide)
  · rw [hc] at h
    cases h
    exact absurd hdigit (by decide)

theorem scan_positional (a : Sizecheck) (v : Int) (rest : List (List Char)) :
    a.scan (signedDecimal v :: rest) = (a.positional (signedDecimal v)).scan rest := by
  have hne := signedDecimal_ne_option v
  cases rest with
  | nil => simp [Sizecheck.scan, hne]
  | cons value rest => simp [Sizecheck.scan, hne]

theorem scan_mode (a : Sizecheck) (large : Bool) (arg : List Char) (rest : List (List Char)) :
    a.scan ((if large then "--lb".toList else "--sb".toList) :: arg :: rest) =
      Sizecheck.scan { a with large := large, has_mode := true } (arg :: rest) := by
  cases large <;> simp [Sizecheck.scan]

/-- The command line that the viewer shows checks the stored seed. -/
theorem sizecheck_seed_eq (v : BitVec 64) (x z : BitVec 32) (large : Bool) :
    sizecheck_seed [if large then "--lb".toList else "--sb".toList, PRIi64 v, PRIi32 x, PRIi32 z] =
      some v := by
  rw [sizecheck_seed, scan_mode, PRIi64, PRIi32, PRIi32, scan_positional, scan_positional,
    scan_positional]
  exact congrArg some (strtoll_signedDecimal v)

theorem render_seed_eq (v : BitVec 64) (x z : Int) (large : Bool) :
    render_seed (render_args v x z large) = some v := by
  have hread : strtoll (str_seed v) = v := strtoll_signedDecimal v
  cases large <;>
    simp [render_seed, render_args, RenderMap.scan, RenderMap.option, RenderMap.flag, hread]

theorem strtol32_signedDecimal (h : Fits 64 v) :
    (strtol32 (signedDecimal v)).toInt = wrap 32 v := by
  have hread : strtoll (signedDecimal v) = BitVec.ofInt 64 v := by
    have hv : (BitVec.ofInt 64 v).toInt = v :=
      (BitVec.toInt_ofInt v).trans ((wrap_eq_iff (by decide)).2 h)
    conv_lhs => rw [← hv]
    exact strtoll_signedDecimal _
  have hdvd : ((2 ^ 32 : Nat) : Int) ∣ ((2 ^ 64 : Nat) : Int) := by decide
  have hmod : ((BitVec.ofInt 64 v).toNat : Int) = v % (2 ^ 64 : Nat) := by
    rw [BitVec.toNat_ofInt, Int.toNat_of_nonneg (Int.emod_nonneg _ (by decide))]
  rw [strtol32, hread, BitVec.toInt_setWidth, hmod, wrap, ← Int.emod_bmod,
    Int.emod_emod_of_dvd v hdvd, Int.emod_bmod]

/-- The centre that the renderer draws is the one that the backend's pictures are of. -/
theorem render_place_eq (v : BitVec 64) (large : Bool) (hx : Fits 64 x) (hz : Fits 64 z) :
    (RenderMap.scan ⟨0, 0, 0, 4, 512, 512, -1, false, 1, false, none⟩
      (render_args v x z large)).map (fun a => (a.worldseed.toInt, a.cx.toInt, a.cz.toInt)) =
      some (drawn_place (v.toInt, x, z)) := by
  have hread : strtoll (str_seed v) = v := strtoll_signedDecimal v
  have hx := strtol32_signedDecimal hx
  have hz := strtol32_signedDecimal hz
  cases large <;>
    simp [render_args, RenderMap.scan, RenderMap.option, RenderMap.flag, drawn_place, hread, hx, hz]

theorem upload_path_seed (item : UploadItem) : ∃ t, upload_path item =
    "/api/seeds/single?seed=".toList ++ decimal item.seed.toNat ++ '&' :: t := by
  have hamp : "&x=".toList = '&' :: "x=".toList := rfl
  unfold upload_path PRIu64
  rw [hamp]
  generalize PRIi32 item.x = x
  generalize PRIi32 item.z = z
  generalize PRIi32 item.size = size
  exact ⟨"x=".toList ++ (x ++ ("&z=".toList ++ (z ++ ("&size=".toList ++ (size ++
    ("&mode=".toList ++ item.mode.text.toList)))))), by simp only [List.append_assoc,
      List.cons_append]⟩

/-- A seed survives every hop, and two seeds are never stored alike. `query_seed` is the reading
of the parameter `seed` from the path of the request. -/
theorem seed_survives (query_seed : List Char → Option Int)
    (hquery : ∀ item, query_seed (upload_path item) = some (item.seed.toNat : Int))
    (item : UploadItem) :
    (∃ column, stored_seed query_seed item = some column ∧ viewer_seed column = some item.seed ∧
      (∀ x z (large : Bool), render_seed (render_args column x z large) = some item.seed) ∧
      ∀ x z (large : Bool), sizecheck_seed [if large then "--lb".toList else "--sb".toList,
        str_seed column, PRIi32 x, PRIi32 z] = some item.seed) ∧
    strtoll (PRIi64 item.seed) = item.seed ∧
    (∀ x z (large : Bool), sizecheck_seed [if large then "--lb".toList else "--sb".toList,
      PRIi64 item.seed, PRIi32 x, PRIi32 z] = some item.seed) ∧
    ∀ other : UploadItem, stored_seed query_seed other = stored_seed query_seed item →
      other.seed = item.seed := by
  have hstored : ∀ item : UploadItem, stored_seed query_seed item = some item.seed := by
    intro item
    rw [stored_seed, hquery]
    change sqlite_bind (wrapSeed item.seed.toNat) = _
    rw [wrapSeed_toNat, sqlite_bind_toInt]
  refine ⟨⟨item.seed, hstored item, viewer_seed_eq item.seed,
    render_seed_eq item.seed, sizecheck_seed_eq item.seed⟩, strtoll_signedDecimal item.seed,
    sizecheck_seed_eq item.seed, ?_⟩
  intro other h
  rw [hstored, hstored] at h
  exact Option.some.inj h

/-- The parameter as it is documented: the text behind `seed=`, up to the next `&`. -/
def read_seed (path : List Char) : Option Int :=
  BigInt ((path.drop "/api/seeds/single?seed=".toList.length).takeWhile (· ≠ '&'))

theorem read_seed_path (item : UploadItem) :
    read_seed (upload_path item) = some (item.seed.toNat : Int) := by
  have hall : ∀ c ∈ decimal item.seed.toNat, decide (c ≠ '&') = true := by
    intro c hc
    apply decide_eq_true
    rintro rfl
    exact absurd (decimal_isDigit hc) (by decide)
  obtain ⟨t, ht⟩ := upload_path_seed item
  rw [read_seed, ht, List.append_assoc, List.drop_left, List.takeWhile_append_of_pos hall,
    List.takeWhile_cons_of_neg (by decide), List.append_nil]
  exact BigInt_signedDecimal (.ofNat _)

/-- The highest seed, which is stored as -1. -/
theorem seed_survives_top : ∃ column,
    stored_seed read_seed ⟨-1, 0, 0, 0, .sb⟩ = some column ∧ viewer_seed column = some (-1) := by
  obtain ⟨⟨column, hstored, hviewer, -⟩, -⟩ :=
    seed_survives read_seed read_seed_path ⟨-1, 0, 0, 0, .sb⟩
  exact ⟨column, hstored, hviewer⟩

end Omission.SeedText
