import Mathlib.Data.List.Basic
import Omission.Backend.Seeds

namespace Omission.Backend
open Omission.Lib
set_option autoImplicit true

/-- `str.upper`: each character is mapped by itself, and none is dropped. -/
structure CaseMap where
  upper : Char → Text
  upper_ne_nil : ∀ c, upper c ≠ []
  upper_lower : ∀ c, c.isLower = true → upper c = [c.toUpper]

namespace CaseMap

def map (m : CaseMap) (t : Text) : Text := t.flatMap m.upper

def ascii : CaseMap :=
  ⟨fun c => [c.toUpper], fun c => List.cons_ne_nil c.toUpper [], fun _ _ => rfl⟩

variable (m : CaseMap)

theorem map_append (t u : Text) : m.map (t ++ u) = m.map t ++ m.map u := List.flatMap_append

theorem map_lower {t : Text} (h : ∀ c ∈ t, c.isLower = true) : m.map t = t.map Char.toUpper := by
  induction t with
  | nil => rfl
  | cons c t ih =>
    rw [List.forall_mem_cons] at h
    rw [map, List.flatMap_cons, m.upper_lower c h.1, List.map_cons, ← ih h.2]
    rfl

theorem map_eq_nil {t : Text} (h : m.map t = []) : t = [] := by
  cases t with
  | nil => rfl
  | cons c t =>
    rw [map, List.flatMap_cons] at h
    exact absurd (List.append_eq_nil_iff.1 h).1 (m.upper_ne_nil c)

/-- The upper-case text of a part of `t` is a part of the upper-case text of `t`. -/
theorem map_infix {a t : Text} (h : a <:+: t) : m.map a <:+: m.map t := by
  obtain ⟨u, v, rfl⟩ := h
  exact ⟨m.map u, m.map v, by rw [map_append, map_append]⟩

theorem eq_of_map_infix {a t : Text} (h : a <:+: t) (he : m.map t = m.map a) : t = a := by
  obtain ⟨u, v, rfl⟩ := h
  have hlen := congrArg List.length he
  simp only [map_append, List.length_append] at hlen
  rw [m.map_eq_nil (List.length_eq_zero_iff.1 (by omega : (m.map u).length = 0)),
    m.map_eq_nil (List.length_eq_zero_iff.1 (by omega : (m.map v).length = 0)),
    List.nil_append, List.append_nil]

end CaseMap

/-- The parameters of `GET /api/seeds` as they are before the validators look at them. -/
structure ListQuery where
  page : Int
  limit : Int
  sort : Text
  order : Text
  search : Text
  min_size : Option Int
  max_size : Option Int
  mode : Option Text
  biome : Option Text
  in_bounds : Option Bool
  at_origin : Option Bool
deriving DecidableEq

def sort_pattern : Text := "size|seed|distance|created_at".toList
def order_pattern : Text := "asc|desc".toList
def mode_pattern : Text := "sb|lb|usb|ulb".toList
def biome_pattern : Text := "small|large".toList

/-- The validators of `list_seeds`. -/
def ListQuery.Valid (q : ListQuery) : Prop :=
  1 ≤ q.page ∧ 1 ≤ q.limit ∧ q.limit ≤ 200 ∧ Accepts sort_pattern q.sort ∧
    Accepts order_pattern q.order ∧ (∀ t ∈ q.mode, Accepts mode_pattern t) ∧
    ∀ t ∈ q.biome, Accepts biome_pattern t

instance (q : ListQuery) : Decidable q.Valid := inferInstanceAs (Decidable (_ ∧ _))

inductive Param where
  | text (t : Text)
  | int (i : Int)
deriving DecidableEq

structure Statements where
  /-- `SELECT COUNT(*) ..` -/
  count : Text
  /-- `SELECT * ..` -/
  rows : Text
  params : List Param
  limit : Int
  offset : Int
deriving DecidableEq

def ORIGIN_RADIUS : Nat := 16384

/-- The condition of `at_origin`. -/
def origin_cond : Text :=
  "(abs(x) <= ".toList ++ Nat.toDigits 10 ORIGIN_RADIUS ++ " AND abs(z) <= ".toList ++
    Nat.toDigits 10 ORIGIN_RADIUS ++ ")".toList

/-- The table from which `sort_col` is looked up. -/
def columns : List (Text × Text) :=
  [("size".toList, "size".toList), ("seed".toList, "seed".toList),
    ("distance".toList, "(abs(x)+abs(z))".toList), ("created_at".toList, "created_at".toList)]

section Statement

-- the white space that `strip` takes off, and the case mapping of `upper`
variable (isspace : Char → Bool) (m : CaseMap)

def strip (t : Text) : Text := ((t.dropWhile isspace).reverse.dropWhile isspace).reverse

/-- `where_parts` with what each part appends to `params`. -/
def where_parts (q : ListQuery) : List (Text × List Param) :=
  (if strip isspace q.search ≠ [] then
    [("CAST(seed AS TEXT) LIKE ?".toList, [.text ('%' :: strip isspace q.search ++ ['%'])])]
    else []) ++
  (q.min_size.map fun v => ("size >= ?".toList, [Param.int v])).toList ++
  (q.max_size.map fun v => ("size <= ?".toList, [Param.int v])).toList ++
  ((q.mode.filter (· ≠ [])).map fun t => ("mode = ?".toList, [Param.text t])).toList ++
  ((q.biome.filter (· ≠ [])).map fun t =>
    (if t = "small".toList then "(mode = 'sb' OR mode = 'usb')".toList
      else "(mode = 'lb' OR mode = 'ulb')".toList, [])).toList ++
  (q.in_bounds.map fun b =>
    (if b then "mode NOT LIKE 'u%'".toList else "mode LIKE 'u%'".toList, [])).toList ++
  (q.at_origin.map fun b => (if b then origin_cond else "NOT ".toList ++ origin_cond, [])).toList

def where_clause (parts : List Text) : Text :=
  if parts = [] then [] else " WHERE ".toList ++ " AND ".toList.intercalate parts

def count_text (parts : List Text) : Text :=
  "SELECT COUNT(*) FROM seeds".toList ++ where_clause parts

def rows_text (parts : List Text) (sort_col direction : Text) : Text :=
  "SELECT * FROM seeds".toList ++ where_clause parts ++ " ORDER BY ".toList ++ sort_col ++
    " ".toList ++ direction ++ " LIMIT ? OFFSET ?".toList

/-- The statements that `list_seeds` executes; none is the `KeyError` of the column table. -/
def list_seeds (q : ListQuery) : Option Statements := do
  let sort_col ← columns.lookup q.sort
  let parts := (where_parts isspace q).map (·.1)
  some ⟨count_text parts, rows_text parts sort_col (m.map q.order),
    ((where_parts isspace q).map (·.2)).flatten, q.limit, (q.page - 1) * q.limit⟩

end Statement

/-- The answer of `list_seeds`. -/
structure SeedPage (Row : Type) where
  total : Nat
  page : Nat
  limit : Nat
  pages : Nat
  seeds : List Row

/-- The page cut out of the rows that the statement selects without its `LIMIT`. -/
def seed_page (selected : List Row) (page limit : Nat) : SeedPage Row :=
  ⟨selected.length, page, limit,
    if selected.length > 0 then (selected.length + limit - 1) / limit else 0,
    (selected.drop ((page - 1) * limit)).take limit⟩

def directions : List Text := ["ASC".toList, "DESC".toList]
def modes : List Text := ["sb".toList, "lb".toList, "usb".toList, "ulb".toList]
def biomes : List Text := ["small".toList, "large".toList]

def where_texts : List Text :=
  ["CAST(seed AS TEXT) LIKE ?".toList, "size >= ?".toList, "size <= ?".toList, "mode = ?".toList,
    "(mode = 'sb' OR mode = 'usb')".toList, "(mode = 'lb' OR mode = 'ulb')".toList,
    "mode NOT LIKE 'u%'".toList, "mode LIKE 'u%'".toList, origin_cond,
    "NOT ".toList ++ origin_cond]

/-- The statements are put together from fixed fragments. -/
def Statements.Fixed (st : Statements) : Prop :=
  ∃ parts, parts ⊆ where_texts ∧ ∃ col ∈ columns.map (·.2), ∃ dir ∈ directions,
    st.count = count_text parts ∧ st.rows = rows_text parts col dir

/-- What of the request reaches the text of the statements is listed. -/
structure Whitelisted (isspace : Char → Bool) (m : CaseMap) (q : ListQuery) : Prop where
  direction : m.map q.order ∈ directions
  statement : ∃ st, list_seeds isspace m q = some st ∧ st.Fixed
  mode : ∀ t ∈ q.mode, t ∈ modes
  biome : ∀ t ∈ q.biome, t ∈ biomes

/-- Every parameter that a pattern guards is one of the alternatives of its pattern. -/
structure ListQuery.Exact (q : ListQuery) : Prop where
  sort : q.sort ∈ Regex.alternatives sort_pattern
  order : q.order ∈ Regex.alternatives order_pattern
  mode : ∀ t ∈ q.mode, t ∈ Regex.alternatives mode_pattern
  biome : ∀ t ∈ q.biome, t ∈ Regex.alternatives biome_pattern

theorem sort_words : Regex.alternatives sort_pattern = columns.map (·.1) := by decide

theorem mode_words : Regex.alternatives mode_pattern = modes := by decide

theorem biome_words : Regex.alternatives biome_pattern = biomes := by decide

section Whitelist

variable {isspace : Char → Bool} {m : CaseMap} {q : ListQuery}

theorem where_parts_fixed (q : ListQuery) :
    (where_parts isspace q).map (·.1) ⊆ where_texts := by
  intro t ht
  obtain ⟨x, hx, rfl⟩ := List.mem_map.1 ht
  simp only [where_parts, List.mem_append, Option.mem_toList,
    Option.map_eq_some_iff] at hx
  rcases hx with (((((hx | ⟨v, -, rfl⟩) | ⟨v, -, rfl⟩) | ⟨v, -, rfl⟩) | ⟨v, -, rfl⟩) |
    ⟨b, -, rfl⟩) | ⟨b, -, rfl⟩
  · split at hx
    · cases List.mem_singleton.1 hx
      simp [where_texts]
    · cases hx
  · simp [where_texts]
  · simp [where_texts]
  · simp [where_texts]
  · split <;> simp [where_texts]
  · cases b <;> simp [where_texts]
  · cases b <;> simp [where_texts]

theorem mem_columns {t col : Text} (h : columns.lookup t = some col) :
    t ∈ columns.map (·.1) ∧ col ∈ columns.map (·.2) := by
  obtain ⟨l, l', hl, -⟩ := List.lookup_eq_some_iff.1 h
  have hmem : (t, col) ∈ columns := by
    rw [hl]
    exact List.mem_append_right _ List.mem_cons_self
  exact ⟨List.mem_map_of_mem (f := (·.1)) hmem, List.mem_map_of_mem (f := (·.2)) hmem⟩

theorem exists_column {t : Text} (h : t ∈ columns.map (·.1)) :
    ∃ col, columns.lookup t = some col := by
  obtain ⟨x, hx, rfl⟩ := List.mem_map.1 h
  rw [← Option.isSome_iff_exists, List.lookup_isSome_iff]
  exact ⟨x, hx, beq_self_eq_true x.1⟩

theorem words_lower {a : Text} (ha : a ∈ Regex.alternatives order_pattern) :
    ∀ c ∈ a, c.isLower = true := by
  have hall : ∀ a ∈ Regex.alternatives order_pattern, a.all Char.isLower = true := by decide
  exact List.all_eq_true.1 (hall a ha)

theorem words_upper :
    ∀ a ∈ Regex.alternatives order_pattern, a.map Char.toUpper ∈ directions := by decide

theorem direction_of_infix : ∀ a ∈ Regex.alternatives order_pattern, ∀ d ∈ directions,
    a.map Char.toUpper <:+: d → d = a.map Char.toUpper := by decide

/-- A text that contains `asc` or `desc` and becomes one of the directions is one of the two. -/
theorem order_exact (hv : Accepts order_pattern q.order) (hd : m.map q.order ∈ directions) :
    q.order ∈ Regex.alternatives order_pattern := by
  obtain ⟨a, ha, hin⟩ := (Regex.search_ofPattern _ _).1 hv
  have hlower := m.map_lower (words_lower ha)
  have hup := m.map_infix hin
  rw [hlower] at hup
  have he : m.map q.order = m.map a := by
    rw [hlower]
    exact direction_of_infix a ha _ hd hup
  rw [m.eq_of_map_infix hin he]
  exact ha

theorem order_upper (h : q.order ∈ Regex.alternatives order_pattern) :
    m.map q.order ∈ directions := by
  rw [m.map_lower (words_lower h)]
  exact words_upper _ h

theorem list_seeds_fixed {col : Text} (hcol : columns.lookup q.sort = some col)
    (hdir : m.map q.order ∈ directions) :
    ∃ st, list_seeds isspace m q = some st ∧ st.Fixed := by
  rw [list_seeds, hcol]
  exact ⟨_, rfl, _, where_parts_fixed q, col, (mem_columns hcol).2, _, hdir, rfl, rfl⟩

theorem exact_of_whitelisted (hv : q.Valid) (h : Whitelisted isspace m q) : q.Exact := by
  obtain ⟨-, -, -, -, horder, -, -⟩ := hv
  obtain ⟨st, hst, -⟩ := h.statement
  obtain ⟨col, hcol, -⟩ := Option.bind_eq_some_iff.1 hst
  refine ⟨?_, order_exact horder h.direction, ?_, ?_⟩
  · rw [sort_words]
    exact (mem_columns hcol).1
  · rw [mode_words]
    exact h.mode
  · rw [biome_words]
    exact h.biome

theorem whitelisted_of_exact (h : q.Exact) : Whitelisted isspace m q := by
  have hdir : m.map q.order ∈ directions := order_upper h.order
  obtain ⟨col, hcol⟩ := exists_column (sort_words ▸ h.sort)
  refine ⟨hdir, list_seeds_fixed hcol hdir, ?_, ?_⟩
  · rw [← mode_words]
    exact h.mode
  · rw [← biome_words]
    exact h.biome

/-- The statements are whitelisted for an accepted request exactly when its guarded parameters are
alternatives of their patterns, not only texts that contain one. -/
theorem statement_whitelisted_iff (isspace : Char → Bool) (m : CaseMap) (q : ListQuery) :
    (q.Valid → Whitelisted isspace m q) ↔ ¬ q.Valid ∨ q.Exact := by
  rw [← imp_iff_not_or]
  exact imp_congr_right fun hv => ⟨exact_of_whitelisted hv, fun h => whitelisted_of_exact h⟩

end Whitelist

/-- A direction with a second sort term passes the validators and reaches the statement. -/
theorem injected_order :
    ¬ ((ListQuery.mk 1 50 "size".toList "asc, (SELECT 1)".toList [] none none none none none
        none).Valid →
      Whitelisted Char.isWhitespace .ascii ⟨1, 50, "size".toList, "asc, (SELECT 1)".toList, [],
        none, none, none, none, none, none⟩) := by
  intro h
  exact absurd (h (by decide)).direction (by decide)

end Omission.Backend
