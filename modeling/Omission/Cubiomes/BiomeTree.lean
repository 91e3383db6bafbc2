import Omission.Cubiomes.MonteCarlo
import Omission.Lib.Nearest
import Mathlib.Algebra.Order.BigOperators.Group.List
import Mathlib.Algebra.Order.Group.Nat
import Mathlib.Data.Vector.Basic

namespace Omission.Cubiomes
open Omission.Lib
set_option autoImplicit true

/-- The tables of a version: a node has the numbers of its six ranges in its lower bytes, and above
them the number of its first child, or the biome of a leaf. -/
structure BiomeTree where
  steps : List Nat
  param : List (Int × Int)
  nodes : List (BitVec 64)
  order : Nat

namespace BiomeTree

def len (bt : BiomeTree) : Nat := bt.nodes.length

/-- The number of a range of a node. -/
def rangeNumber (node : BitVec 64) (i : Fin 6) : Nat := ((node >>> (8 * i.val)) &&& 0xFF).toNat

end BiomeTree

/-- By how much `x` is outside of a range. -/
def np_gap (x : BitVec 64) (range : Int × Int) : BitVec 64 :=
  let a := x - BitVec.ofInt 64 range.2
  let b := BitVec.ofInt 64 range.1 - x
  if 0 < a.toInt then a else if 0 < b.toInt then b else 0

section Search

variable (np : Vector Int 6) (bt : BiomeTree)

def add_np_dist (node : BitVec 64) (ds : BitVec 64) (i : Fin 6) : Option (BitVec 64) := do
  let range ← bt.param[BiomeTree.rangeNumber node i]?
  let d := np_gap (BitVec.ofInt 64 np[i]) range
  some (ds + d * d)

def get_np_dist (idx : Nat) : Option (BitVec 64) := do
  let node ← bt.nodes[idx]?
  (List.finRange 6).foldlM (add_np_dist np bt node) 0

/-- `ds_leaf2` -/
def get_leaf_dist (inner leaf2 : Nat) (ds_inner : BitVec 64) : Option (BitVec 64) :=
  if inner = leaf2 then some ds_inner else get_np_dist np bt leaf2

/-- What is left of `leaf` and its distance after a child, which is entered if it is nearer. -/
def visit_child (descend : Nat → Nat → BitVec 64 → Option Nat) (inner leaf : Nat)
    (ds : BitVec 64) : Option (Nat × BitVec 64) := do
  let ds_inner ← get_np_dist np bt inner
  if ds_inner < ds then do
    let leaf2 ← descend inner leaf ds
    let ds_leaf2 ← get_leaf_dist np bt inner leaf2 ds_inner
    if ds_leaf2 < ds then some (leaf2, ds_leaf2) else some (leaf, ds)
  else some (leaf, ds)

/-- The loop with at most `n` children to go. -/
def visit_children (descend : Nat → Nat → BitVec 64 → Option Nat) (step : Nat) :
    Nat → Nat → Nat → BitVec 64 → Option Nat
  | 0, _, leaf, _ => some leaf
  | n + 1, inner, leaf, ds => do
    let (leaf, ds) ← visit_child np bt descend inner leaf ds
    let inner := (inner + step) % 2 ^ 16
    if bt.len ≤ inner then some leaf else visit_children descend step n inner leaf ds

/-- The first argument is the steps from `depth` on; only at the entry is a step of 0 a leaf's. -/
def get_resulting_node : List Nat → Bool → Nat → Nat → BitVec 64 → Option Nat
  | [], _, _, _, _ => none
  | step :: steps, entry, idx, alt, ds =>
    if entry ∧ step = 0 then some idx
    else if bt.len ≤ (idx + step) % 2 ^ 32 then get_resulting_node steps false idx alt ds
    else do
      let node ← bt.nodes[idx]?
      visit_children np bt (get_resulting_node steps true) step bt.order (node >>> 48).toNat alt ds

end Search

structure BiomeTrees where
  btree18 : BiomeTree
  btree192 : BiomeTree
  btree19 : BiomeTree
  btree20 : BiomeTree
  btree21wd : BiomeTree

def MC_1_19_2 : Int := 23
def MC_1_19_4 : Int := 24
def MC_1_20_6 : Int := 25
def MC_1_21_WD : Int := 28

namespace BiomeTrees

def of (trees : BiomeTrees) (mc : Int) : BiomeTree :=
  if mc ≥ MC_1_21_WD then trees.btree21wd
  else if mc ≥ MC_1_20_6 then trees.btree20
  else if mc ≥ MC_1_19_4 then trees.btree19
  else if mc ≥ MC_1_19_2 then trees.btree192
  else trees.btree18

end BiomeTrees

/-- The node a hint names. -/
def altOf (dat : BitVec 64) : Option Nat := (dat.setWidth 32).toInt.toNat?

def climateToNode (bt : BiomeTree) (np : Vector Int 6) : Option (BitVec 64) → Option Nat
  | some dat => do
    let alt ← altOf dat
    let ds ← get_np_dist np bt alt
    get_resulting_node np bt bt.steps true 0 alt ds
  | none => get_resulting_node np bt bt.steps true 0 0 (-1)

/-- The biome, and the hint for the next call if there was one. -/
def climateToBiome (trees : BiomeTrees) (mc : Int) (np : Vector Int 6)
    (dat : Option (BitVec 64)) : Option (Int × Option (BitVec 64)) := do
  let bt := trees.of mc
  let idx ← climateToNode bt np dat
  let node ← bt.nodes[idx]?
  some (((node >>> 48) &&& 0xFF).toNat, dat.map fun _ => BitVec.ofNat 64 idx)

/-- A value that the distances are computed from without overflow. -/
def Moderate (x : Int) : Prop := -2 ^ 29 ≤ x ∧ x ≤ 2 ^ 29

instance : Decidable (Moderate x) := inferInstanceAs (Decidable (_ ∧ _))

/-- By how much `x` is outside of a range. -/
def gap (x : Int) (range : Int × Int) : Nat := (max (x - range.2) (range.1 - x)).toNat

theorem toInt_sub_ofInt {x y : Int} (hx : Moderate x) (hy : Moderate y) :
    (BitVec.ofInt 64 x - BitVec.ofInt 64 y).toInt = x - y := by
  obtain ⟨hx, hx'⟩ := hx
  obtain ⟨hy, hy'⟩ := hy
  have hx2 : (BitVec.ofInt 64 x).toInt = x := by
    rw [BitVec.toInt_ofInt]
    apply Int.bmod_eq_of_le <;> omega
  have hy2 : (BitVec.ofInt 64 y).toInt = y := by
    rw [BitVec.toInt_ofInt]
    apply Int.bmod_eq_of_le <;> omega
  rw [BitVec.toInt_sub, hx2, hy2]
  apply Int.bmod_eq_of_le <;> omega

theorem toNat_of_toInt {x : BitVec 64} {v : Int} (h : x.toInt = v) (hv : 0 ≤ v) :
    x.toNat = v.toNat := by
  have hx := x.isLt
  rw [BitVec.toInt_eq_toNat_cond] at h
  split at h <;> omega

theorem np_gap_toNat {x : Int} {range : Int × Int} (hx : Moderate x) (hlo : Moderate range.1)
    (hhi : Moderate range.2) (hr : range.1 ≤ range.2) :
    (np_gap (BitVec.ofInt 64 x) range).toNat = gap x range := by
  have ha := toInt_sub_ofInt hx hhi
  have hb := toInt_sub_ofInt hlo hx
  unfold np_gap gap
  simp only [ha, hb]
  split
  · rw [toNat_of_toInt ha (by omega)]
    omega
  · split
    · rw [toNat_of_toInt hb (by omega)]
      omega
    · show 0 = _
      omega

theorem gap_le {x : Int} {range : Int × Int} (hx : Moderate x) (hlo : Moderate range.1)
    (hhi : Moderate range.2) : gap x range ≤ 2 ^ 30 := by
  obtain ⟨hx, hx'⟩ := hx
  obtain ⟨hlo, hlo'⟩ := hlo
  obtain ⟨hhi, hhi'⟩ := hhi
  unfold gap
  omega

namespace BiomeTree

/-- A range of a node. -/
def box (bt : BiomeTree) (idx : Nat) (i : Fin 6) : Int × Int :=
  (bt.nodes[idx]?.bind fun node => bt.param[rangeNumber node i]?).getD (0, 0)

/-- The square of the distance of a point to the box of a node. -/
def dist (bt : BiomeTree) (np : Vector Int 6) (idx : Nat) : Nat :=
  ((List.finRange 6).map fun i => gap np[i] (bt.box idx i) ^ 2).sum

/-- The ranges are small enough for the distances, none is missing, and the root is no leaf. -/
structure Sound (bt : BiomeTree) : Prop where
  order : 0 < bt.order
  root : bt.steps.head? ≠ some 0
  param : ∀ range ∈ bt.param, Moderate range.1 ∧ Moderate range.2 ∧ range.1 ≤ range.2
  read : ∀ node ∈ bt.nodes, ∀ i, rangeNumber node i < bt.param.length

variable {bt : BiomeTree} {np : Vector Int 6}

theorem Sound.box (hb : bt.Sound) (idx : Nat) (i : Fin 6) :
    Moderate (bt.box idx i).1 ∧ Moderate (bt.box idx i).2 ∧
      (bt.box idx i).1 ≤ (bt.box idx i).2 := by
  unfold BiomeTree.box
  rcases he : bt.nodes[idx]?.bind fun node => bt.param[rangeNumber node i]? with _ | range
  · rw [Option.getD_none]
    unfold Moderate
    omega
  · obtain ⟨node, -, hr⟩ := Option.bind_eq_some_iff.1 he
    exact hb.param range (List.mem_of_getElem? hr)

theorem sq_gap_le (hb : bt.Sound) (hn : ∀ i : Fin 6, Moderate np[i]) (idx : Nat) (i : Fin 6) :
    gap np[i] (bt.box idx i) ^ 2 ≤ 2 ^ 60 := by
  obtain ⟨hlo, hhi, -⟩ := hb.box idx i
  calc gap np[i] (bt.box idx i) ^ 2 ≤ (2 ^ 30) ^ 2 := Nat.pow_le_pow_left (gap_le (hn i) hlo hhi) 2
    _ = 2 ^ 60 := by rw [← Nat.pow_mul]

theorem Sound.add_np_dist (hb : bt.Sound) (hn : ∀ i : Fin 6, Moderate np[i])
    (he : bt.nodes[idx]? = some node) (i : Fin 6) (hds : ds.toNat + 2 ^ 60 < 2 ^ 64) :
    ∃ ds', add_np_dist np bt node ds i = some ds' ∧
      ds'.toNat = ds.toNat + gap np[i] (bt.box idx i) ^ 2 := by
  have hi := hb.read node (List.mem_of_getElem? he) i
  have hbox : bt.box idx i = bt.param[rangeNumber node i] := by
    rw [BiomeTree.box, he, Option.bind_some, List.getElem?_eq_getElem hi, Option.getD_some]
  obtain ⟨hlo, hhi, hr⟩ := hb.box idx i
  have hsq := sq_gap_le hb hn idx i
  refine ⟨ds + np_gap (BitVec.ofInt 64 np[i]) (bt.box idx i) *
    np_gap (BitVec.ofInt 64 np[i]) (bt.box idx i), ?_, ?_⟩
  · rw [Cubiomes.add_np_dist, List.getElem?_eq_getElem hi, hbox]
    rfl
  · rw [BitVec.toNat_add, BitVec.toNat_mul, np_gap_toNat (hn i) hlo hhi hr, ← Nat.pow_two]
    rw [Nat.mod_eq_of_lt (a := gap np[i] (bt.box idx i) ^ 2) (by omega)]
    exact Nat.mod_eq_of_lt (by omega)

theorem Sound.foldlM_add_np_dist (hb : bt.Sound) (hn : ∀ i : Fin 6, Moderate np[i])
    (he : bt.nodes[idx]? = some node) (l : List (Fin 6)) (ds : BitVec 64)
    (hds : ds.toNat + l.length * 2 ^ 60 < 2 ^ 64) :
    ∃ ds', l.foldlM (Cubiomes.add_np_dist np bt node) ds = some ds' ∧
      ds'.toNat = ds.toNat + (l.map fun i => gap np[i] (bt.box idx i) ^ 2).sum := by
  induction l generalizing ds with
  | nil => exact ⟨ds, rfl, rfl⟩
  | cons i l ih =>
    rw [List.length_cons] at hds
    have hi := sq_gap_le hb hn idx i
    obtain ⟨ds1, h1, hds1⟩ := hb.add_np_dist hn he i (show ds.toNat + 2 ^ 60 < 2 ^ 64 by omega)
    obtain ⟨ds2, h2, hds2⟩ := ih ds1 (by omega)
    refine ⟨ds2, ?_, ?_⟩
    · rw [List.foldlM_cons, h1]
      exact h2
    · rw [hds2, hds1, List.map_cons, List.sum_cons, Nat.add_assoc]

/-- The distance is computed without overflow. -/
theorem Sound.get_np_dist (hb : bt.Sound) (hn : ∀ i : Fin 6, Moderate np[i]) (h : idx < bt.len) :
    ∃ ds, get_np_dist np bt idx = some ds ∧ ds.toNat = bt.dist np idx := by
  have he : bt.nodes[idx]? = some bt.nodes[idx] := List.getElem?_eq_getElem h
  obtain ⟨ds, hs, hds⟩ := hb.foldlM_add_np_dist hn he (List.finRange 6) 0
    (by rw [List.length_finRange]; decide)
  refine ⟨ds, ?_, ?_⟩
  · rw [Cubiomes.get_np_dist, he]
    exact hs
  · rw [hds, BiomeTree.dist]
    exact Nat.zero_add _

theorem Sound.dist_lt (hb : bt.Sound) (hn : ∀ i : Fin 6, Moderate np[i]) (idx : Nat) :
    bt.dist np idx < 2 ^ 64 - 1 := by
  have h := List.sum_le_card_nsmul ((List.finRange 6).map fun i => gap np[i] (bt.box idx i) ^ 2)
    (2 ^ 60) (by
      intro d hd
      obtain ⟨i, -, rfl⟩ := List.mem_map.1 hd
      exact sq_gap_le hb hn idx i)
  rw [List.length_map, List.length_finRange] at h
  have h6 : 6 • 2 ^ 60 < 2 ^ 64 - 1 := by decide
  exact h.trans_lt h6

/-- The nodes that the loop over the children comes to. -/
def children (bt : BiomeTree) (step : Nat) : Nat → Nat → List Nat
  | 0, _ => []
  | n + 1, inner =>
    inner :: if bt.len ≤ (inner + step) % 2 ^ 16 then []
      else children bt step n ((inner + step) % 2 ^ 16)

/-- The leaves below a node, in the order in which the search comes to them. -/
def leaves (bt : BiomeTree) : List Nat → Bool → Nat → List Nat
  | [], _, _ => []
  | step :: steps, entry, idx =>
    if entry ∧ step = 0 then [idx]
    else if bt.len ≤ (idx + step) % 2 ^ 32 then leaves bt steps false idx
    else match bt.nodes[idx]? with
      | none => []
      | some node =>
        (bt.children step bt.order (node >>> 48).toNat).flatMap (leaves bt steps true)

/-- Whether the box of `idx` is within that of `inner`. -/
def inside (bt : BiomeTree) (idx inner : Nat) : Bool :=
  (List.finRange 6).all fun i =>
    decide ((bt.box inner i).1 ≤ (bt.box idx i).1 ∧ (bt.box idx i).2 ≤ (bt.box inner i).2)

/-- Whether the nodes below a node are laid out as a tree, and the boxes of leaves within those of
the nodes that they are below. -/
def laid (bt : BiomeTree) : List Nat → Bool → Nat → Bool
  | [], _, _ => false
  | step :: steps, entry, idx =>
    if entry ∧ step = 0 then decide (idx < bt.len)
    else if bt.len ≤ (idx + step) % 2 ^ 32 then laid bt steps false idx
    else match bt.nodes[idx]? with
      | none => false
      | some node => (bt.children step bt.order (node >>> 48).toNat).all fun inner =>
        laid bt steps true inner && (bt.leaves steps true inner).all (bt.inside · inner)

variable {steps : List Nat} {entry : Bool} {idx inner : Nat}

theorem dist_le_of_inside (h : bt.inside idx inner) : bt.dist np inner ≤ bt.dist np idx := by
  apply List.sum_le_sum
  intro i hi
  obtain ⟨hlo, hhi⟩ := of_decide_eq_true (List.all_eq_true.1 h i hi)
  apply Nat.pow_le_pow_left
  unfold gap
  omega

theorem children_ne_nil (hn : 0 < n) : bt.children step n inner ≠ [] := by
  cases n with
  | zero => exact absurd hn (Nat.lt_irrefl 0)
  | succ n => exact List.cons_ne_nil _ _

/-- Every node is the root or has a number of 16 bits. -/
theorem children_lt (hi : inner < 2 ^ 16) : ∀ x ∈ bt.children step n inner, x < 2 ^ 16 := by
  induction n generalizing inner with
  | zero => exact fun x hx => nomatch hx
  | succ n ih =>
    rw [children]
    refine List.forall_mem_cons.2 ⟨hi, ?_⟩
    split
    · exact fun x hx => nomatch hx
    · exact ih (Nat.mod_lt _ (Nat.two_pow_pos 16))

/-- Below a node there are leaves, and each is in the tables. -/
theorem leaves_of_laid (hb : bt.Sound) (h : bt.laid steps entry idx) :
    idx < bt.len ∧ bt.leaves steps entry idx ≠ [] ∧
      ∀ leaf ∈ bt.leaves steps entry idx, leaf < bt.len := by
  fun_induction laid bt steps entry idx with
  | case1 => cases h
  | case2 step steps entry idx hz =>
    rw [leaves, if_pos hz]
    have hi := of_decide_eq_true h
    exact ⟨hi, List.cons_ne_nil _ _, fun leaf hl => List.mem_singleton.1 hl ▸ hi⟩
  | case3 step steps entry idx hz hs ih =>
    rw [leaves, if_neg hz, if_pos hs]
    exact ih h
  | case4 => cases h
  | case5 step steps entry idx hz hs node he ih =>
    rw [leaves, if_neg hz, if_neg hs, he]
    have hall := List.all_eq_true.1 h
    have hc := fun inner hi => ih inner (Bool.and_eq_true _ _ ▸ hall inner hi).1
    have hne : bt.children step bt.order (node >>> 48).toNat ≠ [] := children_ne_nil hb.order
    obtain ⟨inner, hi⟩ := List.exists_mem_of_ne_nil _ hne
    obtain ⟨leaf, hl⟩ := List.exists_mem_of_ne_nil _ (hc inner hi).2.1
    refine ⟨(List.getElem?_eq_some_iff.1 he).1,
      List.ne_nil_of_mem (List.mem_flatMap.2 ⟨inner, hi, hl⟩), fun leaf hl => ?_⟩
    obtain ⟨inner, hi, hl⟩ := List.mem_flatMap.1 hl
    exact (hc inner hi).2.2 leaf hl

/-- `ds` is the distance of `alt`, or more than any distance. -/
def Known (bt : BiomeTree) (np : Vector Int 6) (alt : Nat) (ds : BitVec 64) : Prop :=
  (alt < bt.len ∧ ds.toNat = bt.dist np alt) ∨ ∀ idx, bt.dist np idx < ds.toNat

/-- What the search below a child has to do: `ls` are the leaves below it. -/
structure Searches (bt : BiomeTree) (np : Vector Int 6)
    (descend : Nat → Nat → BitVec 64 → Option Nat) (inner : Nat) (ls : List Nat) : Prop where
  lt : inner < bt.len
  ne_nil : ls ≠ []
  mem : ∀ leaf ∈ ls, leaf < bt.len ∧ bt.dist np inner ≤ bt.dist np leaf
  eq : ∀ alt ds, bt.Known np alt ds → bt.dist np inner < ds.toNat →
    descend inner alt ds = some (nearer (bt.dist np) (alt, ds.toNat) ls).1

theorem Sound.get_leaf_dist (hb : bt.Sound) (hn : ∀ i : Fin 6, Moderate np[i])
    (hi : Cubiomes.get_np_dist np bt inner = some ds_inner) (h : leaf2 < bt.len) :
    ∃ ds, Cubiomes.get_leaf_dist np bt inner leaf2 ds_inner = some ds ∧
      ds.toNat = bt.dist np leaf2 := by
  obtain ⟨ds, he, hds⟩ := hb.get_np_dist hn h
  refine ⟨ds, ?_, hds⟩
  rw [Cubiomes.get_leaf_dist]
  split
  · next heq => rw [← hi, heq, he]
  · exact he

theorem visit_child_eq (hb : bt.Sound) (hn : ∀ i : Fin 6, Moderate np[i])
    (hs : bt.Searches np descend inner ls) (hk : bt.Known np leaf ds) :
    ∃ leaf' ds', visit_child np bt descend inner leaf ds = some (leaf', ds') ∧
      nearer (bt.dist np) (leaf, ds.toNat) ls = (leaf', ds'.toNat) ∧ bt.Known np leaf' ds' := by
  obtain ⟨ds_inner, hi, hdi⟩ := hb.get_np_dist hn hs.lt
  rw [visit_child, hi]
  simp only [Option.bind_eq_bind, Option.bind_some]
  by_cases hlt : ds_inner < ds
  · have hlt' : bt.dist np inner < ds.toNat := hdi ▸ hlt
    rw [if_pos hlt, hs.eq leaf ds hk hlt', Option.bind_some]
    rcases nearer_cases (d := bt.dist np) (leaf, ds.toNat) ls with
      ⟨he, hl⟩ | ⟨x, he, hx, hfirst⟩
    · -- some leaf is nearer than what is more than any distance
      have hk' : leaf < bt.len ∧ ds.toNat = bt.dist np leaf := by
        rcases hk with hk | hk
        · exact hk
        · obtain ⟨y, hy⟩ := List.exists_mem_of_ne_nil ls hs.ne_nil
          exact absurd (hk y) (Nat.not_lt.2 (hl y hy))
      obtain ⟨ds2, h2, hd2⟩ := hb.get_leaf_dist hn hi hk'.1
      rw [he, h2, Option.bind_some, if_neg]
      · exact ⟨leaf, ds, rfl, rfl, hk⟩
      · rw [BitVec.lt_def]
        omega
    · obtain ⟨ds2, h2, hd2⟩ := hb.get_leaf_dist hn hi (hs.mem x hfirst.mem).1
      have hx2 : ds2 < ds := by
        rw [BitVec.lt_def, hd2]
        exact hx
      rw [he, h2, Option.bind_some, if_pos hx2]
      exact ⟨x, ds2, rfl, by rw [hd2], .inl ⟨(hs.mem x hfirst.mem).1, hd2⟩⟩
  · rw [if_neg hlt]
    refine ⟨leaf, ds, rfl, nearer_of_le fun x hx => ?_, hk⟩
    rw [BitVec.lt_def, hdi] at hlt
    exact (Nat.not_lt.1 hlt).trans (hs.mem x hx).2

theorem visit_children_eq (hb : bt.Sound) (hn : ∀ i : Fin 6, Moderate np[i]) (f : Nat → List Nat)
    (hs : ∀ x ∈ bt.children step n inner, bt.Searches np descend x (f x))
    (hk : bt.Known np leaf ds) :
    visit_children np bt descend step n inner leaf ds =
      some (nearer (bt.dist np) (leaf, ds.toNat) ((bt.children step n inner).flatMap f)).1 := by
  induction n generalizing inner leaf ds with
  | zero => rfl
  | succ n ih =>
    rw [children] at hs
    obtain ⟨hs1, hs⟩ := List.forall_mem_cons.1 hs
    obtain ⟨leaf', ds', hv, he, hk'⟩ := visit_child_eq hb hn hs1 hk
    rw [visit_children, hv, children, List.flatMap_cons, nearer_append, he]
    simp only [Option.bind_eq_bind, Option.bind_some]
    split
    · rfl
    · next hin =>
      rw [if_neg hin] at hs
      exact ih hs hk'

/-- The search passes over nothing that is nearer: it is the scan of all the leaves. -/
theorem get_resulting_node_eq (hb : bt.Sound) (hn : ∀ i : Fin 6, Moderate np[i])
    (h : bt.laid steps entry idx) (hk : bt.Known np alt ds)
    (hlt : entry → steps.head? = some 0 → bt.dist np idx < ds.toNat) :
    get_resulting_node np bt steps entry idx alt ds =
      some (nearer (bt.dist np) (alt, ds.toNat) (bt.leaves steps entry idx)).1 := by
  fun_induction laid bt steps entry idx generalizing alt ds with
  | case1 => cases h
  | case2 step steps entry idx hz =>
    rw [get_resulting_node, if_pos hz, leaves, if_pos hz, nearer_cons,
      if_pos (hlt hz.1 (congrArg some hz.2)), nearer_nil]
  | case3 step steps entry idx hz hs ih =>
    rw [get_resulting_node, if_neg hz, if_pos hs, leaves, if_neg hz, if_pos hs]
    exact ih h hk fun he => nomatch he
  | case4 => cases h
  | case5 step steps entry idx hz hs node he ih =>
    rw [get_resulting_node, if_neg hz, if_neg hs, leaves, if_neg hz, if_neg hs, he]
    refine visit_children_eq hb hn _ (fun inner hi => ?_) hk
    obtain ⟨hl, hin⟩ := (Bool.and_eq_true _ _).mp (List.all_eq_true.1 h inner hi)
    obtain ⟨hlt, hne, hlen⟩ := leaves_of_laid hb hl
    refine ⟨hlt, hne, fun leaf hleaf => ⟨hlen leaf hleaf, ?_⟩, fun alt ds hk hlt => ?_⟩
    · exact dist_le_of_inside (List.all_eq_true.1 hin leaf hleaf)
    · exact ih inner hl hk fun _ _ => hlt

def biome (bt : BiomeTree) (idx : Nat) : Int := ((bt.nodes[idx]?.getD 0 >>> 48) &&& 0xFF).toNat

/-- All the leaves. -/
def allLeaves (bt : BiomeTree) : List Nat := bt.leaves bt.steps true 0

theorem search_root (hb : bt.Sound) (hl : bt.laid bt.steps true 0)
    (hn : ∀ i : Fin 6, Moderate np[i]) (hk : bt.Known np alt ds) :
    get_resulting_node np bt bt.steps true 0 alt ds =
      some (nearer (bt.dist np) (alt, ds.toNat) bt.allLeaves).1 :=
  get_resulting_node_eq hb hn hl hk fun _ he => absurd he hb.root

theorem climateToNode_none (hb : bt.Sound) (hl : bt.laid bt.steps true 0)
    (hn : ∀ i : Fin 6, Moderate np[i]) :
    ∃ idx, climateToNode bt np none = some idx ∧ FirstNearest (bt.dist np) bt.allLeaves idx := by
  have hfar : ∀ idx, bt.dist np idx < (-1 : BitVec 64).toNat := hb.dist_lt hn
  have hs : get_resulting_node np bt bt.steps true 0 0 (-1) = _ := search_root hb hl hn (.inr hfar)
  rcases nearer_cases (d := bt.dist np) (0, (-1 : BitVec 64).toNat) bt.allLeaves with
    ⟨he, hle⟩ | ⟨x, he, -, hx⟩
  · obtain ⟨leaf, hleaf⟩ := List.exists_mem_of_ne_nil _ (leaves_of_laid hb hl).2.1
    exact absurd (hfar leaf) (Nat.not_lt.2 (hle leaf hleaf))
  · refine ⟨x, ?_, hx⟩
    rw [climateToNode, hs, he]

theorem climateToNode_some (hb : bt.Sound) (hl : bt.laid bt.steps true 0)
    (hn : ∀ i : Fin 6, Moderate np[i]) (ha : altOf dat = some alt) (halt : alt < bt.len) :
    (climateToNode bt np (some dat) = some alt ∧
        ∀ leaf ∈ bt.allLeaves, bt.dist np alt ≤ bt.dist np leaf) ∨
      ∃ idx, climateToNode bt np (some dat) = some idx ∧ bt.dist np idx < bt.dist np alt ∧
        FirstNearest (bt.dist np) bt.allLeaves idx := by
  obtain ⟨ds, hd, hds⟩ := hb.get_np_dist hn halt
  have hs := search_root hb hl hn (.inl ⟨halt, hds⟩)
  have he : climateToNode bt np (some dat) =
      some (nearer (bt.dist np) (alt, ds.toNat) bt.allLeaves).1 := by
    rw [climateToNode, ha, Option.bind_eq_bind, Option.bind_some, hd, Option.bind_eq_bind,
      Option.bind_some, hs]
  rw [he, hds]
  rcases nearer_cases (d := bt.dist np) (alt, bt.dist np alt) bt.allLeaves with
    ⟨hx, hle⟩ | ⟨x, hx, hlt, hfirst⟩
  · exact .inl ⟨by rw [hx], hle⟩
  · exact .inr ⟨x, by rw [hx], hlt, hfirst⟩

/-- What is searched: the tables, a climate and a hint. -/
structure Searchable (bt : BiomeTree) (np : Vector Int 6) (dat : Option (BitVec 64)) : Prop where
  sound : bt.Sound
  laid : bt.laid bt.steps true 0
  np : ∀ i : Fin 6, Moderate np[i]
  dat : ∀ d ∈ dat, ∃ alt ∈ altOf d, alt < bt.len

/-- `idx` is the hint and no leaf is nearer, or the first of the leaves nearest. -/
def Nearest (bt : BiomeTree) (np : Vector Int 6) (hint : Option Nat) (idx : Nat) : Prop :=
  (idx ∈ hint ∧ ∀ leaf ∈ bt.allLeaves, bt.dist np idx ≤ bt.dist np leaf) ∨
    ((∀ alt ∈ hint, bt.dist np idx < bt.dist np alt) ∧ FirstNearest (bt.dist np) bt.allLeaves idx)

theorem Nearest.le (h : bt.Nearest np hint idx) :
    ∀ leaf ∈ bt.allLeaves, bt.dist np idx ≤ bt.dist np leaf := by
  rcases h with ⟨-, hle⟩ | ⟨-, hfirst⟩
  · exact hle
  · exact fun leaf hl => hfirst.le hl

theorem Nearest.mem (h : bt.Nearest np hint idx) : idx ∈ hint ∨ idx ∈ bt.allLeaves := by
  rcases h with ⟨hmem, -⟩ | ⟨-, hfirst⟩
  · exact .inl hmem
  · exact .inr hfirst.mem

theorem climateToNode_spec (h : bt.Searchable np dat) :
    ∃ idx < bt.len, climateToNode bt np dat = some idx ∧ bt.Nearest np (dat.bind altOf) idx := by
  have hlt := (leaves_of_laid h.sound h.laid).2.2
  cases dat with
  | none =>
    obtain ⟨idx, he, hfirst⟩ := climateToNode_none h.sound h.laid h.np
    exact ⟨idx, hlt idx hfirst.mem, he, .inr ⟨fun alt ha => (nomatch ha), hfirst⟩⟩
  | some d =>
    obtain ⟨alt, ha, halt⟩ := h.dat d rfl
    rw [Option.bind_some, Option.mem_def.1 ha]
    rcases climateToNode_some h.sound h.laid h.np ha halt with ⟨he, hle⟩ | ⟨idx, he, hd, hfirst⟩
    · exact ⟨alt, halt, he, .inl ⟨rfl, hle⟩⟩
    · refine ⟨idx, hlt idx hfirst.mem, he, .inr ⟨fun alt' ha' => ?_, hfirst⟩⟩
      rwa [← Option.some.inj ha']

end BiomeTree

theorem climateToBiome_spec (h : (trees.of mc).Searchable np dat) :
    ∃ idx < (trees.of mc).len, climateToBiome trees mc np dat =
        some ((trees.of mc).biome idx, dat.map fun _ => BitVec.ofNat 64 idx) ∧
      (trees.of mc).Nearest np (dat.bind altOf) idx := by
  obtain ⟨idx, hlt, he, hn⟩ := BiomeTree.climateToNode_spec h
  refine ⟨idx, hlt, ?_, hn⟩
  have hi : (trees.of mc).nodes[idx]? = some (trees.of mc).nodes[idx] :=
    List.getElem?_eq_getElem hlt
  rw [climateToBiome, he, Option.bind_eq_bind, Option.bind_some, hi, Option.bind_eq_bind,
    Option.bind_some, BiomeTree.biome, hi, Option.getD_some]

/-- The cells of a volume in the order in which they are sampled. -/
def cells3D (r : Volume) : List Touple :=
  let scale := if r.scale > 4 then r.scale.tdiv 4 else 1
  let mid := scale.tdiv 2
  (fill_buffer r).map fun t => ⟨(r.x + t.x) * scale + mid, r.y + t.y, (r.z + t.z) * scale + mid⟩

/-- What samples a cell with some flags and a hint: the biome and the hint for the next cell. -/
abbrev Sampler := BitVec 32 → Touple → Option (BitVec 64) → Option (Int × Option (BitVec 64))

/-- One cell after the other; a hint is handed on. -/
def sample_each (sample : Sampler) (flags : BitVec 32) :
    List Touple → Option (BitVec 64) → Option (List Int)
  | [], _ => some []
  | t :: ts, dat => do
    let (id, dat) ← sample flags t dat
    let ids ← sample_each sample flags ts dat
    some (id :: ids)

def genBiomeNoise3D (sample : Sampler) (r : Volume) (opt : Bool) : Option (List Int) :=
  let dat := if opt then some 0 else none
  let flags := if opt then SAMPLE_NO_SHIFT else 0
  sample_each sample flags (cells3D r) dat

/-- `climate` is the climate of a cell. -/
def sample_climate (trees : BiomeTrees) (mc : Int)
    (climate : BitVec 32 → Touple → Vector Int 6) : Sampler :=
  fun flags t dat => climateToBiome trees mc (climate flags t) dat

theorem altOf_ofNat {n : Nat} (hn : n < 2 ^ 16) : altOf (BitVec.ofNat 64 n) = some n := by
  have hs : (BitVec.ofNat 64 n).setWidth 32 = BitVec.ofNat 32 n := by
    apply BitVec.eq_of_toNat_eq
    rw [BitVec.toNat_setWidth, BitVec.toNat_ofNat, BitVec.toNat_ofNat]
    omega
  have hi : (BitVec.ofNat 32 n).toInt = n := by
    rw [BitVec.toInt_eq_toNat_cond, BitVec.toNat_ofNat]
    omega
  rw [altOf, hs, hi]
  rfl

namespace BiomeTree

variable {bt : BiomeTree} {steps : List Nat} {entry : Bool} {idx : Nat}

theorem leaves_lt (hi : idx < 2 ^ 16) : ∀ leaf ∈ bt.leaves steps entry idx, leaf < 2 ^ 16 := by
  induction steps generalizing entry idx with
  | nil => exact fun leaf hl => nomatch hl
  | cons step steps ih =>
    rw [leaves]
    split
    · exact fun leaf hl => List.mem_singleton.1 hl ▸ hi
    · split
      · exact ih hi
      · split
        · exact fun leaf hl => nomatch hl
        · next node he =>
          intro leaf hl
          obtain ⟨inner, hin, hl⟩ := List.mem_flatMap.1 hl
          have hnode : (node >>> 48).toNat < 2 ^ 16 := by
            rw [BitVec.toNat_ushiftRight, Nat.shiftRight_eq_div_pow]
            have := node.isLt
            omega
          exact ih (children_lt hnode inner hin) leaf hl

/-- A hint is that of a leaf, or the one that a run starts with. -/
def Hint (bt : BiomeTree) (dat : Option (BitVec 64)) : Prop :=
  ∀ d ∈ dat, ∃ idx, d = BitVec.ofNat 64 idx ∧ (idx ∈ bt.allLeaves ∨ idx = 0)

theorem Hint.altOf (h : bt.Hint (some d)) :
    ∃ idx, altOf d = some idx ∧ (idx ∈ bt.allLeaves ∨ idx = 0) := by
  obtain ⟨idx, rfl, hidx⟩ := h d rfl
  refine ⟨idx, altOf_ofNat ?_, hidx⟩
  rcases hidx with hl | rfl
  · exact leaves_lt (Nat.two_pow_pos 16) idx hl
  · exact Nat.two_pow_pos 16

theorem Hint.searchable (h : bt.Hint dat) (hb : bt.Sound) (hl : bt.laid bt.steps true 0)
    (hn : ∀ i : Fin 6, Moderate np[i]) : bt.Searchable np dat where
  sound := hb
  laid := hl
  np := hn
  dat := by
    rintro d rfl
    obtain ⟨idx, he, hidx⟩ := h.altOf
    obtain ⟨h0, -, hlt⟩ := leaves_of_laid hb hl
    refine ⟨idx, he, ?_⟩
    rcases hidx with hleaf | rfl
    · exact hlt idx hleaf
    · exact h0

/-- What a cell has in the end: a leaf that no other is nearer than, and the first of these where no
hint is given; or, with hints, the root if the climate is as near to that. -/
structure Sampled (bt : BiomeTree) (hinted : Bool) (np : Vector Int 6) (idx : Nat) : Prop where
  le : ∀ leaf ∈ bt.allLeaves, bt.dist np idx ≤ bt.dist np leaf
  mem : idx ∈ bt.allLeaves ∨ hinted ∧ idx = 0
  first : hinted = false → FirstNearest (bt.dist np) bt.allLeaves idx

theorem Nearest.sampled (h : bt.Nearest np (dat.bind Cubiomes.altOf) idx) (hd : bt.Hint dat) :
    bt.Sampled dat.isSome np idx ∧ bt.Hint (dat.map fun _ => BitVec.ofNat 64 idx) := by
  cases dat with
  | none =>
    rcases h with ⟨hmem, -⟩ | ⟨-, hfirst⟩
    · cases hmem
    · exact ⟨⟨fun leaf hl => hfirst.le hl, .inl hfirst.mem, fun _ => hfirst⟩,
        fun d hd => nomatch hd⟩
  | some d =>
    obtain ⟨alt, ha, halt⟩ := hd.altOf
    have hmem : idx ∈ bt.allLeaves ∨ idx = 0 := by
      rcases h.mem with hmem | hmem
      · rw [Option.bind_some, ha] at hmem
        rwa [← Option.some.inj hmem]
      · exact .inl hmem
    refine ⟨⟨h.le, hmem.imp_right fun h0 => ⟨rfl, h0⟩, fun h => nomatch h⟩, fun d' hd' => ?_⟩
    exact ⟨idx, (Option.some.inj hd').symm, hmem⟩

end BiomeTree

theorem sample_each_spec {climate : BitVec 32 → Touple → Vector Int 6}
    (hb : (trees.of mc).Sound) (hl : (trees.of mc).laid (trees.of mc).steps true 0)
    (flags : BitVec 32) (ts : List Touple)
    (hn : ∀ t ∈ ts, ∀ i : Fin 6, Moderate (climate flags t)[i]) (hd : (trees.of mc).Hint dat) :
    ∃ idxs, sample_each (sample_climate trees mc climate) flags ts dat =
        some (idxs.map (trees.of mc).biome) ∧
      List.Forall₂ (fun t => (trees.of mc).Sampled dat.isSome (climate flags t)) ts idxs := by
  induction ts generalizing dat with
  | nil => exact ⟨[], rfl, .nil⟩
  | cons t ts ih =>
    obtain ⟨ht, hts⟩ := List.forall_mem_cons.1 hn
    obtain ⟨idx, -, he, hnear⟩ := climateToBiome_spec (hd.searchable hb hl ht)
    obtain ⟨hs, hd'⟩ := hnear.sampled hd
    obtain ⟨idxs, hrest, hall⟩ := ih hts hd'
    rw [Option.isSome_map] at hall
    refine ⟨idx :: idxs, ?_, .cons hs hall⟩
    rw [sample_each, sample_climate, he, Option.bind_eq_bind, Option.bind_some]
    simp only [hrest, Option.bind_eq_bind, Option.bind_some, List.map_cons]

/-- Every cell of a volume has a leaf that no other is nearer than, or with hints maybe the root if
no leaf is nearer than that. -/
theorem genBiomeNoise3D_spec (trees : BiomeTrees) (mc : Int)
    (climate : BitVec 32 → Touple → Vector Int 6) (r : Volume) (opt : Bool)
    (hb : (trees.of mc).Sound) (hl : (trees.of mc).laid (trees.of mc).steps true 0)
    (hn : ∀ t ∈ cells3D r, ∀ i : Fin 6,
      Moderate (climate (if opt then SAMPLE_NO_SHIFT else 0) t)[i]) :
    ∃ idxs, genBiomeNoise3D (sample_climate trees mc climate) r opt =
        some (idxs.map (trees.of mc).biome) ∧
      List.Forall₂ (fun t => (trees.of mc).Sampled opt
        (climate (if opt then SAMPLE_NO_SHIFT else 0) t)) (cells3D r) idxs := by
  have hd : (trees.of mc).Hint (if opt then some 0 else none) := by
    intro d hd
    refine ⟨0, ?_, .inr rfl⟩
    cases opt with
    | true => exact (Option.some.inj hd).symm
    | false => cases hd
  have ho : (if opt then some (0 : BitVec 64) else none).isSome = opt := by cases opt <;> rfl
  have h := sample_each_spec hb hl _ _ hn hd
  rwa [ho] at h

def exampleTree : BiomeTree where
  steps := [3, 1, 0]
  param := [(-10, 10), (-10, 0), (0, 10), (-10, -5), (-5, 0), (0, 5), (5, 10), (0, 0)]
  nodes := [0x0001070707070707, 0x0002000000000001, 0xFF10000000000003, 0xFF11000000000004,
    0x0005000000000002, 0xFF12000000000005, 0xFF13000000000006]
  order := 2

def exampleTrees : BiomeTrees := ⟨exampleTree, exampleTree, exampleTree, exampleTree, exampleTree⟩

def exampleClimate (t : Touple) : Vector Int 6 :=
  if t.x < 0 then #v[-7, 0, 0, 0, 0, 0] else #v[7, 0, 0, 0, 0, 0]

theorem exampleTree_read : ∀ node ∈ exampleTree.nodes, ∀ i,
    BiomeTree.rangeNumber node i < 8 := by
  simp only [exampleTree, List.forall_mem_cons]
  exact ⟨by decide, by decide, by decide, by decide, by decide, by decide, by decide,
    fun _ h => nomatch h⟩

theorem exampleTree_param : ∀ range ∈ exampleTree.param,
    Moderate range.1 ∧ Moderate range.2 ∧ range.1 ≤ range.2 := by
  decide

theorem exampleTree_sound : exampleTree.Sound where
  order := Nat.two_pos
  root := by decide
  param := exampleTree_param
  read := exampleTree_read

theorem exampleClimate_moderate (t : Touple) (i : Fin 6) : Moderate (exampleClimate t)[i] := by
  have hl : ∀ i : Fin 6, Moderate (#v[-7, 0, 0, 0, 0, 0] : Vector Int 6)[i] := by decide
  have hr : ∀ i : Fin 6, Moderate (#v[7, 0, 0, 0, 0, 0] : Vector Int 6)[i] := by decide
  unfold exampleClimate
  split
  · exact hl i
  · exact hr i

theorem genBiomeNoise3D_spec_two :
    ∃ idxs, genBiomeNoise3D (sample_climate exampleTrees 28 fun _ => exampleClimate)
        ⟨⟨4, -1, 0, 2, 1⟩, 0, 1⟩ true = some (idxs.map exampleTree.biome) ∧
      List.Forall₂ (fun t => exampleTree.Sampled true (exampleClimate t))
        (cells3D ⟨⟨4, -1, 0, 2, 1⟩, 0, 1⟩) idxs :=
  genBiomeNoise3D_spec exampleTrees 28 (fun _ => exampleClimate) _ true exampleTree_sound
    (by decide) fun t _ => exampleClimate_moderate t

example : genBiomeNoise3D (sample_climate exampleTrees 28 fun _ => exampleClimate)
    ⟨⟨4, -1, 0, 2, 1⟩, 0, 1⟩ true = some [0x10, 0x13] := by
  decide

end Omission.Cubiomes
