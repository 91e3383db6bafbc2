import Mathlib.Data.List.Basic
import Mathlib.Data.Nat.Basic

namespace Omission.Lib

variable {α β : Type*}

/-- The complete frames of `n` symbols at the front of a stream. -/
def frames (n : Nat) (bs : List α) : List (List α) :=
  (List.range (bs.length / n)).map fun i => (bs.drop (i * n)).take n

/-- What is left of a stream after its complete frames. -/
def rest (n : Nat) (bs : List α) : List α := bs.drop (bs.length / n * n)

theorem length_frames (n : Nat) (bs : List α) : (frames n bs).length = bs.length / n := by
  simp only [frames, List.length_map, List.length_range]

theorem length_rest (n : Nat) (bs : List α) : (rest n bs).length = bs.length % n := by
  have h := Nat.div_add_mod' bs.length n
  simp only [rest, List.length_drop]
  omega

theorem frames_of_short {n : Nat} {bs : List α} (h : bs.length < n) : frames n bs = [] := by
  simp [frames, Nat.div_eq_of_lt h]

theorem rest_of_short {n : Nat} {bs : List α} (h : bs.length < n) : rest n bs = bs := by
  simp [rest, Nat.div_eq_of_lt h]

theorem length_append_div {n : Nat} (hn : 0 < n) (xs ys : List α) :
    (xs ++ ys).length / n = xs.length / n + (rest n xs ++ ys).length / n := by
  have h : xs.length + ys.length = xs.length % n + ys.length + xs.length / n * n := by
    have := Nat.div_add_mod' xs.length n
    omega
  rw [List.length_append, List.length_append, length_rest, h, Nat.add_mul_div_right _ _ hn,
    Nat.add_comm]

theorem drop_append_rest {n : Nat} (xs ys : List α) (k : Nat) :
    (xs ++ ys).drop ((xs.length / n + k) * n) = (rest n xs ++ ys).drop (k * n) := by
  have h : xs.length / n * n ≤ xs.length := Nat.div_mul_le_self _ _
  rw [Nat.add_mul, ← List.drop_drop, List.drop_append_of_le_length h]
  rfl

/-- Cutting a stream into frames may be interrupted anywhere: what comes later is appended
to the rest. -/
theorem frames_append {n : Nat} (hn : 0 < n) (xs ys : List α) :
    frames n (xs ++ ys) = frames n xs ++ frames n (rest n xs ++ ys) := by
  have hfirst : ∀ i ∈ List.range (xs.length / n),
      ((xs ++ ys).drop (i * n)).take n = (xs.drop (i * n)).take n := by
    intro i hi
    have hi' : i + 1 ≤ xs.length / n := List.mem_range.1 hi
    have hle : (i + 1) * n ≤ xs.length :=
      le_trans (Nat.mul_le_mul_right n hi') (Nat.div_mul_le_self _ _)
    rw [Nat.add_mul, Nat.one_mul] at hle
    rw [List.drop_append_of_le_length (by omega), List.take_append_of_le_length]
    rw [List.length_drop]
    omega
  rw [frames, length_append_div hn, List.range_add, List.map_append, List.map_congr_left hfirst]
  simp only [frames, List.map_map]
  congr 1
  apply List.map_congr_left
  intro k _
  simp only [Function.comp, drop_append_rest]

theorem rest_append {n : Nat} (hn : 0 < n) (xs ys : List α) :
    rest n (xs ++ ys) = rest n (rest n xs ++ ys) := by
  rw [rest, length_append_div hn, drop_append_rest]
  rfl

theorem frames_flatMap {n : Nat} (hn : 0 < n) (enc : β → List α)
    (hlen : ∀ b, (enc b).length = n) (bs : List β) :
    frames n (bs.flatMap enc) = bs.map enc := by
  induction bs with
  | nil => simp [frames]
  | cons b bs ih =>
    have hone : frames n (enc b) = [enc b] := by
      simp [frames, hlen, Nat.div_self hn, List.take_of_length_le]
    have hnone : rest n (enc b) = [] := by
      simp [rest, hlen, Nat.div_self hn]
    rw [List.flatMap_cons, frames_append hn, hone, hnone, List.nil_append, ih]
    rfl

/-- A stream cut after `k` symbols has the first `k / n` frames. -/
theorem frames_take {n : Nat} (hn : 0 < n) {bs : List α} {k : Nat} (hk : k ≤ bs.length) :
    frames n (bs.take k) = (frames n bs).take (k / n) := by
  have hlen : (frames n (bs.take k)).length = k / n := by
    rw [length_frames, List.length_take, Nat.min_eq_left hk]
  have happ := frames_append hn (bs.take k) (bs.drop k)
  rw [List.take_append_drop] at happ
  rw [happ, List.take_append_of_le_length (Nat.le_of_eq hlen.symm),
    List.take_of_length_le (Nat.le_of_eq hlen)]

theorem mapM_eq_some_map {f : α → Option β} {g : α → β} {l : List α}
    (h : ∀ a ∈ l, f a = some (g a)) : l.mapM f = some (l.map g) := by
  induction l with
  | nil => rfl
  | cons a l ih =>
    have ha := h a List.mem_cons_self
    have hl := ih fun b hb => h b (List.mem_cons_of_mem a hb)
    simp only [List.mapM_cons, ha, hl, List.map_cons]
    rfl

/-- A memory block of fixed size, with the copies that C's library makes on it; `none` is
an access outside the block. -/
structure Block (α : Type*) (size : Nat) where
  bytes : List α
  length_bytes : bytes.length = size

instance [Repr α] (size : Nat) : Repr (Block α size) := ⟨fun b => reprPrec b.bytes⟩

instance [DecidableEq α] (size : Nat) : DecidableEq (Block α size) := fun a b =>
  decidable_of_iff (a.bytes = b.bytes) <| by
    cases a
    cases b
    simp

namespace Block

variable {size : Nat}

def fill (a : α) : Block α size := ⟨List.replicate size a, List.length_replicate⟩

def read (b : Block α size) (off len : Nat) : Option (List α) :=
  if off + len ≤ size then some ((b.bytes.drop off).take len) else none

def write (b : Block α size) (off : Nat) (xs : List α) : Option (Block α size) :=
  if h : off + xs.length ≤ size then
    some ⟨b.bytes.take off ++ xs ++ b.bytes.drop (off + xs.length), by
      have := b.length_bytes
      simp only [List.length_append, List.length_take, List.length_drop]
      omega⟩
  else none

/-- `memmove`: the source is read as a whole before the destination is written. -/
def move (b : Block α size) (dst src len : Nat) : Option (Block α size) :=
  (b.read src len).bind (b.write dst)

theorem read_eq (b : Block α size) {off len : Nat} (h : off + len ≤ size) :
    b.read off len = some ((b.bytes.drop off).take len) := if_pos h

theorem write_spec (b : Block α size) {off : Nat} {xs : List α} (h : off + xs.length ≤ size) :
    ∃ b', b.write off xs = some b' ∧
      b'.bytes.take (off + xs.length) = b.bytes.take off ++ xs := by
  refine ⟨_, dif_pos h, ?_⟩
  have := b.length_bytes
  rw [List.take_append_of_le_length, List.take_of_length_le] <;>
    simp only [List.length_append, List.length_take] <;> omega

theorem mapM_read (b : Block α size) (f : List α → β) (n : Nat) {len : Nat} (h : len ≤ size) :
    (List.range (len / n)).mapM (fun i => (b.read (i * n) n).map f) =
      some ((frames n (b.bytes.take len)).map f) := by
  have hlen : (b.bytes.take len).length = len := by
    rw [List.length_take, b.length_bytes, Nat.min_eq_left h]
  rw [frames, hlen, List.map_map]
  apply mapM_eq_some_map
  intro i hi
  have hi' : i + 1 ≤ len / n := List.mem_range.1 hi
  have hle : (i + 1) * n ≤ len := le_trans (Nat.mul_le_mul_right n hi') (Nat.div_mul_le_self _ _)
  rw [Nat.add_mul, Nat.one_mul] at hle
  rw [b.read_eq (by omega), Option.map_some, Function.comp, List.drop_take, List.take_take,
    Nat.min_eq_left (by omega)]

/-- Moving a part of the block to its front. -/
theorem move_front_spec (b : Block α size) {src len : Nat} (h : src + len ≤ size) :
    ∃ b', b.move 0 src len = some b' ∧ b'.bytes.take len = (b.bytes.drop src).take len := by
  have hlen : ((b.bytes.drop src).take len).length = len := by
    have := b.length_bytes
    simp only [List.length_take, List.length_drop]
    omega
  have hfit : 0 + ((b.bytes.drop src).take len).length ≤ size := by
    omega
  obtain ⟨b', hw, ht⟩ := b.write_spec hfit
  refine ⟨b', ?_, ?_⟩
  · rw [move, b.read_eq h]
    exact hw
  · simpa [hlen] using ht

end Block

end Omission.Lib
