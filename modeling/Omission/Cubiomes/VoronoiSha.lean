import Mathlib.Data.List.GetD
import Mathlib.Tactic.IntervalCases
import Omission.Lib.Sha256

namespace Omission.Cubiomes
open Omission.Lib Sha256
set_option autoImplicit true

def BSWAP32 (x : BitVec 32) : BitVec 32 :=
  (x &&& 0x000000ff) <<< 24 ||| (x &&& 0x0000ff00) <<< 8 ||| (x &&& 0x00ff0000) >>> 8 |||
    (x &&& 0xff000000) >>> 24

def rotr32 (a : BitVec 32) (b : Nat) : BitVec 32 := a >>> b ||| a <<< (32 - b)

namespace VoronoiSHA

def K : List (BitVec 32) := [
  0x428a2f98, 0x71374491, 0xb5c0fbcf, 0xe9b5dba5, 0x3956c25b, 0x59f111f1, 0x923f82a4, 0xab1c5ed5,
  0xd807aa98, 0x12835b01, 0x243185be, 0x550c7dc3, 0x72be5d74, 0x80deb1fe, 0x9bdc06a7, 0xc19bf174,
  0xe49b69c1, 0xefbe4786, 0x0fc19dc6, 0x240ca1cc, 0x2de92c6f, 0x4a7484aa, 0x5cb0a9dc, 0x76f988da,
  0x983e5152, 0xa831c66d, 0xb00327c8, 0xbf597fc7, 0xc6e00bf3, 0xd5a79147, 0x06ca6351, 0x14292967,
  0x27b70a85, 0x2e1b2138, 0x4d2c6dfc, 0x53380d13, 0x650a7354, 0x766a0abb, 0x81c2c92e, 0x92722c85,
  0xa2bfe8a1, 0xa81a664b, 0xc24b8b70, 0xc76c51a3, 0xd192e819, 0xd6990624, 0xf40e3585, 0x106aa070,
  0x19a4c116, 0x1e376c08, 0x2748774c, 0x34b0bcb5, 0x391c0cb3, 0x4ed8aa4a, 0x5b9cca4f, 0x682e6ff3,
  0x748f82ee, 0x78a5636f, 0x84c87814, 0x8cc70208, 0x90befffa, 0xa4506ceb, 0xbef9a3f7, 0xc67178f2]

def B : List (BitVec 32) := [
  0x6a09e667, 0xbb67ae85, 0x3c6ef372, 0xa54ff53a, 0x510e527f, 0x9b05688c, 0x1f83d9ab, 0x5be0cd19]

/-- `m` before the first loop; what it holds from entry 16 on is written before it is read. -/
def block (seed : BitVec 64) : List (BitVec 32) :=
  [BSWAP32 (seed.setWidth 32), BSWAP32 ((seed >>> 32).setWidth 32)] ++
    0x80000000 :: List.replicate 12 0 ++ 0x00000040 :: List.replicate 48 0

/-- One round of the loop that fills the rest of `m`. -/
def expand (m : List (BitVec 32)) (i : Nat) : List (BitVec 32) :=
  let m := m.set i (m.getD (i - 7) 0 + m.getD (i - 16) 0)
  let x := m.getD (i - 15) 0
  let m := m.set i (m.getD i 0 + (rotr32 x 7 ^^^ rotr32 x 18 ^^^ x >>> 3))
  let x := m.getD (i - 2) 0
  m.set i (m.getD i 0 + (rotr32 x 17 ^^^ rotr32 x 19 ^^^ x >>> 10))

/-- The variables `a0` to `a7`. -/
structure Vars where
  a0 : BitVec 32
  a1 : BitVec 32
  a2 : BitVec 32
  a3 : BitVec 32
  a4 : BitVec 32
  a5 : BitVec 32
  a6 : BitVec 32
  a7 : BitVec 32

def start : Vars :=
  let b i := B.getD i 0
  ⟨b 0, b 1, b 2, b 3, b 4, b 5, b 6, b 7⟩

def turn (m : List (BitVec 32)) (v : Vars) (i : Nat) : Vars :=
  let x := v.a7 + K.getD i 0 + m.getD i 0
  let x := x + (rotr32 v.a4 6 ^^^ rotr32 v.a4 11 ^^^ rotr32 v.a4 25)
  let x := x + ((v.a4 &&& v.a5) ^^^ (~~~v.a4 &&& v.a6))
  let y := rotr32 v.a0 2 ^^^ rotr32 v.a0 13 ^^^ rotr32 v.a0 22
  let y := y + ((v.a0 &&& v.a1) ^^^ (v.a0 &&& v.a2) ^^^ (v.a1 &&& v.a2))
  ⟨x + y, v.a0, v.a1, v.a2, v.a3 + x, v.a4, v.a5, v.a6⟩

end VoronoiSHA

open VoronoiSHA in
def getVoronoiSHA (seed : BitVec 64) : BitVec 64 :=
  let m := (List.range' 16 48).foldl expand (block seed)
  let v := (List.range 64).foldl (turn m) start
  let a0 := v.a0 + B.getD 0 0
  let a1 := v.a1 + B.getD 1 0
  (BSWAP32 a0).setWidth 64 ||| (BSWAP32 a1).setWidth 64 <<< 32

namespace VoronoiSHA

theorem length_primes : primes.length = 64 := by
  rw [primes_eq]
  decide +kernel

theorem K_eq : K = Sha256.K := by
  refine (map_root_bits length_primes ?_).symm
  rw [primes_eq]
  decide +kernel

theorem B_eq : (primes.take 8).map (root_bits 2) = B := by
  refine map_root_bits ?_ ?_
  · rw [List.length_take, length_primes]
    rfl
  · rw [primes_eq]
    decide +kernel

theorem getD_map_take {l : List Nat} (f : Nat → Word) {i n : Nat} (h : i < n)
    (hl : i < l.length) : ((l.take n).map f).getD i 0 = f (l.getD i 0) := by
  simp [List.getD_eq_getElem?_getD, h, hl]

theorem getD_B {i : Nat} (h : i < 8) : B.getD i 0 = root_bits 2 (primes.getD i 0) := by
  rw [← B_eq]
  exact getD_map_take _ h (Nat.lt_of_lt_of_eq (h.trans (by decide)) length_primes.symm)

theorem rotr32_eq (a : BitVec 32) {b : Nat} (h : b < 32) : rotr32 a b = a.rotateRight b := by
  rw [rotr32, BitVec.rotateRight_def, Nat.mod_eq_of_lt h]

theorem BSWAP32_eq (x : BitVec 32) : BSWAP32 x = big_endian 32 (bytes 4 x) := by
  ext i hi
  rw [← BitVec.getLsbD_eq_getElem, ← BitVec.getLsbD_eq_getElem, getLsbD_big_endian]
  simp only [BSWAP32]
  interval_cases i <;> simp [bytes, byte, List.range_succ]

theorem length_schedule (M : Nat → Word) (n : Nat) : (schedule M n).length = 16 + n := by
  induction n with
  | zero => simp [schedule]
  | succ n ih => simp [schedule, ih, Nat.add_assoc]

theorem getD_set_self {m : List (BitVec 32)} {i : Nat} (h : i < m.length) (v : BitVec 32) :
    (m.set i v).getD i 0 = v := by
  simp [List.getD_eq_getElem?_getD, h]

theorem getD_set_ne {m : List (BitVec 32)} {i j : Nat} (h : i ≠ j) (v : BitVec 32) :
    (m.set i v).getD j 0 = m.getD j 0 := by
  simp [List.getD_eq_getElem?_getD, h]

theorem expand_eq (m : List (BitVec 32)) (i : Nat) (h : 16 ≤ i) (hi : i < m.length) :
    expand m i = m.set i (sigma1 (m.getD (i - 2) 0) + m.getD (i - 7) 0 +
      sigma0 (m.getD (i - 15) 0) + m.getD (i - 16) 0) := by
  have h2 : i ≠ i - 2 := by omega
  have h15 : i ≠ i - 15 := by omega
  simp only [expand, List.set_set, getD_set_self hi, getD_set_ne h2, getD_set_ne h15, sigma0,
    sigma1]
  rw [rotr32_eq _ (by decide), rotr32_eq _ (by decide), rotr32_eq _ (by decide),
    rotr32_eq _ (by decide)]
  congr 1
  ac_rfl

/-- After `n` rounds the array holds the schedule so far. -/
theorem expanded (m : List (BitVec 32)) (n : Nat) (hn : 16 + n ≤ m.length) :
    ((List.range' 16 n).foldl expand m).length = m.length ∧
      ∀ i < 16 + n, ((List.range' 16 n).foldl expand m).getD i 0 =
        (schedule (fun i => m.getD i 0) n).getD i 0 := by
  induction n with
  | zero =>
    refine ⟨rfl, ?_⟩
    intro i hi
    simp [schedule, List.getD_eq_getElem?_getD, hi]
  | succ n ih =>
    obtain ⟨hm, ih⟩ := ih (by omega)
    have hlen := length_schedule (fun i => m.getD i 0) n
    rw [List.range'_1_concat, List.foldl_append, List.foldl_cons, List.foldl_nil,
      expand_eq _ _ (Nat.le_add_right ..) (by omega), schedule]
    refine ⟨by rw [List.length_set, hm], ?_⟩
    intro i hi
    by_cases he : i = 16 + n
    · have h2 : 16 + n - 2 = n + 14 := by omega
      have h7 : 16 + n - 7 = n + 9 := by omega
      have h15 : 16 + n - 15 = n + 1 := by omega
      have h16 : 16 + n - 16 = n := by omega
      rw [he, getD_set_self (by omega), h2, h7, h15, h16, ih _ (by omega), ih _ (by omega),
        ih _ (by omega), ih _ (by omega), ← hlen]
      simp [List.getD_eq_getElem?_getD]
    · have hlt : i < 16 + n := by omega
      rw [getD_set_ne (Ne.symm he), ih i hlt, List.getD_append _ _ _ _ (hlen ▸ hlt)]

/-- The variables against the working variables of the standard. -/
def Vars.hash (v : Vars) : Hash := ⟨v.a0, v.a1, v.a2, v.a3, v.a4, v.a5, v.a6, v.a7⟩

theorem turn_eq (m : List (BitVec 32)) (W : List Word) (v : Vars) (i : Nat)
    (h : m.getD i 0 = W.getD i 0) : (turn m v i).hash = Sha256.round W v.hash i := by
  have h1 : rotr32 v.a4 6 ^^^ rotr32 v.a4 11 ^^^ rotr32 v.a4 25 = Sigma1 v.a4 := by
    rw [rotr32_eq _ (by decide), rotr32_eq _ (by decide), rotr32_eq _ (by decide), Sigma1]
  have h0 : rotr32 v.a0 2 ^^^ rotr32 v.a0 13 ^^^ rotr32 v.a0 22 = Sigma0 v.a0 := by
    rw [rotr32_eq _ (by decide), rotr32_eq _ (by decide), rotr32_eq _ (by decide), Sigma0]
  have hx : v.a7 + K.getD i 0 + m.getD i 0 + Sigma1 v.a4 + Ch v.a4 v.a5 v.a6 =
      v.a7 + Sigma1 v.a4 + Ch v.a4 v.a5 v.a6 + Sha256.K.getD i 0 + W.getD i 0 := by
    rw [h, K_eq]
    ac_rfl
  simp only [turn, Sha256.round, Vars.hash, h0, h1, ← hx]
  rfl

theorem turns_eq (m : List (BitVec 32)) (W : List Word) (n : Nat) (v : Vars)
    (h : ∀ i < n, m.getD i 0 = W.getD i 0) :
    ((List.range n).foldl (turn m) v).hash = (List.range n).foldl (Sha256.round W) v.hash := by
  induction n with
  | zero => rfl
  | succ n ih =>
    rw [List.range_succ, List.foldl_append, List.foldl_append]
    simp only [List.foldl_cons, List.foldl_nil]
    rw [turn_eq m W _ n (h n n.lt_succ_self), ih fun i hi => h i (Nat.lt_succ_of_lt hi)]

theorem halves (u v : BitVec 32) :
    (BSWAP32 u).setWidth 64 ||| (BSWAP32 v).setWidth 64 <<< 32 =
      little_endian 64 ((bytes 4 u).reverse ++ (bytes 4 v).reverse) := by
  apply BitVec.eq_of_getLsbD_eq
  intro i hi
  rw [BSWAP32_eq, BSWAP32_eq, getLsbD_little_endian, BitVec.getLsbD_or, BitVec.getLsbD_shiftLeft,
    BitVec.getLsbD_setWidth, BitVec.getLsbD_setWidth, getLsbD_big_endian, getLsbD_big_endian]
  have hu : ((bytes 4 u).reverse).length = 4 := by simp [bytes]
  by_cases h : i < 32
  · have hdiv : i / 8 < ((bytes 4 u).reverse).length := by omega
    simp [hi, h, List.getD_eq_getElem?_getD, List.getElem?_append_left hdiv]
  · have hdiv : ((bytes 4 u).reverse).length ≤ i / 8 := by omega
    have hsub : i - 32 < 32 := by omega
    have hsub' : i - 32 < 64 := by omega
    have h8 : (i - 32) / 8 = i / 8 - 4 := by omega
    have hmod : (i - 32) % 8 = i % 8 := by omega
    simp [hi, h, hsub, hsub', h8, hmod, hu, List.getD_eq_getElem?_getD,
      List.getElem?_append_right hdiv]

/-- What follows a message of eight bytes. -/
def tail : List Byte := 0x80 :: List.replicate 53 0 ++ [0x00, 0x40]

theorem length_bytes (n : Nat) (v : BitVec w) : (bytes n v).length = n := by simp [bytes]

theorem padding_eq (seed : BitVec 64) : padding (bytes 8 seed) = bytes 8 seed ++ tail := by
  have htail : 0x80 :: List.replicate ((119 - 8 % 64) % 64) 0 ++
      (bytes 8 (BitVec.ofNat 64 (8 * 8))).reverse = tail := by decide +kernel
  rw [padding, length_bytes, List.append_assoc, htail]

theorem tail_words : ∀ i < 16, 2 ≤ i →
    big_endian 32 ((tail.drop (4 * i - 8)).take 4) = (block 0).getD i 0 := by decide

theorem block_tail (seed : BitVec 64) {i : Nat} (h : 2 ≤ i) :
    (block seed).getD i 0 = (block 0).getD i 0 := by
  simp only [block, List.append_assoc]
  rw [List.getD_append_right [_, _] _ _ _ h, List.getD_append_right [_, _] _ _ _ h]
  simp only [List.length_cons]

theorem byte_low (seed : BitVec 64) {j : Nat} (h : j < 4) :
    byte (seed.setWidth 32) j = byte seed j := by
  apply BitVec.eq_of_getLsbD_eq
  intro k hk
  have hlt : 8 * j + k < 32 := by omega
  rw [getLsbD_byte, getLsbD_byte, BitVec.getLsbD_setWidth, decide_eq_true hlt, Bool.true_and]

theorem byte_high (seed : BitVec 64) {j : Nat} (h : j < 4) :
    byte ((seed >>> 32).setWidth 32) j = byte seed (4 + j) := by
  apply BitVec.eq_of_getLsbD_eq
  intro k hk
  have hlt : 8 * j + k < 32 := by omega
  have hadd : 32 + (8 * j + k) = 8 * (4 + j) + k := by omega
  rw [getLsbD_byte, getLsbD_byte, BitVec.getLsbD_setWidth, decide_eq_true hlt, Bool.true_and,
    BitVec.getLsbD_ushiftRight, hadd]

theorem first_words (seed : BitVec 64) : bytes 8 seed =
    bytes 4 (seed.setWidth 32) ++ bytes 4 ((seed >>> 32).setWidth 32) := by
  have hlow : bytes 4 (seed.setWidth 32) = (List.range 4).map fun j => byte seed j :=
    List.map_congr_left fun j hj => byte_low seed (List.mem_range.1 hj)
  have hhigh : bytes 4 ((seed >>> 32).setWidth 32) =
      (List.range 4).map fun j => byte seed (4 + j) :=
    List.map_congr_left fun j hj => byte_high seed (List.mem_range.1 hj)
  rw [hlow, hhigh]
  rfl

/-- The padded message of a seed is one block, the one the code starts with. -/
theorem word_padding (seed : BitVec 64) : ∀ i < 16,
    word (padding (bytes 8 seed)) 0 i = (block seed).getD i 0 := by
  intro i hi
  have hlen := length_bytes 8 seed
  rw [word, padding_eq, Nat.mul_zero, Nat.zero_add]
  by_cases h : 2 ≤ i
  · rw [List.drop_append, List.drop_eq_nil_of_le (by omega), List.nil_append, hlen,
      block_tail seed h, ← tail_words i hi h]
  · have hi : i = 0 ∨ i = 1 := by omega
    rw [first_words, List.append_assoc]
    rcases hi with rfl | rfl
    · rw [Nat.mul_zero, List.drop_zero, List.take_left' (length_bytes 4 _), ← BSWAP32_eq]
      rfl
    · rw [Nat.mul_one, List.drop_left' (length_bytes 4 _), List.take_left' (length_bytes 4 _),
        ← BSWAP32_eq]
      rfl

theorem schedule_congr {M M' : Nat → Word} (h : ∀ i < 16, M i = M' i) (n : Nat) :
    schedule M n = schedule M' n := by
  induction n with
  | zero => exact List.map_congr_left fun i hi => h i (List.mem_range.1 hi)
  | succ n ih => rw [schedule, schedule, ih]

theorem length_padding (seed : BitVec 64) : (padding (bytes 8 seed)).length / 64 = 1 := by
  rw [padding_eq, List.length_append, length_bytes]
  rfl

theorem digest_take (H : Hash) :
    H.digest.take 8 = (bytes 4 H.a).reverse ++ (bytes 4 H.b).reverse := by
  have hlen : ((bytes 4 H.a).reverse ++ (bytes 4 H.b).reverse).length = 8 := by
    rw [List.length_append, List.length_reverse, List.length_reverse, length_bytes, length_bytes]
  simp only [Hash.digest, List.flatMap_cons]
  rw [← List.append_assoc, List.take_left' hlen]

end VoronoiSHA

open VoronoiSHA in
/-- The number that seeds the Voronoi cells of a world is the first half of a quarter of the
SHA-256 digest of its seed. -/
theorem getVoronoiSHA_eq (seed : BitVec 64) :
    getVoronoiSHA seed = little_endian 64 ((sha256 (bytes 8 seed)).take 8) := by
  have hm : ∀ i < 64, ((List.range' 16 48).foldl expand (block seed)).getD i 0 =
      (schedule (word (padding (bytes 8 seed)) 0) 48).getD i 0 := by
    intro i hi
    rw [(expanded (block seed) 48 (Nat.le_refl 64)).2 i hi,
      schedule_congr fun i hi => (word_padding seed i hi).symm]
  have hturns := turns_eq _ _ 64 start hm
  have hstart : start.hash = initial := by
    simp only [start, Vars.hash, initial, getD_B (show 0 < 8 by decide),
      getD_B (show 1 < 8 by decide), getD_B (show 2 < 8 by decide), getD_B (show 3 < 8 by decide),
      getD_B (show 4 < 8 by decide), getD_B (show 5 < 8 by decide), getD_B (show 6 < 8 by decide),
      getD_B (show 7 < 8 by decide)]
  rw [hstart] at hturns
  rw [sha256, length_padding, List.range_one, List.foldl_cons, List.foldl_nil, compress, ← hturns]
  have ha : B.getD 0 0 = initial.a := congrArg Hash.a hstart
  have hb : B.getD 1 0 = initial.b := congrArg Hash.b hstart
  rw [getVoronoiSHA, halves, ha, hb, digest_take, Vars.hash, BitVec.add_comm initial.a,
    BitVec.add_comm initial.b]

example : getVoronoiSHA 0 = 0x7a0b81a1f57055af := by decide +kernel

end Omission.Cubiomes
