import Mathlib.Analysis.SpecialFunctions.Pow.NthRootLemmas
import Mathlib.Data.BitVec
import Mathlib.Data.List.Induction
import Mathlib.Data.Nat.NthRoot.Defs
import Mathlib.Data.Nat.Prime.Basic

namespace Omission.Lib.Sha256
set_option autoImplicit true

abbrev Word := BitVec 32
abbrev Byte := BitVec 8

/-- The number that bytes spell, the first byte the highest. -/
def big_endian (w : Nat) (bytes : List Byte) : BitVec w :=
  bytes.foldl (fun v b => v <<< 8 ||| b.setWidth w) 0

def little_endian (w : Nat) (bytes : List Byte) : BitVec w := big_endian w bytes.reverse

/-- Byte `i` of a number, byte 0 the lowest. -/
def byte (v : BitVec w) (i : Nat) : Byte := v.extractLsb' (8 * i) 8

/-- The bytes of a number, the lowest first. -/
def bytes (n : Nat) (v : BitVec w) : List Byte := (List.range n).map (byte v)

/-- The first 64 primes. -/
def primes : List Nat := (List.range 312).filter fun n => decide (Nat.Prime n)

/-- The first 32 bits of the fractional part of the `k`-th root of `p`. -/
def root_bits (k p : Nat) : Word := BitVec.ofNat 32 (Nat.nthRoot k (p * 2 ^ (32 * k)))

def K : List Word := primes.map (root_bits 3)

structure Hash where
  a : Word
  b : Word
  c : Word
  d : Word
  e : Word
  f : Word
  g : Word
  h : Word
deriving DecidableEq

def initial : Hash :=
  let r i := root_bits 2 (primes.getD i 0)
  ⟨r 0, r 1, r 2, r 3, r 4, r 5, r 6, r 7⟩

def Ch (x y z : Word) : Word := (x &&& y) ^^^ (~~~x &&& z)
def Maj (x y z : Word) : Word := (x &&& y) ^^^ (x &&& z) ^^^ (y &&& z)
def Sigma0 (x : Word) : Word := x.rotateRight 2 ^^^ x.rotateRight 13 ^^^ x.rotateRight 22
def Sigma1 (x : Word) : Word := x.rotateRight 6 ^^^ x.rotateRight 11 ^^^ x.rotateRight 25
def sigma0 (x : Word) : Word := x.rotateRight 7 ^^^ x.rotateRight 18 ^^^ x >>> 3
def sigma1 (x : Word) : Word := x.rotateRight 17 ^^^ x.rotateRight 19 ^^^ x >>> 10

/-- The message schedule of a block, `n` words past the block itself. -/
def schedule (M : Nat → Word) : Nat → List Word
  | 0 => (List.range 16).map M
  | n + 1 =>
    let W := schedule M n
    W ++ [sigma1 (W.getD (n + 14) 0) + W.getD (n + 9) 0 + sigma0 (W.getD (n + 1) 0) + W.getD n 0]

def round (W : List Word) (s : Hash) (t : Nat) : Hash :=
  let T1 := s.h + Sigma1 s.e + Ch s.e s.f s.g + K.getD t 0 + W.getD t 0
  let T2 := Sigma0 s.a + Maj s.a s.b s.c
  ⟨T1 + T2, s.a, s.b, s.c, s.d + T1, s.e, s.f, s.g⟩

def compress (H : Hash) (M : Nat → Word) : Hash :=
  let s := (List.range 64).foldl (round (schedule M 48)) H
  ⟨H.a + s.a, H.b + s.b, H.c + s.c, H.d + s.d, H.e + s.e, H.f + s.f, H.g + s.g, H.h + s.h⟩

/-- The message, a one bit, zeros, and the length in bits as 64 bits. -/
def padding (message : List Byte) : List Byte :=
  message ++ 0x80 :: List.replicate ((119 - message.length % 64) % 64) 0 ++
    (bytes 8 (BitVec.ofNat 64 (8 * message.length))).reverse

/-- Word `i` of block `b`. -/
def word (padded : List Byte) (b i : Nat) : Word :=
  big_endian 32 ((padded.drop (64 * b + 4 * i)).take 4)

def Hash.digest (H : Hash) : List Byte :=
  [H.a, H.b, H.c, H.d, H.e, H.f, H.g, H.h].flatMap fun w => (bytes 4 w).reverse

def sha256 (message : List Byte) : List Byte :=
  let padded := padding message
  ((List.range (padded.length / 64)).foldl (fun H b => compress H (word padded b)) initial).digest

theorem prime_iff {n : Nat} (hn : n < 312) :
    Nat.Prime n ↔ 2 ≤ n ∧ ∀ m < 18, 2 ≤ m → m < n → n % m ≠ 0 := by
  constructor
  · intro h
    refine ⟨h.two_le, fun m _ h2 hlt hmod => ?_⟩
    rcases (Nat.dvd_prime h).1 (Nat.dvd_of_mod_eq_zero hmod) with rfl | rfl
    · exact absurd h2 (by decide)
    · exact Nat.lt_irrefl _ hlt
  · rintro ⟨h2, h⟩
    refine Nat.prime_def_le_sqrt.2 ⟨h2, fun m hm hle hdvd => ?_⟩
    have hsq : m * m ≤ n := Nat.le_sqrt.1 hle
    have hlt : m < 18 := by nlinarith
    exact h m hlt hm (by nlinarith) (Nat.mod_eq_zero_of_dvd hdvd)

/-- The primes by trial division, which is quicker to evaluate. -/
theorem primes_eq : primes =
    (List.range 312).filter fun n => decide (2 ≤ n ∧ ∀ m < 18, 2 ≤ m → m < n → n % m ≠ 0) := by
  refine List.filter_congr fun n hn => ?_
  rw [decide_eq_decide]
  exact prime_iff (List.mem_range.1 hn)

/-- `c` is what `root_bits` finds, as a bound from both sides. -/
def Spells (k p : Nat) (c : Word) : Prop :=
  (2 ^ 32 * Nat.nthRoot k p + c.toNat) ^ k ≤ p * 2 ^ (32 * k) ∧
    p * 2 ^ (32 * k) < (2 ^ 32 * Nat.nthRoot k p + c.toNat + 1) ^ k

instance (k p : Nat) (c : Word) : Decidable (Spells k p c) := inferInstanceAs (Decidable (_ ∧ _))

theorem Spells.root_bits {k p : Nat} {c : Word} (h : Spells k p c) : root_bits k p = c := by
  rw [Sha256.root_bits, Nat.nthRoot_eq_of_le_of_lt h.1 h.2]
  apply BitVec.eq_of_toNat_eq
  rw [BitVec.toNat_ofNat, Nat.mul_add_mod, Nat.mod_eq_of_lt c.isLt]

theorem map_root_bits {k : Nat} {ps : List Nat} {cs : List Word} (hlen : ps.length = cs.length)
    (h : ∀ x ∈ ps.zip cs, Spells k x.1 x.2) : ps.map (root_bits k) = cs := by
  induction ps generalizing cs with
  | nil =>
    rw [List.length_nil] at hlen
    rw [List.length_eq_zero_iff.1 hlen.symm, List.map_nil]
  | cons p ps ih =>
    cases cs with
    | nil => cases hlen
    | cons c cs =>
      rw [List.zip_cons_cons, List.forall_mem_cons] at h
      rw [List.map_cons, h.1.root_bits, ih (Nat.succ.inj hlen) h.2]

theorem getLsbD_big_endian (w : Nat) (bs : List Byte) (i : Nat) :
    (big_endian w bs).getLsbD i =
      (decide (i < w) && (bs.reverse.getD (i / 8) 0).getLsbD (i % 8)) := by
  induction bs using List.reverseRecOn generalizing i with
  | nil => simp [big_endian]
  | append_singleton bs b ih =>
    rw [big_endian, List.foldl_append, List.foldl_cons, List.foldl_nil, ← big_endian,
      BitVec.getLsbD_or, BitVec.getLsbD_shiftLeft, ih, BitVec.getLsbD_setWidth,
      List.reverse_append, List.reverse_singleton, List.singleton_append]
    by_cases hi : i < 8
    · rw [Nat.div_eq_of_lt hi, Nat.mod_eq_of_lt hi]
      simp [hi]
    · have hdiv : i / 8 = (i - 8) / 8 + 1 := by omega
      have hmod : i % 8 = (i - 8) % 8 := by omega
      have hb : b.getLsbD i = false := b.getLsbD_of_ge i (by omega)
      rw [hdiv, hmod, List.getD_cons_succ, hb]
      by_cases hw : i < w
      · have hsub : i - 8 < w := by omega
        simp [hi, hw, hsub]
      · simp [hw]

theorem getLsbD_little_endian (w : Nat) (bs : List Byte) (i : Nat) :
    (little_endian w bs).getLsbD i =
      (decide (i < w) && (bs.getD (i / 8) 0).getLsbD (i % 8)) := by
  rw [little_endian, getLsbD_big_endian, List.reverse_reverse]

theorem getLsbD_byte (v : BitVec w) (i j : Nat) :
    (byte v i).getLsbD j = (decide (j < 8) && v.getLsbD (8 * i + j)) := by
  rw [byte, BitVec.getLsbD_extractLsb']

end Omission.Lib.Sha256
