import Omission.Lib.Framing
import Mathlib.Data.BitVec

namespace Omission.Net
open Omission.Lib
set_option autoImplicit true

/-- `net_handshake`; the size letter tells the two builds apart. -/
def net_handshake (large_biomes : Bool) : List UInt8 :=
  (['O', 'M', 'I', 'S', 'S', 'I', 'O', 'N', '-', 'G', 'P', 'U', ' ',
    if large_biomes then 'L' else 'S', 'B', '\n']).map fun c => UInt8.ofNat c.toNat

theorem length_net_handshake (large_biomes : Bool) : (net_handshake large_biomes).length = 16 := rfl

structure GpuOutput where
  seed : BitVec 64
  x : BitVec 32
  z : BitVec 32
deriving DecidableEq, Repr

/-- `sizeof(GpuOutput)`, and with it the length of a record on the wire. -/
def sizeofGpuOutput : Nat := 16

/-- The struct layout both ends share. -/
structure Layout where
  encode : GpuOutput → List UInt8
  decode : List UInt8 → GpuOutput
  length_encode : ∀ r, (encode r).length = sizeofGpuOutput
  decode_encode : ∀ r, decode (encode r) = r

/-- The `n` bytes of a machine word, least significant first. -/
def leBytes {w : Nat} (n : Nat) (v : BitVec w) : List UInt8 :=
  (List.range n).map fun i => UInt8.ofNat (v.toNat / 256 ^ i % 256)

/-- The number a list of bytes stands for, least significant byte first. -/
def leValue : List UInt8 → Nat
  | [] => 0
  | b :: bs => b.toNat + 256 * leValue bs

theorem leValue_digits (n v k : Nat) :
    leValue ((List.range n).map fun i => UInt8.ofNat (v / 256 ^ (k + i) % 256)) =
      v / 256 ^ k % 256 ^ n := by
  induction n generalizing k with
  | zero => simp [leValue, Nat.mod_one]
  | succ n ih =>
    have hmod : (UInt8.ofNat (v / 256 ^ k % 256)).toNat = v / 256 ^ k % 256 := by simp
    have hshift : ((List.range n).map fun i => UInt8.ofNat (v / 256 ^ (k + (i + 1)) % 256)) =
        (List.range n).map fun i => UInt8.ofNat (v / 256 ^ (k + 1 + i) % 256) := by
      simp only [Nat.add_assoc, Nat.add_comm 1]
    rw [List.range_succ_eq_map, List.map_cons, List.map_map]
    simp only [Function.comp_def, Nat.succ_eq_add_one, Nat.add_zero, leValue]
    rw [hmod, hshift, ih, Nat.pow_succ 256 n, Nat.mul_comm (256 ^ n), Nat.mod_mul, Nat.pow_succ,
      Nat.div_div_eq_div_mul]

theorem leValue_leBytes {w : Nat} {n : Nat} (v : BitVec w) (h : 256 ^ n = 2 ^ w) :
    leValue (leBytes n v) = v.toNat := by
  have hd := leValue_digits n v.toNat 0
  simp only [Nat.zero_add, Nat.pow_zero, Nat.div_one] at hd
  rw [leBytes, hd, h, Nat.mod_eq_of_lt v.isLt]

/-- The layout of x86-64 and of the GPU hosts: seed, x, z, little endian, no padding. -/
def littleEndian : Layout where
  encode r := leBytes 8 r.seed ++ leBytes 4 r.x ++ leBytes 4 r.z
  decode bs := ⟨BitVec.ofNat 64 (leValue (bs.take 8)),
    BitVec.ofNat 32 (leValue ((bs.drop 8).take 4)),
    BitVec.ofNat 32 (leValue ((bs.drop 12).take 4))⟩
  length_encode r := by simp [leBytes, sizeofGpuOutput]
  decode_encode r := by
    have h8 : (leBytes 8 r.seed).length = 8 := by simp [leBytes]
    have h4 (v : BitVec 32) : (leBytes 4 v).length = 4 := by simp [leBytes]
    have h64 : (256 : Nat) ^ 8 = 2 ^ 64 := by decide
    have h32 : (256 : Nat) ^ 4 = 2 ^ 32 := by decide
    have hx : (leBytes 8 r.seed ++ leBytes 4 r.x ++ leBytes 4 r.z).drop 8 =
        leBytes 4 r.x ++ leBytes 4 r.z := by
      rw [List.append_assoc]
      exact List.drop_left' h8
    have hz : (leBytes 8 r.seed ++ leBytes 4 r.x ++ leBytes 4 r.z).drop 12 = leBytes 4 r.z :=
      List.drop_left' (by rw [List.length_append, h8, h4])
    rw [hx, hz, List.append_assoc, List.take_left' h8, List.take_left' (h4 _),
      List.take_of_length_le (Nat.le_of_eq (h4 _)), leValue_leBytes _ h64, leValue_leBytes _ h32,
      leValue_leBytes _ h32]
    simp only [BitVec.ofNat_toNat, BitVec.setWidth_eq]

/-- The bytes `ClientThread::run` writes: the handshake, then the contents of the queue at
each wake-up; nothing is written for an empty queue. -/
def ClientThread_run (L : Layout) (large_biomes : Bool) (drained : List (List GpuOutput)) :
    List UInt8 :=
  net_handshake large_biomes ++
    drained.flatMap fun pending_data =>
      if pending_data.isEmpty then [] else pending_data.flatMap L.encode

theorem ClientThread_run_eq (L : Layout) (large_biomes : Bool) (drained : List (List GpuOutput)) :
    ClientThread_run L large_biomes drained =
      net_handshake large_biomes ++ drained.flatten.flatMap L.encode := by
  rw [ClientThread_run]
  congr 1
  induction drained with
  | nil => rfl
  | cons pending_data drained ih =>
    rw [List.flatMap_cons, ih, List.flatten_cons, List.flatMap_append]
    cases pending_data <;> rfl

/-- The records of a byte stream, as far as it goes. -/
def Layout.records (L : Layout) (bs : List UInt8) : List GpuOutput :=
  (frames sizeofGpuOutput bs).map L.decode

theorem Layout.records_append (L : Layout) (xs ys : List UInt8) :
    L.records (xs ++ ys) = L.records xs ++ L.records (rest sizeofGpuOutput xs ++ ys) := by
  rw [Layout.records, frames_append (by decide), List.map_append]
  rfl

theorem Layout.records_take (L : Layout) (rs : List GpuOutput) {k : Nat}
    (hk : k ≤ (rs.flatMap L.encode).length) :
    L.records ((rs.flatMap L.encode).take k) = rs.take (k / sizeofGpuOutput) := by
  rw [Layout.records, frames_take (by decide) hk,
    frames_flatMap (by decide) _ L.length_encode, ← List.map_take, List.map_map]
  simp only [Function.comp_def, L.decode_encode, List.map_id']

end Omission.Net
