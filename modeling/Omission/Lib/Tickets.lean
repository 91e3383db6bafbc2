import Mathlib.Data.BitVec
import Mathlib.Data.List.Range

namespace Omission.Lib
set_option autoImplicit true

/-- The first `n` answers of `fetch_add(count)` on a counter that starts at `start`. -/
def tickets (start : BitVec w) (count n : Nat) : List (BitVec w) :=
  (List.range n).map fun k => start + BitVec.ofNat w (k * count)

/-- What the holder of a ticket works on. -/
def InBatch (count : Nat) (b v : BitVec w) : Prop := ∃ i < count, v = b + BitVec.ofNat w i

section Tickets

variable {w : Nat} {start v b c : BitVec w} {count n k i : Nat}

theorem tickets_succ : tickets start count (n + 1) =
    tickets start count n ++ [start + BitVec.ofNat w (n * count)] := by
  rw [tickets, List.range_succ, List.map_append, List.map_singleton]
  rfl

theorem mem_tickets : b ∈ tickets start count n ↔
    ∃ k < n, b = start + BitVec.ofNat w (k * count) := by
  simp only [tickets, List.mem_map, List.mem_range, eq_comm]

/-- Where a value lies from the start of the counter on. -/
def lead (start v : BitVec w) : Nat := (v - start).toNat

theorem lead_add {m : Nat} (hm : m < 2 ^ w) : lead start (start + BitVec.ofNat w m) = m := by
  rw [lead, BitVec.add_comm, BitVec.add_sub_cancel, BitVec.toNat_ofNat, Nat.mod_eq_of_lt hm]

theorem add_lead (start v : BitVec w) : start + BitVec.ofNat w (lead start v) = v := by
  rw [lead, BitVec.ofNat_toNat, BitVec.setWidth_eq, BitVec.add_comm, BitVec.sub_add_cancel]

/-- The batch of the `k`-th ticket, as long as the counter has not come round. -/
theorem inBatch_iff (hcount : 0 < count) (hround : n * count ≤ 2 ^ w) (hk : k < n) :
    InBatch count (start + BitVec.ofNat w (k * count)) v ↔ lead start v / count = k := by
  have hle : (k + 1) * count ≤ 2 ^ w := (Nat.mul_le_mul_right count hk).trans hround
  rw [Nat.add_mul, Nat.one_mul] at hle
  constructor
  · rintro ⟨i, hi, rfl⟩
    rw [BitVec.add_assoc, ← BitVec.ofNat_add, lead_add (by omega), Nat.mul_comm,
      Nat.mul_add_div hcount, Nat.div_eq_of_lt hi, Nat.add_zero]
  · intro hdiv
    refine ⟨lead start v % count, Nat.mod_lt _ hcount, ?_⟩
    rw [BitVec.add_assoc, ← BitVec.ofNat_add, ← hdiv, Nat.mul_comm, Nat.div_add_mod, add_lead]

theorem nodup_tickets (hcount : 0 < count) (hround : n * count ≤ 2 ^ w) :
    (tickets start count n).Nodup := by
  refine List.Nodup.map_on ?_ List.nodup_range
  intro j hj k hk he
  rw [List.mem_range] at hj hk
  have hself : InBatch count (start + BitVec.ofNat w (j * count))
      (start + BitVec.ofNat w (j * count)) := ⟨0, hcount, (BitVec.add_zero _).symm⟩
  rw [← (inBatch_iff hcount hround hj).1 hself]
  exact (inBatch_iff hcount hround hk).1 (he ▸ hself)

/-- Two tickets never share a value. -/
theorem inBatch_unique (hcount : 0 < count) (hround : n * count ≤ 2 ^ w)
    (hb : b ∈ tickets start count n) (hc : c ∈ tickets start count n)
    (hvb : InBatch count b v) (hvc : InBatch count c v) : b = c := by
  obtain ⟨j, hj, rfl⟩ := mem_tickets.1 hb
  obtain ⟨k, hk, rfl⟩ := mem_tickets.1 hc
  rw [← (inBatch_iff hcount hround hj).1 hvb, ← (inBatch_iff hcount hround hk).1 hvc]

/-- Together the tickets of one round hold every value. -/
theorem exists_inBatch (hcount : 0 < count) (hround : n * count = 2 ^ w) (v : BitVec w) :
    ∃ b ∈ tickets start count n, InBatch count b v := by
  have hlt : lead start v / count < n := by
    rw [Nat.div_lt_iff_lt_mul hcount, hround]
    exact (v - start).isLt
  exact ⟨_, mem_tickets.2 ⟨_, hlt, rfl⟩, (inBatch_iff hcount hround.le hlt).2 rfl⟩

end Tickets

end Omission.Lib
