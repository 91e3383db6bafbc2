import Mathlib.Data.List.Forall2
import Mathlib.Data.Set.Card
import Omission.Gpu.Draws
import Omission.Gpu.Noise
import Omission.Lib.Machine

namespace Omission.Gpu
open Omission.Lib XrsrRandom
set_option autoImplicit true

/-- The numbers that the rounds of `init_noise` draw; there are none where a rejection loop does
not end. -/
def shuffle_draws (fuel : Nat) : List Nat → XrsrRandom → Option (List Nat)
  | [], _ => some []
  | i :: is, random => do
    let (j, random) ← random.nextInt fuel (BitVec.ofNat 32 (256 - i))
    let js ← shuffle_draws fuel is random
    some (j.toNat :: js)

/-- The generator behind the three offsets. -/
def shuffle_random (random : XrsrRandom) : XrsrRandom :=
  (((random.nextBits 24).2.nextBits 24).2.nextBits 24).2

/-- A round draws an index behind `i` and exchanges the two entries. -/
theorem shuffle_round_spec (hi : i < 256) {p : Vector UInt8 256} {random random' : XrsrRandom}
    (h : random.nextInt fuel (BitVec.ofNat 32 (256 - i)) = some (j, random')) :
    j.toNat < 256 - i ∧ ∃ q, shuffle_round fuel (p, random) i = some (q, random') ∧
      q.toList.Perm p.toList := by
  have hbound := bound_toNat i
  have hlt := nextInt_lt (by omega) h
  rw [hbound] at hlt
  obtain ⟨q, hq, hperm⟩ := exchange_perm p hi (show i + j.toNat < 256 by omega)
  refine ⟨hlt, q, ?_, hperm⟩
  simp only [shuffle_round, h, hq, Option.bind_eq_bind, Option.bind_some]

/-- The rounds end where all loops do, in range and with the entries they started with. -/
theorem shuffle_rel {is : List Nat} (his : ∀ i ∈ is, i < 256) (fuel : Nat) (p : Vector UInt8 256)
    (random : XrsrRandom) : Option.Rel (fun s js => s.1.toList.Perm p.toList ∧
      List.Forall₂ (fun i j => j < 256 - i) is js)
    (is.foldlM (shuffle_round fuel) (p, random)) (shuffle_draws fuel is random) := by
  induction is generalizing p random with
  | nil => exact .some ⟨.refl _, .nil⟩
  | cons i is ih =>
    obtain ⟨hi, his⟩ := List.forall_mem_cons.1 his
    rw [List.foldlM_cons, shuffle_draws]
    cases h : random.nextInt fuel (BitVec.ofNat 32 (256 - i)) with
    | none =>
      rw [shuffle_round, h]
      exact .none
    | some s =>
      obtain ⟨j, random'⟩ := s
      obtain ⟨hj, q, hq, hperm⟩ := shuffle_round_spec hi (p := p) h
      rw [hq]
      have hrest := ih his q random'
      simp only [Option.bind_eq_bind, Option.bind_some]
      generalize is.foldlM (shuffle_round fuel) (q, random') = shuffled at hrest ⊢
      generalize shuffle_draws fuel is random' = draws at hrest ⊢
      cases hrest with
      | none => exact .none
      | some hs => exact .some ⟨hs.1.trans hperm, .cons hj hs.2⟩

theorem start_toList : (Vector.ofFn fun i : Fin 256 => UInt8.ofNat i).toList.map UInt8.toNat =
    List.range 256 := by
  rw [Vector.toList_ofFn, List.ofFn_eq_map, List.map_map, ← List.map_coe_finRange_eq_range]
  apply List.map_congr_left
  intro i _
  exact UInt8.toNat_ofNat_of_lt' i.isLt

/-- Each result of `nextInt` comes from equally many draws that are kept. -/
theorem ncard_kept {bound r : Nat} (hb : 0 < bound) (hr : r < bound) :
    {l : BitVec 32 | Kept (2 ^ 32) bound l.toNat ∧ scaled (2 ^ 32) bound l.toNat = r}.ncard =
      2 ^ 32 / bound := by
  have himage : BitVec.toNat '' {l : BitVec 32 | Kept (2 ^ 32) bound l.toNat ∧
      scaled (2 ^ 32) bound l.toNat = r} =
      ((Finset.range (2 ^ 32)).filter fun l => Kept (2 ^ 32) bound l ∧
        scaled (2 ^ 32) bound l = r : Finset Nat) := by
    ext l
    rw [Finset.mem_coe, Finset.mem_filter, Finset.mem_range]
    constructor
    · rintro ⟨v, hv, rfl⟩
      exact ⟨v.isLt, hv⟩
    · rintro ⟨hl, h⟩
      refine ⟨BitVec.ofNatLT l hl, ?_, rfl⟩
      exact h
  rw [← card_kept (Nat.two_pow_pos 32) hb hr, ← Set.ncard_coe_finset, ← himage]
  exact (Set.ncard_image_of_injective _ fun _ _ => BitVec.eq_of_toNat_eq).symm

theorem init_noise_rel (fuel : Nat) (random : XrsrRandom) : Option.Rel
    (fun g js => (g.p.toList.map UInt8.toNat).Perm (List.range 256) ∧
      List.Forall₂ (fun i j => j < 256 - i) (List.range 256) js)
    (init_noise fuel random)
    (shuffle_draws fuel (List.range 256) (shuffle_random random)) := by
  have hlt : ∀ i ∈ List.range 256, i < 256 := fun i => List.mem_range.1
  have hrel := shuffle_rel hlt fuel
    (Vector.ofFn fun i => UInt8.ofNat i) (shuffle_random random)
  have hinit : init_noise fuel random = ((List.range 256).foldlM (shuffle_round fuel)
      (Vector.ofFn fun i => UInt8.ofNat i, shuffle_random random)).bind fun s =>
        some ⟨s.1, (random.nextBits 24).1, ((random.nextBits 24).2.nextBits 24).1,
          (((random.nextBits 24).2.nextBits 24).2.nextBits 24).1⟩ := rfl
  rw [hinit]
  generalize (List.range 256).foldlM (shuffle_round fuel) _ = shuffled at hrel ⊢
  generalize shuffle_draws fuel (List.range 256) (shuffle_random random) = draws at hrel ⊢
  cases hrel with
  | none => exact .none
  | some hs =>
    refine .some ⟨?_, hs.2⟩
    rw [← start_toList]
    exact hs.1.map UInt8.toNat

/-- Where the rejection loops end, `init_noise` leaves a permutation, all indices stay in range and
each round exchanges entries; every result of `nextInt` is that of the first draw that is kept, and
comes from equally many of them. -/
theorem init_noise_permutes :
    (∀ fuel random,
      ((init_noise fuel random).isSome ↔
        (shuffle_draws fuel (List.range 256) (shuffle_random random)).isSome) ∧
      (∀ js, shuffle_draws fuel (List.range 256) (shuffle_random random) = some js →
        List.Forall₂ (fun i j => j < 256 - i ∧ i + j < 256) (List.range 256) js) ∧
      ∀ g, init_noise fuel random = some g →
        (g.p.toList.map UInt8.toNat).Perm (List.range 256)) ∧
    (∀ fuel i (p : Vector UInt8 256) random j random', i < 256 →
      random.nextInt fuel (BitVec.ofNat 32 (256 - i)) = some (j, random') →
      ∃ q, shuffle_round fuel (p, random) i = some (q, random') ∧ q.toList.Perm p.toList) ∧
    ∀ bound : BitVec 32, 0 < bound.toNat →
      (∀ (rng : XrsrRandom) r rng', (∃ fuel, rng.nextInt fuel bound = some (r, rng')) ↔
        ∃ k, rng.FirstKept bound.toNat k ∧
          r.toNat = scaled (2 ^ 32) bound.toNat (rng.draw k) ∧ rng' = rng.after (k + 1)) ∧
      ∀ r < bound.toNat, {l : BitVec 32 | Kept (2 ^ 32) bound.toNat l.toNat ∧
        scaled (2 ^ 32) bound.toNat l.toNat = r}.ncard = 2 ^ 32 / bound.toNat := by
  refine ⟨fun fuel random => ?_, fun fuel i p random j random' hi h => ?_, fun bound hb => ?_⟩
  · have hrel := init_noise_rel fuel random
    generalize init_noise fuel random = noise at hrel ⊢
    generalize shuffle_draws fuel (List.range 256) (shuffle_random random) = draws at hrel ⊢
    cases hrel with
    | none => exact ⟨Iff.rfl, nofun, nofun⟩
    | some h =>
      refine ⟨Iff.rfl, ?_, ?_⟩
      · intro _ hjs
        cases hjs
        exact h.2.imp fun i j hj => ⟨hj, by omega⟩
      · intro _ hg
        cases hg
        exact h.1
  · exact (shuffle_round_spec hi h).2
  · exact ⟨fun rng r rng' => nextInt_iff hb, fun r hr => ncard_kept hb hr⟩

/-- One generator: its shuffle, its first round, and a die that it throws. -/
theorem init_noise_permutes_one_two :
    (∃ g, init_noise 2 ⟨1, 2⟩ = some g ∧ (g.p.toList.map UInt8.toNat).Perm (List.range 256)) ∧
    (∃ q random, shuffle_round 2 (Vector.replicate 256 0, ⟨1, 2⟩) 0 = some (q, random) ∧
      q.toList.Perm (Vector.replicate 256 0).toList) ∧
    (∃ k, FirstKept ⟨1, 2⟩ 6 k) ∧
    {l : BitVec 32 | Kept (2 ^ 32) 6 l.toNat ∧ scaled (2 ^ 32) 6 l.toNat = 5}.ncard =
      2 ^ 32 / 6 := by
  obtain ⟨hnoise, hround, hnext⟩ := init_noise_permutes
  obtain ⟨hdie, hcount⟩ := hnext 6#32 (by decide)
  refine ⟨?_, ?_, ?_, hcount 5 (by decide)⟩
  · obtain ⟨g, hg⟩ : ∃ g, init_noise 2 ⟨1, 2⟩ = some g :=
      Option.isSome_iff_exists.1 (by decide +kernel)
    exact ⟨g, hg, (hnoise 2 ⟨1, 2⟩).2.2 g hg⟩
  · obtain ⟨⟨j, random⟩, hj⟩ : ∃ s, nextInt 2 (BitVec.ofNat 32 256) ⟨1, 2⟩ = some s :=
      Option.isSome_iff_exists.1 (by decide +kernel)
    obtain ⟨q, hq⟩ := hround 2 0 (Vector.replicate 256 0) _ j random (by decide) hj
    exact ⟨q, random, hq⟩
  · obtain ⟨⟨r, rng⟩, hr⟩ : ∃ s, nextInt 2 6#32 ⟨1, 2⟩ = some s :=
      Option.isSome_iff_exists.1 (by decide +kernel)
    obtain ⟨k, hk, -⟩ := (hdie _ r rng).1 ⟨2, hr⟩
    exact ⟨k, hk⟩

end Omission.Gpu
