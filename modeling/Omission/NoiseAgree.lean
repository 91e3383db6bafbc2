import Omission.Cpu.Noise
import Omission.Gpu.Draws
import Omission.Gpu.Noise
import Omission.Lib.Machine

namespace Omission.NoiseAgree
open Omission.Lib Omission.Gpu Omission.Cpu
set_option autoImplicit true

/-- The generator of the other implementation in the same state. -/
def xr (rng : XrsrRandom) : Xoroshiro := ⟨rng.lo, rng.hi⟩

theorem xNextLong_xr (rng : XrsrRandom) :
    xNextLong (xr rng) = (rng.nextInternal.1, xr rng.nextInternal.2) := rfl

theorem seed_fork_eq (seed : BitVec 64) :
    XrsrRandom_seed_fork seed =
      ⟨(xNextLong (xSetSeed seed)).1, (xNextLong (xNextLong (xSetSeed seed)).2).1⟩ := rfl

theorem double_fork_eq (rng : XrsrRandom) :
    XrsrRandom_double_fork rng =
      (⟨(xNextLong (xr rng)).1, (xNextLong (xNextLong (xr rng)).2).1⟩,
        ⟨(xNextLong (xNextLong (xNextLong (xr rng)).2).2).1,
          (xNextLong (xNextLong (xNextLong (xNextLong (xr rng)).2).2).2).1⟩) := rfl

theorem and_low (m : BitVec 64) : m &&& 0xFFFFFFFF#64 = (m.setWidth 32).setWidth 64 := by
  apply BitVec.eq_of_toNat_eq
  have hand : (m &&& 0xFFFFFFFF#64).toNat = m.toNat % 2 ^ 32 := Nat.and_two_pow_sub_one_eq_mod _ 32
  have hlt : m.toNat % 2 ^ 32 < 2 ^ 64 := (Nat.mod_lt _ (by decide)).trans (by decide)
  rw [hand, BitVec.toNat_setWidth, BitVec.toNat_setWidth, Nat.mod_eq_of_lt hlt]

theorem low_lt_iff (m : BitVec 64) (n : BitVec 32) :
    m &&& 0xFFFFFFFF#64 < n.setWidth 64 ↔ m.setWidth 32 < n := by
  have widen : ∀ y : BitVec 32, (y.setWidth 64).toNat = y.toNat :=
    fun y => BitVec.toNat_setWidth_of_le (by decide)
  rw [and_low, BitVec.lt_def, BitVec.lt_def, widen, widen]

theorem product_eq (bound : BitVec 32) (rng : XrsrRandom) :
    xNextProduct bound (xr rng) = ((rng.nextProduct bound).1, xr (rng.nextProduct bound).2) := by
  rw [xNextProduct, xNextLong_xr, and_low]
  rfl

theorem reject_eq (bound : BitVec 32) (fuel : Nat) (m : BitVec 64) (rng : XrsrRandom) :
    xReject bound fuel (m, xr rng) =
      (XrsrRandom.reject bound ((~~~bound + 1) % bound) fuel (m, rng)).map
        fun s => (s.1, xr s.2) := by
  induction fuel generalizing m rng with
  | zero => rfl
  | succ fuel ih =>
    simp only [xReject, XrsrRandom.reject, low_lt_iff]
    split
    · rw [product_eq, ih]
    · rfl

theorem nextInt_eq (fuel : Nat) (bound : BitVec 32) (rng : XrsrRandom) :
    xNextInt fuel bound (xr rng) = (rng.nextInt fuel bound).map fun s => (s.1, xr s.2) := by
  simp only [xNextInt, XrsrRandom.nextInt, product_eq, low_lt_iff]
  split
  · rw [reject_eq]
    cases XrsrRandom.reject bound ((~~~bound + 1) % bound) fuel (rng.nextProduct bound) <;> rfl
  · rfl

def SameShuffle (s : Vector UInt8 256 × XrsrRandom) (t : Vector UInt8 257 × Xoroshiro) : Prop :=
  Prefix s.1 t.1 ∧ t.2 = xr s.2

theorem shuffle_round_rel (h : SameShuffle s t) (hi : i < 256) :
    Option.Rel SameShuffle (shuffle_round fuel s i) (xShuffleRound fuel t i) := by
  obtain ⟨p, rng⟩ := s
  obtain ⟨d, y⟩ := t
  obtain ⟨hp, rfl⟩ := h
  simp only [shuffle_round, xShuffleRound, nextInt_eq]
  have hbound := bound_toNat i
  cases hj : rng.nextInt fuel (BitVec.ofNat 32 (256 - i)) with
  | none => exact .none
  | some s' =>
    obtain ⟨j, rng'⟩ := s'
    have hlt := XrsrRandom.nextInt_lt (by omega) hj
    obtain ⟨p', d', hp', hd', hpre⟩ := hp.exchange (by decide) hi (show i + j.toNat < 256 by omega)
    rw [Nat.add_comm] at hd'
    simp only [Option.map_some, Option.bind_eq_bind, Option.bind_some, hp', hd']
    exact .some ⟨hpre, rfl⟩

/-- The tables agree, and the 24 bits of an offset are the top bits of the 53. -/
structure SameNoise (g : ImprovedNoise) (c : PerlinNoise) : Prop where
  table : Prefix g.p c.d
  xo : g.xo = c.a >>> 29
  yo : g.yo = c.b >>> 29
  zo : g.zo = c.c >>> 29

theorem nextBits_eq (rng : XrsrRandom) :
    (rng.nextBits 24).1 = (xNextDouble (xr rng)).1 >>> 29 ∧
      (xNextDouble (xr rng)).2 = xr (rng.nextBits 24).2 := by
  refine ⟨?_, rfl⟩
  exact BitVec.shiftRight_add _ 11 29

theorem init_noise_rel (fuel : Nat) (old : UInt8) (rng : XrsrRandom) :
    Option.Rel SameNoise (init_noise fuel rng) (xPerlinInit fuel old (xr rng)) := by
  obtain ⟨hx, hx'⟩ := nextBits_eq rng
  obtain ⟨hy, hy'⟩ := nextBits_eq (rng.nextBits 24).2
  obtain ⟨hz, hz'⟩ := nextBits_eq ((rng.nextBits 24).2.nextBits 24).2
  have hstart : SameShuffle
      (Vector.ofFn fun i => UInt8.ofNat i, (((rng.nextBits 24).2.nextBits 24).2.nextBits 24).2)
      (Vector.ofFn fun i => if i.val < 256 then UInt8.ofNat i else old,
        xr (((rng.nextBits 24).2.nextBits 24).2.nextBits 24).2) := by
    refine ⟨?_, rfl⟩
    intro i hi hi'
    simp only [Vector.getElem_ofFn, hi, if_true]
  have hloop : Option.Rel SameShuffle ((List.range 256).foldlM (shuffle_round fuel) _)
      ((List.range 256).foldlM (xShuffleRound fuel) _) :=
    foldlM_rel (fun s t i hmem h => shuffle_round_rel h (List.mem_range.1 hmem)) hstart
  simp only [init_noise, xPerlinInit, hx', hy', hz']
  apply rel_bind hloop
  rintro ⟨p, rng'⟩ ⟨d, y⟩ ⟨hp, -⟩
  refine .some ⟨?_, hx, hy, hz⟩
  intro i hi hi'
  rw [Vector.getElem_set_ne _ _ (by omega)]
  exact hp i hi hi'

/-- The fork equals the hash it is combined with: the constructor of the generator then
replaces the zero state. -/
def Meets (fork : XrsrRandomFork) (hash : XrsrForkHash) : Prop :=
  fork.lo = hash.lo ∧ fork.hi = hash.hi

instance (fork : XrsrRandomFork) (hash : XrsrForkHash) : Decidable (Meets fork hash) :=
  inferInstanceAs (Decidable (_ ∧ _))

theorem from_eq {fork : XrsrRandomFork} {hash : XrsrForkHash} (h : ¬ Meets fork hash) :
    xr (fork.from hash) = ⟨fork.lo ^^^ hash.lo, fork.hi ^^^ hash.hi⟩ := by
  rw [XrsrRandomFork.from, XrsrRandom.of, if_neg]
  · rfl
  · intro h0
    obtain ⟨hlo, hhi⟩ := BitVec.or_eq_zero_iff.1 h0
    exact h ⟨BitVec.xor_eq_zero_iff.1 hlo, BitVec.xor_eq_zero_iff.1 hhi⟩

section Octaves

variable {fuel : Nat} {old : UInt8} {xlo xhi : BitVec 64} {amplitudes : List Rat} {omin : Int}

/-- Octave `k` of a half, from the two draws of `xOctaveInit`. -/
def OctaveAt (fuel : Nat) (old : UInt8) (xlo xhi : BitVec 64) (omin : Int)
    (octaves : List PerlinNoise) (k : Nat) : Prop :=
  ∃ c md5, octaves[k]? = some c ∧ md5_octave_n[(12 + omin + k).toNat]? = some md5 ∧
    xPerlinInit fuel old ⟨xlo ^^^ md5.1, xhi ^^^ md5.2⟩ = some c

theorem octaves_foldlM (hamp : ∀ k < n, ∃ a, amplitudes[k]? = some a ∧ a ≠ 0)
    (h : (List.range n).foldlM (xOctaveRound fuel old xlo xhi amplitudes omin (-1)) [] =
      some octaves) :
    octaves.length = n ∧ ∀ k < n, OctaveAt fuel old xlo xhi omin octaves k := by
  induction n generalizing octaves with
  | zero =>
    cases h
    exact ⟨rfl, fun k hk => absurd hk (Nat.not_lt_zero k)⟩
  | succ n ih =>
    rw [List.range_succ, List.foldlM_append] at h
    obtain ⟨os, hos, hlast⟩ := Option.bind_eq_some_iff.1 h
    obtain ⟨hlen, hall⟩ := ih (fun k hk => hamp k (by omega)) hos
    obtain ⟨a, ha, hne⟩ := hamp n (Nat.lt_succ_self n)
    simp only [List.foldlM_cons, List.foldlM_nil, xOctaveRound, ha, Option.bind_eq_bind,
      Option.bind_some, if_neg hne] at hlast
    rw [if_neg (by omega)] at hlast
    obtain ⟨os', hlast, hpure⟩ := Option.bind_eq_some_iff.1 hlast
    cases hpure
    obtain ⟨md5, hmd5, hlast⟩ := Option.bind_eq_some_iff.1 hlast
    obtain ⟨c, hc, hlast⟩ := Option.bind_eq_some_iff.1 hlast
    cases hlast
    refine ⟨by rw [List.length_append, hlen, List.length_singleton], ?_⟩
    intro k hk
    rcases Nat.lt_succ_iff_lt_or_eq.1 hk with hk | rfl
    · obtain ⟨c', md5', hc', hrest⟩ := hall k hk
      refine ⟨c', md5', ?_, hrest⟩
      rw [List.getElem?_append_left (by omega)]
      exact hc'
    · refine ⟨c, md5, ?_, hmd5, hc⟩
      rw [List.getElem?_append_right (by omega), hlen, Nat.sub_self]
      rfl

theorem xOctaveInit_spec {len : Nat} (hamp : ∀ k < len, ∃ a, amplitudes[k]? = some a ∧ a ≠ 0)
    (h : xOctaveInit fuel old y amplitudes omin len (-1) = some (octaves, y')) :
    y' = (xNextLong (xNextLong y).2).2 ∧
      ∀ k < len, OctaveAt fuel old (xNextLong y).1 (xNextLong (xNextLong y).2).1
        omin octaves k := by
  obtain ⟨os, hos, he⟩ := Option.bind_eq_some_iff.1 h
  cases he
  exact ⟨rfl, (octaves_foldlM hamp hos).2⟩

end Octaves

/-- The numbers that the rounds of `xPerlinInit` draw; there are none where a rejection loop does
not end. -/
def xShuffleDraws (fuel : Nat) : List Nat → Xoroshiro → Option (List Nat)
  | [], _ => some []
  | i :: is, xr => do
    let (j, xr) ← xNextInt fuel (BitVec.ofNat 32 (256 - i)) xr
    let js ← xShuffleDraws fuel is xr
    some (j.toNat :: js)

/-- The rejection loops of one octave end. -/
def Ends (fuel : Nat) (xr : Xoroshiro) : Prop :=
  (xShuffleDraws fuel (List.range 256)
    (xNextDouble (xNextDouble (xNextDouble xr).2).2).2).isSome = true

instance (fuel : Nat) (xr : Xoroshiro) : Decidable (Ends fuel xr) :=
  inferInstanceAs (Decidable (_ = true))

/-- The generators of the octaves of `xOctaveInit`. -/
def octave_states (xlo xhi : BitVec 64) (amplitudes : List Rat) (omin : Int) : List Xoroshiro :=
  (List.range amplitudes.length).filterMap fun i : Nat =>
    if amplitudes[i]? = some 0 then none
    else md5_octave_n[(12 + omin + i).toNat]?.map fun md5 => ⟨xlo ^^^ md5.1, xhi ^^^ md5.2⟩

/-- The state in which `xOctaveInit` leaves its generator. -/
def after_octaves (xr : Xoroshiro) : Xoroshiro := (xNextLong (xNextLong xr).2).2

def half_states (xr : Xoroshiro) (amplitudes : List Rat) (omin : Int) : List Xoroshiro :=
  octave_states (xNextLong xr).1 (xNextLong (xNextLong xr).2).1 amplitudes omin

/-- What `init_climate_seed` combines the seed with, and the octaves that it asks for. -/
structure ClimateParameters where
  lo : BitVec 64
  hi : BitVec 64
  amplitudes : List Rat
  omin : Int

def climate_parameters (large : Bool) : NP → ClimateParameters
  | .SHIFT => ⟨0x080518cf6af25384#64, 0x3f3dfb40a54febd5#64, [1, 1, 1, 0], -3⟩
  | .TEMPERATURE =>
    ⟨if large then 0x944b0073edf549db#64 else 0x5c7e6b29735f0d7f#64,
      if large then 0x4ff44347e9d22b96#64 else 0xf7d86f1bbc734988#64,
      [3 / 2, 0, 1, 0, 0, 0], if large then -12 else -10⟩
  | .HUMIDITY =>
    ⟨if large then 0x71b8ab943dbd5301#64 else 0x81bb4d22e8dc168e#64,
      if large then 0xbb63ddcf39ff7a2b#64 else 0xf1c8b4bea16303cd#64,
      [1, 1, 0, 0, 0, 0], if large then -10 else -8⟩
  | .CONTINENTALNESS =>
    ⟨if large then 0x9a3f51a113fce8dc#64 else 0x83886c9d0ae3a662#64,
      if large then 0xee2dbd157e5dcdad#64 else 0xafa638a61b42e8ad#64,
      [1, 1, 2, 2, 2, 1, 1, 1, 1], if large then -11 else -9⟩
  | .EROSION =>
    ⟨if large then 0x8c984b1f8702a951#64 else 0xd02491e6058f6fd8#64,
      if large then 0xead7b1f92bae535f#64 else 0x4792512c94c17a80#64,
      [1, 1, 0, 1, 1], if large then -11 else -9⟩
  | .WEIRDNESS => ⟨0xefc8ef4d36102b34#64, 0x1beeeb324a0f24ea#64, [1, 2, 1, 0, 0, 0], -7⟩

/-- The generators of all octaves that `setBiomeSeed` builds. -/
def climate_states (seed : BitVec 64) (large : Bool) : List Xoroshiro :=
  let xlo := (xNextLong (xSetSeed seed)).1
  let xhi := (xNextLong (xNextLong (xSetSeed seed)).2).1
  NP.all.flatMap fun np =>
    let p := climate_parameters large np
    let xr : Xoroshiro := ⟨xlo ^^^ p.lo, xhi ^^^ p.hi⟩
    half_states xr p.amplitudes p.omin ++ half_states (after_octaves xr) p.amplitudes p.omin

theorem init_climate_seed_eq (fuel : Nat) (old : UInt8) (xlo xhi : BitVec 64) (large : Bool)
    (nmax : Int) (np : NP) : init_climate_seed fuel old xlo xhi large nmax np =
      xDoublePerlinInit fuel old ⟨xlo ^^^ (climate_parameters large np).lo,
        xhi ^^^ (climate_parameters large np).hi⟩ (climate_parameters large np).amplitudes
        (climate_parameters large np).omin (climate_parameters large np).amplitudes.length nmax := by
  cases np <;> rfl

section Ends

variable {fuel : Nat} {old : UInt8}

/-- The rounds of a shuffle end where all loops do. -/
theorem exists_shuffle {is : List Nat} (his : ∀ i ∈ is, i < 256) {y : Xoroshiro}
    (h : (xShuffleDraws fuel is y).isSome = true) (d : Vector UInt8 257) :
    ∃ s, is.foldlM (xShuffleRound fuel) (d, y) = some s := by
  induction is generalizing d y with
  | nil => exact ⟨_, rfl⟩
  | cons i is ih =>
    obtain ⟨hi, his⟩ := List.forall_mem_cons.1 his
    obtain ⟨js, hjs⟩ := Option.isSome_iff_exists.1 h
    obtain ⟨⟨j, y'⟩, hj, hrest⟩ := Option.bind_eq_some_iff.1 hjs
    obtain ⟨js', hjs', -⟩ := Option.bind_eq_some_iff.1 hrest
    -- the draw is one of the other generator, which is known to be in range
    have hsame := nextInt_eq fuel (BitVec.ofNat 32 (256 - i)) ⟨y.lo, y.hi⟩
    obtain ⟨⟨j', rng⟩, hnext, he⟩ := Option.map_eq_some_iff.1 (hsame.symm.trans hj)
    obtain ⟨rfl, rfl⟩ := Prod.mk.inj he
    have hbound := bound_toNat i
    have hlt := XrsrRandom.nextInt_lt (by omega) hnext
    obtain ⟨q, hq, -⟩ := exchange_perm d (show i < 257 by omega) (show j'.toNat + i < 257 by omega)
    have hround : xShuffleRound fuel (d, y) i = some (q, xr rng) := by
      simp only [xShuffleRound, hj, hq, Option.bind_eq_bind, Option.bind_some]
    rw [List.foldlM_cons, hround]
    exact ih his (Option.isSome_iff_exists.2 ⟨js', hjs'⟩) q

theorem exists_perlin {y : Xoroshiro} (h : Ends fuel y) (old : UInt8) :
    ∃ c, xPerlinInit fuel old y = some c := by
  obtain ⟨s, hs⟩ := exists_shuffle (fun i => List.mem_range.1) h
    (Vector.ofFn fun i => if i.val < 256 then UInt8.ofNat i else old)
  simp only [xPerlinInit, hs, Option.bind_eq_bind, Option.bind_some]
  exact ⟨_, rfl⟩

variable (old) in
theorem exists_octaves {xlo xhi : BitVec 64} {amplitudes : List Rat} {omin : Int}
    (hmd5 : 12 + omin + amplitudes.length ≤ 13)
    (hends : ∀ xr ∈ octave_states xlo xhi amplitudes omin, Ends fuel xr) {n : Nat}
    (hn : n ≤ amplitudes.length) : ∃ octaves,
      (List.range n).foldlM (xOctaveRound fuel old xlo xhi amplitudes omin (-1)) [] =
        some octaves ∧ octaves.length = (amplitudes.take n).countP (· ≠ 0) := by
  induction n with
  | zero => exact ⟨[], rfl, rfl⟩
  | succ n ih =>
    obtain ⟨octaves, hoctaves, hlen⟩ := ih (by omega)
    have hget : amplitudes[n]? = some amplitudes[n] := List.getElem?_eq_getElem hn
    have htake : amplitudes.take (n + 1) = amplitudes.take n ++ [amplitudes[n]] := by
      rw [List.take_add_one, hget]
      rfl
    have hroom : ¬ (octaves.length : Int) = -1 := by omega
    rw [List.range_succ, List.foldlM_append, hoctaves, htake, List.countP_append, ← hlen]
    simp only [Option.bind_eq_bind, Option.bind_some, List.foldlM_cons, List.foldlM_nil,
      xOctaveRound, if_neg hroom, hget]
    by_cases hzero : amplitudes[n] = 0
    · refine ⟨octaves, ?_, ?_⟩
      · rw [if_pos hzero]
        rfl
      · rw [List.countP_singleton, if_neg (by simpa using hzero)]
        rfl
    · have hidx : (12 + omin + n).toNat < md5_octave_n.length := by
        change _ < 13
        omega
      have hmem : (⟨xlo ^^^ md5_octave_n[(12 + omin + n).toNat].1,
          xhi ^^^ md5_octave_n[(12 + omin + n).toNat].2⟩ : Xoroshiro) ∈
            octave_states xlo xhi amplitudes omin := by
        refine List.mem_filterMap.2 ⟨n, List.mem_range.2 hn, ?_⟩
        rw [hget, if_neg (by simpa using hzero), List.getElem?_eq_getElem hidx]
        rfl
      obtain ⟨c, hc⟩ := exists_perlin (hends _ hmem) old
      refine ⟨octaves ++ [c], ?_, ?_⟩
      · rw [if_neg hzero, List.getElem?_eq_getElem hidx, Option.bind_some, hc]
        rfl
      · rw [List.length_append, List.countP_singleton, if_pos (by simpa using hzero)]
        rfl

variable (old) in
theorem exists_xOctaveInit {y : Xoroshiro} {amplitudes : List Rat} {omin : Int}
    (hmd5 : 12 + omin + amplitudes.length ≤ 13)
    (hends : ∀ y' ∈ half_states y amplitudes omin, Ends fuel y') : ∃ octaves,
      xOctaveInit fuel old y amplitudes omin amplitudes.length (-1) =
        some (octaves, after_octaves y) ∧ octaves.length = amplitudes.countP (· ≠ 0) := by
  obtain ⟨octaves, hoctaves, hlen⟩ := exists_octaves old hmd5 hends le_rfl
  rw [List.take_length] at hlen
  refine ⟨octaves, ?_, hlen⟩
  simp only [xOctaveInit, hoctaves, Option.bind_eq_bind, Option.bind_some]
  rfl

theorem exists_climate (old : UInt8) {xlo xhi : BitVec 64} {large : Bool} {np : NP}
    (hends : ∀ y ∈ half_states ⟨xlo ^^^ (climate_parameters large np).lo,
        xhi ^^^ (climate_parameters large np).hi⟩ (climate_parameters large np).amplitudes
        (climate_parameters large np).omin ++
      half_states (after_octaves ⟨xlo ^^^ (climate_parameters large np).lo,
        xhi ^^^ (climate_parameters large np).hi⟩) (climate_parameters large np).amplitudes
        (climate_parameters large np).omin, Ends fuel y) :
    ∃ dpn, init_climate_seed fuel old xlo xhi large (-1) np = some dpn ∧
      dpn.octA.length + dpn.octB.length =
        2 * (climate_parameters large np).amplitudes.countP (· ≠ 0) := by
  have hmd5 : 12 + (climate_parameters large np).omin +
      (climate_parameters large np).amplitudes.length ≤ 13 := by
    cases large <;> cases np <;> decide
  rw [init_climate_seed_eq]
  generalize climate_parameters large np = p at hends hmd5 ⊢
  obtain ⟨octA, hA, hlenA⟩ := exists_xOctaveInit old hmd5
    fun y h => hends y (List.mem_append_left _ h)
  obtain ⟨octB, hB, hlenB⟩ := exists_xOctaveInit old hmd5
    fun y h => hends y (List.mem_append_right _ h)
  refine ⟨⟨octA, octB⟩, ?_, by rw [hlenA, hlenB, Nat.two_mul]⟩
  simp only [xDoublePerlinInit, show ¬ (-1 : Int) > 0 by decide, if_false, hA, hB,
    Option.bind_eq_bind, Option.bind_some]

theorem exists_mapM {f : α → Option β} {l : List α} (size : β → Nat) (w : α → Nat)
    (h : ∀ x ∈ l, ∃ y, f x = some y ∧ size y = w x) :
    ∃ r, l.mapM f = some r ∧ r.map size = l.map w := by
  induction l with
  | nil => exact ⟨[], rfl, rfl⟩
  | cons a l ih =>
    obtain ⟨⟨b, hb, hsize⟩, hl⟩ := List.forall_mem_cons.1 h
    obtain ⟨bs, hbs, hsizes⟩ := ih hl
    refine ⟨b :: bs, ?_, by rw [List.map_cons, List.map_cons, hsize, hsizes]⟩
    rw [List.mapM_cons, hb, Option.bind_eq_bind, Option.bind_some, hbs]
    rfl

/-- Where all rejection loops end the climates are built, and they fill the octave buffer. -/
theorem exists_setBiomeSeed {seed : BitVec 64} {large : Bool}
    (hends : ∀ xr ∈ climate_states seed large, Ends fuel xr) (old : UInt8) :
    ∃ climate, setBiomeSeed fuel old seed large = some climate := by
  obtain ⟨climate, hclimate, hsizes⟩ := exists_mapM (l := NP.all)
    (fun dpn : DoublePerlinNoise => dpn.octA.length + dpn.octB.length)
    (fun np => 2 * (climate_parameters large np).amplitudes.countP (· ≠ 0))
    fun np hnp => exists_climate old fun xr h =>
      hends xr (List.mem_flatMap.2 ⟨np, hnp, h⟩)
  have htotal : (NP.all.map fun np =>
      2 * (climate_parameters large np).amplitudes.countP (· ≠ 0)).sum = 46 := by
    cases large <;> decide +kernel
  refine ⟨climate, ?_⟩
  simp only [setBiomeSeed, hclimate, Option.bind_eq_bind, Option.bind_some, hsizes, htotal]
  rfl

end Ends

def half_octaves (dpn : DoublePerlinNoise) : Half → List PerlinNoise
  | .A => dpn.octA
  | .B => dpn.octB

def NP_CONTINENTALNESS : Nat := NP.all.idxOf .CONTINENTALNESS

def omin (large : Bool) : Int := if large then -11 else -9

theorem mapM_getElem? {f : α → Option β} {l : List α} {r : List β} {k : Nat} (h : l.mapM f = some r)
    (hk : l[k]? = some x) : ∃ y, r[k]? = some y ∧ f x = some y := by
  induction l generalizing k r with
  | nil => cases hk
  | cons a l ih =>
    rw [List.mapM_cons] at h
    obtain ⟨b, hb, h⟩ := Option.bind_eq_some_iff.1 h
    obtain ⟨bs, hbs, h⟩ := Option.bind_eq_some_iff.1 h
    cases h
    cases k with
    | zero =>
      cases hk
      exact ⟨b, rfl, hb⟩
    | succ k =>
      obtain ⟨y, hy, hx⟩ := ih hbs hk
      exact ⟨y, hy, hx⟩

theorem setBiomeSeed_continentalness (h : setBiomeSeed fuel old seed large = some climate) :
    ∃ dpn, climate[NP_CONTINENTALNESS]? = some dpn ∧
      init_climate_seed fuel old (xNextLong (xSetSeed seed)).1
        (xNextLong (xNextLong (xSetSeed seed)).2).1 large (-1) .CONTINENTALNESS = some dpn := by
  obtain ⟨cs, hcs, h⟩ := Option.bind_eq_some_iff.1 h
  split at h
  · cases h
  · cases h
    exact mapM_getElem? hcs rfl

theorem octave_hash (large : Bool) (half : Half) {k : Nat} (hk : k < 9) :
    ∃ octave : OctaveConfig,
      (half.octaves (chosen_continentalness_config large))[k]? = some octave ∧
      md5_octave_n[(12 + omin large + k).toNat]? =
        some (octave.fork_hash.lo, octave.fork_hash.hi) := by
  have hall : ∀ k : Fin 9, ((half.octaves (chosen_continentalness_config large))[k.val]?.map
      fun octave => (octave.fork_hash.lo, octave.fork_hash.hi)) =
        md5_octave_n[(12 + omin large + (k.val : Int)).toNat]? := by
    cases large <;> cases half <;> decide
  have hlen : k < (half.octaves (chosen_continentalness_config large)).length := by
    cases large <;> cases half <;> exact hk
  refine ⟨_, List.getElem?_eq_getElem hlen, ?_⟩
  rw [← hall ⟨k, hk⟩, List.getElem?_eq_getElem hlen]
  rfl

theorem amplitude_ne_zero {k : Nat} (hk : k < 9) :
    ∃ a, ([1, 1, 2, 2, 2, 1, 1, 1, 1] : List Rat)[k]? = some a ∧ a ≠ 0 := by
  have hall : ∀ a ∈ ([1, 1, 2, 2, 2, 1, 1, 1, 1] : List Rat), a ≠ 0 := by decide
  exact ⟨_, List.getElem?_eq_getElem hk, hall _ (List.getElem_mem hk)⟩

theorem fork_hash_eq (large : Bool) : (chosen_continentalness_config large).fork_hash =
    ⟨if large then 0x9a3f51a113fce8dc#64 else 0x83886c9d0ae3a662#64,
      if large then 0xee2dbd157e5dcdad#64 else 0xafa638a61b42e8ad#64⟩ := by
  cases large <;> rfl

theorem climate_octaves (hmeet : ¬ Meets (XrsrRandom_seed_fork seed)
      (chosen_continentalness_config large).fork_hash)
    (h : setBiomeSeed fuel old seed large = some climate) :
    ∃ dpn, climate[NP_CONTINENTALNESS]? = some dpn ∧ ∀ half, ∀ k < 9,
      OctaveAt fuel old (noise_fork large seed half).lo (noise_fork large seed half).hi
        (omin large) (half_octaves dpn half) k := by
  obtain ⟨dpn, hdpn, hinit⟩ := setBiomeSeed_continentalness h
  refine ⟨dpn, hdpn, ?_⟩
  have hrng : (⟨(xNextLong (xSetSeed seed)).1 ^^^
        (if large then 0x9a3f51a113fce8dc#64 else 0x83886c9d0ae3a662#64),
      (xNextLong (xNextLong (xSetSeed seed)).2).1 ^^^
        (if large then 0xee2dbd157e5dcdad#64 else 0xafa638a61b42e8ad#64)⟩ : Xoroshiro) =
      xr (noise_random large seed) := by
    rw [noise_random, from_eq hmeet]
    simp only [seed_fork_eq, fork_hash_eq]
  rw [init_climate_seed, hrng] at hinit
  obtain ⟨⟨octA, yA⟩, hA, hinit⟩ := Option.bind_eq_some_iff.1 hinit
  obtain ⟨⟨octB, yB⟩, hB, hinit⟩ := Option.bind_eq_some_iff.1 hinit
  cases hinit
  obtain ⟨rfl, hallA⟩ := xOctaveInit_spec (fun k hk => amplitude_ne_zero hk) hA
  obtain ⟨-, hallB⟩ := xOctaveInit_spec (fun k hk => amplitude_ne_zero hk) hB
  intro half k hk
  have hA := hallA k hk
  have hB := hallB k hk
  rw [noise_fork, double_fork_eq]
  generalize noise_random large seed = rng at hA hB ⊢
  cases half with
  | A => exact hA
  | B => exact hB

theorem reject_unique {bound j : BitVec 32} {fuel fuel' : Nat} {s a b : BitVec 64 × XrsrRandom}
    (ha : XrsrRandom.reject bound j fuel s = some a)
    (hb : XrsrRandom.reject bound j fuel' s = some b) : a = b := by
  induction fuel generalizing fuel' s with
  | zero => cases ha
  | succ fuel ih =>
    cases fuel' with
    | zero => cases hb
    | succ fuel' =>
      rw [XrsrRandom.reject] at ha hb
      split at ha
      · next hlt =>
        rw [if_pos hlt] at hb
        exact ih ha hb
      · next hge =>
        rw [if_neg hge] at hb
        exact Option.some.inj (ha.symm.trans hb)

theorem nextInt_unique {bound : BitVec 32} {rng : XrsrRandom} {a b : BitVec 32 × XrsrRandom}
    (ha : rng.nextInt fuel bound = some a) (hb : rng.nextInt fuel' bound = some b) : a = b := by
  simp only [XrsrRandom.nextInt, Option.bind_eq_bind] at ha hb
  split at ha
  · next hlt =>
    rw [if_pos hlt] at hb
    obtain ⟨s, hs, ha⟩ := Option.bind_eq_some_iff.1 ha
    obtain ⟨t, ht, hb⟩ := Option.bind_eq_some_iff.1 hb
    cases reject_unique hs ht
    exact Option.some.inj (ha.symm.trans hb)
  · next hge =>
    rw [if_neg hge] at hb
    exact Option.some.inj (ha.symm.trans hb)

theorem shuffle_round_unique {i : Nat} {s a b : Vector UInt8 256 × XrsrRandom}
    (ha : shuffle_round fuel s i = some a) (hb : shuffle_round fuel' s i = some b) : a = b := by
  obtain ⟨x, hx, ha⟩ := Option.bind_eq_some_iff.1 ha
  obtain ⟨y, hy, hb⟩ := Option.bind_eq_some_iff.1 hb
  cases nextInt_unique hx hy
  exact Option.some.inj (ha.symm.trans hb)

/-- The bound on the rejection loops decides whether there is a table, not which. -/
theorem init_noise_unique {rng : XrsrRandom} (ha : init_noise fuel rng = some a)
    (hb : init_noise fuel' rng = some b) : a = b := by
  obtain ⟨s, hs, ha⟩ := Option.bind_eq_some_iff.1 ha
  obtain ⟨t, ht, hb⟩ := Option.bind_eq_some_iff.1 hb
  cases foldlM_unique (fun _ _ _ _ => shuffle_round_unique) hs ht
  exact Option.some.inj (ha.symm.trans hb)

/-- Both programs build the same continentalness noise, whenever their loops end. -/
theorem continentalness_agree (large : Bool) (seed : BitVec 64) (half : Half) (k : Nat)
    (hk : k < 9) (hmeet : ¬ Meets (XrsrRandom_seed_fork seed)
      (chosen_continentalness_config large).fork_hash)
    (hoctave : ∀ octave ∈ half.octaves (chosen_continentalness_config large),
      ¬ Meets (noise_fork large seed half) octave.fork_hash) :
    (∀ fuel old, (∀ y ∈ climate_states seed large, Ends fuel y) →
      ∃ climate dpn c g, setBiomeSeed fuel old seed large = some climate ∧
        climate[NP_CONTINENTALNESS]? = some dpn ∧ (half_octaves dpn half)[k]? = some c ∧
        octave_noise fuel large seed half k = some g ∧ SameNoise g c) ∧
    (∀ fuel old climate, setBiomeSeed fuel old seed large = some climate →
      ∃ g, octave_noise fuel large seed half k = some g) ∧
    ∀ fuel fuel' old climate g, setBiomeSeed fuel old seed large = some climate →
      octave_noise fuel' large seed half k = some g →
        ∃ dpn c, climate[NP_CONTINENTALNESS]? = some dpn ∧
          (half_octaves dpn half)[k]? = some c ∧ SameNoise g c := by
  obtain ⟨octave, hget, hmd5⟩ := octave_hash large half hk
  have hne := hoctave octave (List.mem_of_getElem? hget)
  have hbuild : ∀ fuel, octave_noise fuel large seed half k =
      init_noise fuel ((noise_fork large seed half).from octave.fork_hash) := by
    intro fuel
    rw [octave_noise, hget]
    rfl
  have hsame : ∀ fuel old climate, setBiomeSeed fuel old seed large = some climate →
      ∃ dpn c g, climate[NP_CONTINENTALNESS]? = some dpn ∧
        (half_octaves dpn half)[k]? = some c ∧
        octave_noise fuel large seed half k = some g ∧ SameNoise g c := by
    intro fuel old climate h
    obtain ⟨dpn, hdpn, hall⟩ := climate_octaves hmeet h
    obtain ⟨c, md5, hc, hmd5', hinit⟩ := hall half k hk
    cases hmd5.symm.trans hmd5'
    have hrel := init_noise_rel fuel old ((noise_fork large seed half).from octave.fork_hash)
    rw [from_eq hne, hinit] at hrel
    cases hg : init_noise fuel ((noise_fork large seed half).from octave.fork_hash) with
    | none =>
      rw [hg] at hrel
      cases hrel
    | some g =>
      rw [hg] at hrel
      cases hrel with
      | some hgc => exact ⟨dpn, c, g, hdpn, hc, (hbuild fuel).trans hg, hgc⟩
  refine ⟨?_, ?_, ?_⟩
  · intro fuel old hends
    obtain ⟨climate, hclimate⟩ := exists_setBiomeSeed hends old
    obtain ⟨dpn, c, g, h⟩ := hsame fuel old climate hclimate
    exact ⟨climate, dpn, c, g, hclimate, h⟩
  · intro fuel old climate h
    obtain ⟨-, -, g, -, -, hg, -⟩ := hsame fuel old climate h
    exact ⟨g, hg⟩
  · intro fuel fuel' old climate g h hg
    obtain ⟨dpn, c, g', hdpn, hc, hg', hgc⟩ := hsame fuel old climate h
    rw [hbuild] at hg hg'
    cases init_noise_unique hg hg'
    exact ⟨dpn, c, hdpn, hc, hgc⟩

/-- For seed 0 the loops end: the climates are there, and octave 3 of the second half agrees. -/
theorem continentalness_agree_seed_zero :
    ∃ climate dpn c g, setBiomeSeed 5 0 0 false = some climate ∧
      climate[NP_CONTINENTALNESS]? = some dpn ∧ dpn.octB[3]? = some c ∧
      octave_noise 5 false 0 .B 3 = some g ∧ SameNoise g c := by
  have hends : ∀ y ∈ climate_states 0 false, Ends 5 y := by
    refine List.forall_mem_flatMap.2 fun np _ => ?_
    cases np <;> decide +kernel
  exact (continentalness_agree false 0 .B 3 (by decide) (by decide +kernel)
    (by decide +kernel)).1 5 0 hends

end Omission.NoiseAgree
