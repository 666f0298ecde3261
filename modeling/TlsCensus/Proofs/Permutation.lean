import TlsCensus.Proofs.Network
import Mathlib.Logic.Function.Iterate

/-! A capped walk lands on the first value below the range. Walked backwards by the inverse
network it meets the same padding in reverse, so it takes as many steps and the same cap
lets both through: what shuffling gives, and only that, is given back. -/
namespace TlsCensus.Permutation
open Network (RoundFunction)

structure Lands (range : UInt64) (step : UInt64 → UInt64) (k : Nat) (start v : UInt64) : Prop where
  padding : ∀ j < k, range ≤ step^[j + 1] start
  arrives : step^[k + 1] start = v
  inside : v < range

theorem landSome {range : UInt64} {step : UInt64 → UInt64} {more : Nat} {v w : UInt64} :
    land range step more v = some w ↔
      ∃ k ≤ more, (∀ j < k, range ≤ step^[j] v) ∧ step^[k] v = w ∧ w < range := by
  induction more generalizing v with
  | zero =>
    constructor
    · intro found
      simp only [land, Option.ite_none_right_eq_some, Option.some.injEq] at found
      obtain ⟨inside, rfl⟩ := found
      exact ⟨0, Nat.le_refl _, by simp, rfl, inside⟩
    · rintro ⟨k, few, -, arrives, inside⟩
      obtain rfl : k = 0 := by omega
      cases arrives
      exact if_pos inside
  | succ more ih =>
    by_cases here : v < range
    · rw [land, if_pos here]
      constructor
      · intro found
        cases Option.some.inj found
        exact ⟨0, by omega, by simp, rfl, here⟩
      · rintro ⟨k, -, padding, arrives, -⟩
        cases k with
        | zero => rw [← arrives]; rfl
        | succ k => exact absurd here (UInt64.not_lt.mpr (padding 0 (by omega)))
    · rw [land, if_neg here, ih]
      constructor
      · rintro ⟨k, few, padding, arrives, inside⟩
        refine ⟨k + 1, by omega, ?_, arrives, inside⟩
        intro j below
        cases j with
        | zero => exact UInt64.not_lt.mp here
        | succ j => exact padding j (by omega)
      · rintro ⟨k, few, padding, arrives, inside⟩
        cases k with
        | zero =>
          have same : v = w := arrives
          exact absurd (same ▸ inside) here
        | succ k => exact ⟨k, by omega, fun j below => padding (j + 1) (by omega), arrives, inside⟩

theorem landNone {range : UInt64} {step : UInt64 → UInt64} {more : Nat} {v : UInt64} :
    land range step more v = none ↔ ∀ j ≤ more, range ≤ step^[j] v := by
  induction more generalizing v with
  | zero => simp [land]
  | succ more ih =>
    by_cases here : v < range
    · rw [land, if_pos here]
      constructor
      · intro found
        cases found
      · exact fun padding => absurd here (UInt64.not_lt.mpr (padding 0 (Nat.zero_le _)))
    · rw [land, if_neg here, ih]
      constructor
      · intro padding j few
        cases j with
        | zero => exact UInt64.not_lt.mp here
        | succ j => exact padding j (by omega)
      · exact fun padding j few => padding (j + 1) (by omega)

theorem walkSome {p : Permutation} {step : UInt64 → UInt64} {start v : UInt64} (inside : ¬ p.range ≤ start)
    (landed : land p.range step p.cap.toNat (step start) = some v) : p.walk step start = .ok v := by
  rw [walk, if_neg inside, landed]

theorem walkNone {p : Permutation} {step : UInt64 → UInt64} {start : UInt64} (inside : ¬ p.range ≤ start)
    (stuck : land p.range step p.cap.toNat (step start) = none) :
    p.walk step start = .error (.walkTooLong start p.cap) := by
  rw [walk, if_neg inside, stuck]

theorem walkOk {p : Permutation} {step : UInt64 → UInt64} {start v : UInt64} :
    p.walk step start = .ok v ↔ start < p.range ∧ ∃ k ≤ p.cap.toNat, Lands p.range step k start v := by
  by_cases outside : p.range ≤ start
  · rw [walk, if_pos outside]
    exact ⟨nofun, fun h => absurd h.1 (UInt64.not_lt.mpr outside)⟩
  · have landed : land p.range step p.cap.toNat (step start) = some v ↔
        ∃ k ≤ p.cap.toNat, Lands p.range step k start v := by
      rw [landSome]
      constructor
      · rintro ⟨k, few, padding, arrives, inside⟩
        exact ⟨k, few, padding, arrives, inside⟩
      · rintro ⟨k, few, lands⟩
        exact ⟨k, few, lands.padding, lands.arrives, lands.inside⟩
    rw [walk, if_neg outside, ← landed]
    cases land p.range step p.cap.toNat (step start) <;> simp [UInt64.not_le.mp outside]

section Reverse
variable {bound : Nat} {f g : UInt64 → UInt64}
  (closed : ∀ x : UInt64, x.toNat < bound → (f x).toNat < bound)
  (inverse : ∀ x : UInt64, x.toNat < bound → g (f x) = x)
include closed

theorem iterateInside {x : UInt64} (inside : x.toNat < bound) (n : Nat) : (f^[n] x).toNat < bound := by
  induction n with
  | zero => exact inside
  | succ n ih =>
    rw [Function.iterate_succ_apply']
    exact closed _ ih

include inverse

theorem iterateBack {x : UInt64} (inside : x.toNat < bound) (n m : Nat) :
    g^[n] (f^[m + n] x) = f^[m] x := by
  induction n with
  | zero => rfl
  | succ n ih =>
    rw [Function.iterate_succ_apply, ← Nat.add_assoc, Function.iterate_succ_apply',
      inverse _ (iterateInside closed inside _), ih]

/- Value `j` of the way back is value `k - j` of the way there. -/
theorem landsReverse {range : UInt64} (covered : range.toNat ≤ bound) {k : Nat} {start v : UInt64}
    (inside : start < range) (lands : Lands range f k start v) : Lands range g k v start := by
  have domain : start.toNat < bound := Nat.lt_of_lt_of_le (UInt64.lt_iff_toNat_lt.mp inside) covered
  refine ⟨?_, ?_, inside⟩
  · intro j below
    have back := iterateBack closed inverse domain (j + 1) (k - 1 - j + 1)
    rw [show k - 1 - j + 1 + (j + 1) = k + 1 by omega, lands.arrives] at back
    rw [back]
    exact lands.padding (k - 1 - j) (by omega)
  · have back := iterateBack closed inverse domain (k + 1) 0
    rwa [Nat.zero_add, lands.arrives] at back

end Reverse

structure Covered (p : Permutation) : Prop where
  narrow : p.network.Narrow
  range : p.range.toNat ≤ 2 ^ p.network.width

theorem newOk {range : UInt64} (seed : UInt64) (rounds : UInt32) (positive : range ≠ 0) :
    new range seed rounds = .ok ⟨range, seed, .covering range rounds, defaultCap⟩ := if_neg positive

theorem coveringCovered (range seed : UInt64) (rounds cap : UInt32) :
    Covered ⟨range, seed, .covering range rounds, cap⟩ :=
  ⟨Network.coveringNarrow range rounds, by
    rw [Network.coveringWidth]
    exact Network.bitsForCovers range⟩

section Engine
variable {p : Permutation} (covered : p.Covered) (F : RoundFunction)
include covered

theorem landsEncryptIff {k : Nat} {i v : UInt64} (start : i < p.range) (stop : v < p.range) :
    Lands p.range (p.network.encrypt F) k i v ↔ Lands p.range (p.network.decrypt F) k v i :=
  ⟨landsReverse (fun _ => Network.encryptInside covered.narrow F)
      (fun _ => Network.decryptEncrypt covered.narrow F) covered.range start,
    landsReverse (fun _ => Network.decryptInside covered.narrow F)
      (fun _ => Network.encryptDecrypt covered.narrow F) covered.range stop⟩

theorem shuffleLands {i v : UInt64} (shuffled : p.shuffleBy F i = .ok v) :
    i < p.range ∧ v < p.range ∧ (∃ k ≤ p.cap.toNat, Lands p.range (p.network.encrypt F) k i v) ∧
      ∀ k, Lands p.range (p.network.encrypt F) k i v ↔ Lands p.range (p.network.decrypt F) k v i := by
  obtain ⟨start, k, few, lands⟩ := walkOk.mp shuffled
  exact ⟨start, lands.inside, ⟨k, few, lands⟩, fun _ => landsEncryptIff covered F start lands.inside⟩

theorem shuffleWhole (whole : p.range.toNat = 2 ^ p.network.width) {i : UInt64} (inside : i < p.range) :
    ∃ v, p.shuffleBy F i = .ok v := by
  have start : i.toNat < 2 ^ p.network.width := whole ▸ UInt64.lt_iff_toNat_lt.mp inside
  have below : p.network.encrypt F i < p.range := by
    rw [UInt64.lt_iff_toNat_lt, whole]
    exact Network.encryptInside covered.narrow F start
  exact ⟨_, walkOk.mpr ⟨inside, 0, Nat.zero_le _, fun j none => absurd none (Nat.not_lt_zero j), rfl, below⟩⟩

theorem shuffleInverse {i v : UInt64} : p.shuffleBy F i = .ok v ↔ p.unshuffleBy F v = .ok i := by
  constructor
  · intro shuffled
    obtain ⟨-, stop, ⟨k, few, lands⟩, reversed⟩ := shuffleLands covered F shuffled
    exact walkOk.mpr ⟨stop, k, few, (reversed k).mp lands⟩
  · intro unshuffled
    obtain ⟨stop, k, few, lands⟩ := walkOk.mp unshuffled
    exact walkOk.mpr ⟨lands.inside, k, few, (landsEncryptIff covered F lands.inside stop).mpr lands⟩

theorem shuffleInjective {i j v : UInt64} (left : p.shuffleBy F i = .ok v) (right : p.shuffleBy F j = .ok v) :
    i = j := by
  rw [shuffleInverse covered] at left right
  exact Except.ok.inj (left.symm.trans right)

end Engine

theorem shuffleIffUnshuffle (F : RoundFunction) (range seed : UInt64) (rounds cap : UInt32)
    (positive : 1 ≤ range) :
    ∃ p, new range seed rounds = .ok p ∧
      (∀ i v, (p.withCap cap).shuffleBy F i = .ok v ↔ (p.withCap cap).unshuffleBy F v = .ok i) ∧
      (∀ i v, (p.withCap cap).shuffleBy F i = .ok v → i < range ∧ v < range ∧
        (∃ k ≤ cap.toNat, Lands range (p.network.encrypt F) k i v) ∧
        ∀ k, Lands range (p.network.encrypt F) k i v ↔ Lands range (p.network.decrypt F) k v i) ∧
      ∀ i j v, (p.withCap cap).shuffleBy F i = .ok v → (p.withCap cap).shuffleBy F j = .ok v → i = j := by
  have nonzero : range ≠ 0 := by
    rintro rfl
    exact absurd positive (by decide)
  have covered := coveringCovered range seed rounds cap
  refine ⟨_, newOk seed rounds nonzero, ?_, ?_, ?_⟩
  · intro i v
    exact shuffleInverse covered F
  · intro i v shuffled
    exact shuffleLands covered F shuffled
  · intro i j v left right
    exact shuffleInjective covered F left right

theorem unshuffleThroughPadding : (1 : UInt64) ≤ 5 ∧ ∃ p, new 5 9 4 = .ok p ∧
    (p.withCap 1).shuffleBy (fun k half => half * 3 + k.toUInt64) 4 = .error (.walkTooLong 4 1) ∧
    (p.withCap 2).shuffleBy (fun k half => half * 3 + k.toUInt64) 4 = .ok 0 ∧
    (p.withCap 2).unshuffleBy (fun k half => half * 3 + k.toUInt64) 0 = .ok 4 := by
  obtain ⟨p, made, inverse, -⟩ :=
    shuffleIffUnshuffle (fun k half => half * 3 + k.toUInt64) 5 9 4 2 (by decide)
  cases made
  have shuffled : Permutation.shuffleBy (fun k half => half * 3 + k.toUInt64)
      (Permutation.withCap ⟨5, 9, .covering 5 4, defaultCap⟩ 2) 4 = .ok 0 := by rfl
  exact ⟨by decide, _, rfl, by rfl, shuffled, (inverse 4 0).mp shuffled⟩

end TlsCensus.Permutation
