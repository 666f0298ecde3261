import TlsCensus.Proofs.Permutation
import Mathlib.Data.Finset.Card
import Mathlib.Data.Set.Function
import Mathlib.Order.Bounds.Basic
import Mathlib.Order.Interval.Finset.Nat

/-! How far a walk goes through the padding. A permutation brings no padding value back before
the walk has landed, so a cap of as many steps as there are padding values lets every walk
through, and the capped map is a bijection again. Where the cap does end a walk all it has
seen is padding, and a larger cap leaves a walk that has landed as it is. -/
namespace TlsCensus

theorem Network.bitsForLeast (range : UInt64) : IsLeast {n | range.toNat ≤ 2 ^ n} (bitsFor range) := by
  refine ⟨bitsForCovers range, fun n covers => ?_⟩
  have covers : range.toNat ≤ 2 ^ n := covers
  unfold bitsFor
  split
  · exact Nat.zero_le _
  · rename_i large
    obtain ⟨several, last⟩ := lastBelow large
    exact (Nat.log2_lt (by omega)).mpr (by omega)

namespace Permutation
open Network (RoundFunction)

section Padding
variable {bound : Nat} {f g : UInt64 → UInt64}
  (closed : ∀ x : UInt64, x.toNat < bound → (f x).toNat < bound)
  (inverse : ∀ x : UInt64, x.toNat < bound → g (f x) = x)
  {range start : UInt64} (domain : start.toNat < bound) (inside : start < range)
  {last : Nat} (padding : ∀ j ≤ last, range ≤ f^[j + 1] start)
include closed inverse domain inside padding

/- A padding value that came back would have come from the start, which is none. -/
theorem paddingOnce {a b : Nat} (sooner : a < b) (within : b ≤ last) : f^[a + 1] start ≠ f^[b + 1] start := by
  intro again
  have first := iterateBack closed inverse domain (a + 1) 0
  have second := iterateBack closed inverse domain (a + 1) (b - a - 1 + 1)
  rw [show b - a - 1 + 1 + (a + 1) = b + 1 by omega, ← again] at second
  rw [Nat.zero_add, second] at first
  have other := padding (b - a - 1) (by omega)
  rw [first] at other
  exact UInt64.not_lt.mpr other inside

theorem paddingFew : last < bound - range.toNat := by
  have each : Set.MapsTo (fun j => (f^[j + 1] start).toNat) (Finset.range (last + 1))
      (Finset.Ico range.toNat bound) := by
    intro j mem
    have within := Finset.mem_range.mp mem
    exact Finset.mem_Ico.mpr ⟨UInt64.le_iff_toNat_le.mp (padding j (by omega)), iterateInside closed domain _⟩
  have apart : Set.InjOn (fun j => (f^[j + 1] start).toNat) (Finset.range (last + 1)) := by
    intro a memA b memB same
    have withinA := Finset.mem_range.mp memA
    have withinB := Finset.mem_range.mp memB
    have same := UInt64.toNat_inj.mp same
    rcases Nat.lt_trichotomy a b with sooner | rfl | later
    · exact absurd same (paddingOnce closed inverse domain inside padding sooner (by omega))
    · rfl
    · exact absurd same.symm (paddingOnce closed inverse domain inside padding later (by omega))
  have few := Finset.card_le_card_of_injOn _ each apart
  rw [Finset.card_range, Nat.card_Ico] at few
  exact few

end Padding

section Walk
variable {p : Permutation} {step : UInt64 → UInt64} {start v : UInt64}

theorem walkFails (inside : start < p.range) (e : Error) : p.walk step start = .error e ↔
    e = .walkTooLong start p.cap ∧ ∀ j ≤ p.cap.toNat, p.range ≤ step^[j + 1] start := by
  have within := UInt64.not_le.mpr inside
  have stuck : land p.range step p.cap.toNat (step start) = none ↔
      ∀ j ≤ p.cap.toNat, p.range ≤ step^[j + 1] start := landNone
  rw [← stuck]
  cases landed : land p.range step p.cap.toNat (step start) with
  | none => simp [walkNone within landed, eq_comm]
  | some v => simp [walkSome within landed]

theorem walkRaised {cap : UInt32} (more : p.cap ≤ cap) (walked : p.walk step start = .ok v) :
    (p.withCap cap).walk step start = .ok v := by
  obtain ⟨inside, k, few, lands⟩ := walkOk.mp walked
  exact walkOk.mpr ⟨inside, k, Nat.le_trans few (UInt32.le_iff_toNat_le.mp more), lands⟩

theorem walkRoomy {bound : Nat} {back : UInt64 → UInt64}
    (closed : ∀ x : UInt64, x.toNat < bound → (step x).toNat < bound)
    (inverse : ∀ x : UInt64, x.toNat < bound → back (step x) = x) (covered : p.range.toNat ≤ bound)
    (roomy : bound - p.range.toNat ≤ p.cap.toNat) (inside : start < p.range) : ∃ v, p.walk step start = .ok v := by
  have domain : start.toNat < bound := Nat.lt_of_lt_of_le (UInt64.lt_iff_toNat_lt.mp inside) covered
  cases walked : p.walk step start with
  | ok v => exact ⟨v, rfl⟩
  | error e =>
    have padding := ((walkFails inside e).mp walked).2
    exact absurd (paddingFew closed inverse domain inside padding) (Nat.not_lt.mpr roomy)

end Walk

def Bijective (F : RoundFunction) (p : Permutation) : Prop :=
  ∃ forth back : UInt64 → UInt64,
    (∀ i < p.range, p.shuffleBy F i = .ok (forth i) ∧ p.unshuffleBy F i = .ok (back i)) ∧
    Set.BijOn forth {i | i < p.range} {v | v < p.range}

section Engine
variable {p : Permutation} (covered : p.Covered) (F : RoundFunction)
  (roomy : 2 ^ p.network.width - p.range.toNat ≤ p.cap.toNat)
include covered roomy

theorem shuffleRoomy {i : UInt64} (inside : i < p.range) : ∃ v, p.shuffleBy F i = .ok v :=
  walkRoomy (fun _ => Network.encryptInside covered.narrow F) (fun _ => Network.decryptEncrypt covered.narrow F)
    covered.range roomy inside

theorem unshuffleRoomy {v : UInt64} (inside : v < p.range) : ∃ i, p.unshuffleBy F v = .ok i :=
  walkRoomy (fun _ => Network.decryptInside covered.narrow F) (fun _ => Network.encryptDecrypt covered.narrow F)
    covered.range roomy inside

theorem roomyBijective : p.Bijective F := by
  let forth (i : UInt64) : UInt64 := (p.shuffleBy F i).toOption.getD 0
  let back (v : UInt64) : UInt64 := (p.unshuffleBy F v).toOption.getD 0
  have lands {i : UInt64} (inside : i < p.range) : p.shuffleBy F i = .ok (forth i) := by
    obtain ⟨v, shuffled⟩ := shuffleRoomy covered F roomy inside
    simp [forth, shuffled, Except.toOption]
  have returns {v : UInt64} (inside : v < p.range) : p.unshuffleBy F v = .ok (back v) := by
    obtain ⟨i, unshuffled⟩ := unshuffleRoomy covered F roomy inside
    simp [back, unshuffled, Except.toOption]
  refine ⟨forth, back, fun i inside => ⟨lands inside, returns inside⟩, ?_, ?_, ?_⟩
  · intro i inside
    exact (shuffleLands covered F (lands inside)).2.1
  · intro i here j there same
    have right := lands there
    rw [← same] at right
    exact shuffleInjective covered F (lands here) right
  · intro v inside
    have shuffled := (shuffleInverse covered F).mpr (returns inside)
    have start := (shuffleLands covered F shuffled).1
    exact ⟨back v, start, Except.ok.inj ((lands start).symm.trans shuffled)⟩

end Engine

theorem paddingBoundsWalks (F : RoundFunction) (range seed : UInt64) (rounds : UInt32) {bits : Nat}
    (least : IsLeast {n | range.toNat ≤ 2 ^ n} bits) :
    (range = 0 ∧ new range seed rounds = .error .emptyRange) ∨
    ∃ p, new range seed rounds = .ok p ∧ p.range = range ∧
      (∀ cap : UInt32, 2 ^ bits - range.toNat ≤ cap.toNat → (p.withCap cap).Bijective F) ∧
      (∀ n, range.toNat = 2 ^ n → (p.withCap 0).Bijective F) ∧
      (∀ (cap : UInt32) (i : UInt64), i < range → ∀ e, (p.withCap cap).shuffleBy F i = .error e ↔
        e = .walkTooLong i cap ∧ ∀ j ≤ cap.toNat, range ≤ (p.network.encrypt F)^[j + 1] i) ∧
      ∀ cap cap' : UInt32, cap ≤ cap' → ∀ i v,
        ((p.withCap cap).shuffleBy F i = .ok v → (p.withCap cap').shuffleBy F i = .ok v) ∧
        ((p.withCap cap).unshuffleBy F i = .ok v → (p.withCap cap').unshuffleBy F i = .ok v) := by
  by_cases empty : range = 0
  · exact .inl ⟨empty, if_pos empty⟩
  obtain rfl : bits = Network.bitsFor range := least.unique (Network.bitsForLeast range)
  have roomy (cap : UInt32) (few : 2 ^ Network.bitsFor range - range.toNat ≤ cap.toNat) :
      Bijective F ⟨range, seed, .covering range rounds, cap⟩ := by
    refine roomyBijective (coveringCovered range seed rounds cap) F ?_
    rwa [Network.coveringWidth]
  refine .inr ⟨_, newOk seed rounds empty, rfl, roomy, ?_, ?_, ?_⟩
  · intro n power
    have filled := least.2 power.le
    have domain : 2 ^ Network.bitsFor range ≤ 2 ^ n := Nat.pow_le_pow_right Nat.two_pos filled
    exact roomy 0 (by rw [power]; omega)
  · intro cap i inside e
    exact walkFails inside e
  · intro cap cap' more i v
    exact ⟨walkRaised (p := ⟨range, seed, .covering range rounds, cap⟩) more,
      walkRaised (p := ⟨range, seed, .covering range rounds, cap⟩) more⟩

theorem threeStepsPassThePadding :
    let F : RoundFunction := fun k half => half * 3 + k.toUInt64
    IsLeast {n | (5 : UInt64).toNat ≤ 2 ^ n} 3 ∧ ∃ p, new 5 9 4 = .ok p ∧
      (p.withCap 3).Bijective F ∧ (p.withCap 1).shuffleBy F 4 = .error (.walkTooLong 4 1) ∧
      (p.withCap 2).shuffleBy F 4 = .ok 0 ∧ (p.withCap 3).shuffleBy F 4 = .ok 0 := by
  intro F
  have least : IsLeast {n | (5 : UInt64).toNat ≤ 2 ^ n} 3 := by
    refine ⟨by decide, fun n covers => ?_⟩
    by_contra fewer
    have small : 2 ^ n ≤ 2 ^ 2 := Nat.pow_le_pow_right Nat.two_pos (by omega)
    exact absurd (Nat.le_trans covers small) (by decide)
  rcases paddingBoundsWalks F 5 9 4 least with ⟨empty, -⟩ | ⟨p, made, -, roomy, -, fails, raised⟩
  · exact absurd empty (by decide)
  cases made
  have landed : Permutation.shuffleBy F (Permutation.withCap ⟨5, 9, .covering 5 4, defaultCap⟩ 2) 4 = .ok 0 := by decide
  refine ⟨least, _, rfl, roomy 3 (by decide), ?_, landed, (raised 2 3 (by decide) 4 0).1 landed⟩
  exact (fails 1 4 (by decide) _).mpr ⟨rfl, by decide⟩

end Permutation
end TlsCensus
