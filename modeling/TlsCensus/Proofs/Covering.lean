import TlsCensus.Proofs.WalkBounds

/-! The domain that covers a range: the least power of two, in halves whose widths differ by at
most one bit. On it a network does with 64-bit words what it does with numbers of any size, for
which there is nothing to shift out and nothing to mask away; so the domain is mapped to itself,
and the rounds in reverse order lead back. -/
namespace TlsCensus

namespace Network

def domain (n : Network) : Set UInt64 := {v | v.toNat < 2 ^ n.width}

instance (n : Network) (v : UInt64) : Decidable (v ∈ n.domain) := inferInstanceAs (Decidable (v.toNat < 2 ^ n.width))

section Numbers
variable (n : Network) (F : RoundFunction)

def mix (k : UInt32) (halves : Nat × Nat) : Nat × Nat :=
  if k % 2 = 0 then (halves.1 ^^^ (F k halves.2.toUInt64).toNat % 2 ^ n.highBits.toNat, halves.2)
  else (halves.1, halves.2 ^^^ (F k halves.1.toUInt64).toNat % 2 ^ n.lowBits.toNat)

def passed (ks : List Nat) (v : Nat) : Nat :=
  let halves := ks.foldl (fun halves k => n.mix F k.toUInt32 halves) (v / 2 ^ n.lowBits.toNat, v % 2 ^ n.lowBits.toNat)
  halves.1 * 2 ^ n.lowBits.toNat + halves.2

def numbers (halves : UInt64 × UInt64) : Nat × Nat := (halves.1.toNat, halves.2.toNat)

theorem roundNumbers (k : UInt32) (halves : UInt64 × UInt64) :
    numbers (n.round F k halves) = n.mix F k (numbers halves) := by
  have word (half : UInt64) : half.toNat.toUInt64 = half := UInt64.ofNat_toNat
  unfold round mix numbers
  split <;> simp only [UInt64.toNat_xor, maskBelow, word]

theorem forwardNumbers (count : Nat) (halves : UInt64 × UInt64) : numbers (n.forward F count halves) =
    (List.range count).foldl (fun halves k => n.mix F k.toUInt32 halves) (numbers halves) := by
  induction count with
  | zero => rfl
  | succ count ih => rw [forward, roundNumbers, ih, List.range_succ, List.foldl_concat]

theorem backwardNumbers (count : Nat) (halves : UInt64 × UInt64) : numbers (n.backward F count halves) =
    (List.range count).reverse.foldl (fun halves k => n.mix F k.toUInt32 halves) (numbers halves) := by
  induction count generalizing halves with
  | zero => rfl
  | succ count ih =>
    rw [backward, ih, roundNumbers, List.range_succ, List.reverse_concat, List.foldl_cons]

end Numbers

section Narrow
variable {n : Network} (narrow : n.Narrow) (F : RoundFunction)
include narrow

theorem splitNumbers (v : UInt64) :
    numbers (n.split v) = (v.toNat / 2 ^ n.lowBits.toNat, v.toNat % 2 ^ n.lowBits.toNat) := by
  rw [numbers, splitHigh narrow, splitLow]

theorem joinNumbers {halves : UInt64 × UInt64} (fits : n.Fits halves) :
    (n.join halves).toNat = (numbers halves).1 * 2 ^ n.lowBits.toNat + (numbers halves).2 := (joinValue narrow fits).1

theorem encryptNumber {v : UInt64} (inside : v ∈ n.domain) :
    (n.encrypt F v).toNat = n.passed F (List.range n.rounds.toNat) v.toNat := by
  have fits := forwardFits F n.rounds.toNat (splitFits narrow inside)
  rw [encrypt, joinNumbers narrow fits, forwardNumbers, splitNumbers narrow, passed]

theorem decryptNumber {v : UInt64} (inside : v ∈ n.domain) :
    (n.decrypt F v).toNat = n.passed F (List.range n.rounds.toNat).reverse v.toNat := by
  have fits := backwardFits F n.rounds.toNat (splitFits narrow inside)
  rw [decrypt, joinNumbers narrow fits, backwardNumbers, splitNumbers narrow, passed]

end Narrow

/- Words are cut and put together without loss: no distance is as long as a word, a mask keeps
every bit below its width, parts and whole determine one another, and halves that fit their widths
fit them after a round. What all rounds make of a word is then what they make of its number. -/
structure Lossless (n : Network) (F : RoundFunction) : Prop where
  distances : n.highBits.toNat < 64 ∧ n.lowBits.toNat < 64
  masks : ∀ bits v : UInt64, (v &&& lowMask bits).toNat = v.toNat % 2 ^ bits.toNat
  parts : ∀ v ∈ n.domain, n.Fits (n.split v) ∧ n.join (n.split v) = v
  whole : ∀ halves, n.Fits halves → n.join halves ∈ n.domain ∧ n.split (n.join halves) = halves
  rounds : ∀ k halves, n.Fits halves → n.Fits (n.round F k halves)
  encrypts : ∀ v ∈ n.domain, (n.encrypt F v).toNat = n.passed F (List.range n.rounds.toNat) v.toNat
  decrypts : ∀ v ∈ n.domain, (n.decrypt F v).toNat = n.passed F (List.range n.rounds.toNat).reverse v.toNat

theorem narrowLossless {n : Network} (narrow : n.Narrow) (F : RoundFunction) : n.Lossless F := by
  have high := narrow.high
  have low := narrow.low
  refine ⟨⟨by omega, by omega⟩, maskBelow, ?_, ?_, ?_, ?_, ?_⟩
  · intro v inside
    exact ⟨splitFits narrow inside, joinSplit narrow inside⟩
  · intro halves fits
    exact ⟨(joinValue narrow fits).2, splitJoin narrow fits⟩
  · exact fun k halves => roundFits F k
  · exact fun v => encryptNumber narrow F
  · exact fun v => decryptNumber narrow F

theorem narrowInverse {n : Network} (narrow : n.Narrow) (F : RoundFunction) :
    Set.InvOn (n.decrypt F) (n.encrypt F) n.domain n.domain :=
  ⟨fun _ inside => decryptEncrypt narrow F inside, fun _ inside => encryptDecrypt narrow F inside⟩

theorem log2LeadingZeros {v : UInt64} (nonzero : v.toNat ≠ 0) : v.toNat.log2 + 1 = 64 - v.toBitVec.clz.toNat := by
  have above : v.toNat < 2 ^ (64 - v.toBitVec.clz.toNat) := BitVec.toNat_lt_two_pow_sub_clz
  have below : 2 ^ (64 - 1 - v.toBitVec.clz.toNat) ≤ v.toNat :=
    BitVec.two_pow_sub_clz_le_toNat_of_ne_zero (by decide) fun zero => nonzero (congrArg BitVec.toNat zero)
  have few : v.toBitVec.clz.toNat < 64 := by
    by_contra all
    rw [Nat.sub_eq_zero_of_le (by omega)] at above
    omega
  have more : 64 - v.toBitVec.clz.toNat = 64 - 1 - v.toBitVec.clz.toNat + 1 := by omega
  rw [more] at above ⊢
  rw [(Nat.log2_eq_iff nonzero).mpr ⟨below, above⟩]

theorem bitsForLeadingZeros {range : UInt64} (positive : 1 ≤ range) :
    bitsFor range = 64 - (range - 1).toBitVec.clz.toNat := by
  unfold bitsFor
  split
  · rename_i tiny
    obtain rfl : range = 1 := UInt64.le_antisymm tiny positive
    decide
  · rename_i large
    obtain ⟨several, last⟩ := lastBelow large
    exact log2LeadingZeros (by omega)

theorem leastPower (range : UInt64) : IsLeast {m | ∃ k, m = 2 ^ k ∧ range.toNat ≤ m} (2 ^ bitsFor range) := by
  refine ⟨⟨_, rfl, bitsForCovers range⟩, ?_⟩
  rintro m ⟨k, rfl, covers⟩
  exact Nat.pow_le_pow_right Nat.two_pos ((bitsForLeast range).2 covers)

theorem coversNarrowly {range : UInt64} (positive : 1 ≤ range) : 2 ^ bitsFor range < 2 * range.toNat := by
  have one : 1 ≤ range.toNat := UInt64.le_iff_toNat_le.mp positive
  cases bits : bitsFor range with
  | zero => omega
  | succ fewer =>
    have short : ¬ range.toNat ≤ 2 ^ fewer := by
      intro covers
      have least : bitsFor range ≤ fewer := (bitsForLeast range).2 covers
      omega
    rw [Nat.pow_succ]
    omega

end Network

namespace Permutation
open Network (RoundFunction)

theorem smallestDomainPermuted (F : RoundFunction) {range : UInt64} (positive : 1 ≤ range) (seed : UInt64)
    (rounds : UInt32) : ∃ p, new range seed rounds = .ok p ∧ let n := p.network
      n.rounds = rounds ∧ n.width = 64 - (range - 1).toBitVec.clz.toNat ∧
      IsLeast {m | ∃ k, m = 2 ^ k ∧ range.toNat ≤ m} (2 ^ n.width) ∧ 2 ^ n.width < 2 * range.toNat ∧
      n.lowBits.toNat ≤ n.highBits.toNat ∧ n.highBits.toNat ≤ n.lowBits.toNat + 1 ∧
      Set.MapsTo (n.encrypt F) n.domain n.domain ∧ Set.MapsTo (n.decrypt F) n.domain n.domain ∧
      Set.InvOn (n.decrypt F) (n.encrypt F) n.domain n.domain ∧ n.Lossless F := by
  have nonzero : range ≠ 0 := by
    rintro rfl
    exact absurd positive (by decide)
  have narrow := Network.coveringNarrow range rounds
  obtain ⟨high, low⟩ := Network.coveringBits range rounds
  refine ⟨_, newOk seed rounds nonzero, ?_⟩
  simp only [Network.coveringWidth]
  refine ⟨rfl, Network.bitsForLeadingZeros positive, Network.leastPower range, Network.coversNarrowly positive,
    by omega, by omega, ?_, ?_, Network.narrowInverse narrow F, Network.narrowLossless narrow F⟩
  · exact fun _ inside => Network.encryptInside narrow F inside
  · exact fun _ inside => Network.decryptInside narrow F inside

theorem edgesLossless :
    let F : RoundFunction := fun k half => half * 3 + k.toUInt64
    (1 : UInt64) ≤ 1 ∧ (1 : UInt64) ≤ 2 ∧ (1 : UInt64) ≤ 0xFFFFFFFFFFFFFFFF ∧
    (∃ p, new 1 9 4 = .ok p ∧ (p.network.highBits, p.network.lowBits) = (0, 0) ∧ p.network.Lossless F ∧
      p.network.encrypt F 0 = 0) ∧
    (∃ p, new 2 9 3 = .ok p ∧ (p.network.highBits, p.network.lowBits) = (1, 0) ∧ p.network.Lossless F ∧
      p.network.encrypt F 0 ∈ p.network.domain ∧ p.network.decrypt F (p.network.encrypt F 0) = 0) ∧
    ∃ p, new 0xFFFFFFFFFFFFFFFF 9 4 = .ok p ∧ (p.network.highBits, p.network.lowBits) = (32, 32) ∧
      2 ^ p.network.width < 2 * (0xFFFFFFFFFFFFFFFF : UInt64).toNat ∧ p.network.Lossless F ∧
      p.network.decrypt F (p.network.encrypt F 0xFFFFFFFFFFFFFFFF) = 0xFFFFFFFFFFFFFFFF := by
  intro F
  refine ⟨by decide, by decide, by decide, ?_, ?_, ?_⟩
  · obtain ⟨p, made, -, -, -, -, -, -, -, -, -, lossless⟩ :=
      smallestDomainPermuted F (by decide : (1 : UInt64) ≤ 1) 9 4
    cases made
    exact ⟨_, rfl, by decide, lossless, by decide⟩
  · obtain ⟨p, made, -, -, -, -, -, -, inside, -, inverse, lossless⟩ :=
      smallestDomainPermuted F (by decide : (1 : UInt64) ≤ 2) 9 3
    cases made
    have start : (0 : UInt64) ∈ (Network.covering 2 3).domain := by decide
    exact ⟨_, rfl, by decide, lossless, inside start, inverse.1 start⟩
  · obtain ⟨p, made, -, -, -, near, -, -, -, -, inverse, lossless⟩ :=
      smallestDomainPermuted F (by decide : (1 : UInt64) ≤ 0xFFFFFFFFFFFFFFFF) 9 4
    cases made
    have start : (0xFFFFFFFFFFFFFFFF : UInt64) ∈ (Network.covering 0xFFFFFFFFFFFFFFFF 4).domain := by decide
    exact ⟨_, rfl, by decide, near, lossless, inverse.1 start⟩

end Permutation
end TlsCensus
