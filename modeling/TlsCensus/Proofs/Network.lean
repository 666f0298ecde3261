import TlsCensus.Address.Permutation
import Mathlib.Algebra.Group.Nat.Defs

/-! A network of narrow halves is a bijection of its domain, whatever its round function:
each round undoes itself, and no shift or mask loses a bit. The smallest covering domain
has such halves, also for widths of none, one and all 64 bits. -/
namespace TlsCensus.Network

def width (n : Network) : Nat := n.highBits.toNat + n.lowBits.toNat

structure Narrow (n : Network) : Prop where
  high : n.highBits.toNat ≤ 32
  low : n.lowBits.toNat ≤ 32

def Fits (n : Network) (halves : UInt64 × UInt64) : Prop :=
  halves.1.toNat < 2 ^ n.highBits.toNat ∧ halves.2.toNat < 2 ^ n.lowBits.toNat

theorem lowMaskValue (bits : UInt64) : (lowMask bits).toNat = 2 ^ min bits.toNat 64 - 1 := by
  by_cases zero : bits = 0
  · simp [lowMask, zero]
  by_cases wide : 64 ≤ bits
  · have most : 64 ≤ bits.toNat := UInt64.le_iff_toNat_le.mp wide
    rw [lowMask, if_neg zero, if_pos wide, Nat.min_eq_right most]
    rfl
  have narrow : bits.toNat < 64 := by simpa [UInt64.le_iff_toNat_le] using wide
  have small : 2 ^ bits.toNat ≤ 2 ^ 63 := Nat.pow_le_pow_right (by omega) (by omega)
  have positive : 0 < 2 ^ bits.toNat := Nat.two_pow_pos _
  have shifted : ((1 : UInt64) <<< bits).toNat = 2 ^ bits.toNat := by
    rw [UInt64.toNat_shiftLeft, Nat.mod_eq_of_lt narrow, UInt64.toNat_one,
      Nat.shiftLeft_eq, Nat.one_mul, Nat.mod_eq_of_lt (by omega)]
  rw [lowMask, if_neg zero, if_neg wide, Nat.min_eq_left (Nat.le_of_lt narrow), UInt64.toNat_sub_of_le, shifted]
  · rfl
  · rw [UInt64.le_iff_toNat_le, shifted]
    exact positive

theorem maskBelow (bits v : UInt64) : (v &&& lowMask bits).toNat = v.toNat % 2 ^ bits.toNat := by
  rw [UInt64.toNat_and, lowMaskValue, Nat.and_two_pow_sub_one_eq_mod]
  by_cases wide : 64 ≤ bits.toNat
  · have word : 2 ^ 64 ≤ 2 ^ bits.toNat := Nat.pow_le_pow_right Nat.two_pos wide
    have below := v.toNat_lt
    rw [Nat.min_eq_right wide, Nat.mod_eq_of_lt below, Nat.mod_eq_of_lt (by omega)]
  · rw [Nat.min_eq_left (by omega)]

theorem splitHigh {n : Network} (narrow : n.Narrow) (v : UInt64) :
    (n.split v).1.toNat = v.toNat / 2 ^ n.lowBits.toNat := by
  have := narrow.low
  simp only [split, UInt64.toNat_shiftRight]
  rw [Nat.mod_eq_of_lt (by omega), Nat.shiftRight_eq_div_pow]

theorem splitLow (n : Network) (v : UInt64) :
    (n.split v).2.toNat = v.toNat % 2 ^ n.lowBits.toNat := maskBelow n.lowBits v

theorem splitFits {n : Network} (narrow : n.Narrow) {v : UInt64} (inside : v.toNat < 2 ^ n.width) :
    n.Fits (n.split v) := by
  refine ⟨?_, ?_⟩
  · rw [splitHigh narrow, Nat.div_lt_iff_lt_mul (Nat.two_pow_pos _), ← Nat.pow_add]
    exact inside
  · rw [splitLow n]
    exact Nat.mod_lt _ (Nat.two_pow_pos _)

theorem joinValue {n : Network} (narrow : n.Narrow) {halves : UInt64 × UInt64} (fits : n.Fits halves) :
    (n.join halves).toNat = halves.1.toNat * 2 ^ n.lowBits.toNat + halves.2.toNat ∧
      (n.join halves).toNat < 2 ^ n.width := by
  obtain ⟨high, low⟩ := fits
  have bounds := narrow
  have fitsHigh : (halves.1.toNat + 1) * 2 ^ n.lowBits.toNat ≤ 2 ^ n.width := by
    rw [width, Nat.pow_add]
    exact Nat.mul_le_mul_right _ high
  have word : 2 ^ n.width ≤ 2 ^ 64 :=
    Nat.pow_le_pow_right (by omega) (by have := bounds.high; have := bounds.low; simp only [width]; omega)
  rw [Nat.succ_mul] at fitsHigh
  have value : (n.join halves).toNat = halves.1.toNat * 2 ^ n.lowBits.toNat + halves.2.toNat := by
    have := bounds.low
    rw [join, UInt64.toNat_or, UInt64.toNat_shiftLeft, Nat.mod_eq_of_lt (by omega : n.lowBits.toNat < 64),
      Nat.shiftLeft_eq, Nat.mod_eq_of_lt (by omega), ← Nat.shiftLeft_eq, ← Nat.shiftLeft_add_eq_or_of_lt low]
  exact ⟨value, by omega⟩

theorem splitJoin {n : Network} (narrow : n.Narrow) {halves : UInt64 × UInt64} (fits : n.Fits halves) :
    n.split (n.join halves) = halves := by
  have value := (joinValue narrow fits).1
  have low := fits.2
  apply Prod.ext <;> apply UInt64.toNat_inj.mp
  · rw [splitHigh narrow, value, Nat.mul_comm, Nat.mul_add_div (Nat.two_pow_pos _),
      Nat.div_eq_of_lt low, Nat.add_zero]
  · rw [splitLow n, value, Nat.mul_comm, Nat.mul_add_mod, Nat.mod_eq_of_lt low]

theorem joinSplit {n : Network} (narrow : n.Narrow) {v : UInt64} (inside : v.toNat < 2 ^ n.width) :
    n.join (n.split v) = v := by
  apply UInt64.toNat_inj.mp
  rw [(joinValue narrow (splitFits narrow inside)).1, splitHigh narrow, splitLow n, Nat.mul_comm]
  exact Nat.div_add_mod _ _

section Rounds
variable (n : Network) (F : RoundFunction)

theorem roundTwice (k : UInt32) (halves : UInt64 × UInt64) : n.round F k (n.round F k halves) = halves := by
  have cancel (a b : UInt64) : a ^^^ b ^^^ b = a := by
    rw [UInt64.xor_assoc, UInt64.xor_self, UInt64.xor_zero]
  unfold round
  split <;> simp [cancel]

theorem roundFits {n : Network} (F : RoundFunction) (k : UInt32) {halves : UInt64 × UInt64}
    (fits : n.Fits halves) : n.Fits (n.round F k halves) := by
  have masked (half bits : UInt64) : (half &&& lowMask bits).toNat < 2 ^ bits.toNat := by
    rw [maskBelow]
    exact Nat.mod_lt _ (Nat.two_pow_pos _)
  unfold round
  split
  · refine ⟨?_, fits.2⟩
    rw [UInt64.toNat_xor]
    exact Nat.xor_lt_two_pow fits.1 (masked _ _)
  · refine ⟨fits.1, ?_⟩
    rw [UInt64.toNat_xor]
    exact Nat.xor_lt_two_pow fits.2 (masked _ _)

theorem forwardFits {n : Network} (F : RoundFunction) (count : Nat)
    {halves : UInt64 × UInt64} (fits : n.Fits halves) : n.Fits (n.forward F count halves) := by
  induction count with
  | zero => exact fits
  | succ count ih => exact roundFits F _ ih

theorem backwardFits {n : Network} (F : RoundFunction) (count : Nat)
    {halves : UInt64 × UInt64} (fits : n.Fits halves) : n.Fits (n.backward F count halves) := by
  induction count generalizing halves with
  | zero => exact fits
  | succ count ih => exact ih (roundFits F _ fits)

theorem backwardForward (count : Nat) (halves : UInt64 × UInt64) :
    n.backward F count (n.forward F count halves) = halves := by
  induction count with
  | zero => rfl
  | succ count ih => rw [forward, backward, roundTwice, ih]

theorem forwardBackward (count : Nat) (halves : UInt64 × UInt64) :
    n.forward F count (n.backward F count halves) = halves := by
  induction count generalizing halves with
  | zero => rfl
  | succ count ih => rw [forward, backward, ih, roundTwice]

end Rounds

section Domain
variable {n : Network} (narrow : n.Narrow) (F : RoundFunction) {v : UInt64} (inside : v.toNat < 2 ^ n.width)
include narrow inside

theorem encryptInside : (n.encrypt F v).toNat < 2 ^ n.width :=
  (joinValue narrow (forwardFits F _ (splitFits narrow inside))).2

theorem decryptInside : (n.decrypt F v).toNat < 2 ^ n.width :=
  (joinValue narrow (backwardFits F _ (splitFits narrow inside))).2

theorem decryptEncrypt : n.decrypt F (n.encrypt F v) = v := by
  have fits := splitFits narrow inside
  rw [decrypt, encrypt, splitJoin narrow (forwardFits F _ fits), backwardForward,
    joinSplit narrow inside]

theorem encryptDecrypt : n.encrypt F (n.decrypt F v) = v := by
  have fits := splitFits narrow inside
  rw [decrypt, encrypt, splitJoin narrow (backwardFits F _ fits), forwardBackward,
    joinSplit narrow inside]

end Domain

theorem lastBelow {range : UInt64} (large : ¬ range ≤ 1) :
    1 < range.toNat ∧ (range - 1).toNat = range.toNat - 1 := by
  have several : 1 < range := UInt64.not_le.mp large
  refine ⟨UInt64.lt_iff_toNat_lt.mp several, ?_⟩
  rw [UInt64.toNat_sub_of_le _ _ (UInt64.le_of_lt several), UInt64.toNat_one]

theorem bitsForCovers (range : UInt64) : range.toNat ≤ 2 ^ bitsFor range := by
  unfold bitsFor
  split
  · rename_i tiny
    simpa using UInt64.le_iff_toNat_le.mp tiny
  · rename_i large
    have below := @Nat.lt_log2_self (range - 1).toNat
    rw [(lastBelow large).2] at below ⊢
    omega

theorem bitsForWord (range : UInt64) : bitsFor range ≤ 64 := by
  unfold bitsFor
  split
  · omega
  · by_cases zero : (range - 1).toNat = 0
    · simp [zero]
    · exact (Nat.log2_lt zero).mpr (range - 1).toNat_lt

theorem coveringBits (range : UInt64) (rounds : UInt32) :
    (covering range rounds).highBits.toNat = (bitsFor range + 1) / 2 ∧
      (covering range rounds).lowBits.toNat = bitsFor range / 2 := by
  have word := bitsForWord range
  simp only [covering, Nat.toUInt64, UInt64.toNat_ofNat']
  exact ⟨by omega, by omega⟩

theorem coveringWidth (range : UInt64) (rounds : UInt32) : (covering range rounds).width = bitsFor range := by
  obtain ⟨high, low⟩ := coveringBits range rounds
  rw [width, high, low]
  omega

theorem coveringNarrow (range : UInt64) (rounds : UInt32) : (covering range rounds).Narrow := by
  obtain ⟨high, low⟩ := coveringBits range rounds
  have word := bitsForWord range
  exact ⟨by omega, by omega⟩

end TlsCensus.Network
