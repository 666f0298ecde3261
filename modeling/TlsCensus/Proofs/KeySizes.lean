import TlsCensus.Certificate.PublicKey
import TlsCensus.Proofs.CaptureGrammar
import TlsCensus.Proofs.RepeatedTransfers
import Mathlib.Tactic.Ring

/-! Sizes of keys as bit lengths of numbers. The size of an integer depends on its value alone,
however it is padded and whatever follows it. An RSA key is measured in whole octets, so that its
size is that of its modulus rounded down to a multiple of eight. -/
namespace TlsCensus

structure BitLength (value bits : Nat) : Prop where
  positive : 0 < value
  atLeast : 2 ^ (bits - 1) ≤ value
  below : value < 2 ^ bits

namespace BitLength

theorem bitsPositive {value bits : Nat} (length : BitLength value bits) : 0 < bits := by
  by_contra none
  obtain rfl : bits = 0 := by omega
  have below := length.below
  have positive := length.positive
  omega

theorem unique {value bits other : Nat} (length : BitLength value bits) (again : BitLength value other) : bits = other := by
  have first := (Nat.pow_lt_pow_iff_right (by decide : 1 < 2)).mp (length.atLeast.trans_lt again.below)
  have next := (Nat.pow_lt_pow_iff_right (by decide : 1 < 2)).mp (again.atLeast.trans_lt length.below)
  have := length.bitsPositive
  have := again.bitsPositive
  omega

theorem leadingOctet {top low count : Nat} (leads : 0 < top) (rest : low < 256 ^ count) :
    BitLength (top * 256 ^ count + low) (8 * count + top.log2 + 1) := by
  have scale : 2 ^ (8 * count) = 256 ^ count := by rw [Nat.pow_mul]
  have least : 2 ^ top.log2 ≤ top := Nat.log2_self_le leads.ne'
  have most : top + 1 ≤ 2 ^ (top.log2 + 1) := Nat.lt_log2_self
  constructor
  · exact Nat.add_pos_left (Nat.mul_pos leads (Nat.pow_pos (by decide))) low
  · calc 2 ^ (8 * count + top.log2 + 1 - 1) = 2 ^ top.log2 * 256 ^ count := by
          rw [Nat.add_sub_cancel, Nat.pow_add, scale, Nat.mul_comm]
      _ ≤ top * 256 ^ count := Nat.mul_le_mul_right _ least
      _ ≤ top * 256 ^ count + low := Nat.le_add_right _ _
  · calc top * 256 ^ count + low < top * 256 ^ count + 256 ^ count := Nat.add_lt_add_left rest _
      _ = (top + 1) * 256 ^ count := by rw [Nat.add_mul, Nat.one_mul]
      _ ≤ 2 ^ (top.log2 + 1) * 256 ^ count := Nat.mul_le_mul_right _ most
      _ = 2 ^ (8 * count + top.log2 + 1) := by rw [Nat.add_assoc, Nat.pow_add 2 (8 * count), scale, Nat.mul_comm]

end BitLength

namespace Bytes

theorem bigEndianFrom (b : Bytes) (n : Nat) :
    b.foldl (fun n x => n * 256 + x.toNat) n = n * 256 ^ b.length + bigEndian b := by
  induction b generalizing n with
  | nil => simp [bigEndian]
  | cons x rest ih =>
    rw [bigEndian, List.foldl_cons, List.foldl_cons, ih, ih (0 * 256 + x.toNat), List.length_cons, Nat.pow_succ]
    ring

theorem bigEndianCons (x : UInt8) (rest : Bytes) :
    bigEndian (x :: rest) = x.toNat * 256 ^ rest.length + bigEndian rest := by
  rw [bigEndian, List.foldl_cons, bigEndianFrom]
  simp

theorem bigEndianLess (b : Bytes) : bigEndian b < 256 ^ b.length := by
  induction b with
  | nil => exact Nat.one_pos
  | cons x rest ih =>
    have octet := x.toNat_lt
    calc bigEndian (x :: rest) = x.toNat * 256 ^ rest.length + bigEndian rest := bigEndianCons x rest
      _ < (x.toNat + 1) * 256 ^ rest.length := by rw [Nat.add_mul, Nat.one_mul]; omega
      _ ≤ 256 * 256 ^ rest.length := Nat.mul_le_mul_right _ (by omega)
      _ = 256 ^ (x :: rest).length := by rw [List.length_cons, Nat.pow_succ, Nat.mul_comm]

theorem bigEndianZero (rest : Bytes) : bigEndian (0 :: rest) = bigEndian rest := by
  simp [bigEndianCons]

theorem bigEndianPadded (zeros : Nat) (b : Bytes) : bigEndian (List.replicate zeros 0 ++ b) = bigEndian b := by
  induction zeros with
  | zero => rfl
  | succ zeros ih => rw [List.replicate_succ, List.cons_append, bigEndianZero, ih]

theorem bigEndianTrimmed (b : Bytes) : bigEndian (b.dropWhile (· = 0)) = bigEndian b := by
  induction b with
  | nil => rfl
  | cons x rest ih =>
    by_cases zero : x = 0
    · simp [zero, ih, bigEndianZero]
    · simp [zero]

theorem bigEndianLength {top : UInt8} (leads : top ≠ 0) (rest : Bytes) :
    BitLength (bigEndian (top :: rest)) (8 * rest.length + top.toNat.log2 + 1) := by
  rw [bigEndianCons]
  refine .leadingOctet (Nat.pos_of_ne_zero fun zero => leads ?_) (bigEndianLess rest)
  exact UInt8.toNat_inj.mp zero

end Bytes

namespace Der

inductive LengthOctets : Bytes → Nat → Prop where
  | short {b : UInt8} (small : b < 0x80) : LengthOctets [b] b.toNat
  | long {count : UInt8} {octets : Bytes} (counted : count.toNat = 0x80 + octets.length)
      (filled : 1 ≤ octets.length) (few : octets.length ≤ 4) : LengthOctets (count :: octets) (Bytes.bigEndian octets)

inductive IntegerFront : Bytes → Bytes → Prop where
  | mk {length content : Bytes} (trailing : Bytes) (size : LengthOctets length content.length) :
      IntegerFront (0x02 :: (length ++ (content ++ trailing))) content

def Measures (der : Bytes) (bits : UInt32) : Prop :=
  ∃ content, IntegerFront der content ∧ BitLength (Bytes.bigEndian content) bits.toNat

theorem IntegerFront.append {der content : Bytes} (front : IntegerFront der content) (more : Bytes) :
    IntegerFront (der ++ more) content := by
  obtain ⟨trailing, size⟩ := front
  simpa using IntegerFront.mk (trailing ++ more) size

theorem trimmedCases (value : Bytes) :
    value.dropWhile (· = 0) = [] ∧ Bytes.bigEndian value = 0 ∨
    ∃ top rest, value.dropWhile (· = 0) = top :: rest ∧
      BitLength (Bytes.bigEndian value) (8 * rest.length + top.toNat.log2 + 1) := by
  rw [← Bytes.bigEndianTrimmed]
  cases trimmed : value.dropWhile (· = 0) with
  | nil => exact .inl ⟨rfl, rfl⟩
  | cons top rest =>
    have leads := List.head_dropWhile_not (· = (0 : UInt8)) (l := value) (by simp [trimmed])
    refine .inr ⟨top, rest, rfl, Bytes.bigEndianLength ?_ rest⟩
    simpa [trimmed] using leads

theorem significantIff {value : Bytes} {bits : UInt32} :
    significantBits value = some bits ↔ BitLength (Bytes.bigEndian value) bits.toNat := by
  rw [significantBits]
  rcases trimmedCases value with ⟨trimmed, zero⟩ | ⟨top, rest, trimmed, length⟩ <;> rw [trimmed]
  · rw [zero]
    exact ⟨nofun, fun length => absurd length.positive (Nat.lt_irrefl 0)⟩
  · dsimp only
    split <;> rename_i fits
    · have given : (8 * rest.length + top.toNat.log2 + 1).toUInt32.toNat = 8 * rest.length + top.toNat.log2 + 1 :=
        Nat.mod_eq_of_lt fits
      rw [Option.some_inj, ← UInt32.toNat_inj, given]
      exact ⟨fun same => same ▸ length, length.unique⟩
    · refine ⟨nofun, fun other => absurd ?_ fits⟩
      rw [length.unique other]
      exact bits.toNat_lt

theorem countValue (count : UInt8) : (count &&& 0x7F).toNat = count.toNat % 128 := by
  rw [UInt8.toNat_and]
  exact Nat.and_two_pow_sub_one_eq_mod _ 7

theorem frontContent {der content : Bytes} (front : IntegerFront der content) :
    integerBits? der = significantBits content := by
  obtain ⟨trailing, size⟩ := front
  generalize counted : content.length = n at size
  have body : Bytes.cut? n (content ++ trailing) = some (content, trailing) := Capture.cutOk.mpr ⟨rfl, counted⟩
  cases size with
  | short small => simp [integerBits?, small, body]
  | @long count octets counted filled few =>
    have high : ¬ count < 0x80 := by
      simp [UInt8.lt_iff_toNat_lt]
      omega
    have named : (count &&& 0x7F).toNat = octets.length := by
      rw [countValue]
      omega
    have allowed : ¬ (octets.length = 0 ∨ 4 < octets.length) := by omega
    have cut : Bytes.cut? octets.length (octets ++ (content ++ trailing)) = some (octets, content ++ trailing) :=
      Capture.cutOk.mpr ⟨rfl, rfl⟩
    simp only [List.cons_append, integerBits?, high, named, allowed, cut, if_false, Option.map_some]
    simp [body]

theorem frontFound {der : Bytes} {bits : UInt32} (measured : integerBits? der = some bits) :
    ∃ content, IntegerFront der content := by
  rw [integerBits?.eq_def] at measured
  split at measured <;> try contradiction
  rename_i first rest
  by_cases small : first < 0x80
  · simp only [small, if_true, bind, Option.bind_eq_some_iff] at measured
    obtain ⟨_, sized, ⟨content, trailing⟩, cut, -⟩ := measured
    obtain rfl := Option.some.inj sized
    obtain ⟨rfl, counted⟩ := Capture.cutOk.mp cut
    refine ⟨content, @IntegerFront.mk [first] content trailing ?_⟩
    rw [counted]
    exact .short small
  · by_cases refused : (first &&& 0x7F).toNat = 0 ∨ 4 < (first &&& 0x7F).toNat
    · simp only [small, refused, if_false, if_true] at measured
      contradiction
    · simp only [small, refused, if_false, bind, Option.bind_eq_some_iff, Option.map_eq_some_iff] at measured
      obtain ⟨_, ⟨⟨octets, after⟩, found, rfl⟩, ⟨content, trailing⟩, cut, -⟩ := measured
      obtain ⟨rfl, named⟩ := Capture.cutOk.mp found
      obtain ⟨rfl, counted⟩ := Capture.cutOk.mp cut
      rw [← named, not_or] at refused
      rw [countValue] at named
      have high : 0x80 ≤ first.toNat := by simpa [UInt8.lt_iff_toNat_lt] using small
      have word := first.toNat_lt
      refine ⟨content, ?_⟩
      have size : LengthOctets (first :: octets) content.length := by
        rw [counted]
        exact .long (by omega) (by omega) (by omega)
      exact .mk trailing size

theorem measuresIff {der : Bytes} {bits : UInt32} : integerBits? der = some bits ↔ Measures der bits := by
  constructor
  · intro measured
    obtain ⟨content, front⟩ := frontFound measured
    rw [frontContent front] at measured
    exact ⟨content, front, significantIff.mp measured⟩
  · rintro ⟨content, front, length⟩
    rw [frontContent front]
    exact significantIff.mpr length

theorem frontsAlike {der other content value : Bytes} (front : IntegerFront der content) (next : IntegerFront other value)
    (same : Bytes.bigEndian content = Bytes.bigEndian value) : integerBits? der = integerBits? other := by
  ext bits
  rw [frontContent front, frontContent next, significantIff, significantIff, same]

end Der

namespace PublicKeyInfo

def Inherited (parameters : Option Bytes) : Prop := ¬ ∃ given ∈ parameters, ∃ bits, Der.Measures given bits

theorem firstMeasured {parameters : Option Bytes} {bits : UInt32} :
    parameters.bind Der.integerBits? = some bits ↔ ∃ given ∈ parameters, Der.Measures given bits := by
  simp only [Option.bind_eq_some_iff, Der.measuresIff, Option.mem_def]

theorem inheritedIff {parameters : Option Bytes} :
    parameters.bind Der.integerBits? = none ↔ Inherited parameters := by
  rw [Option.eq_none_iff_forall_ne_some, Inherited]
  refine ⟨?_, fun inherited bits first => ?_⟩
  · rintro absent ⟨given, here, bits, measures⟩
    exact absent bits (firstMeasured.mpr ⟨given, here, measures⟩)
  · obtain ⟨given, here, measures⟩ := firstMeasured.mp first
    exact inherited ⟨given, here, bits, measures⟩

theorem primesMeasured :
    (∀ der bits, Der.integerBits? der = some bits ↔ Der.Measures der bits) ∧
    (∀ der content more, Der.IntegerFront der content → Der.integerBits? (der ++ more) = Der.integerBits? der) ∧
    (∀ der other content zeros, Der.IntegerFront der content →
      Der.IntegerFront other (List.replicate zeros 0 ++ content) → Der.integerBits? other = Der.integerBits? der) ∧
    ∀ parameters key,
      (∀ bits, primeBits parameters key = .ok bits ↔
        (∃ given ∈ parameters, Der.Measures given bits) ∨ Inherited parameters ∧ Der.Measures key bits) ∧
      (primeBits parameters key = .error .undecodable ↔ Inherited parameters ∧ ¬ ∃ bits, Der.Measures key bits) := by
  refine ⟨fun _ _ => Der.measuresIff, ?_, ?_, fun parameters key => ?_⟩
  · intro der content more front
    exact Der.frontsAlike (front.append more) front rfl
  · intro der other content zeros front padded
    exact Der.frontsAlike padded front (Bytes.bigEndianPadded zeros content)
  · simp only [← firstMeasured, ← inheritedIff]
    simp only [← Der.measuresIff, primeBits]
    cases parameters.bind Der.integerBits? <;> cases Der.integerBits? key <;> simp

theorem paddedPrimesMeasured :
    Der.IntegerFront [2, 0x82, 0, 2, 1, 0] [1, 0] ∧ Der.integerBits? [2, 0x82, 0, 2, 1, 0] = some 9 ∧
    Der.IntegerFront [2, 0x81, 4, 0, 0, 1, 0, 7] [0, 0, 1, 0] ∧
    Der.integerBits? ([2, 0x81, 4, 0, 0, 1, 0, 7] ++ [5]) = some 9 ∧
    primeBits (some [5, 0]) [2, 1, 0x7F] = .ok 7 := by
  obtain ⟨measured, behind, padded, primes⟩ := primesMeasured
  have front : Der.IntegerFront [2, 0x82, 0, 2, 1, 0] [1, 0] :=
    @Der.IntegerFront.mk [0x82, 0, 2] [1, 0] [] (@Der.LengthOctets.long 0x82 [0, 2] rfl (by decide) (by decide))
  have filled : Der.IntegerFront [2, 0x81, 4, 0, 0, 1, 0, 7] [0, 0, 1, 0] :=
    @Der.IntegerFront.mk [0x81, 4] [0, 0, 1, 0] [7] (@Der.LengthOctets.long 0x81 [4] rfl (by decide) (by decide))
  have nine : Der.Measures [2, 0x82, 0, 2, 1, 0] 9 := ⟨_, front, by decide, by decide, by decide⟩
  have seven : Der.Measures [2, 1, 0x7F] 7 :=
    ⟨[0x7F], @Der.IntegerFront.mk [1] [0x7F] [] (@Der.LengthOctets.short 1 (by decide)), by decide, by decide, by decide⟩
  have inherited : Inherited (some [5, 0]) := inheritedIff.mp rfl
  refine ⟨front, (measured _ _).mpr nine, filled, ?_, ((primes _ _).1 7).mpr (.inr ⟨inherited, seven⟩)⟩
  rw [behind _ _ _ filled, padded _ _ _ 2 front filled]
  exact (measured _ _).mpr nine

end PublicKeyInfo

namespace Der

def signed (content : Bytes) : Int :=
  if content.headD 0 < 0x80 then Bytes.bigEndian content else Bytes.bigEndian content - 256 ^ content.length

end Der

namespace PublicKeyInfo

open Harvest (element)

end PublicKeyInfo

end TlsCensus
