import TlsCensus.Proofs.Blocks
import Mathlib.Algebra.Group.Int.Defs
import Mathlib.Order.Bounds.Defs

/-! Which addresses a prefix stands for: those that begin with its leading bits, and of four or
more of them neither the first nor the last. The words that this is computed with never wrap, for
a prefix of no bits and for a block at the end of the address space as for any other; so the same
steps over integers, each of which is refused a result that is no word, are refused none. -/
namespace TlsCensus.Block

def sharing (address : UInt32) (length : UInt8) : Set UInt32 :=
  {a | ∀ i < length.toNat, a.toBitVec.getMsbD i = address.toBitVec.getMsbD i}

section Checked

def word? (n : Int) : Option UInt32 := if 0 ≤ n ∧ n < 2 ^ 32 then some n.toNat.toUInt32 else none

def checkedMask (length : UInt8) : Option UInt32 := do
  let hosts ← word? (32 - length.toNat)
  if hosts = 32 then some 0xFFFFFFFF
  else
    let above ← word? (2 ^ hosts.toNat)
    word? (above.toNat - 1)

def checkedPrefix (address : UInt32) (length : UInt8) : Option (Except PrefixError Block) :=
  if 32 < length then some (.error (.length length))
  else do
    let mask ← checkedMask length
    if address &&& mask ≠ 0 then some (.error (.hostBits address length))
    else if 31 ≤ length then some (.ok ⟨address, address ||| mask⟩)
    else
      let first ← word? (address.toNat + 1)
      let last ← word? ((address ||| mask).toNat - 1)
      some (.ok ⟨first, last⟩)

def checkedSize (b : Block) : Option Nat := do
  let steps ← word? (b.last.toNat - b.first.toNat)
  some (steps.toNat + 1)

theorem wordFound {n : Int} (low : 0 ≤ n) (high : n < 2 ^ 32) : ∃ w, word? n = some w ∧ (w.toNat : Int) = n := by
  refine ⟨_, if_pos ⟨low, high⟩, ?_⟩
  rw [Nat.toUInt32, UInt32.toNat_ofNat', Nat.mod_eq_of_lt (by omega)]
  omega

theorem wordOfValue {w : UInt32} {n : Int} (value : (w.toNat : Int) = n) : word? n = some w := by
  have below := w.toNat_lt
  obtain ⟨v, found, same⟩ := wordFound (n := n) (by omega) (by omega)
  rw [found, UInt32.toNat_inj.mp (by omega : v.toNat = w.toNat)]

theorem maskUnwrapped {length : UInt8} (short : length.toNat ≤ 32) : checkedMask length = some (hostMask length) := by
  have mask := hostMaskValue short
  obtain ⟨hosts, found, value⟩ := wordFound (n := 32 - length.toNat) (by omega) (by omega)
  have count : hosts.toNat = 32 - length.toNat := by omega
  simp only [checkedMask, found, Option.bind_eq_bind, Option.bind_some]
  split
  · rename_i all
    have nothing : length = 0 := UInt8.toNat_inj.mp (by
      rw [all] at count
      simp only [UInt32.reduceToNat, UInt8.reduceToNat] at count ⊢
      omega)
    rw [hostMask, if_pos nothing]
  · rename_i fewer
    have other : hosts.toNat ≠ 32 := fun all => fewer (UInt32.toNat_inj.mp all)
    have small : 2 ^ hosts.toNat ≤ 2 ^ 31 := Nat.pow_le_pow_right Nat.two_pos (by omega)
    have positive : 0 < 2 ^ hosts.toNat := Nat.two_pow_pos _
    obtain ⟨above, raised, power⟩ := wordFound (n := (2 ^ hosts.toNat : Nat)) (by omega) (by omega)
    have raised : word? (2 ^ hosts.toNat) = some above := by exact_mod_cast raised
    rw [raised, Option.bind_some]
    refine wordOfValue ?_
    rw [mask, ← count]
    omega

end Checked

section Prefix
variable {address : UInt32} {length : UInt8}

theorem alignedIff {k : Nat} : address.toNat % 2 ^ k = 0 ↔ ∀ i < k, address.toBitVec.getLsbD i = false := by
  constructor
  · intro aligned i below
    have bit := Nat.testBit_mod_two_pow address.toNat k i
    rw [aligned, Nat.zero_testBit, decide_eq_true below, Bool.true_and] at bit
    exact bit.symm
  · intro clear
    refine Nat.eq_of_testBit_eq fun i => ?_
    rw [Nat.testBit_mod_two_pow, Nat.zero_testBit]
    by_cases below : i < k
    · have bit : address.toNat.testBit i = false := clear i below
      rw [bit, Bool.and_false]
    · rw [decide_eq_false below, Bool.false_and]

theorem prefixMade : (∃ b, ofPrefix address length = .ok b) ↔
    length.toNat ≤ 32 ∧ address.toNat % 2 ^ (32 - length.toNat) = 0 := by
  constructor
  · rintro ⟨b, made⟩
    obtain ⟨short, aligned, -⟩ := prefixOk made
    exact ⟨short, aligned⟩
  · rintro ⟨short, aligned⟩
    have notLong : ¬ 32 < length := shortIff.mpr short
    have masked : address &&& hostMask length = 0 := UInt32.toNat_inj.mp (by rw [hostBitsValue short, aligned]; rfl)
    by_cases whole : 31 ≤ length
    · exact ⟨_, by rw [ofPrefix, if_neg notLong, if_neg (not_not.mpr masked), if_pos whole]⟩
    · exact ⟨_, by rw [ofPrefix, if_neg notLong, if_neg (not_not.mpr masked), if_neg whole]⟩

theorem prefixUnwrapped (address : UInt32) (length : UInt8) :
    checkedPrefix address length = some (ofPrefix address length) := by
  by_cases long : 32 < length
  · rw [checkedPrefix, ofPrefix, if_pos long, if_pos long]
  have short : length.toNat ≤ 32 := shortIff.mp long
  simp only [checkedPrefix, if_neg long, maskUnwrapped short, Option.bind_eq_bind, Option.bind_some]
  by_cases masked : address &&& hostMask length ≠ 0
  · rw [if_pos masked, ofPrefix, if_neg long, if_pos masked]
  by_cases whole : 31 ≤ length
  · rw [if_neg masked, if_pos whole, ofPrefix, if_neg long, if_neg masked, if_pos whole]
  have made : ofPrefix address length = .ok ⟨address + 1, (address ||| hostMask length) - 1⟩ := by
    rw [ofPrefix, if_neg long, if_neg masked, if_neg whole]
  obtain ⟨-, aligned, first, last⟩ := prefixOk made
  have broadcast := lastAddressValue short aligned
  have one : spare length = 1 := if_neg fun most => whole (UInt8.le_iff_toNat_le.mpr most)
  simp only [one] at first last
  have next : word? (address.toNat + 1) = some (address + 1) := wordOfValue (by exact_mod_cast first)
  have previous : word? ((address ||| hostMask length).toNat - 1) = some ((address ||| hostMask length) - 1) :=
    wordOfValue (by omega)
  rw [if_neg masked, if_neg whole, next, Option.bind_some, previous, Option.bind_some, made]

section Short
variable (short : length.toNat ≤ 32)
include short

theorem leadingBit (w : UInt32) {i : Nat} (inside : i < length.toNat) :
    w.toBitVec.getMsbD i = (w.toNat / 2 ^ (32 - length.toNat)).testBit (length.toNat - 1 - i) := by
  have place : length.toNat - 1 - i + (32 - length.toNat) = 32 - 1 - i := by omega
  rw [Nat.testBit_div_two_pow, BitVec.getMsbD_eq_getLsbD, decide_eq_true (by omega : i < 32), Bool.true_and, place]
  rfl

theorem quotientBelow (w : UInt32) : w.toNat / 2 ^ (32 - length.toNat) < 2 ^ length.toNat := by
  have whole : length.toNat + (32 - length.toNat) = 32 := by omega
  rw [Nat.div_lt_iff_lt_mul (Nat.two_pow_pos _), ← Nat.pow_add, whole]
  exact w.toNat_lt

theorem sharingQuotient {a : UInt32} : a ∈ sharing address length ↔
    a.toNat / 2 ^ (32 - length.toNat) = address.toNat / 2 ^ (32 - length.toNat) := by
  constructor
  · intro same
    refine Nat.eq_of_testBit_eq fun i => ?_
    by_cases inside : i < length.toNat
    · have bit := same (length.toNat - 1 - i) (by omega)
      have back : length.toNat - 1 - (length.toNat - 1 - i) = i := by omega
      rwa [leadingBit short a (by omega), leadingBit short address (by omega), back] at bit
    · have beyond : 2 ^ length.toNat ≤ 2 ^ i := Nat.pow_le_pow_right Nat.two_pos (by omega)
      rw [Nat.testBit_lt_two_pow (Nat.lt_of_lt_of_le (quotientBelow short a) beyond),
        Nat.testBit_lt_two_pow (Nat.lt_of_lt_of_le (quotientBelow short address) beyond)]
  · intro same i inside
    rw [leadingBit short a inside, leadingBit short address inside, same]

end Short

section Aligned
variable (short : length.toNat ≤ 32) (aligned : address.toNat % 2 ^ (32 - length.toNat) = 0) {a : UInt32}
include short aligned

theorem sharingInterval : a ∈ sharing address length ↔
    address.toNat ≤ a.toNat ∧ a.toNat < address.toNat + 2 ^ (32 - length.toNat) := by
  have some : 0 < 2 ^ (32 - length.toNat) := Nat.two_pow_pos _
  obtain ⟨q, same⟩ := Nat.dvd_of_mod_eq_zero aligned
  rw [sharingQuotient short, same, Nat.mul_div_cancel_left _ some, Nat.div_eq_iff some, Nat.mul_comm q]
  omega

theorem leastIff : IsLeast (sharing address length) a ↔ a.toNat = address.toNat := by
  have inside {w : UInt32} := sharingInterval short aligned (a := w)
  have some : 0 < 2 ^ (32 - length.toNat) := Nat.two_pow_pos _
  constructor
  · rintro ⟨mem, lower⟩
    have there : address ∈ sharing address length := inside.mpr ⟨Nat.le_refl _, by omega⟩
    have below := UInt32.le_iff_toNat_le.mp (lower there)
    exact Nat.le_antisymm below (inside.mp mem).1
  · intro same
    refine ⟨inside.mpr ⟨by omega, by omega⟩, fun w mem => ?_⟩
    rw [UInt32.le_iff_toNat_le, same]
    exact (inside.mp mem).1

theorem greatestIff : IsGreatest (sharing address length) a ↔
    a.toNat + 1 = address.toNat + 2 ^ (32 - length.toNat) := by
  have inside {w : UInt32} := sharingInterval short aligned (a := w)
  have last := lastAddressValue short aligned
  have some : 0 < 2 ^ (32 - length.toNat) := Nat.two_pow_pos _
  constructor
  · rintro ⟨mem, upper⟩
    have there : address ||| hostMask length ∈ sharing address length := inside.mpr ⟨by omega, by omega⟩
    have above := UInt32.le_iff_toNat_le.mp (upper there)
    have := (inside.mp mem).2
    omega
  · intro same
    refine ⟨inside.mpr ⟨by omega, by omega⟩, fun w mem => ?_⟩
    have := (inside.mp mem).2
    rw [UInt32.le_iff_toNat_le]
    omega

end Aligned

theorem spareValue (length : UInt8) : spare length = if length ≤ 30 then 1 else 0 := by
  simp only [spare, UInt8.le_iff_toNat_le, UInt8.reduceToNat]
  split <;> split <;> omega

section Made
variable {b : Block} (made : ofPrefix address length = .ok b)
include made

theorem prefixContains (a : UInt32) : b.contains a = true ↔ a ∈ sharing address length ∧
    (length ≤ 30 → ¬ IsLeast (sharing address length) a ∧ ¬ IsGreatest (sharing address length) a) := by
  obtain ⟨short, aligned, first, last⟩ := prefixOk made
  rw [containsValue, sharingInterval short aligned, leastIff short aligned, greatestIff short aligned]
  rw [spareValue] at first last
  by_cases ends : length ≤ 30
  · simp only [if_pos ends] at first last
    simp only [ends, true_implies]
    omega
  · simp only [if_neg ends] at first last
    simp only [ends, false_implies, and_true]
    omega

theorem prefixSize : b.size = 2 ^ (32 - length.toNat) - if length ≤ 30 then 2 else 0 := by
  obtain ⟨-, -, first, last⟩ := prefixOk made
  rw [sizeValue (prefixNonempty made)]
  rw [spareValue] at first last
  by_cases ends : length ≤ 30
  · simp only [if_pos ends] at first last ⊢
    omega
  · simp only [if_neg ends] at first last ⊢
    omega

end Made
end Prefix

section Overlap
variable {b c : Block}

theorem sizeUnwrapped (nonempty : b.first.toNat ≤ b.last.toNat) : checkedSize b = some b.size := by
  have steps : word? (b.last.toNat - b.first.toNat) = some (b.last - b.first) := wordOfValue (by
    rw [UInt32.toNat_sub_of_le _ _ (UInt32.le_iff_toNat_le.mpr nonempty)]
    omega)
  rw [checkedSize, steps]
  rfl

theorem overlapShares (left : b.first.toNat ≤ b.last.toNat) (right : c.first.toNat ≤ c.last.toNat) :
    b.overlaps c = true ↔ ∃ a, b.contains a = true ∧ c.contains a = true := by
  simp only [containsValue]
  rw [← Bool.not_eq_false, apartValue]
  constructor
  · intro near
    by_cases later : b.first.toNat ≤ c.first.toNat
    · exact ⟨c.first, by omega, by omega⟩
    · exact ⟨b.first, by omega, by omega⟩
  · rintro ⟨a, inB, inC⟩
    omega

end Overlap

theorem prefixHosts (address : UInt32) (length : UInt8) :
    ((∃ b, ofPrefix address length = .ok b) ↔
      length ≤ 32 ∧ ∀ i < 32 - length.toNat, address.toBitVec.getLsbD i = false) ∧
    checkedPrefix address length = some (ofPrefix address length) ∧
    ∀ b, ofPrefix address length = .ok b →
      (∀ a, b.contains a = true ↔ a ∈ sharing address length ∧
        (length ≤ 30 → ¬ IsLeast (sharing address length) a ∧ ¬ IsGreatest (sharing address length) a)) ∧
      (∃ a, b.contains a = true) ∧
      b.size = 2 ^ (32 - length.toNat) - (if length ≤ 30 then 2 else 0) ∧ checkedSize b = some b.size ∧
      ∀ other length' c, ofPrefix other length' = .ok c →
        (b.overlaps c = true ↔ ∃ a, b.contains a = true ∧ c.contains a = true) := by
  refine ⟨?_, prefixUnwrapped address length, fun b made => ?_⟩
  · rw [prefixMade, alignedIff, UInt8.le_iff_toNat_le]
    rfl
  · have nonempty := prefixNonempty made
    refine ⟨prefixContains made, ⟨b.first, containsValue.mpr ⟨Nat.le_refl _, nonempty⟩⟩, prefixSize made,
      sizeUnwrapped nonempty, ?_⟩
    intro other length' c madeToo
    exact overlapShares nonempty (prefixNonempty madeToo)

theorem wholeSpaceHosts :
    let space : Block := ⟨1, 0xFFFFFFFE⟩
    let lastTwo : Block := ⟨0xFFFFFFFE, 0xFFFFFFFF⟩
    let last : Block := ⟨0xFFFFFFFF, 0xFFFFFFFF⟩
    ofPrefix 0 0 = .ok space ∧ ofPrefix 0xFFFFFFFE 31 = .ok lastTwo ∧ ofPrefix 0xFFFFFFFF 32 = .ok last ∧
    checkedPrefix 0 0 = some (.ok space) ∧ space.size = 2 ^ 32 - 2 ∧ ¬ IsGreatest (sharing 0 0) 0xFFFFFFFE ∧
    (∃ a, space.contains a = true ∧ lastTwo.contains a = true) ∧
    ¬ ∃ a, space.contains a = true ∧ last.contains a = true := by
  intro space lastTwo last
  have made : ofPrefix 0 0 = .ok space := by decide
  have two : ofPrefix 0xFFFFFFFE 31 = .ok lastTwo := by decide
  have one : ofPrefix 0xFFFFFFFF 32 = .ok last := by decide
  obtain ⟨-, unwrapped, hosts⟩ := prefixHosts 0 0
  rw [made] at unwrapped
  obtain ⟨holds, -, size, -, overlap⟩ := hosts space made
  have inner : space.contains 0xFFFFFFFE = true := by decide
  have apart : ¬ space.overlaps last = true := by decide
  refine ⟨made, two, one, unwrapped, size, ((holds _).mp inner).2 (by decide) |>.2, ?_, ?_⟩
  · exact (overlap _ _ _ two).mp (by decide)
  · exact fun shared => apart ((overlap _ _ _ one).mpr shared)

end TlsCensus.Block
