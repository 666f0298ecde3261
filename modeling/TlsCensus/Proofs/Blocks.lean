import TlsCensus.Address.Block
import Mathlib.Algebra.Group.Nat.Defs
import Mathlib.Data.List.Nodup

/-! Blocks laid in ascending order and apart from one another. Inserting a block that
overlaps none keeps them so; laid end to end their positions are exactly the addresses
they contain, each once, and there are no more of them than addresses. -/
namespace TlsCensus.Block

section Prefix
variable {address : UInt32} {length : UInt8}

def spare (length : UInt8) : Nat := if 31 ≤ length.toNat then 0 else 1

theorem shortIff : ¬ 32 < length ↔ length.toNat ≤ 32 := by
  rw [UInt8.lt_iff_toNat_lt]
  exact Nat.not_lt

theorem hostMaskValue (short : length.toNat ≤ 32) :
    (hostMask length).toNat = 2 ^ (32 - length.toNat) - 1 := by
  by_cases zero : length = 0
  · simp [hostMask, zero]
  · have positive : 0 < length.toNat := by
      have : length.toNat ≠ 0 := fun same => zero (UInt8.toNat_inj.mp (by simpa using same))
      omega
    have difference : (32 - length).toNat = 32 - length.toNat := by
      rw [UInt8.toNat_sub_of_le]
      · rfl
      · exact UInt8.le_iff_toNat_le.mpr short
    have one : 2 ^ (32 - length.toNat) ≤ 2 ^ 31 := Nat.pow_le_pow_right (by omega) (by omega)
    have some : 0 < 2 ^ (32 - length.toNat) := Nat.two_pow_pos _
    have shifted : ((1 : UInt32) <<< (32 - length).toUInt32).toNat = 2 ^ (32 - length.toNat) := by
      rw [UInt32.toNat_shiftLeft, UInt8.toNat_toUInt32, difference, Nat.mod_eq_of_lt (by omega : _ < 32),
        UInt32.toNat_one, Nat.shiftLeft_eq, Nat.one_mul, Nat.mod_eq_of_lt (by omega)]
    rw [hostMask, if_neg zero, UInt32.toNat_sub_of_le, shifted]
    · rfl
    · rw [UInt32.le_iff_toNat_le, shifted]
      exact some

theorem hostBitsValue (short : length.toNat ≤ 32) :
    (address &&& hostMask length).toNat = address.toNat % 2 ^ (32 - length.toNat) := by
  rw [UInt32.toNat_and, hostMaskValue short, Nat.and_two_pow_sub_one_eq_mod]

theorem lastAddressValue (short : length.toNat ≤ 32) (aligned : address.toNat % 2 ^ (32 - length.toNat) = 0) :
    (address ||| hostMask length).toNat + 1 = address.toNat + 2 ^ (32 - length.toNat) := by
  have some : 0 < 2 ^ (32 - length.toNat) := Nat.two_pow_pos _
  obtain ⟨q, same⟩ := Nat.dvd_of_mod_eq_zero aligned
  have below : 2 ^ (32 - length.toNat) - 1 < 2 ^ (32 - length.toNat) := by omega
  rw [UInt32.toNat_or, hostMaskValue short, same, Nat.mul_comm, ← Nat.shiftLeft_eq,
    ← Nat.shiftLeft_add_eq_or_of_lt below]
  omega

/- A prefix of length 30 or less holds at least four addresses, so that both ends may go. -/
theorem prefixOk {b : Block} (made : ofPrefix address length = .ok b) :
    length.toNat ≤ 32 ∧ address.toNat % 2 ^ (32 - length.toNat) = 0 ∧
      b.first.toNat = address.toNat + spare length ∧
      b.last.toNat + spare length + 1 = address.toNat + 2 ^ (32 - length.toNat) := by
  unfold ofPrefix at made
  split at made <;> try contradiction
  rename_i notLong
  have short : length.toNat ≤ 32 := shortIff.mp notLong
  split at made <;> try contradiction
  rename_i masked
  have aligned : address.toNat % 2 ^ (32 - length.toNat) = 0 := by
    rw [← hostBitsValue short, Decidable.of_not_not masked]
    rfl
  have last := lastAddressValue short aligned
  refine ⟨short, aligned, ?_⟩
  dsimp only at made
  split at made <;> cases Except.ok.inj made <;> rename_i long
  · have whole : 31 ≤ length.toNat := by simpa using UInt8.le_iff_toNat_le.mp long
    simp only [spare, if_pos whole]
    exact ⟨rfl, last⟩
  · have split : ¬ 31 ≤ length.toNat := by simpa [UInt8.lt_iff_toNat_lt] using long
    have four : 2 ^ 2 ≤ 2 ^ (32 - length.toNat) := Nat.pow_le_pow_right (by omega) (by omega)
    have word := (address ||| hostMask length).toNat_lt
    simp only [spare, if_neg split]
    constructor
    · rw [UInt32.toNat_add, UInt32.toNat_one, Nat.mod_eq_of_lt (by omega)]
    · rw [UInt32.toNat_sub_of_le _ _ (by rw [UInt32.le_iff_toNat_le, UInt32.toNat_one]; omega), UInt32.toNat_one]
      omega

theorem prefixNonempty {b : Block} (made : ofPrefix address length = .ok b) :
    b.first.toNat ≤ b.last.toNat := by
  obtain ⟨short, -, first, last⟩ := prefixOk made
  by_cases whole : 31 ≤ length.toNat
  · have some : 0 < 2 ^ (32 - length.toNat) := Nat.two_pow_pos _
    simp only [spare, if_pos whole] at first last
    omega
  · have four : 2 ^ 2 ≤ 2 ^ (32 - length.toNat) := Nat.pow_le_pow_right (by omega) (by omega)
    simp only [spare, if_neg whole] at first last
    omega

end Prefix

inductive Laid : Nat → List Block → Prop where
  | nil (low) : Laid low []
  | cons {low b rest} : low ≤ b.first.toNat → b.first.toNat ≤ b.last.toNat →
      Laid (b.last.toNat + 1) rest → Laid low (b :: rest)

theorem laidBounds {low bs} (laid : Laid low bs) {b} (mem : b ∈ bs) :
    low ≤ b.first.toNat ∧ b.first.toNat ≤ b.last.toNat := by
  induction laid with
  | nil => simp at mem
  | cons start nonempty rest ih =>
    rcases List.mem_cons.mp mem with rfl | later
    · exact ⟨start, nonempty⟩
    · have := ih later
      omega

theorem sizeValue {b : Block} (nonempty : b.first.toNat ≤ b.last.toNat) :
    b.size = b.last.toNat + 1 - b.first.toNat := by
  rw [size, UInt32.toNat_sub_of_le _ _ (UInt32.le_iff_toNat_le.mpr nonempty)]
  omega

theorem laidTotal {low bs} (laid : Laid low bs) (word : low ≤ 2 ^ 32) : low + total bs ≤ 2 ^ 32 := by
  induction laid with
  | nil => simpa [total] using word
  | @cons low b rest start nonempty tail ih =>
    have := ih b.last.toNat_lt
    rw [total, sizeValue nonempty]
    omega

theorem containsValue {b : Block} {a : UInt32} :
    b.contains a = true ↔ b.first.toNat ≤ a.toNat ∧ a.toNat ≤ b.last.toNat := by
  simp [contains, UInt32.le_iff_toNat_le]

theorem apartValue {b c : Block} :
    c.overlaps b = false ↔ b.last.toNat < c.first.toNat ∨ c.last.toNat < b.first.toNat := by
  simp only [overlaps, Bool.and_eq_false_iff, decide_eq_false_iff_not, UInt32.le_iff_toNat_le]
  omega

theorem insertPerm (b : Block) (bs : List Block) : (b.insertSorted bs).Perm (b :: bs) := by
  induction bs with
  | nil => exact .refl _
  | cons c rest ih =>
    simp only [insertSorted]
    split
    · exact .refl _
    · exact (ih.cons c).trans (.swap b c rest)

theorem orderGT {b c : Block} (greater : (c.order b).isGT = true) : b.first.toNat ≤ c.first.toNat := by
  by_contra less
  have first : compare c.first b.first = .lt := if_pos (UInt32.lt_iff_toNat_lt.mpr (by omega))
  simp [order, first] at greater

theorem orderNotGT {b c : Block} (smaller : (c.order b).isGT = false) : c.first.toNat ≤ b.first.toNat := by
  by_contra greater
  have notLess : ¬ c.first < b.first := by
    rw [UInt32.lt_iff_toNat_lt]
    omega
  have notSame : c.first ≠ b.first := by
    intro same
    rw [same] at greater
    omega
  have first : compare c.first b.first = .gt := by
    rw [show compare c.first b.first = compareOfLessAndEq c.first b.first from rfl, compareOfLessAndEq,
      if_neg notLess, if_neg notSame]
  simp [order, first] at smaller

theorem laidInsert {low bs} (laid : Laid low bs) {b : Block} (start : low ≤ b.first.toNat)
    (nonempty : b.first.toNat ≤ b.last.toNat) (apart : ∀ c ∈ bs, c.overlaps b = false) :
    Laid low (b.insertSorted bs) := by
  induction laid with
  | nil => exact .cons start nonempty (.nil _)
  | @cons low c rest first filled tail ih =>
    have gap := apartValue.mp (apart c List.mem_cons_self)
    cases behind : (c.order b).isGT with
    | true =>
      have := orderGT behind
      rw [insertSorted, if_pos behind]
      exact .cons start nonempty (.cons (by omega) filled tail)
    | false =>
      have := orderNotGT behind
      rw [insertSorted, behind]
      exact .cons first filled (ih (by omega) fun d mem => apart d (List.mem_cons_of_mem _ mem))

def addresses (b : Block) : List UInt32 := (List.range b.size).map fun i => b.first + i.toUInt32

def span (bs : List Block) : List UInt32 := bs.flatMap addresses

theorem atSpan (bs : List Block) (i : Nat) : at? bs i = (span bs)[i]? := by
  induction bs generalizing i with
  | nil => rfl
  | cons b rest ih =>
    have length : b.addresses.length = b.size := by simp [addresses]
    rw [at?, span, List.flatMap_cons]
    split
    · rename_i inside
      rw [List.getElem?_append_left (by omega)]
      simp [addresses, inside]
    · rename_i beyond
      rw [List.getElem?_append_right (by omega), length, ih]
      rfl

theorem spanLength (bs : List Block) : (span bs).length = total bs := by
  induction bs with
  | nil => rfl
  | cons b rest ih =>
    rw [span, List.flatMap_cons, List.length_append, total, ← ih]
    simp [addresses, span]

theorem positionValue {b : Block} (nonempty : b.first.toNat ≤ b.last.toNat) {i : Nat} (inside : i < b.size) :
    (b.first + i.toUInt32).toNat = b.first.toNat + i := by
  have word := b.last.toNat_lt
  rw [sizeValue nonempty] at inside
  rw [UInt32.toNat_add, Nat.toUInt32, UInt32.toNat_ofNat', Nat.mod_eq_of_lt (by omega : i < 2 ^ 32),
    Nat.mod_eq_of_lt (by omega)]

theorem memAddresses {b : Block} (nonempty : b.first.toNat ≤ b.last.toNat) {a : UInt32} :
    a ∈ b.addresses ↔ b.contains a = true := by
  have size := sizeValue nonempty
  rw [containsValue, addresses, List.mem_map]
  constructor
  · rintro ⟨i, mem, rfl⟩
    have inside := List.mem_range.mp mem
    rw [positionValue nonempty inside]
    omega
  · intro between
    refine ⟨a.toNat - b.first.toNat, List.mem_range.mpr (by omega), UInt32.toNat_inj.mp ?_⟩
    rw [positionValue nonempty (by omega)]
    omega

theorem addressesNodup {b : Block} (nonempty : b.first.toNat ≤ b.last.toNat) : b.addresses.Nodup := by
  apply List.Nodup.map_on ?_ List.nodup_range
  intro i left j right same
  have value := congrArg UInt32.toNat same
  rw [positionValue nonempty (List.mem_range.mp left), positionValue nonempty (List.mem_range.mp right)] at value
  omega

theorem memSpan {low bs} (laid : Laid low bs) {a : UInt32} : a ∈ span bs ↔ ∃ b ∈ bs, b.contains a = true := by
  rw [span, List.mem_flatMap]
  constructor
  · rintro ⟨b, mem, inside⟩
    exact ⟨b, mem, (memAddresses (laidBounds laid mem).2).mp inside⟩
  · rintro ⟨b, mem, inside⟩
    exact ⟨b, mem, (memAddresses (laidBounds laid mem).2).mpr inside⟩

theorem spanNodup {low bs} (laid : Laid low bs) : (span bs).Nodup := by
  induction laid with
  | nil => exact List.nodup_nil
  | @cons low b rest start nonempty tail ih =>
    rw [span, List.flatMap_cons, List.nodup_append]
    refine ⟨addressesNodup nonempty, ih, ?_⟩
    intro a here c there same
    obtain ⟨d, mem, inside⟩ := (memSpan tail).mp there
    have := (laidBounds tail mem).1
    have := containsValue.mp ((memAddresses nonempty).mp here)
    have := containsValue.mp inside
    subst same
    omega

theorem containedOnce {low bs} (laid : Laid low bs) {a : UInt32} (mem : a ∈ span bs) :
    bs.countP (·.contains a) = 1 := by
  induction laid with
  | nil => simp [span] at mem
  | @cons low b rest start nonempty tail ih =>
    rw [List.countP_cons]
    by_cases here : b.contains a = true
    · have elsewhere : rest.countP (·.contains a) = 0 := by
        rw [List.countP_eq_zero]
        intro c member inside
        have := (laidBounds tail member).1
        have := containsValue.mp here
        have := containsValue.mp inside
        omega
      rw [elsewhere, if_pos here]
    · have later : a ∈ span rest := by
        rw [span, List.flatMap_cons, List.mem_append, memAddresses nonempty] at mem
        exact mem.resolve_left here
      rw [ih later, if_neg here]

end TlsCensus.Block
