import TlsCensus.Proofs.Shards
import Mathlib.Algebra.Ring.Nat

/-! Every sweep that calls lead to is coherent: what its fields say of one another holds in
whatever order the cap was set, blocks were added, shards were cut and addresses were taken.
So the errors that report a broken invariant are never answered, and the sum that makes an
address stays inside the block it is made from. -/
namespace TlsCensus

namespace Block
variable {low : Nat} {bs : List Block}

theorem totalSum (bs : List Block) : total bs = (bs.map size).sum := by
  induction bs with
  | nil => rfl
  | cons b rest ih => simp [total, ih]

theorem laidApart (laid : Laid low bs) : bs.Pairwise fun b c => b.last < c.first := by
  induction laid with
  | nil => exact .nil
  | @cons low b rest start nonempty tail ih =>
    refine List.pairwise_cons.mpr ⟨?_, ih⟩
    intro c mem
    have behind := (laidBounds tail mem).1
    rw [UInt32.lt_iff_toNat_lt]
    omega

/- The block a position falls into and the place in it. The address there is a sum of numbers,
so the sum of the words has not wrapped. -/
theorem atPlace (laid : Laid low bs) {position : Nat} {a : UInt32} (found : at? bs position = some a) :
    ∃ before b after i, bs = before ++ b :: after ∧ position = total before + i ∧ i < b.size ∧
      a.toNat = b.first.toNat + i ∧ a ≤ b.last := by
  induction laid generalizing position with
  | nil => simp [at?] at found
  | @cons low b rest start nonempty tail ih =>
    rw [at?] at found
    split at found
    · rename_i inside
      have value := positionValue nonempty inside
      have size := sizeValue nonempty
      rw [Option.some.inj found] at value
      refine ⟨[], b, rest, position, rfl, by simp [total], inside, value, ?_⟩
      rw [UInt32.le_iff_toNat_le]
      omega
    · rename_i beyond
      obtain ⟨before, c, after, i, rfl, place, inside, value, last⟩ := ih found
      refine ⟨b :: before, c, after, i, rfl, ?_, inside, value, last⟩
      rw [total]
      omega

end Block

namespace Sweep

structure Coherent (s : Sweep) : Prop where
  nonempty : ∀ b ∈ s.blocks, b.first ≤ b.last
  ascending : s.blocks.Pairwise fun b c => b.first < c.first
  disjoint : s.blocks.Pairwise fun b c => ∀ a, b.contains a = true → c.contains a = false
  total : s.total = (s.blocks.map Block.size).sum
  word : s.total ≤ 2 ^ 32
  permuted : s.permutation.isSome = true ↔ s.blocks ≠ []
  engine : ∀ p, s.permutation = some p →
    p.range.toNat = s.total ∧ p.seed = s.seed ∧ p.network = .covering p.range s.rounds ∧ p.cap = s.cap
  start : s.start ≤ s.cursor
  cursor : s.cursor ≤ s.stop
  stop : s.stop ≤ s.total

section Calls
variable {s : Sweep} (sound : s.Sound)
include sound

theorem soundCoherent : s.Coherent := by
  have apart := Block.laidApart sound.laid
  have bounds {b : Block} (mem : b ∈ s.blocks) : b.first.toNat ≤ b.last.toNat := (Block.laidBounds sound.laid mem).2
  refine ⟨?_, ?_, ?_, ?_, sound.totalBound, ?_, ?_, sound.start, sound.cursor, sound.stop⟩
  · exact fun b mem => UInt32.le_iff_toNat_le.mpr (bounds mem)
  · refine apart.imp_of_mem ?_
    intro b c left _ behind
    exact UInt32.lt_of_le_of_lt (UInt32.le_iff_toNat_le.mpr (bounds left)) behind
  · refine apart.imp ?_
    intro b c behind a inside
    have last := (Block.containsValue.mp inside).2
    have first := UInt32.lt_iff_toNat_lt.mp behind
    rw [Bool.eq_false_iff]
    intro other
    have := (Block.containsValue.mp other).1
    omega
  · rw [sound.total, Block.totalSum]
  · rw [sound.permutation]
    cases s.blocks <;> simp
  · intro p permutes
    refine ⟨(sound.engineCovered permutes).2, ?_⟩
    rw [sound.permutationMade permutes]
    exact ⟨rfl, rfl, rfl⟩

theorem nextErrors {e : SweepError} (failed : s.next.1 = .error e) :
    (e = .noRanges ∧ s.blocks = []) ∨ (e = .exhausted ∧ s.cursor = s.stop) ∨
      e = .permutation (.walkTooLong s.cursor.toUInt64 s.cap) := by
  cases left : s.finished with
  | false =>
    obtain ⟨p, permutes, ⟨a, -, same⟩ | ⟨-, same⟩⟩ := nextCases sound left
    · rw [same] at failed
      contradiction
    · rw [same, sound.permutationMade permutes] at failed
      exact .inr (.inr (Except.error.inj failed).symm)
  | true =>
    cases filled : s.blocks.isEmpty with
    | true =>
      have absent : s.permutation = none := by rw [sound.permutation, if_pos filled]
      simp only [next, absent] at failed
      exact .inl ⟨(Except.error.inj failed).symm, List.isEmpty_iff.mp filled⟩
    | false =>
      simp only [next, sound.permutes filled, left] at failed
      have past : s.stop ≤ s.cursor := by simpa [finished] using left
      exact .inr (.inl ⟨(Except.error.inj failed).symm, Nat.le_antisymm sound.cursor past⟩)

theorem nextPlace {a : UInt32} (taken : s.next.1 = .ok a) : ∃ p index, s.permutation = some p ∧
    p.shuffle s.cursor.toUInt64 = .ok index ∧ ∃ before b after i, s.blocks = before ++ b :: after ∧
      index.toNat = Block.total before + i ∧ i < b.size ∧ a.toNat = b.first.toNat + i ∧ a ≤ b.last := by
  cases left : s.finished with
  | false =>
    obtain ⟨p, permutes, ⟨b, found, same⟩ | ⟨-, same⟩⟩ := nextCases sound left
    · rw [same] at taken
      cases taken
      unfold addressAt at found
      split at found <;> try contradiction
      rename_i index shuffled
      exact ⟨p, index, permutes, shuffled, Block.atPlace sound.laid found⟩
    · rw [same] at taken
      contradiction
  | true =>
    unfold next at taken
    split at taken <;> simp [left] at taken

theorem addPrefixErrors {address : UInt32} {length : UInt8} {e : SweepError}
    (failed : (s.addPrefix address length).1 = .error e) :
    (∃ cause, e = .badPrefix cause) ∨ ∃ new existing, e = .overlap new existing := by
  rcases addPrefixCases s address length with ⟨cause, -, same⟩ | ⟨block, made, same⟩ <;> rw [same] at failed
  · exact .inl ⟨cause, (Except.error.inj failed).symm⟩
  · rcases addBlockCases sound (Block.prefixNonempty made) with ⟨existing, -, -, refused⟩ | ⟨-, laid⟩
    · rw [refused] at failed
      exact .inr ⟨block, existing, (Except.error.inj failed).symm⟩
    · rw [laid] at failed
      contradiction

theorem addErrors {addition : Addition} {e : SweepError} (failed : (s.add addition).1 = .error e) :
    (∃ text, e = .badCidr text) ∨ (∃ cause, e = .badPrefix cause) ∨ ∃ new existing, e = .overlap new existing := by
  cases addition with
  | address address length => exact .inr (addPrefixErrors sound failed)
  | cidr text =>
    simp only [add, addCidr] at failed
    split at failed
    · exact .inl ⟨_, (Except.error.inj failed).symm⟩
    · exact .inr (addPrefixErrors sound failed)

end Calls

theorem shardErrors {s : Sweep} {count i : Nat} {e : SweepError} (failed : s.shard count i = .error e) :
    (e = .badShard i count ∧ count ≤ i) ∨ (e = .noRanges ∧ s.blocks = []) := by
  by_cases beyond : count ≤ i
  · rw [shard, if_pos (.inr beyond)] at failed
    exact .inl ⟨(Except.error.inj failed).symm, beyond⟩
  · cases filled : s.blocks.isEmpty with
    | true =>
      rw [shard, if_neg (by omega), if_pos filled] at failed
      exact .inr ⟨(Except.error.inj failed).symm, List.isEmpty_iff.mp filled⟩
    | false =>
      rw [shardOk filled (by omega)] at failed
      contradiction

theorem builtCoherent {s : Sweep} (built : s.Built) : s.Coherent ∧
    (∀ a, s.next.1 = .ok a → ∃ p index, s.permutation = some p ∧ p.shuffle s.cursor.toUInt64 = .ok index ∧
      ∃ before b after i, s.blocks = before ++ b :: after ∧ index.toNat = Block.total before + i ∧
        i < b.size ∧ a.toNat = b.first.toNat + i ∧ a ≤ b.last) ∧
    (∀ e, s.next.1 = .error e → (e = .noRanges ∧ s.blocks = []) ∨ (e = .exhausted ∧ s.cursor = s.stop) ∨
      e = .permutation (.walkTooLong s.cursor.toUInt64 s.cap)) ∧
    (∀ count i e, s.shard count i = .error e →
      (e = .badShard i count ∧ count ≤ i) ∨ (e = .noRanges ∧ s.blocks = [])) ∧
    ∀ addition e, (s.add addition).1 = .error e →
      (∃ text, e = .badCidr text) ∨ (∃ cause, e = .badPrefix cause) ∨ ∃ new existing, e = .overlap new existing := by
  have sound := built.sound
  refine ⟨soundCoherent sound, ?_, ?_, ?_, ?_⟩
  · exact fun a => nextPlace sound
  · exact fun e => nextErrors sound
  · exact fun count i e => shardErrors
  · exact fun addition e => addErrors sound

theorem shardOfShardCoherent :
    let base := (new 3 1).addAll [.cidr "10.0.0.0/30", .cidr "10.0.0.9"]
    let whole := (base.withCap 9).next.2
    let shard := whole.cutAt 2 1
    let last := shard.next.2.cutAt 3 2
    whole.shard 2 1 = .ok shard ∧ shard.next.2.shard 3 2 = .ok last ∧ last.Built ∧ last.Coherent ∧
    (last.start, last.stop, last.total, last.cap) = (2, 3, 3, 9) ∧
    ∃ a, last.next.1 = .ok a ∧ ∃ b ∈ last.blocks, ∃ i < b.size, a.toNat = b.first.toNat + i := by
  intro base whole shard last
  have run : whole.blocks.isEmpty = false ∧ shard.next.2.blocks.isEmpty = false ∧
      (last.start, last.stop, last.total, last.cap) = (2, 3, 3, 9) ∧ last.next.1.isOk = true := by decide +kernel
  obtain ⟨filled, still, fields, taken⟩ := run
  have first : whole.shard 2 1 = .ok shard := shardOk filled (by decide)
  have second : shard.next.2.shard 3 2 = .ok last := shardOk still (by decide)
  have ranged : base.Built := .added _ (.added _ (.new 3 1))
  have built : last.Built := .cut (.moved (.cut (.moved (.capped 9 ranged)) first)) second
  obtain ⟨coherent, placed, -⟩ := builtCoherent built
  cases answer : last.next.1 with
  | error e =>
    rw [answer] at taken
    contradiction
  | ok a =>
    obtain ⟨p, index, -, -, before, b, after, i, blocks, -, inside, value, -⟩ := placed a answer
    exact ⟨first, second, built, coherent, fields, a, rfl, b, by simp [blocks], i, inside, value⟩

end Sweep
end TlsCensus
