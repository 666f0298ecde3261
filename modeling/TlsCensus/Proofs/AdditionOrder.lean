import TlsCensus.Proofs.Coherence
import TlsCensus.Proofs.Refusals

/-! The order of additions does not matter. Whether all of them succeed is a question about the
blocks they name: each names one, and no two of them overlap. The blocks are then sorted by where
they begin, which leaves one list of them, and all else in a sweep follows from its blocks. -/
namespace TlsCensus

namespace Block

def Apart (b c : Block) : Prop := b.overlaps c = false

theorem apartSymm {b c : Block} (apart : b.Apart c) : c.Apart b := by
  rw [Apart, apartValue] at apart ⊢
  exact apart.symm

end Block

namespace Sweep

def Admits (s : Sweep) : List Addition → Prop
  | [] => True
  | a :: rest => (s.add a).1 = .ok () ∧ (s.add a).2.Admits rest

instance decidableAdmits (s : Sweep) : (additions : List Addition) → Decidable (s.Admits additions)
  | [] => isTrue trivial
  | a :: rest => @instDecidableAnd _ _ inferInstance (decidableAdmits (s.add a).2 rest)

def named (additions : List Addition) : List Block := additions.filterMap Addition.block?

section Admission
variable {s : Sweep} (sound : s.Sound)
include sound

theorem admitsIff (additions : List Addition) : s.Admits additions ↔ (∀ a ∈ additions, a.block? ≠ none) ∧
    (named additions).Pairwise Block.Apart ∧ ∀ b ∈ named additions, ∀ c ∈ s.blocks, c.Apart b := by
  induction additions generalizing s with
  | nil => simp [Admits, named]
  | cons a rest ih =>
    rcases addNamed s a with ⟨nameless, e, failed⟩ | ⟨block, asked, nonempty, same⟩
    · simp [Admits, failed, nameless]
    · have more : named (a :: rest) = block :: named rest := List.filterMap_cons_some asked
      rcases addBlockCases sound nonempty with ⟨existing, mem, overlaps, refused⟩ | ⟨apart, laid⟩
      · have touching : ¬ existing.Apart block := by simp [Block.Apart, overlaps]
        rw [Admits, same, refused, more]
        refine ⟨fun admitted => ?_, fun spaced => absurd (spaced.2.2 block List.mem_cons_self existing mem) touching⟩
        cases admitted.1
      · have laidBlocks (c : Block) : c ∈ (s.grow block).blocks ↔ c = block ∨ c ∈ s.blocks := by
          rw [grow, (Block.insertPerm block s.blocks).mem_iff, List.mem_cons]
        rw [Admits, same, laid, ih (soundGrow sound nonempty apart), more, List.pairwise_cons]
        simp only [laidBlocks, List.forall_mem_cons, forall_eq_or_imp, asked]
        constructor
        · rintro ⟨-, named, spaced, off⟩
          exact ⟨⟨Option.some_ne_none _, named⟩, ⟨fun b mem => (off b mem).1, spaced⟩, apart, fun b mem => (off b mem).2⟩
        · rintro ⟨⟨-, named⟩, ⟨beside, spaced⟩, -, off⟩
          exact ⟨trivial, named, spaced, fun b mem => ⟨beside b mem, off b mem⟩⟩

theorem admittedBlocks {additions : List Addition} (admitted : s.Admits additions) :
    s.accepted additions = named additions := by
  induction additions generalizing s with
  | nil => rfl
  | cons a rest ih =>
    obtain ⟨ok, later⟩ := admitted
    rcases addCases sound a with ⟨e, failed⟩ | ⟨block, asked, grown, laid⟩
    · rw [failed] at ok
      contradiction
    · rw [grown] at later
      rw [accepted, grown, named, List.filterMap_cons_some asked, asked]
      exact congrArg (block :: ·) (ih laid later)

theorem addAllKeeps (whole : s.start = 0 ∧ s.cursor = 0 ∧ s.stop = s.total) (additions : List Addition) :
    (s.addAll additions).seed = s.seed ∧ (s.addAll additions).rounds = s.rounds ∧ (s.addAll additions).cap = s.cap ∧
    (s.addAll additions).start = 0 ∧ (s.addAll additions).cursor = 0 ∧
    (s.addAll additions).stop = (s.addAll additions).total := by
  induction additions generalizing s with
  | nil => exact ⟨rfl, rfl, rfl, whole⟩
  | cons a rest ih =>
    rw [addAll, List.foldl_cons]
    rcases addCases sound a with ⟨e, same⟩ | ⟨block, -, same, grown⟩ <;> rw [same]
    · exact ih sound whole
    · exact ih grown ⟨rfl, rfl, rfl⟩

end Admission

theorem soundUnique {s t : Sweep} (left : s.Sound) (right : t.Sound) (perm : s.blocks.Perm t.blocks)
    (params : s.seed = t.seed ∧ s.rounds = t.rounds ∧ s.cap = t.cap)
    (whole : s.start = 0 ∧ s.cursor = 0 ∧ s.stop = s.total) (whole' : t.start = 0 ∧ t.cursor = 0 ∧ t.stop = t.total) :
    s = t := by
  have blocks : s.blocks = t.blocks := by
    refine List.Perm.eq_of_pairwise ?_ (soundCoherent left).ascending (soundCoherent right).ascending perm
    intro b c _ _ less more
    exact absurd less (UInt32.lt_asymm more)
  have total : s.total = t.total := by rw [left.total, right.total, blocks]
  obtain ⟨seed, rounds, cap⟩ := params
  have permutation : s.permutation = t.permutation := by
    rw [left.permutation, right.permutation, blocks, total, seed, rounds, cap]
  obtain ⟨start, cursor, stop⟩ := whole
  obtain ⟨start', cursor', stop'⟩ := whole'
  cases s
  cases t
  simp only at *
  simp only [blocks, total, seed, rounds, cap, permutation, cursor, cursor', start, start', stop, stop']

theorem additionsInAnyOrder (seed : UInt64) (rounds cap : UInt32) {additions reordered : List Addition}
    (perm : additions.Perm reordered) :
    let fresh := (new seed rounds).withCap cap
    (fresh.Admits additions ↔ fresh.Admits reordered) ∧
    (fresh.Admits additions → fresh.addAll additions = fresh.addAll reordered ∧
      ∀ cs, (fresh.addAll additions).calls cs = (fresh.addAll reordered).calls cs) := by
  intro fresh
  have sound : fresh.Sound := soundWithCap (soundNew seed rounds) cap
  have asked : (named additions).Perm (named reordered) := perm.filterMap _
  have both : fresh.Admits additions ↔ fresh.Admits reordered := by
    rw [admitsIff sound, admitsIff sound, asked.pairwise_iff Block.apartSymm]
    simp only [perm.mem_iff, asked.mem_iff]
  refine ⟨both, fun admitted => ?_⟩
  obtain ⟨left, laid⟩ := addAllSound sound additions
  obtain ⟨right, laid'⟩ := addAllSound sound reordered
  rw [admittedBlocks sound admitted] at laid
  rw [admittedBlocks sound (both.mp admitted)] at laid'
  obtain ⟨seed, rounds, cap, whole⟩ := addAllKeeps sound ⟨rfl, rfl, rfl⟩ additions
  obtain ⟨seed', rounds', cap', whole'⟩ := addAllKeeps sound ⟨rfl, rfl, rfl⟩ reordered
  have same := soundUnique left right (laid.trans ((asked.append_right _).trans laid'.symm))
    ⟨seed.trans seed'.symm, rounds.trans rounds'.symm, cap.trans cap'.symm⟩ whole whole'
  exact ⟨same, fun cs => by rw [same]⟩

theorem threeAdditionsReversed :
    let fresh := (new 3 1).withCap 9
    let additions := [.cidr "10.0.0.128/25", .address 0x0A000009 32, .cidr "10.0.0.0/30"]
    additions.Perm additions.reverse ∧ fresh.Admits additions ∧ fresh.Admits additions.reverse ∧
    fresh.addAll additions.reverse = fresh.addAll additions ∧
    ((fresh.addAll additions.reverse).calls [.next, .shard 2 1]).1 =
      ((fresh.addAll additions).calls [.next, .shard 2 1]).1 := by
  intro fresh additions
  have perm : additions.Perm additions.reverse := (List.reverse_perm additions).symm
  have admitted : fresh.Admits additions := by decide +kernel
  obtain ⟨both, equal⟩ := additionsInAnyOrder 3 1 9 perm
  obtain ⟨same, answers⟩ := equal admitted
  exact ⟨perm, admitted, both.mp admitted, same.symm, congrArg Prod.fst (answers _).symm⟩

end Sweep
end TlsCensus
