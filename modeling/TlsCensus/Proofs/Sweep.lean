import TlsCensus.Address.Sweep
import TlsCensus.Proofs.Blocks
import TlsCensus.Proofs.Permutation

/-! What every sweep keeps: its blocks ascend and stay apart, its permutation is the one of
their total, and its cursor stays in a window of the space. Adding either is refused and
changes nothing or lays one more block; taking an address either moves the cursor by one or
fails in the walk and moves nothing. -/
namespace TlsCensus

theorem Block.totalInsert (b : Block) (bs : List Block) : total (b.insertSorted bs) = b.size + total bs := by
  induction bs with
  | nil => rfl
  | cons c rest ih =>
    simp only [insertSorted]
    split
    · rfl
    · rw [total, ih, total]
      omega

namespace Sweep

structure Sound (s : Sweep) : Prop where
  laid : Block.Laid 0 s.blocks
  total : s.total = Block.total s.blocks
  permutation : s.permutation = if s.blocks.isEmpty then none
    else some ⟨s.total.toUInt64, s.seed, .covering s.total.toUInt64 s.rounds, s.cap⟩
  start : s.start ≤ s.cursor
  cursor : s.cursor ≤ s.stop
  stop : s.stop ≤ s.total

theorem Sound.totalBound {s : Sweep} (sound : s.Sound) : s.total ≤ 2 ^ 32 := by
  have := Block.laidTotal sound.laid (by omega)
  rw [sound.total]
  omega

theorem wordValue {n : Nat} (word : n ≤ 2 ^ 32) : n.toUInt64.toNat = n := by
  rw [Nat.toUInt64, UInt64.toNat_ofNat', Nat.mod_eq_of_lt (by omega)]

theorem soundNew (seed : UInt64) (rounds : UInt32) : (new seed rounds).Sound :=
  ⟨.nil 0, rfl, rfl, Nat.le_refl _, Nat.le_refl _, Nat.le_refl _⟩

theorem soundWithCap {s : Sweep} (sound : s.Sound) (cap : UInt32) : (s.withCap cap).Sound := by
  refine ⟨sound.laid, sound.total, ?_, sound.start, sound.cursor, sound.stop⟩
  simp only [withCap, sound.permutation]
  split <;> rfl

def grow (s : Sweep) (block : Block) : Sweep :=
  let blocks := block.insertSorted s.blocks
  let total := Block.total blocks
  { s with
    blocks := blocks
    total := total
    permutation := some ⟨total.toUInt64, s.seed, .covering total.toUInt64 s.rounds, s.cap⟩
    cursor := 0
    start := 0
    stop := total }

theorem soundGrow {s : Sweep} (sound : s.Sound) {block : Block} (nonempty : block.first.toNat ≤ block.last.toNat)
    (apart : ∀ c ∈ s.blocks, c.overlaps block = false) : (s.grow block).Sound := by
  have filled : (block.insertSorted s.blocks).isEmpty = false := by
    have length := (Block.insertPerm block s.blocks).length_eq
    cases inserted : block.insertSorted s.blocks with
    | nil => simp [inserted] at length
    | cons c rest => rfl
  refine ⟨Block.laidInsert sound.laid (Nat.zero_le _) nonempty apart, rfl, ?_,
    Nat.le_refl _, Nat.zero_le _, Nat.le_refl _⟩
  simp [grow, filled]

theorem addBlockCases {s : Sweep} (sound : s.Sound) {block : Block} (nonempty : block.first.toNat ≤ block.last.toNat) :
    (∃ existing ∈ s.blocks, existing.overlaps block = true ∧
      s.addBlock block = (.error (.overlap block existing), s)) ∨
    ((∀ c ∈ s.blocks, c.overlaps block = false) ∧ s.addBlock block = (.ok (), s.grow block)) := by
  cases found : s.blocks.find? (·.overlaps block) with
  | some existing =>
    have overlaps : existing.overlaps block = true := by simpa using List.find?_some found
    refine .inl ⟨existing, List.mem_of_find?_eq_some found, overlaps, ?_⟩
    simp only [addBlock, found]
  | none =>
    have apart : ∀ c ∈ s.blocks, c.overlaps block = false := by
      intro c mem
      simpa using List.find?_eq_none.mp found c mem
    have grown := soundGrow sound nonempty apart
    have positive : 0 < Block.total (block.insertSorted s.blocks) := by
      rw [Block.totalInsert, Block.size]
      omega
    have nonzero : (Block.total (block.insertSorted s.blocks)).toUInt64 ≠ 0 := by
      intro zero
      have value := wordValue grown.totalBound
      rw [show (s.grow block).total = Block.total (block.insertSorted s.blocks) from rfl, zero] at value
      simp at value
      omega
    refine .inr ⟨apart, ?_⟩
    simp only [addBlock, found, Permutation.newOk _ _ nonzero]
    rfl

inductive Addition where
  | address (address : UInt32) (length : UInt8)
  | cidr (text : String)
  deriving DecidableEq, Repr

def add (s : Sweep) : Addition → Except SweepError Unit × Sweep
  | .address a length => s.addPrefix a length
  | .cidr text => s.addCidr text

def Addition.block? : Addition → Option Block
  | .address a length => (Block.ofPrefix a length).toOption
  | .cidr text => do
    let (a, length) ← readCidr (Text.trimChars text.toList)
    (Block.ofPrefix a length).toOption

theorem addPrefixCases (s : Sweep) (a : UInt32) (length : UInt8) :
    (∃ e, Block.ofPrefix a length = .error e ∧ s.addPrefix a length = (.error (.badPrefix e), s)) ∨
    ∃ block, Block.ofPrefix a length = .ok block ∧ s.addPrefix a length = s.addBlock block := by
  cases made : Block.ofPrefix a length with
  | error e => exact .inl ⟨e, rfl, by simp only [addPrefix, made]⟩
  | ok block => exact .inr ⟨block, rfl, by simp only [addPrefix, made]⟩

theorem addNamed (s : Sweep) (a : Addition) :
    (a.block? = none ∧ ∃ e, s.add a = (.error e, s)) ∨
    ∃ block, a.block? = some block ∧ block.first.toNat ≤ block.last.toNat ∧ s.add a = s.addBlock block := by
  have byPrefix (address : UInt32) (length : UInt8) :
      ((Block.ofPrefix address length).toOption = none ∧ ∃ e, s.addPrefix address length = (.error e, s)) ∨
      ∃ block, (Block.ofPrefix address length).toOption = some block ∧
        block.first.toNat ≤ block.last.toNat ∧ s.addPrefix address length = s.addBlock block := by
    rcases addPrefixCases s address length with ⟨e, made, same⟩ | ⟨block, made, same⟩
    · exact .inl ⟨by rw [made]; rfl, _, same⟩
    · exact .inr ⟨block, by rw [made]; rfl, Block.prefixNonempty made, same⟩
  cases a with
  | address a length => exact byPrefix a length
  | cidr text =>
    cases read : readCidr (Text.trimChars text.toList) with
    | none => exact .inl ⟨by simp [Addition.block?, read], _, by simp only [add, addCidr, read]; rfl⟩
    | some pair =>
      have same : s.add (.cidr text) = s.addPrefix pair.1 pair.2 := by simp only [add, addCidr, read]
      have named : Addition.block? (.cidr text) = (Block.ofPrefix pair.1 pair.2).toOption := by
        simp [Addition.block?, read]
      rw [same, named]
      exact byPrefix pair.1 pair.2

theorem addCases {s : Sweep} (sound : s.Sound) (a : Addition) :
    (∃ e, s.add a = (.error e, s)) ∨
    ∃ block, a.block? = some block ∧ s.add a = (.ok (), s.grow block) ∧ (s.grow block).Sound := by
  rcases addNamed s a with ⟨-, e, same⟩ | ⟨block, named, nonempty, same⟩
  · exact .inl ⟨e, same⟩
  · rcases addBlockCases sound nonempty with ⟨existing, -, -, refused⟩ | ⟨apart, laid⟩
    · exact .inl ⟨_, same.trans refused⟩
    · exact .inr ⟨block, named, same.trans laid, soundGrow sound nonempty apart⟩

def addAll (s : Sweep) (additions : List Addition) : Sweep :=
  additions.foldl (fun s a => (s.add a).2) s

def accepted (s : Sweep) : List Addition → List Block
  | [] => []
  | a :: rest =>
    match s.add a with
    | (.ok (), after) => a.block?.toList ++ accepted after rest
    | (.error _, after) => accepted after rest

theorem addAllSound {s : Sweep} (sound : s.Sound) (additions : List Addition) :
    (s.addAll additions).Sound ∧ (s.addAll additions).blocks.Perm (s.accepted additions ++ s.blocks) := by
  induction additions generalizing s with
  | nil => exact ⟨sound, .refl _⟩
  | cons a rest ih =>
    rcases addCases sound a with ⟨e, same⟩ | ⟨block, named, same, grown⟩
    · simp only [addAll, List.foldl_cons, accepted, same]
      exact ih sound
    · simp only [addAll, List.foldl_cons, accepted, same, named]
      obtain ⟨laid, perm⟩ := ih grown
      refine ⟨laid, perm.trans ?_⟩
      have inserted := (Block.insertPerm block s.blocks).append_left ((s.grow block).accepted rest)
      exact inserted.trans List.perm_middle

section Next
variable {s : Sweep} (sound : s.Sound)

def addressAt (p : Permutation) (blocks : List Block) (position : Nat) : Option UInt32 :=
  match p.shuffle position.toUInt64 with
  | .ok index => Block.at? blocks index.toNat
  | .error _ => none

include sound

theorem Sound.blocksFilled (left : s.finished = false) : s.blocks.isEmpty = false := by
  have below : s.cursor < s.stop := by simpa [finished] using left
  have := sound.stop
  cases blocks : s.blocks with
  | nil =>
    have := sound.total
    rw [blocks, Block.total] at this
    omega
  | cons b rest => rfl

theorem Sound.permutes (filled : s.blocks.isEmpty = false) :
    s.permutation = some ⟨s.total.toUInt64, s.seed, .covering s.total.toUInt64 s.rounds, s.cap⟩ := by
  rw [sound.permutation, filled]
  rfl

theorem Sound.permutationMade {p : Permutation} (permutes : s.permutation = some p) :
    p = ⟨s.total.toUInt64, s.seed, .covering s.total.toUInt64 s.rounds, s.cap⟩ := by
  have known := sound.permutation
  rw [permutes] at known
  split at known <;> cases known
  rfl

theorem Sound.engineCovered {p : Permutation} (permutes : s.permutation = some p) : p.Covered ∧ p.range.toNat = s.total := by
  rw [sound.permutationMade permutes]
  exact ⟨Permutation.coveringCovered _ _ _ _, wordValue sound.totalBound⟩

theorem landedAddress {p : Permutation} (permutes : s.permutation = some p) {i v : UInt64} (shuffled : p.shuffle i = .ok v) :
    ∃ a, Block.at? s.blocks v.toNat = some a := by
  obtain ⟨covered, total⟩ := sound.engineCovered permutes
  have below := UInt64.lt_iff_toNat_lt.mp (Permutation.shuffleLands covered _ shuffled).2.1
  have within : v.toNat < (Block.span s.blocks).length := by rw [Block.spanLength, ← sound.total]; omega
  rw [Block.atSpan]
  exact ⟨_, List.getElem?_eq_getElem within⟩

/- The walk starts inside the range, and only its length can fail. -/
theorem nextCases (left : s.finished = false) : ∃ p, s.permutation = some p ∧
    ((∃ a, addressAt p s.blocks s.cursor = some a ∧ s.next = (.ok a, { s with cursor := s.cursor + 1 })) ∨
      (addressAt p s.blocks s.cursor = none ∧
        s.next = (.error (.permutation (.walkTooLong s.cursor.toUInt64 p.cap)), s))) := by
  have below : s.cursor < s.stop := by simpa [finished] using left
  obtain ⟨p, permutes⟩ : ∃ p, s.permutation = some p := ⟨_, sound.permutes (sound.blocksFilled left)⟩
  have stop := sound.stop
  obtain ⟨covered, total⟩ := sound.engineCovered permutes
  refine ⟨p, permutes, ?_⟩
  have inside : ¬ p.range ≤ s.cursor.toUInt64 := by
    have word := sound.totalBound
    rw [UInt64.le_iff_toNat_le, total, wordValue (by omega)]
    omega
  cases shuffled : p.shuffle s.cursor.toUInt64 with
  | ok index =>
    obtain ⟨a, found⟩ := landedAddress sound permutes shuffled
    refine .inl ⟨a, by simp only [addressAt, shuffled]; exact found, ?_⟩
    simp only [next, permutes, left, shuffled, found]
    rfl
  | error e =>
    have long : e = .walkTooLong s.cursor.toUInt64 p.cap := by
      rw [Permutation.shuffle, Permutation.shuffleBy, Permutation.walk, if_neg inside] at shuffled
      split at shuffled <;> cases shuffled
      rfl
    refine .inr ⟨by simp only [addressAt, shuffled], ?_⟩
    simp only [next, permutes, left, shuffled, long]
    rfl

theorem soundNext : s.next.2.Sound := by
  cases left : s.finished with
  | true =>
    unfold next
    split
    · exact sound
    · simpa [left] using sound
  | false =>
    have below : s.cursor < s.stop := by simpa [finished] using left
    obtain ⟨p, -, ⟨a, -, same⟩ | ⟨-, same⟩⟩ := nextCases sound left
    · rw [same]
      exact ⟨sound.laid, sound.total, sound.permutation, Nat.le_succ_of_le sound.start, below, sound.stop⟩
    · rw [same]
      exact sound

theorem addressInjective {p : Permutation} (permutes : s.permutation = some p) {i j : Nat} {a : UInt32}
    (first : i < s.total) (second : j < s.total)
    (left : addressAt p s.blocks i = some a) (right : addressAt p s.blocks j = some a) : i = j := by
  have word := sound.totalBound
  have covered := (sound.engineCovered permutes).1
  unfold addressAt at left right
  split at left <;> try contradiction
  rename_i v shuffledLeft
  split at right <;> try contradiction
  rename_i w shuffledRight
  rw [Block.atSpan] at left right
  obtain ⟨insideLeft, valueLeft⟩ := List.getElem?_eq_some_iff.mp left
  obtain ⟨insideRight, valueRight⟩ := List.getElem?_eq_some_iff.mp right
  have same : v.toNat = w.toNat :=
    (List.Nodup.getElem_inj_iff (Block.spanNodup sound.laid)).mp (valueLeft.trans valueRight.symm)
  rw [UInt64.toNat_inj.mp same] at shuffledLeft
  have equal := congrArg UInt64.toNat (Permutation.shuffleInjective covered _ shuffledLeft shuffledRight)
  rwa [wordValue (by omega), wordValue (by omega)] at equal

end Next

theorem addressInside {p : Permutation} {blocks : List Block} {i : Nat} {a : UInt32}
    (found : addressAt p blocks i = some a) : a ∈ Block.span blocks := by
  unfold addressAt at found
  split at found <;> try contradiction
  rw [Block.atSpan] at found
  exact List.mem_of_getElem? found

end Sweep
end TlsCensus
