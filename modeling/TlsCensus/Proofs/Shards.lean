import TlsCensus.Probe.Scan
import TlsCensus.Proofs.Sweep
import Mathlib.Data.List.Perm.Subperm

/-! The shards of a sweep, driven in any order until each is over. Their windows cut the
positions of the space without gap or overlap, so what they return is pairwise distinct;
unless a walk was too long it is every address of the blocks. -/
namespace TlsCensus.Sweep

def window (s : Sweep) : List Nat := List.range' s.start (s.stop - s.start)

def taken (s : Sweep) : List Nat := List.range' s.start (s.cursor - s.start)

section Windows

def edge (s : Sweep) (count i : Nat) : Nat := if i = count then s.total else i * (s.total / count)

def cutAt (s : Sweep) (count i : Nat) : Sweep :=
  { s with start := s.edge count i, cursor := s.edge count i, stop := s.edge count (i + 1) }

theorem edgeAscends (s : Sweep) {count i : Nat} (inside : i < count) :
    s.edge count i ≤ s.edge count (i + 1) ∧ s.edge count (i + 1) ≤ s.total := by
  have share (j : Nat) (few : j ≤ count) : j * (s.total / count) ≤ s.total :=
    Nat.le_trans (Nat.mul_le_mul_right _ few) (Nat.mul_div_le _ _)
  have now := share i (by omega)
  have next := share (i + 1) (by omega)
  rw [Nat.succ_mul] at next
  rw [edge, edge, if_neg (by omega : i ≠ count), Nat.succ_mul]
  generalize s.total / count = chunk at now next ⊢
  split
  · exact ⟨now, Nat.le_refl _⟩
  · exact ⟨Nat.le_add_right _ _, next⟩

theorem shardOk {s : Sweep} (filled : s.blocks.isEmpty = false) {count i : Nat} (inside : i < count) :
    s.shard count i = .ok (s.cutAt count i) := by
  have ascends := (edgeAscends s inside).1
  have wanted : ¬ (count = 0 ∨ count ≤ i) := by omega
  rw [edge, edge, if_neg (by omega : i ≠ count), Nat.succ_mul] at ascends
  simp only [shard, filled, if_neg wanted, cutAt, edge, if_neg (by omega : i ≠ count), Nat.succ_mul]
  rw [if_neg (Nat.not_lt.mpr ascends)]
  rfl

theorem mapMOk {α β ε : Type} {f : α → Except ε β} {g : α → β} {xs : List α}
    (answered : ∀ x ∈ xs, f x = .ok (g x)) : xs.mapM f = .ok (xs.map g) := by
  induction xs with
  | nil => rfl
  | cons x xs ih =>
    rw [List.mapM_cons, answered x List.mem_cons_self,
      ih fun y mem => answered y (List.mem_cons_of_mem _ mem)]
    rfl

theorem shardsOk {s : Sweep} (filled : s.blocks.isEmpty = false) (count : Nat) :
    Scan.shards s count = .ok ((List.range count).map (s.cutAt count)) :=
  mapMOk fun _ mem => shardOk filled (List.mem_range.mp mem)

theorem soundCut {s : Sweep} (sound : s.Sound) {count i : Nat} (inside : i < count) :
    (s.cutAt count i).Sound := by
  obtain ⟨ascends, below⟩ := edgeAscends s inside
  exact ⟨sound.laid, sound.total, sound.permutation, Nat.le_refl _, ascends, below⟩

theorem windowsJoin {e : Nat → Nat} (zero : e 0 = 0) {n : Nat} (ascends : ∀ i < n, e i ≤ e (i + 1)) :
    (List.range n).flatMap (fun i => List.range' (e i) (e (i + 1) - e i)) = List.range (e n) := by
  induction n with
  | zero => simp [zero]
  | succ n ih =>
    have step := ascends n (by omega)
    have whole := List.range'_append_1 (s := 0) (m := e n) (n := e (n + 1) - e n)
    rw [Nat.zero_add, Nat.add_sub_cancel' step] at whole
    rw [List.range_succ, List.flatMap_append, ih fun i below => ascends i (by omega), List.flatMap_singleton,
      List.range_eq_range', List.range_eq_range', whole]

theorem windowsPartition (s : Sweep) {count : Nat} (one : 1 ≤ count) :
    ((List.range count).map (s.cutAt count)).flatMap window = List.range s.total := by
  have joined := windowsJoin (e := s.edge count) (n := count)
    (by rw [edge, if_neg (by omega), Nat.zero_mul]) fun i below => (edgeAscends s below).1
  rw [List.flatMap_map]
  rwa [show s.edge count count = s.total from if_pos rfl] at joined

end Windows

inductive Built : Sweep → Prop where
  | new (seed : UInt64) (rounds : UInt32) : Built (new seed rounds)
  | capped {s} (cap : UInt32) : Built s → Built (s.withCap cap)
  | added {s} (a : Addition) : Built s → Built (s.add a).2
  | moved {s} : Built s → Built s.next.2
  | cut {s shard count i} : Built s → s.shard count i = .ok shard → Built shard

theorem Built.sound {s : Sweep} (built : s.Built) : s.Sound := by
  induction built with
  | new seed rounds => exact soundNew seed rounds
  | capped cap _ ih => exact soundWithCap ih cap
  | added a _ ih =>
    rcases addCases ih a with ⟨e, same⟩ | ⟨block, -, same, grown⟩ <;> rw [same]
    · exact ih
    · exact grown
  | moved _ ih => exact soundNext ih
  | @cut s shard count i _ made ih =>
    have inside : i < count := by
      by_contra beyond
      rw [Sweep.shard, if_pos (by omega)] at made
      contradiction
    cases filled : s.blocks.isEmpty with
    | true =>
      rw [Sweep.shard, if_neg (by omega), if_pos filled] at made
      contradiction
    | false =>
      cases made.symm.trans (shardOk filled inside)
      exact soundCut ih inside

structure Visit where
  sweep : Sweep
  failure : Option SweepError
  deriving DecidableEq, Repr

namespace Visit

def fresh (s : Sweep) : Visit := ⟨s, none⟩

def spent (v : Visit) : Bool := v.failure.isSome || v.sweep.finished

def poll (v : Visit) : Except SweepError UInt32 × Visit :=
  match v.sweep.next with
  | (.ok a, s) => (.ok a, ⟨s, none⟩)
  | (.error e, s) => (.error e, ⟨s, some e⟩)

end Visit

def drive : List Nat → List Visit → List (Except SweepError UInt32) × List Visit
  | [], visits => ([], visits)
  | i :: rest, visits =>
    match visits[i]? with
    | none => drive rest visits
    | some v =>
      if v.spent then drive rest visits
      else
        let (answer, after) := v.poll
        let (answers, ended) := drive rest (visits.set i after)
        (answer :: answers, ended)

def returned (answers : List (Except SweepError UInt32)) : List UInt32 :=
  answers.filterMap Except.toOption

def tooLong : Except SweepError UInt32 → Bool
  | .error (.permutation (.walkTooLong _ _)) => true
  | _ => false

section Drive
variable {p : Permutation} {blocks : List Block}

structure Within (p : Permutation) (blocks : List Block) (v : Visit) : Prop where
  sound : v.sweep.Sound
  blocks : v.sweep.blocks = blocks
  permutation : v.sweep.permutation = some p

theorem pollCases {v : Visit} (within : Within p blocks v) (left : v.spent = false) :
    Within p blocks v.poll.2 ∧ v.poll.2.sweep.window = v.sweep.window ∧
      ((∃ a, v.poll.1 = .ok a ∧ v.poll.2.failure = none ∧ addressAt p blocks v.sweep.cursor = some a ∧
          v.poll.2.sweep.taken = v.sweep.taken ++ [v.sweep.cursor]) ∨
        (∃ index cap, v.poll.1 = .error (.permutation (.walkTooLong index cap)) ∧ v.poll.2.sweep = v.sweep)) := by
  have running : v.sweep.finished = false := (Bool.or_eq_false_iff.mp left).2
  have kept := soundNext within.sound
  obtain ⟨q, permutes, next⟩ := nextCases within.sound running
  obtain rfl : p = q := Option.some.inj (within.permutation.symm.trans permutes)
  rcases next with ⟨a, found, same⟩ | ⟨-, same⟩
  · rw [within.blocks] at found
    rw [same] at kept
    have polled : v.poll = (.ok a, ⟨{ v.sweep with cursor := v.sweep.cursor + 1 }, none⟩) := by
      rw [Visit.poll, same]
    rw [polled]
    refine ⟨⟨kept, within.blocks, within.permutation⟩, rfl, .inl ⟨a, rfl, rfl, found, ?_⟩⟩
    have started := within.sound.start
    simp only [taken]
    rw [Nat.sub_add_comm started, List.range'_concat, Nat.one_mul, Nat.add_sub_cancel' started]
  · have polled : v.poll = (.error (.permutation (.walkTooLong v.sweep.cursor.toUInt64 p.cap)),
        ⟨v.sweep, some (.permutation (.walkTooLong v.sweep.cursor.toUInt64 p.cap))⟩) := by
      rw [Visit.poll, same]
    rw [polled]
    exact ⟨⟨within.sound, within.blocks, within.permutation⟩, rfl, .inr ⟨_, _, rfl, rfl⟩⟩

/- The turn of one shard among its fellows: at most one position is taken, and an address
comes back exactly for it. -/
theorem turnKeeps {before after : List Visit} {v : Visit} (within : ∀ w ∈ before ++ v :: after, Within p blocks w)
    (left : v.spent = false) :
    (∀ w ∈ before ++ v.poll.2 :: after, Within p blocks w) ∧
      (before ++ v.poll.2 :: after).map (·.sweep.window) = (before ++ v :: after).map (·.sweep.window) ∧
      (((before ++ v.poll.2 :: after).flatMap (·.sweep.taken)).map (addressAt p blocks)).Perm
        (((before ++ v :: after).flatMap (·.sweep.taken)).map (addressAt p blocks) ++
          (returned [v.poll.1]).map some) := by
  obtain ⟨polled, window, answered⟩ := pollCases (within v (by simp)) left
  refine ⟨?_, by simp [window], ?_⟩
  · intro w mem
    rcases List.mem_append.mp mem with early | late
    · exact within w (List.mem_append_left _ early)
    · rcases List.mem_cons.mp late with rfl | late
      · exact polled
      · exact within w (by simp [late])
  · simp only [List.flatMap_append, List.flatMap_cons, List.map_append, List.append_assoc]
    apply List.Perm.append_left
    rcases answered with ⟨a, same, -, found, took⟩ | ⟨index, cap, same, still⟩
    · rw [same, took, List.map_append, List.append_assoc]
      apply List.Perm.append_left
      rw [List.map_singleton, found]
      exact (List.perm_append_singleton _ _).symm
    · rw [same, still, show returned [.error (.permutation (.walkTooLong index cap))] = [] from rfl,
        List.map_nil, List.append_nil]

theorem driveKeeps (schedule : List Nat) {visits : List Visit} (within : ∀ v ∈ visits, Within p blocks v) :
    (∀ v ∈ (drive schedule visits).2, Within p blocks v) ∧
      (drive schedule visits).2.map (·.sweep.window) = visits.map (·.sweep.window) ∧
      (((drive schedule visits).2.flatMap (·.sweep.taken)).map (addressAt p blocks)).Perm
        ((visits.flatMap (·.sweep.taken)).map (addressAt p blocks) ++
          (returned (drive schedule visits).1).map some) := by
  induction schedule generalizing visits with
  | nil => exact ⟨within, rfl, by simp [drive, returned]⟩
  | cons i rest ih =>
    cases found : visits[i]? with
    | none =>
      simp only [drive, found]
      exact ih within
    | some v =>
      cases left : v.spent with
      | true =>
        simp only [drive, found, left]
        exact ih within
      | false =>
        obtain ⟨bound, here⟩ := List.getElem?_eq_some_iff.mp found
        obtain ⟨before, after, same, -, turned⟩ := @List.exists_of_set _ i v.poll.2 visits bound
        rw [here] at same
        rw [same] at within
        obtain ⟨kept, windows, took⟩ := turnKeeps within left
        rw [← same] at windows took
        rw [← turned] at kept windows took
        obtain ⟨keeps, framed, takes⟩ := ih kept
        simp only [drive, found, left]
        refine ⟨keeps, framed.trans windows, takes.trans ?_⟩
        have split : returned (v.poll.1 :: (drive rest (visits.set i v.poll.2)).1) =
            returned [v.poll.1] ++ returned (drive rest (visits.set i v.poll.2)).1 := by
          rw [returned, returned, returned, ← List.filterMap_append]
          rfl
        refine (took.append_right _).trans ?_
        rw [List.append_assoc, ← List.map_append, ← split]
        exact .refl _

theorem driveFailures (schedule : List Nat) {visits : List Visit} (within : ∀ v ∈ visits, Within p blocks v)
    (unharmed : ∀ v ∈ visits, v.failure = none)
    (landed : ∀ answer ∈ (drive schedule visits).1, tooLong answer = false) :
    ∀ v ∈ (drive schedule visits).2, v.failure = none := by
  induction schedule generalizing visits with
  | nil => exact unharmed
  | cons i rest ih =>
    cases found : visits[i]? with
    | none =>
      simp only [drive, found] at landed ⊢
      exact ih within unharmed landed
    | some v =>
      cases left : v.spent with
      | true =>
        simp only [drive, found, left] at landed ⊢
        exact ih within unharmed landed
      | false =>
        have member := List.mem_of_getElem? found
        obtain ⟨polled, -, answered⟩ := pollCases (within v member) left
        simp only [drive, found, left] at landed ⊢
        have sound : v.poll.2.failure = none := by
          rcases answered with ⟨a, -, sound, -⟩ | ⟨index, cap, same, -⟩
          · exact sound
          · have landed := landed _ List.mem_cons_self
            rw [same] at landed
            contradiction
        refine ih ?_ ?_ fun answer mem => landed answer (List.mem_cons_of_mem _ mem)
        · intro w mem
          rcases List.mem_or_eq_of_mem_set mem with old | rfl
          · exact within w old
          · exact polled
        · intro w mem
          rcases List.mem_or_eq_of_mem_set mem with old | rfl
          · exact unharmed w old
          · exact sound

theorem takenFront {visits : List Visit} (within : ∀ v ∈ visits, Within p blocks v) :
    (visits.flatMap (·.sweep.taken)).Sublist (visits.flatMap (·.sweep.window)) := by
  induction visits with
  | nil => exact .slnil
  | cons v rest ih =>
    have sound := (within v List.mem_cons_self).sound
    have := sound.start
    have := sound.cursor
    rw [List.flatMap_cons, List.flatMap_cons]
    refine .append ?_ (ih fun w mem => within w (List.mem_cons_of_mem _ mem))
    exact List.range'_sublist_right.mpr (by omega)

theorem takenAll {visits : List Visit} (within : ∀ v ∈ visits, Within p blocks v)
    (unharmed : ∀ v ∈ visits, v.failure = none) (ended : ∀ v ∈ visits, v.spent = true) :
    visits.flatMap (·.sweep.taken) = visits.flatMap (·.sweep.window) := by
  induction visits with
  | nil => rfl
  | cons v rest ih =>
    have sound := (within v List.mem_cons_self).sound
    have finished : v.sweep.stop ≤ v.sweep.cursor := by
      simpa [Visit.spent, unharmed v List.mem_cons_self, finished] using ended v List.mem_cons_self
    have same : v.sweep.cursor = v.sweep.stop := by
      have := sound.cursor
      omega
    rw [List.flatMap_cons, List.flatMap_cons, taken, window, same,
      ih (fun w mem => within w (List.mem_cons_of_mem _ mem)) (fun w mem => unharmed w (List.mem_cons_of_mem _ mem))
        fun w mem => ended w (List.mem_cons_of_mem _ mem)]

end Drive

section Space
variable {s : Sweep} (sound : s.Sound) {p : Permutation} (permutes : s.permutation = some p)
  {positions : List Nat} {visited : List UInt32}
  (visits : (positions.map (addressAt p s.blocks)).Perm (visited.map some))
include visits

theorem visitedInside {a : UInt32} (mem : a ∈ visited) : a ∈ Block.span s.blocks := by
  obtain ⟨position, -, found⟩ := List.mem_map.mp (visits.mem_iff.mpr (List.mem_map.mpr ⟨a, mem, rfl⟩))
  exact addressInside found

include sound permutes

theorem visitedDistinct (once : positions.Nodup) (inside : ∀ k ∈ positions, k < s.total) : visited.Nodup := by
  have distinct : (positions.map (addressAt p s.blocks)).Nodup := by
    apply List.Nodup.map_on ?_ once
    intro i left j right same
    obtain ⟨a, -, found⟩ := List.mem_map.mp (visits.mem_iff.mp (List.mem_map.mpr ⟨i, left, rfl⟩))
    exact addressInjective sound permutes (inside i left) (inside j right) found.symm (same.symm.trans found.symm)
  exact List.Nodup.of_map some (visits.nodup_iff.mp distinct)

theorem visitedWhole (whole : positions = List.range s.total) :
    visited.length = s.total ∧ ∀ a, a ∈ visited ↔ a ∈ Block.span s.blocks := by
  have once : visited.Nodup := by
    apply visitedDistinct sound permutes visits
    · rw [whole]
      exact List.nodup_range
    · rw [whole]
      exact fun k mem => List.mem_range.mp mem
  have count : visited.length = s.total := by
    have := visits.length_eq
    rw [List.length_map, List.length_map, whole, List.length_range] at this
    exact this.symm
  have every : visited.Perm (Block.span s.blocks) := by
    apply (List.Nodup.subperm once fun a mem => visitedInside visits mem).perm_of_length_le
    exact Nat.le_of_eq (by rw [Block.spanLength, ← sound.total, count])
  exact ⟨count, fun a => every.mem_iff⟩

end Space

def Succeeds (s : Sweep) (additions : List Addition) : Prop :=
  ∃ before a after, additions = before ++ a :: after ∧ ((s.addAll before).add a).1 = .ok ()

theorem succeedsFilled {s : Sweep} (sound : s.Sound) {additions : List Addition} (added : s.Succeeds additions) :
    (s.addAll additions).blocks.isEmpty = false := by
  obtain ⟨before, a, after, rfl, ok⟩ := added
  have early := (addAllSound sound before).1
  rcases addCases early a with ⟨e, same⟩ | ⟨block, -, same, grown⟩
  · rw [same] at ok
    contradiction
  · have whole : s.addAll (before ++ a :: after) = ((s.addAll before).grow block).addAll after := by
      simp only [addAll, List.foldl_append, List.foldl_cons] at same ⊢
      rw [same]
    have length := (addAllSound grown after).2.length_eq
    have inserted := (Block.insertPerm block (s.addAll before).blocks).length_eq
    rw [← whole, List.length_append] at length
    cases blocks : (s.addAll (before ++ a :: after)).blocks with
    | nil =>
      rw [blocks] at length
      simp only [grow, inserted, List.length_nil, List.length_cons] at length
      omega
    | cons b rest => rfl

theorem freshVisits {s : Sweep} (sound : s.Sound) {p : Permutation} (permutes : s.permutation = some p) (count : Nat) :
    (∀ v ∈ ((List.range count).map (s.cutAt count)).map Visit.fresh, Within p s.blocks v ∧ v.failure = none) ∧
      (((List.range count).map (s.cutAt count)).map Visit.fresh).flatMap (·.sweep.taken) = [] := by
  constructor
  · intro v mem
    obtain ⟨shard, cut, rfl⟩ := List.mem_map.mp mem
    obtain ⟨i, below, rfl⟩ := List.mem_map.mp cut
    exact ⟨⟨soundCut sound (List.mem_range.mp below), rfl, permutes⟩, rfl⟩
  · simp [List.flatMap_map, Visit.fresh, taken, cutAt]

/- Any schedule, also one that stops early or names shards that do not exist. -/
theorem drivenShards {s : Sweep} (sound : s.Sound) (filled : s.blocks.isEmpty = false) {count : Nat} (one : 1 ≤ count)
    {schedule : List Nat} {answers : List (Except SweepError UInt32)} {ended : List Visit}
    (driven : drive schedule (((List.range count).map (s.cutAt count)).map Visit.fresh) = (answers, ended)) :
    (returned answers).Nodup ∧ (∀ a ∈ returned answers, a ∈ Block.span s.blocks) ∧
      ((∀ v ∈ ended, v.spent = true) → (∀ answer ∈ answers, tooLong answer = false) →
        (returned answers).length = s.total ∧ ∀ a, a ∈ returned answers ↔ a ∈ Block.span s.blocks) := by
  have permutes := sound.permutes filled
  obtain ⟨begun, untaken⟩ := freshVisits sound permutes count
  have within := fun v mem => (begun v mem).1
  obtain ⟨kept, framed, visits⟩ := driveKeeps schedule within
  rw [untaken, List.map_nil, List.nil_append] at visits
  rw [driven] at kept framed visits
  have space : ended.flatMap (·.sweep.window) = List.range s.total := by
    rw [List.flatMap_def, framed, ← List.flatMap_def, List.flatMap_map]
    exact windowsPartition s one
  have front := takenFront kept
  rw [space] at front
  have once := front.nodup List.nodup_range
  have inside : ∀ k ∈ ended.flatMap (·.sweep.taken), k < s.total :=
    fun k mem => List.mem_range.mp (front.subset mem)
  refine ⟨visitedDistinct sound permutes visits once inside, fun a mem => visitedInside visits mem, ?_⟩
  intro spent landed
  have unharmed := driveFailures schedule within fun v mem => (begun v mem).2
  rw [driven] at unharmed
  exact visitedWhole sound permutes visits ((takenAll kept (unharmed landed) spent).trans space)

theorem shardsVisitEachAddressOnce (seed : UInt64) (rounds cap : UInt32) (additions : List Addition)
    (added : ((new seed rounds).withCap cap).Succeeds additions) (count : Nat) (one : 1 ≤ count) :
    let s := ((new seed rounds).withCap cap).addAll additions
    s.blocks.Perm (((new seed rounds).withCap cap).accepted additions) ∧
    ∃ shards, Scan.shards s count = .ok shards ∧ shards.flatMap window = List.range s.total ∧
      ∀ schedule answers ended, drive schedule (shards.map Visit.fresh) = (answers, ended) →
        (returned answers).Nodup ∧ (∀ a ∈ returned answers, s.blocks.countP (·.contains a) = 1) ∧
        ((∀ v ∈ ended, v.spent = true) → (∀ answer ∈ answers, tooLong answer = false) →
          (returned answers).length = s.total ∧
          ∀ a, a ∈ returned answers ↔ ∃ b ∈ s.blocks, b.contains a = true) := by
  intro s
  have begun := soundWithCap (soundNew seed rounds) cap
  obtain ⟨sound, perm⟩ := addAllSound begun additions
  have filled := succeedsFilled begun added
  have empty : ((new seed rounds).withCap cap).blocks = [] := rfl
  rw [empty, List.append_nil] at perm
  refine ⟨perm, _, shardsOk filled count, windowsPartition s one, ?_⟩
  intro schedule answers ended driven
  obtain ⟨distinct, inside, whole⟩ := drivenShards sound filled one driven
  refine ⟨distinct, fun a mem => Block.containedOnce sound.laid (inside a mem), ?_⟩
  intro spent landed
  obtain ⟨length, every⟩ := whole spent landed
  exact ⟨length, fun a => (every a).trans (Block.memSpan sound.laid)⟩

theorem twoShardsVisitThreeAddresses :
    let start := (new 3 1).withCap 9
    let additions := [.cidr "10.0.0.0/30", .address 0x0A000001 24, .cidr " 10.0.0.9"]
    start.Succeeds additions ∧ 1 ≤ 2 ∧ ∃ shards answers ended,
      Scan.shards (start.addAll additions) 2 = .ok shards ∧
      drive [1, 0, 2, 1] (shards.map Visit.fresh) = (answers, ended) ∧
      (∀ v ∈ ended, v.spent = true) ∧ (∀ answer ∈ answers, tooLong answer = false) ∧
      (returned answers).length = 3 ∧
      ∀ a, a ∈ returned answers ↔ ∃ b ∈ (start.addAll additions).blocks, b.contains a = true := by
  intro start additions
  have added : start.Succeeds additions := ⟨[], _, _, rfl, by decide +kernel⟩
  obtain ⟨-, shards, cut, -, driven⟩ := shardsVisitEachAddressOnce 3 1 9 additions added 2 (by decide)
  cases Except.ok.inj (cut.symm.trans (shardsOk (by decide +kernel) 2))
  have run : (drive [1, 0, 2, 1] (((List.range 2).map ((start.addAll additions).cutAt 2)).map Visit.fresh)).2.all
        Visit.spent = true ∧
      (drive [1, 0, 2, 1] (((List.range 2).map ((start.addAll additions).cutAt 2)).map Visit.fresh)).1.any
        tooLong = false := by decide +kernel
  have total : (start.addAll additions).total = 3 := by decide +kernel
  generalize driving : drive [1, 0, 2, 1] _ = pair at run
  obtain ⟨answers, ended⟩ := pair
  have spent := List.all_eq_true.mp run.1
  have landed : ∀ answer ∈ answers, tooLong answer = false := fun answer mem => by
    simpa using List.any_eq_false.mp run.2 answer mem
  obtain ⟨-, -, whole⟩ := driven _ answers ended driving
  obtain ⟨length, every⟩ := whole spent landed
  exact ⟨added, by decide, _, answers, ended, cut, driving, spent, landed, length.trans total, every⟩

end TlsCensus.Sweep
