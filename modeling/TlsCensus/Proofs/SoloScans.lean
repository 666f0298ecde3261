import TlsCensus.Proofs.Gathering
import TlsCensus.Proofs.SteadyRounds

/-! What a scan leaves in its sink does not tell how it was run. Each address has the row that
a scan of this address alone leaves, whatever the order of the sweep, the number of workers
and of connections, and the times at which the hosts do their deeds. -/
namespace TlsCensus

namespace Sweep

def Unbroken (s : Sweep) : Prop :=
  ∀ p, s.permutation = some p → ∀ i < s.total, ∃ v, p.shuffle i.toUInt64 = .ok v

instance (s : Sweep) : Decidable s.Unbroken :=
  decidable_of_iff (s.permutation.all fun p => (List.range s.total).all fun i => (p.shuffle i.toUInt64).isOk) <| by
    have ok (p : Permutation) (i : Nat) : (p.shuffle i.toUInt64).isOk = true ↔ ∃ v, p.shuffle i.toUInt64 = .ok v := by
      cases p.shuffle i.toUInt64 <;> simp [Except.isOk, Except.toBool]
    cases permutes : s.permutation <;> simp [Unbroken, permutes, ok]

theorem unbrokenLands {s : Sweep} (sound : s.Sound) (unbroken : s.Unbroken) {p : Permutation}
    (permutes : s.permutation = some p) {i : Nat} (inside : i < s.total) : addressAt p s.blocks i ≠ none := by
  obtain ⟨v, shuffled⟩ := unbroken p permutes i inside
  obtain ⟨a, found⟩ := landedAddress sound permutes shuffled
  simp [addressAt, shuffled, found]

def alone (seed : UInt64) (rounds cap address : UInt32) : Sweep :=
  (((new seed rounds).withCap cap).add (.address address 32)).2

theorem aloneBuilt (seed : UInt64) (rounds cap address : UInt32) : (alone seed rounds cap address).Built :=
  .added _ (.capped cap (.new seed rounds))

theorem aloneGrown (seed : UInt64) (rounds cap address : UInt32) :
    alone seed rounds cap address = ((new seed rounds).withCap cap).grow ⟨address, address⟩ := by
  have single : Block.ofPrefix address 32 = .ok ⟨address, address⟩ := by simp [Block.ofPrefix, Block.hostMask]
  have nonempty : (⟨address, address⟩ : Block).first.toNat ≤ (⟨address, address⟩ : Block).last.toNat := Nat.le_refl _
  rcases addBlockCases (soundWithCap (soundNew seed rounds) cap) nonempty with ⟨_, mem, -⟩ | ⟨-, laid⟩
  · cases mem
  · simp only [alone, add, addPrefix, single, laid]

theorem aloneBlocks (seed : UInt64) (rounds cap address : UInt32) :
    (alone seed rounds cap address).blocks = [⟨address, address⟩] ∧ (alone seed rounds cap address).total = 1 := by
  rw [aloneGrown]
  refine ⟨rfl, ?_⟩
  simp [grow, withCap, new, Block.insertSorted, Block.total, Block.size]

theorem aloneUnbroken (seed : UInt64) (rounds cap address : UInt32) : (alone seed rounds cap address).Unbroken := by
  intro p permutes i inside
  have sound := (aloneBuilt seed rounds cap address).sound
  obtain ⟨blocks, one⟩ := aloneBlocks seed rounds cap address
  have known := sound.permutes (by rw [blocks]; rfl)
  cases permutes.symm.trans known
  obtain ⟨covered, range⟩ := sound.engineCovered permutes
  have width : (Network.covering (alone seed rounds cap address).total.toUInt64
      (alone seed rounds cap address).rounds).width = 0 := by
    rw [Network.coveringWidth, one]
    rfl
  apply Permutation.shuffleWhole covered
  · rw [width, range, one]
    rfl
  · rw [UInt64.lt_iff_toNat_lt, range, wordValue (by omega)]
    exact inside

end Sweep

def Row.outcome? : Row → Option Outcome
  | .raw o => some o
  | .certificate _ => none

namespace Worker.Setting
variable {κ : Type} {E F : Setting κ} {refused : UInt32 → Bool}

def deposit (E : Setting κ) (refused : UInt32 → Bool) (address : UInt32) : List Outcome :=
  (storable E.storeUnanswered [E.outcome address]).filter (!refused ·.address)

theorem depositRow (E : Setting κ) (refused : UInt32 → Bool) (address : UInt32) : E.deposit refused address =
    if refused address ∨ (E.storeUnanswered = false ∧ (E.outcome address).result = .tcpTimeout) then []
    else [E.outcome address] := by
  have named := outcomeAddress E address
  cases wanted : E.storeUnanswered <;> by_cases silent : (E.outcome address).result = .tcpTimeout <;>
    cases barred : refused address <;> simp [deposit, storable, wanted, silent, named, barred]

theorem storableDeposits (E : Setting κ) (refused : UInt32 → Bool) (visited : List UInt32) :
    (storable E.storeUnanswered (visited.map E.outcome)).filter (!refused ·.address) =
      visited.flatMap (E.deposit refused) := by
  induction visited with
  | nil => cases wanted : E.storeUnanswered <;> rfl
  | cons a rest ih =>
    rw [List.flatMap_cons, ← ih, List.map_cons, ← List.singleton_append, storableAppend, List.filter_append]
    rfl

theorem depositAlike {address : UInt32} (alike : E.Alike F address) (kept : E.storeUnanswered = F.storeUnanswered) :
    (E.deposit refused address).map Outcome.timeless = (F.deposit refused address).map Outcome.timeless := by
  have same := outcomeAlike alike
  have result := congrArg Outcome.result same
  simp only [Outcome.timeless] at result
  rw [depositRow, depositRow, kept, result]
  split
  · rfl
  · rw [List.map_singleton, List.map_singleton, same]

end Worker.Setting

namespace Scan
variable {κ σ ε : Type}

def stored (E : Setting κ σ ε) (sweep : Sweep) (workers : Nat) (s : σ) : List Outcome :=
  (rowsOf (Ask.allGranted (run E.logged sweep workers (s, [])).sink.2)).filterMap Row.outcome?

def sorted (rows : List Outcome) : List Outcome :=
  (rows.map Outcome.timeless).mergeSort fun o q => decide (o.address ≤ q.address)

/- The sweep can be walked to its end, nobody stops the scan and the sink refuses the rows of
some addresses and nothing else. -/
structure Unhindered (E : Setting κ σ ε) (refused : UInt32 → Bool) (sweep : Sweep) (s : σ) : Prop where
  built : sweep.Built
  unbroken : sweep.Unbroken
  running : E.stopped = false
  sink : ∃ rows outside inside, E.sink.Obeys rows outside inside ∧ outside s ∧ ∀ o, rows (.raw o) = refused o.address

structure Heard (E : Setting κ σ ε) (sweep : Sweep) (workers : Nat) : Prop where
  courteous : ∀ address, (E.worker.peer address).isCourteous = true
  served : ∀ i shard, sweep.shard (max workers 1) i = .ok shard → Worker.Served E.worker (.new i shard)

structure Left (E : Setting κ σ ε) (sweep : Sweep) (workers : Nat) (s : σ) (visited : List UInt32) : Prop where
  ended : ∃ summary, (run E sweep workers s).result = .ok summary
  distinct : visited.Nodup
  every : ∀ a, a ∈ visited ↔ ∃ b ∈ sweep.blocks, b.contains a = true

structure Laid (E : Setting κ σ ε) (refused : UInt32 → Bool) (sweep : Sweep) (workers : Nat) (s : σ)
    (visited : List UInt32) : Prop where
  rows : (stored E sweep workers s).Perm (visited.flatMap (E.worker.deposit refused))
  progress : ∃ lost, (stored E sweep workers s).length + lost =
      (storable E.worker.storeUnanswered (visited.map E.worker.outcome)).length ∧
    (run E sweep workers s).progress = (Progress.tally visited.length (visited.map E.worker.outcome)).recordStored
      (.ofNat (stored E sweep workers s).length) (.ofNat lost)

theorem storedOffered (E : Setting κ σ ε) {sweep : Sweep} (filled : sweep.blocks.isEmpty = false) (workers : Nat) {s : σ}
    {rows : Row → Bool} {refused : UInt32 → Bool} {outside inside : σ → Prop} (obeys : E.sink.Obeys rows outside inside)
    (begun : outside s) (named : ∀ o, rows (.raw o) = refused o.address) :
    let ts := traces E sweep (max workers 1)
    (stored E sweep workers s).Perm (((ts.map (·.batches)).flatten.flatten).filter (!refused ·.address)) ∧
    (stored E sweep workers s).length = (gathered E.logged ts (s, [])).2.stored.length := by
  intro ts
  have kept := (gatheredObeyed E ts s obeys begun).2
  obtain ⟨-, sink, -⟩ := runFilled E.logged sweep filled workers (s, [])
  have letIn : rowsOf (Ask.allGranted (run E.logged sweep workers (s, [])).sink.2) =
      (gathered E.logged ts (s, [])).2.stored := by
    rw [sink]
    exact Window.flushStored
  have barred : (fun row => !rows row) ∘ Row.raw = fun o => !refused o.address := by
    funext o
    exact congrArg (!·) (named o)
  rw [List.filter_map, barred] at kept
  have outcomes := kept.filterMap Row.outcome?
  rw [List.filterMap_map, show Row.outcome? ∘ Row.raw = some from rfl, List.filterMap_some, ← letIn] at outcomes
  refine ⟨outcomes, ?_⟩
  rw [kept.length_eq, List.length_map]
  exact outcomes.length_eq

theorem unhinderedLeaves {E : Setting κ σ ε} {refused : UInt32 → Bool} {sweep : Sweep} {s : σ}
    (free : Unhindered E refused sweep s) (ranged : sweep.blocks ≠ []) (workers : Nat) :
    ∃ visited, Left E sweep workers s visited ∧ (Heard E sweep workers → Laid E refused sweep workers s visited) := by
  have sound := free.built.sound
  have filled : sweep.blocks.isEmpty = false := by simpa using ranged
  have permutes := sound.permutes filled
  -- A worker fails only where a walk is too long, and none is.
  have calm : ∀ t ∈ traces E sweep (max workers 1), t.failure = none := by
    rw [← List.findSome?_eq_none_iff, tracesFailure sound permutes free.running (Nat.le_max_right _ _),
      Sweep.firstFailureNone]
    exact fun position mem => Sweep.unbrokenLands sound free.unbroken permutes (List.mem_range.mp mem)
  obtain ⟨visited, found, swept⟩ := tracesTell sound permutes free.running (Nat.le_max_right _ _) calm
  obtain ⟨rows, outside, inside, obeys, begun, named⟩ := free.sink
  obtain ⟨settled, -⟩ := gatheredObeyed E (traces E sweep (max workers 1)) s obeys begun
  obtain ⟨-, -, lost, offered, counted⟩ := gatheredStores E (traces E sweep (max workers 1)) s
  obtain ⟨flushed, -, -⟩ := Window.flushObeyed obeys settled
  obtain ⟨progress, -, ends⟩ := runFilled E.logged sweep filled workers (s, [])
  obtain ⟨letIn, few⟩ := storedOffered E filled workers obeys begun named
  have plain := runUnlogged E sweep workers s
  obtain ⟨whole, every⟩ := Sweep.visitedWhole sound permutes (.of_eq swept.positions) rfl
  rw [swept.handed] at offered letIn
  refine ⟨visited, ⟨?_, ?_, ?_⟩, fun heard => ?_⟩
  · rw [plain]
    exact ⟨_, (ends _).mpr ⟨flushed, calm, rfl⟩⟩
  · exact Sweep.visitedDistinct sound permutes (.of_eq swept.positions) List.nodup_range fun k mem => List.mem_range.mp mem
  · exact fun a => (every a).trans (Block.memSpan sound.laid)
  · have own : Worker.Own E.worker found :=
      swept.own heard.courteous fun i below => heard.served i _ (Sweep.shardOk filled below)
    have outcomes := Worker.ownPerm own swept.addresses
    have kept := storablePerm E.worker.storeUnanswered outcomes
    refine ⟨?_, lost, ?_, ?_⟩
    · rw [← Worker.Setting.storableDeposits]
      exact letIn.trans (kept.filter _)
    · rw [few, offered]
      exact kept.length_eq
    · rw [plain]
      refine progress.trans ?_
      rw [few, ← Progress.tallyPerm outcomes, ← swept.counted]
      exact counted

section Order
variable {rows : List Outcome} {addresses visited : List UInt32}

theorem ascendingOf (distinct : visited.Nodup) :
    ∃ addresses : List UInt32, addresses.Perm visited ∧ addresses.Pairwise (· < ·) := by
  have perm := List.mergeSort_perm visited fun a b => decide (a ≤ b)
  have ordered : (visited.mergeSort fun a b => decide (a ≤ b)).Pairwise fun a b => decide (a ≤ b) = true :=
    List.pairwise_mergeSort (by simpa using fun a b c => UInt32.le_trans) (by simpa using UInt32.le_total) visited
  exact ⟨_, perm, (ordered.and (perm.nodup_iff.mpr distinct)).imp fun both =>
    UInt32.lt_of_le_of_ne (by simpa using both.1) both.2⟩

/- An address has one row at most, so sorting by address leaves no choice. -/
theorem sortedDeposits (E : Worker.Setting κ) (refused : UInt32 → Bool) (ascending : addresses.Pairwise (· < ·))
    (same : rows.Perm (addresses.flatMap (E.deposit refused))) :
    sorted rows = addresses.flatMap fun a => (E.deposit refused a).map Outcome.timeless := by
  have row {a : UInt32} {o : Outcome} (mem : o ∈ (E.deposit refused a).map Outcome.timeless) :
      o = (E.outcome a).timeless := by
    rw [Worker.Setting.depositRow] at mem
    split at mem
    · cases mem
    · exact List.mem_singleton.mp mem
  have named {a : UInt32} {o : Outcome} (mem : o ∈ (E.deposit refused a).map Outcome.timeless) : o.address = a := by
    rw [row mem]
    exact Worker.Setting.outcomeAddress E a
  have perm : (sorted rows).Perm (addresses.flatMap fun a => (E.deposit refused a).map Outcome.timeless) := by
    rw [← List.map_flatMap]
    exact (List.mergeSort_perm _ _).trans (same.map _)
  have left : (sorted rows).Pairwise fun o q => o.address ≤ q.address := by
    have ordered : (sorted rows).Pairwise fun o q => decide (o.address ≤ q.address) = true :=
      List.pairwise_mergeSort (by simpa using fun a b c => UInt32.le_trans)
        (by simpa using fun a b => UInt32.le_total _ _) _
    exact ordered.imp fun below => by simpa using below
  have right : (addresses.flatMap fun a => (E.deposit refused a).map Outcome.timeless).Pairwise
      fun o q => o.address ≤ q.address := by
    refine List.pairwise_flatMap.mpr ⟨fun a _ => ?_, ascending.imp fun {a b} less o here q there => ?_⟩
    · rw [Worker.Setting.depositRow]
      split
      · exact .nil
      · exact List.pairwise_singleton _ _
    · rw [named here, named there]
      exact UInt32.le_of_lt less
  refine List.Perm.eq_of_pairwise ?_ left right perm
  intro o q here there below above
  obtain ⟨a, -, mem⟩ := List.mem_flatMap.mp (perm.mem_iff.mp here)
  obtain ⟨b, -, other⟩ := List.mem_flatMap.mp there
  rw [row mem, row other, ← named mem, ← named other, UInt32.le_antisymm below above]

end Order

section Alike
variable {E F : Setting κ σ ε} {refused : UInt32 → Bool} {sweep other : Sweep} {s t : σ} {workers others : Nat}
  {visited addresses : List UInt32}

theorem Left.reorder (left : Left E sweep workers s visited) (same : addresses.Perm visited) :
    Left E sweep workers s addresses :=
  ⟨left.ended, same.nodup_iff.mpr left.distinct, fun a => same.mem_iff.trans (left.every a)⟩

theorem Laid.reorder (laid : Laid E refused sweep workers s visited) (same : addresses.Perm visited) :
    Laid E refused sweep workers s addresses := by
  have outcomes := same.map E.worker.outcome
  obtain ⟨lost, whole, progress⟩ := laid.progress
  refine ⟨laid.rows.trans (same.flatMap_right _).symm, lost, ?_, ?_⟩
  · rw [whole, (storablePerm _ outcomes).length_eq]
  · rw [progress, same.length_eq, Progress.tallyPerm outcomes]

theorem soloStored {seed : UInt64} {rounds cap address : UInt32}
    (free : Unhindered E refused (.alone seed rounds cap address) s) (heard : Heard E (.alone seed rounds cap address) 1) :
    stored E (.alone seed rounds cap address) 1 s = E.worker.deposit refused address := by
  obtain ⟨blocks, -⟩ := Sweep.aloneBlocks seed rounds cap address
  obtain ⟨visited, left, laid⟩ := unhinderedLeaves free (by rw [blocks]; exact List.cons_ne_nil _ _) 1
  have one : [address].Perm visited := by
    refine (List.perm_ext_iff_of_nodup (List.nodup_singleton _) left.distinct).mpr fun a => ?_
    rw [left.every, blocks, List.mem_singleton]
    constructor
    · rintro rfl
      exact ⟨_, List.mem_singleton_self _, by simp [Block.contains]⟩
    · rintro ⟨b, mem, inside⟩
      rw [List.mem_singleton.mp mem, Block.containsValue] at inside
      exact UInt32.toNat_inj.mp (Nat.le_antisymm inside.2 inside.1)
  have rows := ((laid heard).reorder one).rows
  rw [List.flatMap_singleton, Worker.Setting.depositRow] at rows
  rw [Worker.Setting.depositRow]
  split at rows <;> rename_i kept
  · rw [if_pos kept]
    exact rows.eq_nil
  · rw [if_neg kept]
    exact List.perm_singleton.mp rows

theorem laidAlike (left : Laid E refused sweep workers s addresses) (right : Laid F refused other others t addresses)
    (ascending : addresses.Pairwise (· < ·)) (kept : F.worker.storeUnanswered = E.worker.storeUnanswered)
    (alike : ∀ a ∈ addresses, E.worker.Alike F.worker a) :
    sorted (stored E sweep workers s) = sorted (stored F other others t) ∧
    (run E sweep workers s).progress = (run F other others t).progress := by
  have rows : sorted (stored E sweep workers s) = sorted (stored F other others t) := by
    rw [sortedDeposits _ refused ascending left.rows, sortedDeposits _ refused ascending right.rows, List.flatMap_def,
      List.flatMap_def]
    exact congrArg List.flatten (List.map_congr_left fun a mem => Worker.Setting.depositAlike (alike a mem) kept.symm)
  refine ⟨rows, ?_⟩
  have results : (addresses.map E.worker.outcome).map (·.result) = (addresses.map F.worker.outcome).map (·.result) := by
    rw [List.map_map, List.map_map]
    apply List.map_congr_left
    intro a mem
    simpa [Outcome.timeless] using congrArg Outcome.result (Worker.Setting.outcomeAlike (alike a mem))
  obtain ⟨tallies, lengths⟩ := resultsCounted results
  have few : (stored E sweep workers s).length = (stored F other others t).length := by
    have length (rows : List Outcome) : (sorted rows).length = rows.length := by simp [sorted]
    rw [← length, rows, length]
  obtain ⟨lost, whole, progress⟩ := left.progress
  obtain ⟨lostToo, wholeToo, progressToo⟩ := right.progress
  rw [few, lengths, ← kept, ← wholeToo] at whole
  rw [progress, progressToo, tallies, few, Nat.add_left_cancel whole]

theorem laidElsewhere (left : Laid E refused sweep workers s addresses) (right : Laid F refused other others t addresses)
    (ascending : addresses.Pairwise (· < ·)) (kept : F.worker.storeUnanswered = E.worker.storeUnanswered)
    {changed : UInt32} (alike : ∀ a ∈ addresses, a ≠ changed → E.worker.Alike F.worker a) :
    (sorted (stored E sweep workers s)).filter (·.address ≠ changed) =
      (sorted (stored F other others t)).filter (·.address ≠ changed) := by
  rw [sortedDeposits _ refused ascending left.rows, sortedDeposits _ refused ascending right.rows, List.filter_flatMap,
    List.filter_flatMap, List.flatMap_def, List.flatMap_def]
  refine congrArg List.flatten (List.map_congr_left fun a mem => ?_)
  by_cases here : a = changed
  · subst here
    have gone (G : Worker.Setting κ) :
        ((G.deposit refused a).map Outcome.timeless).filter (·.address ≠ a) = [] := by
      have named := Worker.Setting.outcomeAddress G a
      rw [Worker.Setting.depositRow]
      split <;> simp [Outcome.timeless, named]
    rw [gone, gone]
  · rw [Worker.Setting.depositAlike (alike a mem here) kept.symm]

end Alike

structure Solo (E solo : Setting κ σ ε) (refused : UInt32 → Bool) (sweep : Sweep) (s : σ) (address : UInt32) : Prop where
  free : Unhindered solo refused sweep s
  heard : Heard solo sweep 1
  alike : E.worker.Alike solo.worker address
  kept : solo.worker.storeUnanswered = E.worker.storeUnanswered

theorem scanStoresEachAddressAlone {E : Setting κ σ ε} {refused : UInt32 → Bool} {sweep : Sweep} {s : σ}
    (free : Unhindered E refused sweep s) (ranged : sweep.blocks ≠ []) (workers : Nat) (heard : Heard E sweep workers) :
    (∃ summary, (run E sweep workers s).result = .ok summary) ∧
    ∃ addresses : List UInt32, addresses.Pairwise (· < ·) ∧
      (∀ a, a ∈ addresses ↔ ∃ b ∈ sweep.blocks, b.contains a = true) ∧
      (∀ (solo : UInt32 → Setting κ σ ε) seed rounds cap,
        (∀ a ∈ addresses, Solo E (solo a) refused (.alone seed rounds cap a) s a) →
        (sorted (stored E sweep workers s) =
          addresses.flatMap fun a => (stored (solo a) (.alone seed rounds cap a) 1 s).map Outcome.timeless) ∧
        ∀ a ∈ addresses, stored (solo a) (.alone seed rounds cap a) 1 s =
          if refused a ∨ (E.worker.storeUnanswered = false ∧ ((solo a).worker.outcome a).result = .tcpTimeout) then []
          else [(solo a).worker.outcome a]) ∧
      ∀ (F : Setting κ σ ε) other t others, Unhindered F refused other t → Heard F other others →
        (∀ a, a ∈ addresses ↔ ∃ b ∈ other.blocks, b.contains a = true) →
        F.worker.storeUnanswered = E.worker.storeUnanswered →
        ((∀ a ∈ addresses, E.worker.Alike F.worker a) →
          sorted (stored E sweep workers s) = sorted (stored F other others t) ∧
          (run E sweep workers s).progress = (run F other others t).progress) ∧
        ∀ changed, (∀ a ∈ addresses, a ≠ changed → E.worker.Alike F.worker a) →
          (sorted (stored E sweep workers s)).filter (·.address ≠ changed) =
            (sorted (stored F other others t)).filter (·.address ≠ changed) := by
  obtain ⟨visited, told, rows⟩ := unhinderedLeaves free ranged workers
  obtain ⟨addresses, perm, ascending⟩ := ascendingOf told.distinct
  have left := told.reorder perm
  have laid := (rows heard).reorder perm
  refine ⟨left.ended, addresses, ascending, left.every, ?_, ?_⟩
  · intro solo seed rounds cap alone
    refine ⟨?_, fun a mem => ?_⟩
    · rw [sortedDeposits _ refused ascending laid.rows, List.flatMap_def, List.flatMap_def]
      refine congrArg List.flatten (List.map_congr_left fun a mem => ?_)
      obtain ⟨freeAlone, heardAlone, alike, kept⟩ := alone a mem
      rw [soloStored freeAlone heardAlone, Worker.Setting.depositAlike alike kept.symm]
    · obtain ⟨freeAlone, heardAlone, -, kept⟩ := alone a mem
      rw [soloStored freeAlone heardAlone, Worker.Setting.depositRow, kept]
  · intro F other t others freeToo heardToo same kept
    have rangedToo : other.blocks ≠ [] := by
      obtain ⟨b, mem⟩ := List.exists_mem_of_ne_nil _ ranged
      have first : b.contains b.first = true :=
        Block.containsValue.mpr ⟨Nat.le_refl _, (Block.laidBounds free.built.sound.laid mem).2⟩
      obtain ⟨c, covers, -⟩ := (same b.first).mp ((left.every b.first).mpr ⟨b, mem, first⟩)
      exact List.ne_nil_of_mem covers
    obtain ⟨visitedToo, toldToo, rowsToo⟩ := unhinderedLeaves freeToo rangedToo others
    have permToo : addresses.Perm visitedToo := (List.perm_ext_iff_of_nodup left.distinct toldToo.distinct).mpr
      fun a => (same a).trans (toldToo.every a).symm
    have right := (rowsToo heardToo).reorder permToo
    exact ⟨laidAlike laid right ascending kept, fun changed => laidElsewhere laid right ascending kept⟩

section Steady
variable {E : Setting κ σ ε} {pace : Nat}

theorem steadyHeard (courteous : ∀ address, (E.worker.peer address).isCourteous = true) (steady : E.worker.Steady pace)
    (sweep : Sweep) (workers : Nat) : Heard E sweep workers :=
  ⟨courteous, fun i shard _ => Worker.steadyServed steady i shard⟩

end Steady

theorem twoScansLeaveTheSameRows :
    let reply (a : UInt32) : Peer := if a = 0x0A000001 then .listening [22, 3] none [.close] else .silent
    let script (a : UInt32) : Option Script := if a = 0x0A000009 then none else some ⟨[.awaiting, .done], [[1]], false⟩
    let E : Setting Script Recorder Refusal := ⟨⟨Script.capability, script, fun _ => true, reply, fun _ => 1, 443, 4, 9, true,
      fun _ => 99, {}⟩, Recorder.sink, 9, id, false, id⟩
    let F : Setting Script Recorder Refusal := ⟨⟨Script.capability, script, fun _ => true, reply, fun a => a.toUInt64, 443, 1, 9,
      true, fun _ => 99, { lapse := fun _ n => n % 2 }⟩, Recorder.sink, 0, fun _ => 7, false, fun n => 2 * n⟩
    let sweep := ((Sweep.new 3 1).withCap 9).addAll [.cidr "10.0.0.0/30", .cidr "10.0.0.9"]
    let other := (Sweep.new 8 0).addAll [.cidr "10.0.0.9", .cidr "10.0.0.0/30"]
    let s : Recorder := ⟨0, 0, [0x0A000002], [], []⟩
    let refused (a : UInt32) : Bool := [0x0A000002].contains a
    Unhindered E refused sweep s ∧ sweep.blocks ≠ [] ∧ Heard E sweep 2 ∧ (∃ summary, (run E sweep 2 s).result = .ok summary) ∧
    Unhindered F refused other s ∧ Heard F other 3 ∧ sorted (stored E sweep 2 s) = sorted (stored F other 3 s) ∧
    (run E sweep 2 s).progress = (run F other 3 s).progress ∧
    (∀ a, Solo E F refused (.alone 5 4 9 a) s a) ∧
    sorted (stored E sweep 2 s) = [⟨0x0A000001, 443, .tlsCompleted, [22, 3], 0⟩, ⟨0x0A000009, 443, .tlsError, [], 0⟩] := by
  intro reply script E F sweep other s refused
  have sink : ∃ rows outside inside, Recorder.sink.Obeys rows outside inside ∧ outside s ∧
      ∀ o, rows (.raw o) = refused o.address :=
    ⟨_, _, _, recorderObeys [0x0A000002] [], ⟨rfl, rfl, rfl, rfl⟩, fun _ => rfl⟩
  have courteous (a : UInt32) : (reply a).isCourteous = true := by
    simp only [reply]
    split <;> rfl
  have few (a : UInt32) : (⟨a, 99, .asked (reply a), 0, []⟩ : Link).left ≤ 4 := by
    simp only [reply]
    split <;> simp [Link.left, Peer.listening]
  have patient (a : UInt32) {pace : Nat} (brisk : pace ≤ 2) : pace * (⟨a, 99, .asked (reply a), 0, []⟩ : Link).left ≤ 9 :=
    Nat.le_trans (Nat.mul_le_mul brisk (few a)) (by decide)
  have steady : E.worker.Steady 1 := ⟨fun _ _ => rfl, fun _ _ => rfl, fun _ _ => Nat.one_pos, fun _ _ => rfl,
    fun a k link started => Worker.Setting.startSpec started ▸ patient a (by decide)⟩
  have steadyToo : F.worker.Steady 2 := ⟨fun _ _ => rfl, fun _ _ => rfl, fun _ n => Nat.mod_lt n Nat.two_pos, fun _ _ => rfl,
    fun a k link started => Worker.Setting.startSpec started ▸ patient a (by decide)⟩
  have free : Unhindered E refused sweep s :=
    ⟨.added _ (.added _ (.capped 9 (.new 3 1))), by decide +kernel, rfl, sink⟩
  have freeToo : Unhindered F refused other s := ⟨.added _ (.added _ (.new 8 0)), by decide +kernel, rfl, sink⟩
  have blocks : sweep.blocks = other.blocks := by decide +kernel
  have ranged : sweep.blocks ≠ [] := by decide +kernel
  have heard := steadyHeard (E := E) courteous steady sweep 2
  have heardToo := steadyHeard (E := F) courteous steadyToo other 3
  obtain ⟨ended, addresses, ascending, every, alone, compared⟩ := scanStoresEachAddressAlone free ranged 2 heard
  obtain ⟨same, -⟩ := compared F other s 3 freeToo heardToo (blocks ▸ every) rfl
  obtain ⟨rows, progress⟩ := same fun a _ => ⟨rfl, rfl, rfl, rfl, rfl, rfl, rfl⟩
  have solo (a : UInt32) : Solo E F refused (.alone 5 4 9 a) s a :=
    ⟨⟨Sweep.aloneBuilt 5 4 9 a, Sweep.aloneUnbroken 5 4 9 a, rfl, sink⟩, steadyHeard courteous steadyToo _ 1,
      ⟨rfl, rfl, rfl, rfl, rfl, rfl, rfl⟩, rfl⟩
  refine ⟨free, ranged, heard, ended, freeToo, heardToo, rows, progress, solo, ?_⟩
  obtain ⟨whole, each⟩ := alone (fun _ => F) 5 4 9 fun a _ => solo a
  have known : addresses = [0x0A000001, 0x0A000002, 0x0A000009] := by
    have spans : sweep.blocks = [⟨0x0A000001, 0x0A000002⟩, ⟨0x0A000009, 0x0A000009⟩] := by decide +kernel
    refine List.Perm.eq_of_pairwise (fun a b _ _ less more => absurd less (UInt32.lt_asymm more)) ascending (by decide)
      ((List.perm_ext_iff_of_nodup (ascending.imp UInt32.ne_of_lt) (by decide)).mpr fun a => ?_)
    rw [every, spans]
    simp only [List.mem_cons, List.not_mem_nil, or_false, exists_eq_or_imp, exists_eq_left, Block.containsValue,
      ← UInt32.toNat_inj]
    simp
    omega
  rw [whole, known]
  simp only [known] at each
  rw [List.flatMap_cons, List.flatMap_cons, List.flatMap_singleton, each _ (by simp), each _ (by simp), each _ (by simp)]
  decide +kernel

end Scan

namespace Worker
variable {κ : Type} {E : Setting κ}

def unroll (E : Setting κ) : Nat → Worker κ → Option Trace
  | 0, _ => none
  | n + 1, w =>
    match fill E w.shard.remaining w with
    | (some e, _, last) => some (.of [] (some e) last)
    | (none, found, next) =>
      if next.slots.isEmpty then some (.of (batch E found) none next)
      else (unroll E n (next.round E).2).map fun rest =>
        { rest with batches := batch E (found ++ (next.round E).1) ++ rest.batches }

theorem runUnrolled {n : Nat} {w : Worker κ} {t : Trace} (told : unroll E n w = some t) : run E w = t := by
  induction n generalizing w t with
  | zero => contradiction
  | succ n ih =>
    rw [unroll] at told
    rw [run]
    split at told <;> rename_i filled <;> rw [filled]
    · exact Option.some.inj told
    · dsimp only
      split at told <;> rename_i spent
      · rw [dif_pos (List.isEmpty_iff.mp spent)]
        exact Option.some.inj told
      · rw [dif_neg (mt List.isEmpty_iff.mpr spent)]
        obtain ⟨rest, further, rfl⟩ := Option.map_eq_some_iff.mp told
        rw [ih further]

end Worker

namespace Scan

theorem emptySweepFailsResetsRace :
    let E (n : Nat) : Setting Script Recorder Refusal := ⟨⟨Script.capability, fun _ => some ⟨[], [[1]], false⟩, fun _ => true,
      fun _ => .accepting [.reset], fun _ => 0, 443, 1, 5, false, fun _ => 99, { deeds := fun _ _ => n }⟩,
      Recorder.sink, 9, id, false, id⟩
    let s : Recorder := ⟨0, 0, [], [], []⟩
    let sweep := Sweep.alone 7 4 9 1
    (Unhindered (E 1) (fun _ => false) (.new 7 4) s ∧ (run (E 1) (.new 7 4) 1 s).result = .error (.sweep .noRanges)) ∧
    (∀ n, Unhindered (E n) (fun _ => false) sweep s) ∧ (∀ i, Worker.Served (E 1).worker (.new i sweep)) ∧
    Worker.Served (E 2).worker (.new 0 sweep) ∧
    stored (E 1) sweep 1 s = [⟨1, 443, .tlsError, [], 0⟩] ∧ stored (E 2) sweep 1 s = [⟨1, 443, .connectFailed, [], 0⟩] := by
  intro E s sweep
  have sink : ∃ rows outside inside, Recorder.sink.Obeys rows outside inside ∧ outside s ∧
      ∀ o : Outcome, rows (.raw o) = false :=
    ⟨_, _, _, recorderObeys [] [], ⟨rfl, rfl, rfl, rfl⟩, fun _ => rfl⟩
  have filled : sweep.blocks.isEmpty = false := by decide +kernel
  have steady : (E 1).worker.Steady 1 :=
    ⟨fun _ _ => rfl, fun _ _ => rfl, fun _ _ => Nat.one_pos, fun _ _ => rfl, fun a k link started => by
      rw [Worker.Setting.startSpec started]
      simp [E, Link.left]⟩
  have hasty : Worker.Served (E 2).worker (.new 0 sweep) := by
    let w : Worker Script := .new 0 sweep
    let next := (Worker.fill (E 2).worker w.shard.remaining w).2.2
    let last := (next.round (E 2).worker).2
    let rest := Worker.fill (E 2).worker last.shard.remaining last
    obtain ⟨opened, found, busy, served, drained, few, spent⟩ :
        (Worker.fill (E 2).worker w.shard.remaining w).1 = none ∧ (Worker.fill (E 2).worker w.shard.remaining w).2.1 = [] ∧
        next.slots.isEmpty = false ∧
        (∀ d ∈ next.dialogues, (Worker.present (E 2).worker next d).Served Script.capability (Worker.polled (E 2).worker next d)
          (Worker.later (E 2).worker next)) ∧
        rest.1 = none ∧ rest.2.1 = [] ∧ rest.2.2.slots.isEmpty = true := by decide +kernel
    exact .busy (Prod.ext opened (Prod.ext found rfl)) (by simpa using busy) served
      (.drained (Prod.ext drained (Prod.ext few rfl)) (by simpa using spent))
  have stores (n : Nat) (t : Worker.Trace) (told : Worker.unroll (E n).worker 3 (.new 0 (sweep.cutAt 1 0)) = some t) :
      stored (E n) sweep 1 s = (rowsOf (Ask.allGranted
        ((gathered (E n).logged [t] (s, [])).2.flush (E n).logged.sink).2.sink.2)).filterMap Row.outcome? := by
    have alone : traces (E n).logged sweep (max 1 1) = [Worker.run (E n).worker (.new 0 (sweep.cutAt 1 0))] := rfl
    rw [stored, runEnds (E n).logged sweep filled 1 (s, []), alone, Worker.runUnrolled told]
  refine ⟨⟨⟨.new 7 4, by decide, rfl, sink⟩, runEmpty (E 1) _ rfl 1 s⟩,
    fun n => ⟨Sweep.aloneBuilt 7 4 9 1, Sweep.aloneUnbroken 7 4 9 1, rfl, sink⟩,
    fun i => Worker.steadyServed steady i sweep, hasty, ?_, ?_⟩
  · refine (stores 1 ⟨[[⟨1, 443, .tlsError, [], 0⟩]], ⟨1, 0, 0, 0, 0, 1, 0, 0⟩, ⟨0, 1, 1, 0, false⟩, none⟩ ?_).trans ?_ <;>
      decide +kernel
  · refine (stores 2 ⟨[[⟨1, 443, .connectFailed, [], 0⟩]], ⟨1, 1, 0, 0, 0, 0, 0, 0⟩, ⟨0, 1, 1, 0, false⟩, none⟩ ?_).trans ?_ <;>
      decide +kernel

end Scan
end TlsCensus
