import TlsCensus.Proofs.SoloScans
import Mathlib.Algebra.Ring.Nat

/-! The books of a scan that came to its end. What the workers report, what the counters
show, what the batches were answered and what the sink let in agree with each other and
with the number of addresses. -/
namespace TlsCensus.Scan
variable {κ σ ε : Type} {E : Setting κ σ ε} {sweep : Sweep} {count : Nat}

section Counts
variable {p : Permutation} {visited : List UInt32} {found : List Outcome} (swept : Swept E p sweep count visited found)
include swept

theorem sweptTotal : visited.length = sweep.total ∧ found.length = sweep.total := by
  have positions := congrArg List.length swept.positions
  have addresses := swept.addresses.length_eq
  simp only [List.length_map, List.length_range] at positions addresses
  exact ⟨positions.symm, addresses.trans positions.symm⟩

theorem sweptReport {i : Nat} (below : i < count) (filled : sweep.blocks.isEmpty = false) :
    ∃ shard, sweep.shard count i = .ok shard ∧ ((traces E sweep count).map (·.report))[i]? =
      some ⟨i, shard.stop - shard.start, shard.stop - shard.start, 0, false⟩ := by
  refine ⟨_, Sweep.shardOk filled below, ?_⟩
  rw [swept.reports, List.getElem?_map, List.getElem?_range below]
  simp only [Option.map_some, Sweep.window, List.length_range']

theorem sweptShares (one : 1 ≤ count) (part : WorkerReport → Nat)
    (share : ∀ i n, part ⟨i, n, n, 0, false⟩ = n) :
    (((traces E sweep count).map (·.report)).map part).sum = sweep.total := by
  have whole := congrArg List.length (Sweep.windowsPartition sweep one)
  rw [List.length_flatMap, List.length_range, List.map_map] at whole
  rw [swept.reports, List.map_map, ← whole]
  congr 1
  exact List.map_congr_left fun i _ => share i _

end Counts

structure Booked (storeUnanswered : Bool) (found : List Outcome) (stored : Nat) (progress : Progress) : Prop where
  attempted : progress.attempted.toNat = found.length
  finished : progress.finished.toNat = found.length
  stored : progress.stored.toNat = stored
  offered : progress.stored.toNat + progress.storeFailures.toNat +
    (if storeUnanswered then 0 else progress.tcpTimeout.toNat) = found.length

/- At most as many as there are addresses, so no counter has wrapped. -/
theorem tallyBooked {storeUnanswered : Bool} {found : List Outcome} {stored lost : Nat} (word : found.length ≤ 2 ^ 32)
    (offered : stored + lost = (storable storeUnanswered found).length) :
    Booked storeUnanswered found stored
      ((Progress.tally found.length found).recordStored (.ofNat stored) (.ofNat lost)) := by
  have kept := storableLength storeUnanswered found
  have value {n : Nat} (below : n ≤ found.length) : (UInt64.ofNat n).toNat = n := Sweep.wordValue (by omega)
  have unanswered : (UInt64.ofNat (found.countP (·.result = .tcpTimeout))).toNat = found.countP (·.result = .tcpTimeout) :=
    value List.countP_le_length
  refine ⟨value (Nat.le_refl _), ?_, ?_, ?_⟩
  · exact (congrArg UInt64.toNat (Progress.finishedTally found.length found)).trans (value (Nat.le_refl _))
  · simp only [Progress.recordStored, Progress.tally, UInt64.zero_add]
    exact value (by omega)
  · simp only [Progress.recordStored, Progress.tally, Progress.codes, UInt64.zero_add, unanswered]
    rw [value (by omega), value (by omega)]
    omega

theorem tracesStopped (stopped : E.stopped = true) (sweep : Sweep) (count : Nat) :
    traces E sweep count = (List.range count).map Worker.stopped := by
  apply List.map_congr_left
  intro i _
  rw [trace, stopped]
  rfl

theorem batchesStopped (stopped : E.stopped = true) (sweep : Sweep) (count : Nat) :
    ((traces E sweep count).map (·.batches)).flatten = [] := by
  rw [tracesStopped stopped, List.flatten_eq_nil_iff]
  intro batches mem
  rw [List.map_map] at mem
  obtain ⟨i, -, rfl⟩ := List.mem_map.mp mem
  rfl

theorem gatheredStopped (E : Setting κ σ ε) (stopped : E.stopped = true) (sweep : Sweep) (count : Nat) (s : σ) :
    traces E sweep count = (List.range count).map Worker.stopped ∧
    (gathered E (traces E sweep count) s).2 = .new s E.maxAge := by
  refine ⟨tracesStopped stopped sweep count, ?_⟩
  rw [gathered, batchesStopped stopped]
  rfl

theorem scanCountsBalance (E : Setting κ σ ε) {sweep : Sweep} (built : sweep.Built) (workers : Nat) (s : σ)
    {summary : ScanSummary} (ended : (run E sweep workers s).result = .ok summary) :
    let count := max workers 1
    let logged := run E.logged sweep workers (s, [])
    run E sweep workers s = ⟨logged.result, logged.progress, logged.sink.1⟩ ∧ summary.reports.length = count ∧
    (E.stopped = false →
      (∀ i < count, ∃ shard, sweep.shard count i = .ok shard ∧
        summary.reports[i]? = some ⟨i, shard.stop - shard.start, shard.stop - shard.start, 0, false⟩) ∧
      (summary.reports.map (·.attempted)).sum = sweep.total ∧ (summary.reports.map (·.finished)).sum = sweep.total ∧
      summary.progress.attempted.toNat = sweep.total ∧ summary.progress.finished.toNat = sweep.total ∧
      summary.progress.stored.toNat + summary.progress.storeFailures.toNat +
        (if E.worker.storeUnanswered then 0 else summary.progress.tcpTimeout.toNat) =
          summary.progress.finished.toNat ∧
      ∃ whole, Ask.allGranted logged.sink.2 = ledger whole none ∧
        summary.progress.stored.toNat = whole.flatten.length ∧ ∀ row ∈ whole.flatten, ∃ o, row = .raw o) ∧
    (E.stopped = true → logged.sink.2 = [] ∧ ∀ i < count, summary.reports[i]? = some ⟨i, 0, 0, 0, true⟩) := by
  intro count logged
  have plain := runUnlogged E sweep workers s
  rw [plain] at ended
  have filled : sweep.blocks.isEmpty = false := by
    cases empty : sweep.blocks.isEmpty with
    | false => rfl
    | true => cases (runEmpty E.logged sweep empty workers (s, [])).symm.trans ended
  obtain ⟨-, sink, ends⟩ := runFilled E.logged sweep filled workers (s, [])
  obtain ⟨flushed, calm, rfl⟩ := (ends summary).mp ended
  have traced : traces E.logged sweep count = traces E sweep count := rfl
  refine ⟨plain, by simp [traces, count], ?_, ?_⟩
  · intro running
    obtain ⟨visited, found, swept⟩ :=
      tracesTell built.sound (built.sound.permutes filled) running (Nat.le_max_right _ _) calm
    obtain ⟨all, each⟩ := sweptTotal swept
    obtain ⟨ordered, raws, lost, offered, counted⟩ := gatheredStores E (traces E sweep count) s
    rw [swept.handed] at offered
    rw [swept.counted, all, ← each] at counted
    have booked := tallyBooked (each ▸ built.sound.totalBound) offered
    rw [← counted] at booked
    obtain ⟨whole, word, stored⟩ := Window.flushedLedger ordered flushed
    refine ⟨fun i below => sweptReport swept below filled, sweptShares swept (Nat.le_max_right _ _) _ fun _ _ => rfl,
      sweptShares swept (Nat.le_max_right _ _) _ fun _ _ => rfl, booked.attempted.trans each, booked.finished.trans each,
      booked.offered.trans booked.finished.symm, whole, ?_, ?_, ?_⟩
    · rw [← word]
      exact congrArg (fun t => Ask.allGranted t.2) sink
    · rw [stored]
      exact booked.stored
    · rw [stored]
      exact raws
  · intro stopped
    obtain ⟨idle, fresh⟩ := gatheredStopped E.logged stopped sweep count (s, [])
    refine ⟨?_, fun i below => ?_⟩
    · rw [show logged.sink = _ from sink, fresh]
      rfl
    · rw [show traces E.logged sweep (max workers 1) = _ from idle, List.map_map, List.getElem?_map,
        List.getElem?_range below]
      rfl

theorem threeAddressesBalance :
    let script (a : UInt32) : Option Script := if a = 0x0A000009 then none else some ⟨[.awaiting, .done], [[1]], false⟩
    let reply (a : UInt32) : Peer := if a = 0x0A000001 then .silent else .refusing
    let E : Setting Script Recorder Refusal := ⟨⟨Script.capability, script, fun _ => true, reply, fun _ => 0, 443, 1, 5, false,
      fun _ => 99, {}⟩, Recorder.sink, 9, id, false, id⟩
    let sweep := ((Sweep.new 3 1).withCap 9).addAll [.cidr "10.0.0.0/30", .cidr "10.0.0.9"]
    let s : Recorder := ⟨0, 0, [0x0A000002], [], []⟩
    sweep.Built ∧ ∃ summary, (run E sweep 2 s).result = .ok summary ∧ summary.reports.length = 2 ∧
      (summary.reports.map (·.finished)).sum = 3 ∧ summary.progress.attempted.toNat = 3 ∧
      summary.progress.stored.toNat + summary.progress.storeFailures.toNat + summary.progress.tcpTimeout.toNat = 3 ∧
      ∃ whole, Ask.allGranted (run E.logged sweep 2 (s, [])).sink.2 = ledger whole none ∧
        summary.progress.stored.toNat = whole.flatten.length := by
  intro script reply E sweep s
  have built : sweep.Built := .added _ (.added _ (.capped 9 (.new 3 1)))
  have free : Unhindered E [0x0A000002].contains sweep s :=
    ⟨built, by decide +kernel, rfl, _, _, _, recorderObeys [0x0A000002] [], ⟨rfl, rfl, rfl, rfl⟩, fun _ => rfl⟩
  obtain ⟨_, left, -⟩ := unhinderedLeaves free (by decide +kernel) 2
  obtain ⟨summary, ended⟩ := left.ended
  obtain ⟨-, length, counts, -⟩ := scanCountsBalance E built 2 s ended
  obtain ⟨-, -, sum, attempted, finished, offered, whole, word, stored, -⟩ := counts rfl
  have total : sweep.total = 3 := by decide +kernel
  exact ⟨built, summary, ended, length, sum.trans total, attempted.trans total,
    offered.trans (finished.trans total), whole, word, stored⟩

end TlsCensus.Scan
