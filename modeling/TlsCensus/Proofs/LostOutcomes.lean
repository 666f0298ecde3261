import TlsCensus.Proofs.Balance
import TlsCensus.Proofs.StuckWalks
import Mathlib.Algebra.Order.BigOperators.Group.List
import Mathlib.Algebra.Order.Group.Nat

/-! The books of a scan that may fail. A worker whose shard fails has counted the outcomes it found
while it filled its places, and hands them on to nobody. These are outcomes of addresses without a
connection, and no others are lost: whatever else was counted is offered to the sink. -/
namespace TlsCensus

namespace Worker
variable {κ : Type} {E : Setting κ} {p : Permutation} {w : Worker κ}

/- What a run finds in the fill that ends it with a failure, and nothing when none does. -/
inductive Loses (E : Setting κ) : Worker κ → List Outcome → Prop where
  | failed {w last found e} (filled : fill E w.shard.remaining w = (some e, found, last)) : Loses E w found
  | drained {w next found} (filled : fill E w.shard.remaining w = (none, found, next)) (spent : next.slots = []) :
      Loses E w []
  | busy {w next found lost} (filled : fill E w.shard.remaining w = (none, found, next)) (holding : next.slots ≠ [])
      (rest : Loses E (next.round E).2 lost) : Loses E w lost

theorem runFails {e : SweepError} (failed : (fill E w.shard.remaining w).1 = some e) :
    run E w = .of [] (some e) (fill E w.shard.remaining w).2.2 := by
  rw [run]
  split <;> rename_i filled <;> simp only [filled] at failed ⊢
  · cases failed
    rfl
  · cases failed

def Setting.AtOnce (E : Setting κ) (o : Outcome) : Prop := E.start o.address = .error o ∧ o = E.outcome o.address

theorem fillAtOnce (E : Setting κ) (n : Nat) (w : Worker κ) : ∀ o ∈ (fill E n w).2.1, E.AtOnce o := by
  fun_induction fill E n w with
  | case1 | case2 | case3 => exact fun _ inside => absurd inside List.not_mem_nil
  | case4 n w free address shard taken w' outcome ended failure others last filled ih =>
    rw [filled] at ih
    obtain ⟨rfl, -⟩ := Setting.startFailed ended
    refine List.forall_mem_cons.mpr ⟨⟨ended, ?_⟩, ih⟩
    rw [Setting.outcome, ended]
  | case5 n w free address shard taken w' k link started ih => exact ih

structure Accounted (E : Setting κ) (p : Permutation) (w : Worker κ) (visited : List UInt32)
    (found lost : List Outcome) (t : Trace) : Prop where
  loses : Loses E w lost
  last : ∃ after, Probed p w visited (found ++ lost) after ∧ after.shard.Sound ∧ t.progress = after.progress
  handed : t.batches.flatten = storable E.storeUnanswered found
  atOnce : ∀ o ∈ lost, E.AtOnce o
  calm : t.failure = none → lost = []

theorem runAccounted (E : Setting κ) (ready : Ready p w) :
    ∃ visited found lost, Accounted E p w visited found lost (run E w) := by
  fun_induction run E w with
  | case1 w e found last filled =>
    obtain ⟨visited, fills⟩ := fillProbed E ready (Nat.le_refl _)
    have ended := fillAtOnce E w.shard.remaining w
    rw [filled] at fills ended
    refine ⟨visited, [], found, .failed filled, ⟨last, fills.probed, fills.ready.sound, rfl⟩, ?_, ended,
      fun calm => absurd calm (Option.some_ne_none e)⟩
    cases E.storeUnanswered <;> rfl
  | case2 w found next filled drained =>
    obtain ⟨visited, fills⟩ := fillProbed E ready (Nat.le_refl _)
    rw [filled] at fills
    refine ⟨visited, found, [], .drained filled drained, ⟨next, ?_, fills.ready.sound, rfl⟩, batchFlatten E found,
      fun _ inside => absurd inside List.not_mem_nil, fun _ => rfl⟩
    rw [List.append_nil]
    exact fills.probed
  | case3 w found next filled busy rest ih =>
    obtain ⟨visited, fills⟩ := fillProbed E ready (Nat.le_refl _)
    rw [filled] at fills
    obtain ⟨round, still⟩ := roundProbed E fills.ready
    obtain ⟨more, others, lost, loses, ⟨last, second, sound, progress⟩, handed, ended, calm⟩ := ih still
    have whole := (fills.probed.trans round).trans second
    rw [← List.append_assoc] at whole
    refine ⟨_, _, lost, .busy filled busy loses, ⟨last, whole, sound, progress⟩, ?_, ended, calm⟩
    rw [List.flatten_append, batchFlatten, handed, ← storableAppend]

theorem runBooked {shard : Sweep} {id : Nat} (fresh : shard.cursor = shard.start) {visited : List UInt32}
    {found lost : List Outcome} {t : Trace} (accounted : Accounted E p (new id shard) visited found lost t) :
    t.progress = .tally visited.length (found ++ lost) ∧ (found ++ lost).length ≤ visited.length ∧
    visited.length ≤ shard.window.length := by
  obtain ⟨after, probed, sound, progress⟩ := accounted.last
  obtain ⟨cursor, stop, -⟩ := probed.windowKept
  have owed := probed.balance.length_eq
  have below := sound.cursor
  refine ⟨?_, ?_, ?_⟩
  · rw [progress, probed.progress]
    exact Progress.zeroAdd _
  · simp only [dialogues, new, List.map_nil, List.nil_append, List.length_append, List.length_map] at owed ⊢
    omega
  · rw [Sweep.window, List.length_range']
    simp only [new] at cursor stop
    omega

end Worker

namespace Scan
variable {κ σ ε : Type}

structure Settled (E : Setting κ σ ε) (sweep : Sweep) (count : Nat) (found lost : List Outcome) : Prop where
  loses : ∃ parts : Nat → List Outcome, lost = (List.range count).flatMap parts ∧ (E.stopped = false →
    ∀ i < count, ∃ shard, sweep.shard count i = .ok shard ∧ Worker.Loses E.worker (.new i shard) (parts i))
  handed : ((traces E sweep count).map (·.batches)).flatten.flatten = storable E.worker.storeUnanswered found
  counted : ∃ attempted, ((traces E sweep count).map (·.progress)).foldl Progress.add .zero = .tally attempted (found ++ lost)
  few : (found ++ lost).length ≤ sweep.total
  atOnce : ∀ o ∈ lost, E.worker.AtOnce o
  calm : (∀ t ∈ traces E sweep count, t.failure = none) → lost = []

section Sound
variable {E : Setting κ σ ε} {sweep : Sweep} (sound : sweep.Sound) (filled : sweep.blocks.isEmpty = false) {count : Nat}
  (one : 1 ≤ count)

theorem stoppedSettled (stopped : E.stopped = true) : Settled E sweep count [] [] := by
  have empty : (List.range count).flatMap (fun _ => ([] : List Outcome)) = [] := by simp
  refine ⟨⟨fun _ => [], empty.symm, fun running => ?_⟩, ?_, ⟨0, ?_⟩, Nat.zero_le _, nofun, fun _ => rfl⟩
  · rw [running] at stopped
    contradiction
  · rw [batchesStopped stopped]
    cases E.worker.storeUnanswered <;> rfl
  · rw [tracesStopped stopped, List.map_map]
    induction List.range count with
    | nil => rfl
    | cons i rest ih => exact ih

include sound filled one

theorem runningSettled (running : E.stopped = false) : ∃ found lost, Settled E sweep count found lost := by
  have permutes := sound.permutes filled
  have told (i : Nat) : ∃ visited found lost, i < count → Worker.Accounted E.worker
      ⟨sweep.total.toUInt64, sweep.seed, .covering sweep.total.toUInt64 sweep.rounds, sweep.cap⟩
      (.new i (sweep.cutAt count i)) visited found lost (trace E i (sweep.cutAt count i)) := by
    by_cases below : i < count
    · obtain ⟨visited, found, lost, accounted⟩ := Worker.runAccounted E.worker
        (Worker.readyNew (Sweep.soundCut sound below) permutes i)
      rw [trace, running]
      exact ⟨visited, found, lost, fun _ => accounted⟩
    · exact ⟨[], [], [], fun inside => absurd inside below⟩
  choose visited found lost tells using told
  have each {β : Type} {f : Nat → β} {g : Nat → β} (same : ∀ i < count, f i = g i) :
      (List.range count).map f = (List.range count).map g :=
    List.map_congr_left fun i mem => same i (List.mem_range.mp mem)
  have booked (i : Nat) (below : i < count) := Worker.runBooked rfl (tells i below)
  have mixed : ((List.range count).flatMap found ++ (List.range count).flatMap lost).Perm
      ((List.range count).flatMap fun i => found i ++ lost i) := List.flatMap_append_perm _ _ _
  refine ⟨(List.range count).flatMap found, (List.range count).flatMap lost, ⟨lost, rfl, ?_⟩, ?_, ?_, ?_, ?_, ?_⟩
  · exact fun _ i below => ⟨_, Sweep.shardOk filled below, (tells i below).loses⟩
  · rw [traces, List.map_map, List.flatten_flatten, List.map_map, storableFlatMap, List.flatMap_def]
    exact congrArg List.flatten (each fun i below => (tells i below).handed)
  · have counts := each fun i below => (booked i below).1
    refine ⟨((List.range count).flatMap visited).length, ?_⟩
    rw [traces, List.map_map, Progress.tallyPerm mixed]
    exact (congrArg (List.foldl Progress.add .zero) counts).trans
      ((Progress.foldTallies _ visited _ .zero).trans (Progress.zeroAdd _))
  · have whole := congrArg List.length (Sweep.windowsPartition sweep one)
    rw [List.length_flatMap, List.length_range, List.map_map] at whole
    rw [mixed.length_eq, List.length_flatMap, ← whole]
    refine List.sum_le_sum fun i mem => ?_
    obtain ⟨-, fewer, few⟩ := booked i (List.mem_range.mp mem)
    exact fewer.trans few
  · intro o inside
    obtain ⟨i, mem, here⟩ := List.mem_flatMap.mp inside
    exact (tells i (List.mem_range.mp mem)).atOnce o here
  · intro calm
    rw [List.flatMap_eq_nil_iff]
    intro i mem
    exact (tells i (List.mem_range.mp mem)).calm (calm _ (List.mem_map.mpr ⟨i, mem, rfl⟩))

theorem tracesSettled : ∃ found lost, Settled E sweep count found lost := by
  cases told : E.stopped with
  | true => exact ⟨[], [], stoppedSettled told⟩
  | false => exact runningSettled sound filled one told

end Sound

theorem lossesBooked {storeUnanswered : Bool} {attempted : Nat} {found lost : List Outcome}
    (word : (found ++ lost).length ≤ 2 ^ 32) (answered : ∀ o ∈ lost, o.result ≠ .tcpTimeout) :
    let kept := (storable storeUnanswered found).length
    let progress := (Progress.tally attempted (found ++ lost)).recordStored (.ofNat kept) (.ofNat 0)
    progress.finished.toNat = found.length + lost.length ∧ progress.stored.toNat = kept ∧
    progress.stored.toNat + lost.length + (if storeUnanswered then 0 else progress.tcpTimeout.toNat) =
      progress.finished.toNat := by
  intro kept progress
  have whole := storableLength storeUnanswered found
  have value {n : Nat} (below : n ≤ (found ++ lost).length) : (UInt64.ofNat n).toNat = n := Sweep.wordValue (by omega)
  have length : (found ++ lost).length = found.length + lost.length := List.length_append
  have silent : (found ++ lost).countP (·.result = .tcpTimeout) = found.countP (·.result = .tcpTimeout) := by
    rw [List.countP_append, Nat.add_eq_left, List.countP_eq_zero]
    simpa using answered
  have finished : progress.finished.toNat = found.length + lost.length :=
    (congrArg UInt64.toNat (Progress.finishedTally attempted (found ++ lost))).trans ((value (Nat.le_refl _)).trans length)
  have stored : progress.stored.toNat = kept := by
    simp only [progress, Progress.recordStored, Progress.tally, UInt64.zero_add]
    exact value (by omega)
  have unanswered : progress.tcpTimeout.toNat = found.countP (·.result = .tcpTimeout) := by
    simp only [progress, Progress.recordStored, Progress.tally, Progress.codes, silent]
    exact value (List.countP_le_length.trans (by omega))
  refine ⟨finished, stored, ?_⟩
  rw [stored, finished, unanswered]
  omega

structure Closed (E : Setting κ σ ε) (sweep : Sweep) (count : Nat) (found lost : List Outcome)
    (ended : ScanEnd (σ × List Ask) ε) : Prop where
  loses : ∃ parts : Nat → List Outcome, lost = (List.range count).flatMap parts ∧
    (E.stopped = false → sweep.blocks ≠ [] → ∀ i < count, ∃ shard, sweep.shard count i = .ok shard ∧
      Worker.Loses E.worker (.new i shard) (parts i))
  rows : (rowsOf (Ask.allGranted ended.sink.2)).Perm ((storable E.worker.storeUnanswered found).map .raw)
  counted : ∃ attempted, ended.progress = (Progress.tally attempted (found ++ lost)).recordStored
    (.ofNat (storable E.worker.storeUnanswered found).length) (.ofNat 0)
  word : (found ++ lost).length ≤ 2 ^ 32
  atOnce : ∀ o ∈ lost, E.worker.AtOnce o
  calm : ∀ summary, ended.result = .ok summary → lost = []

theorem refusedCloses (E : Setting κ σ ε) {sweep : Sweep} (empty : sweep.blocks.isEmpty = true) (workers : Nat) (s : σ) :
    Closed E sweep (max workers 1) [] [] (run E.logged sweep workers (s, [])) := by
  have none : sweep.blocks = [] := List.isEmpty_iff.mp empty
  have kept : storable E.worker.storeUnanswered [] = [] := by cases E.worker.storeUnanswered <;> rfl
  rw [runRefused E.logged sweep empty]
  refine ⟨⟨fun _ => [], by simp, fun _ ranged => absurd none ranged⟩, ?_, ⟨0, ?_⟩, Nat.zero_le _, nofun, nofun⟩
  · rw [kept]
    exact .nil
  · rw [kept]
    rfl

theorem filledCloses {E : Setting κ σ ε} {outside inside : σ → Prop}
    (obeys : E.sink.Obeys (fun _ => false) outside inside) {sweep : Sweep} (sound : sweep.Sound)
    (filled : sweep.blocks.isEmpty = false) (workers : Nat) {s : σ} (begun : outside s) :
    ∃ found lost, Closed E sweep (max workers 1) found lost (run E.logged sweep workers (s, [])) := by
  obtain ⟨found, lost, ⟨parts, whole, loses⟩, handed, ⟨attempted, counted⟩, few, ended, calm⟩ :=
    tracesSettled (E := E) sound filled (Nat.le_max_right workers 1)
  obtain ⟨progressed, sink, ends⟩ := runFilled E.logged sweep filled workers (s, [])
  have traced : traces E.logged sweep (max workers 1) = traces E sweep (max workers 1) := rfl
  rw [traced] at progressed sink ends
  obtain ⟨-, stored⟩ := gatheredObeyed E (traces E sweep (max workers 1)) s obeys begun
  obtain ⟨-, -, refused, offered, told⟩ := gatheredStores E (traces E sweep (max workers 1)) s
  rw [handed, show (fun _ : Row => !false) = fun _ => true from rfl, List.filter_true] at stored
  rw [handed, stored.length_eq, List.length_map] at offered
  rw [counted, stored.length_eq, List.length_map, Nat.add_eq_left.mp offered] at told
  refine ⟨found, lost, ⟨parts, whole, fun running _ => loses running⟩, ?_, ⟨attempted, progressed.trans told⟩,
    few.trans sound.totalBound, ended, fun summary succeeded => calm ((ends summary).mp succeeded).2.1⟩
  rw [sink]
  exact (List.Perm.of_eq Window.flushStored).trans stored

theorem scanStoresAllButTheLost (E : Setting κ σ ε) {outside inside : σ → Prop}
    (obeys : E.sink.Obeys (fun _ => false) outside inside) {sweep : Sweep} (built : sweep.Built) (workers : Nat) {s : σ}
    (begun : outside s) :
    let count := max workers 1
    let logged := run E.logged sweep workers (s, [])
    let progress := logged.progress
    let unanswered := if E.worker.storeUnanswered then 0 else progress.tcpTimeout.toNat
    run E sweep workers s = ⟨logged.result, progress, logged.sink.1⟩ ∧ ∃ found lost : List Outcome,
      (∃ parts : Nat → List Outcome, lost = (List.range count).flatMap parts ∧
        (E.stopped = false → sweep.blocks ≠ [] → ∀ i < count, ∃ shard, sweep.shard count i = .ok shard ∧
          Worker.Loses E.worker (.new i shard) (parts i))) ∧
      (rowsOf (Ask.allGranted logged.sink.2)).Perm ((storable E.worker.storeUnanswered found).map .raw) ∧
      progress.finished.toNat = found.length + lost.length ∧
      progress.stored.toNat = (storable E.worker.storeUnanswered found).length ∧
      progress.stored.toNat + lost.length + unanswered = progress.finished.toNat ∧
      (progress.stored.toNat + unanswered = progress.finished.toNat ↔ lost = []) ∧
      (∀ o ∈ lost, E.worker.AtOnce o) ∧ ∀ summary, logged.result = .ok summary → lost = [] := by
  intro count logged progress unanswered
  obtain ⟨found, lost, closed⟩ : ∃ found lost, Closed E sweep count found lost logged := by
    cases filled : sweep.blocks.isEmpty with
    | true => exact ⟨[], [], refusedCloses E filled workers s⟩
    | false => exact filledCloses obeys built.sound filled workers begun
  obtain ⟨attempted, counted⟩ := closed.counted
  have answered : ∀ o ∈ lost, o.result ≠ .tcpTimeout := fun o inside =>
    (Worker.Setting.startFailed (closed.atOnce o inside).1).2
  obtain ⟨finished, stored, balance⟩ := @lossesBooked E.worker.storeUnanswered attempted found lost closed.word answered
  rw [← counted] at finished stored balance
  refine ⟨runUnlogged E sweep workers s, found, lost, closed.loses, closed.rows, finished, stored, balance, ?_, closed.atOnce,
    closed.calm⟩
  rw [← List.length_eq_zero_iff]
  show progress.stored.toNat + unanswered = progress.finished.toNat ↔ lost.length = 0
  have balance : progress.stored.toNat + lost.length + unanswered = progress.finished.toNat := balance
  omega

theorem refusalsAccounted :
    let E : Setting Script Recorder Refusal := ⟨⟨Script.capability, fun _ => some ⟨[.awaiting, .done], [[1]], false⟩,
      fun _ => false, fun _ => .silent, fun _ => 0, 443, 4, 5, true, fun _ => 99, {}⟩, Recorder.sink, 9, id, false, id⟩
    let sweep := ((Sweep.new 4 4).withCap 0).addAll [.cidr "127.0.1.0/29"]
    let progress := (run E.logged sweep 1 (⟨0, 0, [], [], []⟩, [])).progress
    sweep.Built ∧ sweep.blocks ≠ [] ∧ ∃ lost shard, sweep.shard 1 0 = .ok shard ∧
      Worker.Loses E.worker (.new 0 shard) lost ∧ progress.stored.toNat + lost.length = progress.finished.toNat := by
  intro E sweep progress
  have built : sweep.Built := .added _ (.capped 0 (.new 4 4))
  have ranged : sweep.blocks ≠ [] := by decide +kernel
  obtain ⟨-, found, lost, ⟨parts, whole, loses⟩, -, -, -, balance, -⟩ :=
    scanStoresAllButTheLost E recorderGrants built 1 (s := ⟨0, 0, [], [], []⟩) ⟨rfl, rfl, rfl, rfl⟩
  obtain ⟨shard, cut, mine⟩ := loses rfl ranged 0 (Nat.lt_succ_self 0)
  have single : lost = parts 0 := by rw [whole]; simp
  exact ⟨built, ranged, lost, shard, cut, single ▸ mine, balance⟩

theorem threeRefusalsLost :
    let E : Setting Script Recorder Refusal := ⟨⟨Script.capability, fun _ => some ⟨[.awaiting, .done], [[1]], false⟩,
      fun _ => false, fun _ => .silent, fun _ => 0, 443, 4, 5, false, fun _ => 99, {}⟩, Recorder.sink, 9, id, false, id⟩
    let sweep := ((Sweep.new 4 4).withCap 0).addAll [.cidr "127.0.1.0/29"]
    let s : Recorder := ⟨0, 0, [], [], []⟩
    (run E sweep 1 s).result = .error (.sweep (.permutation (.walkTooLong 3 0))) ∧
    (run E sweep 1 s).progress.finished = 3 ∧ (run E sweep 1 s).progress.tcpTimeout = 0 ∧
    (run E sweep 1 s).progress.stored = 0 ∧ (run E sweep 1 s).sink.calls = [] := by
  intro E sweep s
  let w : Worker Script := .new 0 (sweep.cutAt 1 0)
  have filled : sweep.blocks.isEmpty = false := by decide +kernel
  obtain ⟨failed, counted⟩ : (Worker.fill E.worker w.shard.remaining w).1 = some (.permutation (.walkTooLong 3 0)) ∧
      (Worker.fill E.worker w.shard.remaining w).2.2.progress = ⟨3, 3, 0, 0, 0, 0, 0, 0⟩ := by decide +kernel
  have alone : traces E sweep (max 1 1) = [Worker.run E.worker w] := rfl
  rw [runEnds E sweep filled 1 s, alone, Worker.runFails failed]
  have gathers (last : Worker Script) : gathered E [.of [] (some (.permutation (.walkTooLong 3 0))) last] s =
      (Progress.zero.add last.progress, .new s E.maxAge) := rfl
  rw [gathers, counted]
  exact ⟨rfl, rfl, rfl, rfl, rfl⟩

end Scan
end TlsCensus
