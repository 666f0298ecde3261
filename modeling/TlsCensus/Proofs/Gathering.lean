import TlsCensus.Proofs.Deposits
import TlsCensus.Proofs.Probing

/-! The batches of all workers, gathered in one window. The order in which they come changes
neither which rows are offered nor how many are counted. -/
namespace TlsCensus

section Queues
variable {α : Type}

theorem setPerm {queues : List (List α)} {i : Nat} {first : α} {rest : List α}
    (here : queues[i]? = some (first :: rest)) : (first :: (queues.set i rest).flatten).Perm queues.flatten := by
  obtain ⟨inside, value⟩ := List.getElem?_eq_some_iff.mp here
  have cut : queues = queues.take i ++ (first :: rest) :: queues.drop (i + 1) := by
    rw [← value, List.getElem_cons_drop, List.take_append_drop]
  rw [List.set_eq_take_append_cons_drop, if_pos inside]
  conv_rhs => rw [cut]
  simp only [List.flatten_append, List.flatten_cons, List.cons_append]
  exact List.perm_middle.symm

theorem interleavePerm (pick : Nat → Nat) {n : Nat} {queues : List (List α)} (whole : queues.flatten.length = n) :
    (interleave pick n queues).Perm queues.flatten := by
  induction n generalizing queues with
  | zero => rw [List.length_eq_zero_iff.mp whole]; exact .refl _
  | succ n ih =>
    have same : (queues.filter (!·.isEmpty)).flatten = queues.flatten := List.flatten_filter_not_isEmpty
    have filled : ∀ queue ∈ queues.filter (!·.isEmpty), queue ≠ [] := by
      intro queue mem empty
      simp [empty] at mem
    rw [← same] at whole ⊢
    simp only [interleave]
    generalize queues.filter (!·.isEmpty) = waiting at whole filled ⊢
    have waits : 0 < waiting.length := by
      cases waiting with
      | nil => simp at whole
      | cons _ _ => exact Nat.succ_pos _
    have inside := Nat.mod_lt (pick n) waits
    generalize pick n % waiting.length = i at inside ⊢
    have here := List.getElem?_eq_getElem inside
    cases queue : waiting[i] with
    | nil => exact absurd queue (filled _ (List.getElem_mem inside))
    | cons first rest =>
      rw [queue] at here
      have perm := setPerm here
      simp only [here]
      have fewer := perm.length_eq
      rw [List.length_cons, whole] at fewer
      exact ((ih (Nat.succ.inj fewer)).cons first).trans perm

end Queues

namespace Scan
variable {κ σ ε : Type}

def Setting.logged (E : Setting κ σ ε) : Setting κ (σ × List Ask) ε :=
  ⟨E.worker, E.sink.logged, E.maxAge, E.storedAt, E.stopped, E.pick⟩

section Storing
variable {E : Setting κ σ ε} {progress : Progress} {w : Window (σ × List Ask)} {n : Nat} {batches : List (List Outcome)}

theorem storeAllUnlogged (E : Setting κ σ ε) (n : Nat) (batches : List (List Outcome)) (progress : Progress)
    (w : Window (σ × List Ask)) : storeAll E n batches (progress, w.unlogged) =
      ((storeAll E.logged n batches (progress, w)).1, (storeAll E.logged n batches (progress, w)).2.unlogged) := by
  induction batches generalizing n progress w with
  | nil => rfl
  | cons batch rest ih =>
    simp only [storeAll, Window.storeOutcomesUnlogged]
    exact ih _ _ _

theorem storeAllStores (n : Nat) (batches : List (List Outcome)) (progress : Progress) (orderly : w.InOrder) :
    let last := storeAll E.logged n batches (progress, w)
    last.2.InOrder ∧ ∃ kept lost, kept.Sublist (batches.flatten.map .raw) ∧
      last.2.stored = w.stored ++ kept ∧ kept.length + lost = batches.flatten.length ∧
      last.1 = progress.recordStored (.ofNat kept.length) (.ofNat lost) := by
  induction batches generalizing n progress w with
  | nil => exact ⟨orderly, [], 0, .slnil, (List.append_nil _).symm, rfl, by simp [storeAll, Progress.recordStored]⟩
  | cons batch rest ih =>
    obtain ⟨kept, among, count, whole, grown⟩ := Window.storeOutcomesStored E.sink w batch (E.storedAt n)
    have still := Window.orderlyStoreOutcomes (S := E.sink) (E.storedAt n) orderly batch
    have step : storeAll E.logged n (batch :: rest) (progress, w) =
      storeAll E.logged (n + 1) rest (progress.recordStored
          (.ofNat (w.storeOutcomes E.sink.logged batch (E.storedAt n)).1.stored)
          (.ofNat (w.storeOutcomes E.sink.logged batch (E.storedAt n)).1.failed),
        (w.storeOutcomes E.sink.logged batch (E.storedAt n)).2) := rfl
    rw [step]
    generalize w.storeOutcomes E.sink.logged batch (E.storedAt n) = answer at count whole grown still ⊢
    obtain ⟨ordered, more, lost, amongRest, grownRest, wholeRest, counted⟩ :=
      ih (n + 1) (progress.recordStored (.ofNat answer.1.stored) (.ofNat answer.1.failed)) still
    refine ⟨ordered, kept ++ more, answer.1.failed + lost, ?_, ?_, ?_, ?_⟩
    · rw [List.flatten_cons, List.map_append]
      exact among.append amongRest
    · rw [grownRest, grown, List.append_assoc]
    · rw [List.flatten_cons, List.length_append, List.length_append]
      omega
    · rw [counted, Progress.recordStoredTwice, count, List.length_append]

theorem storeAllObeyed {refused : Row → Bool} {outside inside : σ → Prop} (obeys : E.sink.Obeys refused outside inside)
    (n : Nat) (batches : List (List Outcome)) (progress : Progress) (settled : w.Settled outside inside) :
    let last := (storeAll E.logged n batches (progress, w)).2
    last.Settled outside inside ∧ last.stored = w.stored ++ (batches.flatten.map .raw).filter (!refused ·) := by
  induction batches generalizing n progress w with
  | nil => exact ⟨settled, (List.append_nil _).symm⟩
  | cons batch rest ih =>
    obtain ⟨still, grown⟩ := Window.storeOutcomesObeyed (E.storedAt n) obeys settled batch
    obtain ⟨last, whole⟩ := ih (n + 1) _ still
    refine ⟨last, whole.trans ?_⟩
    rw [grown, List.flatten_cons, List.map_append, List.filter_append, List.append_assoc]

end Storing

section Run
variable (E : Setting κ σ ε) (sweep : Sweep)

def traces (count : Nat) : List Worker.Trace := (List.range count).map fun i => trace E i (sweep.cutAt count i)

def gathered (ts : List Worker.Trace) (s : σ) : Progress × Window σ :=
  storeAll E 0 (interleave E.pick (ts.map (·.batches)).flatten.length (ts.map (·.batches)))
    ((ts.map (·.progress)).foldl .add .zero, .new s E.maxAge)

theorem mapTraces (count : Nat) : ((List.range count).map (sweep.cutAt count)).mapIdx (trace E) = traces E sweep count := by
  apply List.ext_getElem
  · simp [traces]
  · intro i _ _
    simp [traces]

theorem runRefused (empty : sweep.blocks.isEmpty = true) (workers : Nat) (s : σ) :
    run E sweep workers s = ⟨.error (.sweep .noRanges), .zero, s⟩ := by
  have refused (count i : Nat) (below : i < count) : sweep.shard count i = .error .noRanges := by
    have wanted : ¬ (count = 0 ∨ count ≤ i) := by omega
    rw [Sweep.shard, if_neg wanted, if_pos empty]
  have noShards : shards sweep (max workers 1) = .error .noRanges := by
    obtain ⟨more, count⟩ : ∃ more, max workers 1 = more + 1 := ⟨max workers 1 - 1, by omega⟩
    rw [shards, count, List.range_succ_eq_map, List.mapM_cons, refused (more + 1) 0 (by omega)]
    rfl
  simp only [run, noShards]

theorem runEmpty (empty : sweep.blocks.isEmpty = true) (workers : Nat) (s : σ) :
    (run E sweep workers s).result = .error (.sweep .noRanges) := by
  rw [runRefused E sweep empty]

theorem runEnds (filled : sweep.blocks.isEmpty = false) (workers : Nat) (s : σ) :
    let ts := traces E sweep (max workers 1)
    let state := gathered E ts s
    let flushed := state.2.flush E.sink
    run E sweep workers s = ⟨match flushed.1, ts.findSome? (·.failure) with
      | .error e, _ => .error (.finalCommit e)
      | .ok (), some e => .error (.sweep e)
      | .ok (), none => .ok ⟨max workers 1, sweep.seed, sweep.total, (ts.map (·.report)).any (·.interrupted), state.1,
        ts.map (·.report)⟩, state.1, flushed.2.sink⟩ := by
  intro ts state flushed
  have stores : storeAll E 0 (interleave E.pick (ts.map (·.batches)).flatten.length (ts.map (·.batches)))
    ((ts.map (·.progress)).foldl .add .zero, .new s E.maxAge) = state := rfl
  have workersTraces : traces E sweep (max workers 1) = ts := rfl
  simp only [run, Sweep.shardsOk filled, mapTraces, workersTraces, flushed]
  rw [stores]
  cases state.2.flush E.sink with
  | mk answer window =>
    cases answer with
    | error e => rfl
    | ok => cases ts.findSome? (·.failure) <;> rfl

theorem runFilled (filled : sweep.blocks.isEmpty = false) (workers : Nat) (s : σ) :
    let ts := traces E sweep (max workers 1)
    let state := gathered E ts s
    (run E sweep workers s).progress = state.1 ∧ (run E sweep workers s).sink = (state.2.flush E.sink).2.sink ∧
    ∀ summary, (run E sweep workers s).result = .ok summary ↔
      (state.2.flush E.sink).1 = .ok () ∧ (∀ t ∈ ts, t.failure = none) ∧
      summary = ⟨max workers 1, sweep.seed, sweep.total, (ts.map (·.report)).any (·.interrupted), state.1,
        ts.map (·.report)⟩ := by
  dsimp only
  rw [runEnds E sweep filled workers s]
  refine ⟨rfl, rfl, fun summary => ?_⟩
  rw [← List.findSome?_eq_none_iff]
  generalize traces E sweep (max workers 1) = ts
  generalize gathered E ts s = state
  cases (state.2.flush E.sink).1 <;> cases ts.findSome? (·.failure) <;> simp [eq_comm]

theorem runFailures (filled : sweep.blocks.isEmpty = false) (workers : Nat) (s : σ) :
    let ts := traces E sweep (max workers 1)
    let flushed := ((gathered E ts s).2.flush E.sink).1
    (∀ e, (run E sweep workers s).result = .error (.finalCommit e) ↔ flushed = .error e) ∧
    ∀ e, (run E sweep workers s).result = .error (.sweep e) ↔
      flushed = .ok () ∧ ts.findSome? (·.failure) = some e := by
  dsimp only
  rw [runEnds E sweep filled workers s]
  generalize traces E sweep (max workers 1) = ts
  generalize gathered E ts s = state
  cases (state.2.flush E.sink).1 <;> cases ts.findSome? (·.failure) <;> simp

theorem runUnlogged (workers : Nat) (s : σ) :
    let logged := run E.logged sweep workers (s, [])
    run E sweep workers s = ⟨logged.result, logged.progress, logged.sink.1⟩ := by
  have start : Window.new s E.maxAge = (Window.new (s, []) E.logged.maxAge).unlogged := rfl
  have same (shards : List Sweep) : shards.mapIdx (trace E) = shards.mapIdx (trace E.logged) := rfl
  have order : E.pick = E.logged.pick := rfl
  simp only [run, start, same, order, storeAllUnlogged, Window.flushUnlogged]
  cases shards sweep (max workers 1) with
  | error e => rfl
  | ok shards =>
    dsimp only
    generalize shards.mapIdx (trace E.logged) = ts
    generalize storeAll E.logged 0 _ _ = state
    rw [show E.logged.sink = E.sink.logged from rfl]
    cases state.2.flush E.sink.logged with
    | mk answer window =>
      cases answer with
      | error e => rfl
      | ok => cases ts.findSome? (·.failure) <;> rfl

end Run

structure Swept (E : Setting κ σ ε) (p : Permutation) (sweep : Sweep) (count : Nat) (visited : List UInt32)
    (found : List Outcome) : Prop where
  positions : ((List.range sweep.total).map (Sweep.addressAt p sweep.blocks)) = visited.map some
  addresses : (found.map (·.address)).Perm visited
  own : (∀ address, (E.worker.peer address).isCourteous = true) →
    (∀ i < count, Worker.Served E.worker (.new i (sweep.cutAt count i))) → Worker.Own E.worker found
  handed : ((traces E sweep count).map (·.batches)).flatten.flatten = storable E.worker.storeUnanswered found
  counted : ((traces E sweep count).map (·.progress)).foldl Progress.add .zero = .tally visited.length found
  reports : (traces E sweep count).map (·.report) = (List.range count).map fun i =>
    let share := (sweep.cutAt count i).window.length
    ⟨i, share, share, 0, false⟩

section Sound
variable {E : Setting κ σ ε} {sweep : Sweep} (sound : sweep.Sound) {p : Permutation} (permutes : sweep.permutation = some p)
  (running : E.stopped = false)
include sound permutes running

theorem traceTells {count i : Nat} (below : i < count) :
    ((trace E i (sweep.cutAt count i)).failure = none →
      ∃ visited found, Worker.Told E.worker p i (sweep.cutAt count i) visited found (trace E i (sweep.cutAt count i))) ∧
    (trace E i (sweep.cutAt count i)).failure = Sweep.firstFailure p sweep.blocks (sweep.cutAt count i).window := by
  have traced : trace E i (sweep.cutAt count i) = (Worker.new i (sweep.cutAt count i)).run E.worker := by
    rw [trace, running]
    rfl
  rw [traced]
  exact Worker.runTells E.worker i (Sweep.soundCut sound below) permutes rfl

/- The windows make up the space in the order of the workers, so the first worker that fails
has the first failure of the space. -/
theorem tracesFailure {count : Nat} (one : 1 ≤ count) :
    (traces E sweep count).findSome? (·.failure) = Sweep.firstFailure p sweep.blocks (List.range sweep.total) := by
  have failures : (traces E sweep count).map (·.failure) =
      (List.range count).map fun i => Sweep.firstFailure p sweep.blocks (sweep.cutAt count i).window := by
    rw [traces, List.map_map]
    exact List.map_congr_left fun i mem => (traceTells sound permutes running (List.mem_range.mp mem)).2
  have each : (traces E sweep count).findSome? (·.failure) = ((traces E sweep count).map (·.failure)).findSome? id := by
    rw [List.findSome?_map]
    rfl
  rw [each, failures, List.findSome?_map, ← Sweep.windowsPartition sweep one, Sweep.firstFailure, List.flatMap_map,
    List.find?_flatMap, List.map_findSome?]
  rfl

theorem tracesTell {count : Nat} (one : 1 ≤ count) (calm : ∀ t ∈ traces E sweep count, t.failure = none) :
    ∃ visited found, Swept E p sweep count visited found := by
  have told (i : Nat) : ∃ visited found, i < count →
      Worker.Told E.worker p i (sweep.cutAt count i) visited found (trace E i (sweep.cutAt count i)) := by
    by_cases below : i < count
    · obtain ⟨visited, found, tells⟩ := (traceTells sound permutes running below).1
        (calm _ (List.mem_map.mpr ⟨i, List.mem_range.mpr below, rfl⟩))
      exact ⟨visited, found, fun _ => tells⟩
    · exact ⟨[], [], fun inside => absurd inside below⟩
  choose visited found tells using told
  have each {β : Type} {f : Nat → β} {g : Nat → β} (same : ∀ i < count, f i = g i) :
      (List.range count).map f = (List.range count).map g :=
    List.map_congr_left fun i mem => same i (List.mem_range.mp mem)
  refine ⟨(List.range count).flatMap visited, (List.range count).flatMap found, ?_, ?_, ?_, ?_, ?_, ?_⟩
  · rw [← Sweep.windowsPartition sweep one, List.flatMap_map, List.map_flatMap, List.map_flatMap, List.flatMap_def,
      List.flatMap_def]
    exact congrArg List.flatten (each fun i below => (tells i below).positions)
  · rw [List.map_flatMap]
    exact List.Perm.flatMap_left _ fun i mem => (tells i (List.mem_range.mp mem)).addresses
  · intro courteous served o inside
    obtain ⟨i, mem, here⟩ := List.mem_flatMap.mp inside
    have below := List.mem_range.mp mem
    exact (tells i below).own courteous (served i below) o here
  · rw [traces, List.map_map, List.flatten_flatten, List.map_map, storableFlatMap, List.flatMap_def]
    exact congrArg List.flatten (each fun i below => (tells i below).handed)
  · have counts := each fun i below => (tells i below).progress
    rw [traces, List.map_map]
    exact (congrArg (List.foldl Progress.add .zero) counts).trans
      ((Progress.foldTallies _ visited found .zero).trans (Progress.zeroAdd _))
  · rw [traces, List.map_map]
    exact each fun i below => (tells i below).report

end Sound

section Rows
variable (E : Setting κ σ ε) (ts : List Worker.Trace) (s : σ)

theorem gatheredStores :
    let state := gathered E.logged ts (s, [])
    let offered := (ts.map (·.batches)).flatten.flatten
    state.2.InOrder ∧ (∀ row ∈ state.2.stored, ∃ o, row = .raw o) ∧
    ∃ lost, state.2.stored.length + lost = offered.length ∧
      state.1 = ((ts.map (·.progress)).foldl Progress.add .zero).recordStored (.ofNat state.2.stored.length) (.ofNat lost) := by
  intro state offered
  have mixed := (interleavePerm E.pick (n := (ts.map (·.batches)).flatten.length) rfl).flatten
  obtain ⟨ordered, kept, lost, among, stored, whole, counted⟩ := storeAllStores (E := E) 0
    (interleave E.pick (ts.map (·.batches)).flatten.length (ts.map (·.batches)))
    ((ts.map (·.progress)).foldl Progress.add .zero) (Window.orderlyNew s E.maxAge)
  have stored : state.2.stored = kept := stored
  rw [stored]
  refine ⟨ordered, fun row mem => ?_, lost, whole.trans mixed.length_eq, counted⟩
  obtain ⟨o, -, same⟩ := List.mem_map.mp (among.subset mem)
  exact ⟨o, same.symm⟩

theorem gatheredObeyed {refused : Row → Bool} {outside inside : σ → Prop} (obeys : E.sink.Obeys refused outside inside)
    (begun : outside s) :
    let state := gathered E.logged ts (s, [])
    state.2.Settled outside inside ∧
    state.2.stored.Perm ((((ts.map (·.batches)).flatten.flatten).map Row.raw).filter (!refused ·)) := by
  have mixed := (interleavePerm E.pick (n := (ts.map (·.batches)).flatten.length) rfl).flatten
  obtain ⟨settled, stored⟩ := storeAllObeyed (w := .new (s, []) E.maxAge) obeys 0
    (interleave E.pick (ts.map (·.batches)).flatten.length (ts.map (·.batches)))
    ((ts.map (·.progress)).foldl Progress.add .zero) begun
  exact ⟨settled, (List.Perm.of_eq stored).trans ((mixed.map _).filter _)⟩

end Rows

end Scan
end TlsCensus
