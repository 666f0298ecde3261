import TlsCensus.Store

/-! The table of runs as a map from identifiers. A run is entered once, by the first call that
begins it, and keeps what that call said; each later call that finishes it replaces when it ended
and what it counted. Calls for other runs, a second beginning and the end of a run that was never
begun leave it as it is. -/
namespace TlsCensus.Store

inductive RunCall where
  | begin (run : RunStart)
  | finish (runId : String) (finishedAt : Int64) (counters : RunCounters)
  deriving DecidableEq, Repr

def RunCall.apply (s : Store) : RunCall → Store
  | .begin run => (s.beginRun run).2
  | .finish runId finishedAt counters => s.finishRun runId finishedAt counters

def afterCalls (s : Store) (calls : List RunCall) : Store := calls.foldl RunCall.apply s

structure Begins (s : Store) (calls before : List RunCall) (run : RunStart) (later : List RunCall) : Prop where
  cut : calls = before ++ .begin run :: later
  granted : ((s.afterCalls before).beginRun run).1 = .ok run.runId

def RunStart.record (run : RunStart) : RunRecord :=
  ⟨run.runId, run.startedAt, none, run.toolVersion, run.arguments, run.seed, ⟨0, 0, 0, 0⟩⟩

abbrev Finish := Int64 × RunCounters

def RunCall.finish? (runId : String) : RunCall → Option Finish
  | .finish other finishedAt counters => if other = runId then some (finishedAt, counters) else none
  | .begin _ => none

def lastFinish (runId : String) (calls : List RunCall) : Option Finish :=
  (calls.filterMap (RunCall.finish? runId)).getLast?

def ended (finish : Option Finish) (r : RunRecord) : RunRecord :=
  match finish with
  | some (finishedAt, counters) => { r with finishedAt := some finishedAt, counters := counters }
  | none => r

section Calls

theorem knownRun (s : Store) (runId : String) :
    s.tables.runs.any (·.runId == runId) = (s.run? runId).isSome := by
  rw [run?, Option.isSome_map, Bool.eq_iff_iff, Array.find?_isSome, Array.any_eq_true']

theorem beginCases (s : Store) (run : RunStart) :
    (s.run? run.runId ≠ none ∧ s.beginRun run = (.error .duplicateRun, s)) ∨
    (s.run? run.runId = none ∧ (s.beginRun run).1 = .ok run.runId ∧
      ∀ runId, (s.beginRun run).2.run? runId = if runId = run.runId then some run.record else s.run? runId) := by
  have known := knownRun s run.runId
  cases found : s.run? run.runId with
  | some r =>
    rw [found] at known
    exact .inl ⟨nofun, if_pos known⟩
  | none =>
    have absent : ¬ s.tables.runs.any (·.runId == run.runId) = true := by simp [known, found]
    refine .inr ⟨rfl, by rw [beginRun, if_neg absent], fun runId => ?_⟩
    rw [beginRun, if_neg absent]
    simp only [run?, Array.find?_push, Option.map_or]
    by_cases same : runId = run.runId
    · rw [same] at *
      rw [if_pos rfl, ← run?, found, Option.none_or, if_pos (by simp)]
      simp [RunCells.read, RunStart.record, Function.comp_def]
    · have other : ¬ (run.runId == runId) = true := by simpa using Ne.symm same
      rw [if_neg same, if_neg other, Option.map_none, Option.or_none]

theorem finishFound (s : Store) (runId : String) (finishedAt : Int64) (counters : RunCounters) (other : String) :
    (s.finishRun runId finishedAt counters).run? other =
      if other = runId then (s.run? other).map (ended (some (finishedAt, counters))) else s.run? other := by
  have named : (fun c : RunCells => c.runId == other) ∘ RunCells.finish runId finishedAt counters =
      fun c => c.runId == other := by
    funext c
    simp only [Function.comp, RunCells.finish]
    split <;> rfl
  have finished : (s.finishRun runId finishedAt counters).run? other =
      (s.tables.runs.find? (·.runId == other)).map fun c => (RunCells.finish runId finishedAt counters c).read := by
    have mapped : (s.finishRun runId finishedAt counters).tables.runs =
        s.tables.runs.map (RunCells.finish runId finishedAt counters) := rfl
    rw [run?, mapped, Array.find?_map, named, Option.map_map]
    rfl
  rw [finished, run?, Option.map_map]
  cases found : s.tables.runs.find? (·.runId == other) with
  | none => simp
  | some c =>
    have here : c.runId = other := by simpa using Array.find?_some found
    by_cases same : other = runId
    · simp [RunCells.finish, here, same, RunCells.read, ended]
    · simp [RunCells.finish, here, same]

theorem applyKnown {s : Store} {runId : String} {r : RunRecord} (known : s.run? runId = some r) (c : RunCall) :
    (c.apply s).run? runId = some (ended (c.finish? runId) r) := by
  cases c with
  | begin run =>
    rcases beginCases s run with ⟨-, same⟩ | ⟨absent, -, entered⟩
    · rw [RunCall.apply, same]
      exact known
    · have other : runId ≠ run.runId := by
        rintro rfl
        rw [known] at absent
        contradiction
      rw [RunCall.apply, entered, if_neg other]
      exact known
  | finish other finishedAt counters =>
    rw [RunCall.apply, finishFound, RunCall.finish?, known]
    by_cases same : runId = other
    · simp [same]
    · simp [same, Ne.symm same, ended]

theorem lastFinishCons (runId : String) (c : RunCall) (rest : List RunCall) (r : RunRecord) :
    ended (lastFinish runId (c :: rest)) r = ended (lastFinish runId rest) (ended (c.finish? runId) r) := by
  rw [lastFinish, lastFinish, List.filterMap_cons]
  cases c.finish? runId with
  | none => rfl
  | some finish =>
    rw [List.getLast?_cons]
    cases (rest.filterMap (RunCall.finish? runId)).getLast? <;> rfl

theorem afterKnown {s : Store} {runId : String} {r : RunRecord} (known : s.run? runId = some r) (calls : List RunCall) :
    (s.afterCalls calls).run? runId = some (ended (lastFinish runId calls) r) := by
  induction calls generalizing s r with
  | nil => exact known
  | cons c rest ih => rw [afterCalls, List.foldl_cons, ← afterCalls, ih (applyKnown known c), lastFinishCons]

theorem finishUnknown {s : Store} {runId : String} (unknown : s.run? runId = none) (finishedAt : Int64)
    (counters : RunCounters) : s.finishRun runId finishedAt counters = s := by
  have others : ∀ c ∈ s.tables.runs, c.runId ≠ runId := by
    intro c mem
    rw [run?, Option.map_eq_none_iff, Array.find?_eq_none] at unknown
    simpa using unknown c mem
  have same : s.tables.runs.map (RunCells.finish runId finishedAt counters) = s.tables.runs := by
    refine (Array.map_congr_left fun c mem => ?_).trans (Array.map_id _)
    rw [RunCells.finish, if_neg (others c mem)]
    rfl
  rw [finishRun, same]

end Calls

section History
variable {s : Store} {calls : List RunCall}

theorem afterAppend (s : Store) (front back : List RunCall) :
    s.afterCalls (front ++ back) = (s.afterCalls front).afterCalls back := List.foldl_append

theorem Begins.unknownBefore {before later : List RunCall} {run : RunStart} (begins : s.Begins calls before run later) :
    (s.afterCalls before).run? run.runId = none := by
  rcases beginCases (s.afterCalls before) run with ⟨-, same⟩ | ⟨absent, -⟩
  · have granted := begins.granted
    rw [same] at granted
    contradiction
  · exact absent

theorem Begins.runFound {before later : List RunCall} {run : RunStart} (begins : s.Begins calls before run later) :
    (s.afterCalls calls).run? run.runId = some (ended (lastFinish run.runId later) run.record) := by
  have entered : ((s.afterCalls before).beginRun run).2.run? run.runId = some run.record := by
    rcases beginCases (s.afterCalls before) run with ⟨known, -⟩ | ⟨-, -, entered⟩
    · exact absurd begins.unknownBefore known
    · rw [entered, if_pos rfl]
  rw [begins.cut, afterAppend]
  exact afterKnown entered later

theorem Begins.notAgain {before later before' later' middle : List RunCall} {run run' : RunStart}
    (first : s.Begins calls before run later) (next : s.Begins calls before' run' later')
    (same : run'.runId = run.runId) (behind : before' = before ++ .begin run :: middle) : False := by
  have front : s.Begins before' before run middle := ⟨behind, first.granted⟩
  have unknown := next.unknownBefore
  rw [same, front.runFound] at unknown
  contradiction

theorem Begins.onlyOnce {before later before' later' : List RunCall} {run run' : RunStart}
    (first : s.Begins calls before run later) (next : s.Begins calls before' run' later')
    (same : run'.runId = run.runId) : before' = before ∧ run' = run ∧ later' = later := by
  have cuts := first.cut.symm.trans next.cut
  rcases List.append_eq_append_iff.mp cuts with ⟨between, left, right⟩ | ⟨between, left, right⟩
  · cases between with
    | nil => simp_all
    | cons c middle =>
      obtain ⟨rfl, -⟩ := List.cons.inj right
      exact (first.notAgain next same left).elim
  · cases between with
    | nil => simp_all
    | cons c middle =>
      obtain ⟨rfl, -⟩ := List.cons.inj right
      exact (next.notAgain first same.symm left).elim

theorem foundBegins {runId : String} (unknown : s.run? runId = none) (found : (s.afterCalls calls).run? runId ≠ none) :
    ∃ before run later, s.Begins calls before run later ∧ run.runId = runId := by
  induction calls generalizing s with
  | nil => exact absurd unknown found
  | cons c rest ih =>
    by_cases still : (c.apply s).run? runId = none
    · obtain ⟨before, run, later, begins, named⟩ := ih still found
      exact ⟨c :: before, run, later, ⟨congrArg (c :: ·) begins.cut, begins.granted⟩, named⟩
    · cases c with
      | begin run =>
        rcases beginCases s run with ⟨-, same⟩ | ⟨-, granted, entered⟩
        · rw [RunCall.apply, same] at still
          exact absurd unknown still
        · by_cases named : runId = run.runId
          · exact ⟨[], run, rest, ⟨rfl, granted⟩, named.symm⟩
          · rw [RunCall.apply, entered, if_neg named] at still
            exact absurd unknown still
      | finish other finishedAt counters =>
        rw [RunCall.apply, finishFound, unknown, Option.map_none, ite_self] at still
        contradiction

end History

theorem runsKeptAsMap {s : Store} (fresh : s.tables.runs = #[]) (calls : List RunCall) :
    let after := s.afterCalls calls
    (∀ runId, after.run? runId = none ↔ ¬ ∃ before run later, s.Begins calls before run later ∧ run.runId = runId) ∧
    (∀ before run later, s.Begins calls before run later →
      after.run? run.runId = some (ended (lastFinish run.runId later) run.record) ∧
      ∀ before' run' later', s.Begins calls before' run' later' → run'.runId = run.runId →
        before' = before ∧ run' = run ∧ later' = later) ∧
    (∀ run, (after.run? run.runId ≠ none → after.beginRun run = (.error .duplicateRun, after)) ∧
      (after.run? run.runId = none → (after.beginRun run).1 = .ok run.runId) ∧
      ∀ other, other ≠ run.runId → (after.beginRun run).2.run? other = after.run? other) ∧
    ∀ runId finishedAt counters,
      (after.run? runId = none → after.finishRun runId finishedAt counters = after) ∧
      ∀ other, other ≠ runId → (after.finishRun runId finishedAt counters).run? other = after.run? other := by
  intro after
  have empty (runId : String) : s.run? runId = none := by
    rw [run?, fresh]
    rfl
  refine ⟨fun runId => ?_, fun before run later begins => ?_, fun run => ?_, fun runId finishedAt counters => ?_⟩
  · refine ⟨?_, fun unbegun => Classical.not_not.mp fun found => unbegun (foundBegins (empty runId) found)⟩
    rintro absent ⟨before, run, later, begins, rfl⟩
    exact Option.some_ne_none _ (begins.runFound.symm.trans absent)
  · exact ⟨begins.runFound, fun _ _ _ next same => begins.onlyOnce next same⟩
  · rcases beginCases after run with ⟨known, same⟩ | ⟨absent, granted, entered⟩
    · exact ⟨fun _ => same, fun absent => absurd absent known, fun other _ => by rw [same]⟩
    · exact ⟨fun known => absurd absent known, fun _ => granted, fun other apart => by rw [entered, if_neg apart]⟩
  · exact ⟨fun unknown => finishUnknown unknown finishedAt counters,
      fun other apart => by rw [finishFound, if_neg apart]⟩

theorem greatestSeedKept :
    let run : RunStart := ⟨"a", 1, "0.1.0", "[]", some 0xFFFFFFFFFFFFFFFF⟩
    let again : RunStart := ⟨"a", 2, "0.2.0", "", none⟩
    let counters : RunCounters := ⟨9, 4, 5, 0⟩
    let front := [.finish "a" 5 counters, .begin ⟨"b", 3, "0.1.0", "[]", none⟩]
    let back := [.begin again, .finish "a" 7 ⟨1, 1, 1, 1⟩, .finish "b" 8 counters, .finish "a" 6 counters]
    let after := empty.afterCalls (front ++ .begin run :: back)
    empty.Begins (front ++ .begin run :: back) front run back ∧
    after.run? "a" = some ⟨"a", 1, some 6, "0.1.0", "[]", some 0xFFFFFFFFFFFFFFFF, counters⟩ ∧
    after.beginRun again = (.error .duplicateRun, after) ∧
    (¬ ∃ before other later, empty.Begins (front ++ .begin run :: back) before other later ∧ other.runId = "c") ∧
    (after.finishRun "a" 9 counters).run? "b" = after.run? "b" := by
  intro run again counters front back after
  have unknown : (empty.afterCalls front).run? "a" = none := by decide +kernel
  have granted : ((empty.afterCalls front).beginRun run).1 = .ok "a" := by
    obtain ⟨known, -⟩ | ⟨-, granted, -⟩ := beginCases (empty.afterCalls front) run
    · exact absurd unknown known
    · exact granted
  have begins : empty.Begins (front ++ .begin run :: back) front run back := ⟨rfl, granted⟩
  obtain ⟨absent, begun, refused, finished⟩ := runsKeptAsMap (rfl : empty.tables.runs = #[]) (front ++ .begin run :: back)
  have found := (begun front run back begins).1
  refine ⟨begins, found, (refused again).1 ?_, (absent "c").mp ?_, (finished "a" 9 counters).2 "b" (by decide)⟩
  · exact fun unknown => Option.some_ne_none _ (found.symm.trans unknown)
  · decide +kernel

end TlsCensus.Store
