import TlsCensus.Proofs.ReportMembers
import TlsCensus.Proofs.RowStreams

/-! Rows counted by result beside the same rows streamed. The counts always add up to the rows, code
by code. They are ascending unless rows without a result stand beside negative ones, and the map of
labels keeps each of them unless rows without a result stand beside those whose result is -1. -/
namespace TlsCensus

namespace Store

def expand (counts : List (Int64 × Nat)) : List Int64 := counts.flatMap fun pair => List.replicate pair.2 pair.1

structure CountsOf (codes : List Int64) (counts : List (Int64 × Nat)) : Prop where
  ascending : (counts.map Prod.fst).Pairwise (· < ·)
  exact : ∀ code k, (code, k) ∈ counts ↔ 0 < k ∧ codes.count code = k

theorem expandLength (counts : List (Int64 × Nat)) : (expand counts).length = (counts.map Prod.snd).sum := by
  simp [expand, List.length_flatMap]

theorem expandCount (counts : List (Int64 × Nat)) (code : Int64) :
    (expand counts).count code = ((counts.filter (·.1 = code)).map Prod.snd).sum := by
  induction counts with
  | nil => rfl
  | cons pair rest ih =>
    rw [expand, List.flatMap_cons, List.count_append, ← expand, ih, List.count_replicate]
    by_cases here : pair.1 = code <;> simp [here]

theorem expandRuns (codes : List Int64) : expand (runLengths codes) = codes := by
  induction codes with
  | nil => rfl
  | cons n rest ih =>
    rw [runLengths]
    split
    · rename_i m k more runs
      rw [runs] at ih
      split
      · rename_i same
        simpa [expand, same, List.replicate_succ] using ih
      · simpa [expand] using ih
    · rename_i runs
      rw [runs] at ih
      simpa [expand] using ih

theorem runsPositive {codes : List Int64} {pair : Int64 × Nat} (inside : pair ∈ runLengths codes) : 0 < pair.2 := by
  induction codes with
  | nil => simp [runLengths] at inside
  | cons n rest ih =>
    rw [runLengths] at inside
    split at inside
    · rename_i m k more runs
      rw [runs] at ih
      split at inside
      · rcases List.mem_cons.mp inside with rfl | behind
        · exact Nat.succ_pos k
        · exact ih (List.mem_cons_of_mem _ behind)
      · rcases List.mem_cons.mp inside with rfl | behind
        · exact Nat.one_pos
        · exact ih behind
    · simp only [List.mem_singleton] at inside
      rw [inside]
      exact Nat.one_pos

theorem memExpand {counts : List (Int64 × Nat)} {pair : Int64 × Nat} (inside : pair ∈ counts) (some : 0 < pair.2) :
    pair.1 ∈ expand counts :=
  List.mem_flatMap.mpr ⟨pair, inside, List.mem_replicate.mpr ⟨some.ne', rfl⟩⟩

theorem runsAscending {codes : List Int64} (sorted : codes.Pairwise (· ≤ ·)) :
    ((runLengths codes).map Prod.fst).Pairwise (· < ·) := by
  induction codes with
  | nil => exact .nil
  | cons n rest ih =>
    obtain ⟨least, behind⟩ := List.pairwise_cons.mp sorted
    have later := ih behind
    -- Codes of the runs behind are codes of the rest, so none is less than the first.
    have above : ∀ pair ∈ runLengths rest, n ≤ pair.1 := fun pair inside =>
      least _ (by rw [← expandRuns rest]; exact memExpand inside (runsPositive inside))
    rw [runLengths]
    split
    · rename_i m k more runs
      rw [runs] at later above
      have first : n ≤ m := above _ List.mem_cons_self
      split
      · rename_i same
        rwa [same]
      · rename_i apart
        have less : n < m := Int64.lt_of_le_of_ne first apart
        refine List.pairwise_cons.mpr ⟨?_, later⟩
        rw [List.map_cons, List.forall_mem_cons]
        exact ⟨less, fun code inside => Int64.lt_trans less ((List.pairwise_cons.mp later).1 code inside)⟩
    · exact List.pairwise_singleton _ _

theorem codeInside {counts : List (Int64 × Nat)} {code : Int64} (inside : code ∈ expand counts) :
    ∃ k, (code, k) ∈ counts := by
  obtain ⟨⟨found, k⟩, here, same⟩ := List.mem_flatMap.mp inside
  obtain rfl := (List.mem_replicate.mp same).2
  exact ⟨k, here⟩

theorem expandOnce {counts : List (Int64 × Nat)} (apart : (counts.map Prod.fst).Nodup) {code : Int64} {k : Nat}
    (inside : (code, k) ∈ counts) : (expand counts).count code = k := by
  induction counts with
  | nil => cases inside
  | cons pair rest ih =>
    obtain ⟨fresh, others⟩ := List.nodup_cons.mp apart
    rw [expand, List.flatMap_cons, List.count_append, List.count_replicate, ← expand]
    rcases List.mem_cons.mp inside with rfl | behind
    · have absent : (expand rest).count code = 0 := by
        rw [List.count_eq_zero]
        intro again
        obtain ⟨k, there⟩ := codeInside again
        exact fresh (List.mem_map.mpr ⟨_, there, rfl⟩)
      simp [absent]
    · have other : pair.1 ≠ code := by
        rintro rfl
        exact fresh (List.mem_map.mpr ⟨_, behind, rfl⟩)
      simp [other, ih others behind]

theorem countsOf {codes : List Int64} {counts : List (Int64 × Nat)} (perm : (expand counts).Perm codes)
    (positive : ∀ pair ∈ counts, 0 < pair.2) (ascending : (counts.map Prod.fst).Pairwise (· < ·)) :
    CountsOf codes counts := by
  have apart : (counts.map Prod.fst).Nodup := ascending.imp fun less => Int64.ne_of_lt less
  have only {code k} (inside : (code, k) ∈ counts) : codes.count code = k := by
    rw [← perm.count_eq, expandOnce apart inside]
  refine ⟨ascending, fun code k => ⟨fun inside => ⟨positive _ inside, only inside⟩, ?_⟩⟩
  rintro ⟨some, count⟩
  have occurs : code ∈ expand counts := by
    rw [← List.count_pos_iff, perm.count_eq, count]
    exact some
  obtain ⟨found, inside⟩ := codeInside occurs
  rwa [← count, only inside]

def absentResults (s : Store) : Nat := (s.tables.raw.toList.map (·.result)).countP (· = .null)

def knownResults (s : Store) : List Int64 := (s.tables.raw.toList.map (·.result)).filterMap integer?

def knownCounts (s : Store) : List (Int64 × Nat) := runLengths (s.knownResults.mergeSort (fun a b => a ≤ b))

def counted (s : Store) : List (Int64 × Nat) :=
  if s.absentResults = 0 then s.knownCounts else (-1, s.absentResults) :: s.knownCounts

theorem knownPerm (s : Store) : (expand s.knownCounts).Perm s.knownResults := by
  rw [knownCounts, expandRuns]
  exact List.mergeSort_perm ..

theorem integerOr {absent n : Int64} {column : Nat} {name : String} {v : Value} :
    v.asIntegerOr absent column name = .ok n ↔ v = .null ∧ n = absent ∨ v = .integer n := by
  cases v <;> simp [Value.asIntegerOr, Value.asInteger, eq_comm]

theorem resultRead {cells : RawCells} {fields : RawCells.Fields} (read : cells.read = .ok fields) :
    cells.result = .null ∧ fields.result = -1 ∨ cells.result = .integer fields.result := by
  simp only [RawCells.read, bindOk] at read
  obtain ⟨_, -, _, -, _, -, result, given, same⟩ := read
  obtain rfl := Except.ok.inj same
  exact integerOr.mp given

section Read
variable {s : Store} {fields : List RawCells.Fields} (readable : Readable s.tables.raw.toList fields)
include readable

theorem resultCountsRead : s.resultCounts = .ok s.counted := by
  have numbers : ∀ result ∈ s.tables.raw.toList.map (·.result), result.kind = .null ∨ result.kind = .integer := by
    generalize s.tables.raw.toList = cells at readable
    induction readable with
    | nil => exact nofun
    | cons here _ ih =>
      refine List.forall_mem_cons.mpr ⟨?_, ih⟩
      rcases resultRead here with ⟨absent, -⟩ | known
      · exact .inl (congrArg Value.kind absent)
      · exact .inr (congrArg Value.kind known)
  have none : [Value.Kind.real, .text, .blob].find?
      (fun kind => (s.tables.raw.toList.map (·.result)).any (·.kind = kind)) = none := by
    rw [List.find?_eq_none]
    intro kind listed
    rw [List.any_eq_true]
    rintro ⟨result, inside, same⟩
    have found := of_decide_eq_true same
    rcases numbers result inside with absent | known
    · rw [← found, absent] at listed
      exact absurd listed (by decide)
    · rw [← found, known] at listed
      exact absurd listed (by decide)
  rw [resultCounts, none]
  rfl

theorem codesSplit : (List.replicate s.absentResults (-1) ++ s.knownResults).Perm (fields.map RawCells.Fields.result) := by
  unfold absentResults knownResults
  generalize s.tables.raw.toList = cells at readable
  induction readable with
  | nil => exact .nil
  | cons here _ ih =>
    rcases resultRead here with ⟨absent, code⟩ | known
    · simp only [List.map_cons, absent, code, integer?, List.countP_cons, List.filterMap_cons]
      simpa [List.replicate_succ] using ih
    · simp only [List.map_cons, known, integer?, List.countP_cons, List.filterMap_cons]
      simpa using List.perm_middle.trans (ih.cons _)

theorem expandCounted : (expand s.counted).Perm (fields.map RawCells.Fields.result) := by
  refine List.Perm.trans ?_ (codesSplit readable)
  rw [counted]
  split
  · rename_i none
    simpa [none] using s.knownPerm
  · exact s.knownPerm.append_left _

end Read

variable {s : Store}

theorem countedPositive {pair : Int64 × Nat} (inside : pair ∈ s.counted) : 0 < pair.2 := by
  rw [counted] at inside
  split at inside
  · exact runsPositive inside
  · rename_i some
    rcases List.mem_cons.mp inside with rfl | behind
    · exact Nat.pos_of_ne_zero some
    · exact runsPositive behind

theorem knownAscending : (s.knownCounts.map Prod.fst).Pairwise (· < ·) := by
  refine runsAscending ?_
  have sorted := @List.pairwise_mergeSort _ (fun a b : Int64 => decide (a ≤ b))
    (fun _ _ _ first next => decide_eq_true (Int64.le_trans (of_decide_eq_true first) (of_decide_eq_true next)))
    (fun a b => by simpa using Int64.le_total a b) s.knownResults
  exact sorted.imp of_decide_eq_true

theorem knownNodup : (s.knownCounts.map Prod.fst).Nodup := knownAscending.imp fun less => Int64.ne_of_lt less

theorem memKnown {code : Int64} : code ∈ s.knownCounts.map Prod.fst ↔ code ∈ s.knownResults := by
  rw [← s.knownPerm.mem_iff]
  constructor
  · intro inside
    obtain ⟨pair, here, rfl⟩ := List.mem_map.mp inside
    exact memExpand here (runsPositive here)
  · intro inside
    obtain ⟨k, here⟩ := codeInside inside
    exact List.mem_map.mpr ⟨_, here, rfl⟩

theorem knownIff {code : Int64} : code ∈ s.knownResults ↔ ∃ cells ∈ s.tables.raw, cells.result = .integer code := by
  have number (v : Value) : integer? v = some code ↔ v = .integer code := by cases v <;> simp [integer?]
  simp [knownResults, number]

theorem absentIff : s.absentResults = 0 ↔ ¬ ∃ cells ∈ s.tables.raw, cells.result = .null := by
  simp [absentResults]

theorem countedAscending : (s.counted.map Prod.fst).Pairwise (· < ·) ↔
    s.absentResults = 0 ∨ ∀ code ∈ s.knownResults, ¬ code < 0 := by
  have step (code : Int64) : -1 < code ↔ ¬ code < 0 := by
    simp only [Int64.lt_iff_toInt_lt]
    have : (-1 : Int64).toInt = -1 := rfl
    have : (0 : Int64).toInt = 0 := rfl
    omega
  rw [counted]
  split
  · rename_i none
    simp [none, knownAscending]
  · rename_i some
    rw [List.map_cons, List.pairwise_cons]
    simp only [some, false_or, memKnown, step, knownAscending, and_true]

theorem countedNodup : (s.counted.map Prod.fst).Nodup ↔ s.absentResults = 0 ∨ -1 ∉ s.knownResults := by
  rw [counted]
  split
  · rename_i none
    simp [none, knownNodup]
  · rename_i some
    rw [List.map_cons, List.nodup_cons, memKnown]
    simp [some, knownNodup]

theorem knownCount {s : Store} {k : Nat} {code : Int64} (inside : (code, k) ∈ s.knownCounts) :
    s.knownResults.count code = k := by
  rw [← s.knownPerm.count_eq, expandOnce knownNodup inside]

section Read
variable {s : Store} {fields : List RawCells.Fields} (readable : Readable s.tables.raw.toList fields)
include readable

theorem countedExact : CountsOf (fields.map RawCells.Fields.result) s.counted ↔
    s.absentResults = 0 ∨ ∀ code ∈ s.knownResults, ¬ code < 0 := by
  rw [← countedAscending]
  exact ⟨CountsOf.ascending, countsOf (expandCounted readable) fun _ => countedPositive⟩

theorem countedLossless : Report.Lossless (fields.map RawCells.Fields.result) (Report.resultMembers s.counted) ↔
    s.absentResults = 0 ∨ -1 ∉ s.knownResults := by
  constructor
  · intro lossless
    by_contra both
    obtain ⟨missing, inside⟩ : s.absentResults ≠ 0 ∧ -1 ∈ s.knownResults := by simpa [not_or] using both
    obtain ⟨⟨code, k⟩, here, rfl⟩ := List.mem_map.mp (memKnown.mpr inside)
    have total := (codesSplit readable).count_eq (-1)
    have occurs : -1 ∈ fields.map RawCells.Fields.result :=
      (codesSplit readable).mem_iff.mp (List.mem_append_right _ inside)
    -- The count of the rows that have -1 hides that of the rows without a result.
    have shown : (Report.resultMembers s.counted).lookup (ResultCode.labelOfStored (-1)) = some (Report.count k) := by
      rw [Report.resultLookup, counted, if_neg missing, List.reverse_cons, List.lookup_append,
        lookupLast knownNodup here]
      rfl
    have same := (lossless _ occurs).symm.trans shown
    simp only [List.count_append, List.count_replicate_self, knownCount here] at total
    simp only [Report.count, Option.some.injEq, JsonTree.integer.injEq, Int.natCast_inj] at same
    omega
  · intro one code occurs
    have apart := countedNodup.mpr one
    obtain ⟨k, inside⟩ := codeInside ((expandCounted readable).mem_iff.mpr occurs)
    rw [Report.resultLookup, lookupLast apart inside, ← (expandCounted readable).count_eq, expandOnce apart inside]
    rfl

end Read

theorem countsAgreeWithStream {τ δ : Type} {f : RawRow → τ → Except δ Unit × τ}
    (calm : ∀ row t, (f row t).1 = .ok ()) {s : Store} {n : Nat} {t u : τ} {rows : List RawRow}
    (streamed : s.forEachRaw (noting f) (t, []) = (.ok n, u, rows)) :
    let codes := rows.map RawRow.result
    let absent := ∃ cells ∈ s.tables.raw, cells.result = .null
    ∃ counts, s.resultCounts = .ok counts ∧ (counts.map Prod.snd).sum = n ∧ s.countRows "raw_data" = .ok n ∧
      (∀ code, ((counts.filter (·.1 = code)).map Prod.snd).sum = codes.count code) ∧
      (CountsOf codes counts ↔ ¬ (absent ∧ ∃ cells ∈ s.tables.raw, ∃ code < 0, cells.result = .integer code)) ∧
      (∀ db out totals, Report.triage .json db out totals counts =
        (JsonTree.object [("db", .text db), ("results", .object (Report.resultMembers counts)),
          ("totals", (Report.totals totals).sorted)]).indented) ∧
      (Report.Lossless codes (Report.resultMembers counts) ↔
        ¬ (absent ∧ ∃ cells ∈ s.tables.raw, cells.result = .integer (-1))) := by
  intro codes absent
  obtain ⟨fields, readable, size, -, streamedRows⟩ := (streamNoted calm).mp streamed
  have same : codes = fields.map RawCells.Fields.result := by
    simp only [codes, streamedRows, List.map_map]
    rfl
  have none : s.absentResults = 0 ↔ ¬ absent := absentIff
  refine ⟨s.counted, resultCountsRead readable, ?_, ?_, ?_, ?_, fun db out totals => Report.triageMembers db out totals _, ?_⟩
  · rw [← expandLength, (expandCounted readable).length_eq, List.length_map, ← readable.length_eq, size,
      Array.length_toList]
  · rw [size]
    rfl
  · intro code
    rw [same, ← (expandCounted readable).count_eq, expandCount]
  · rw [same, countedExact readable, none, not_and_or]
    refine or_congr_right ?_
    constructor
    · rintro calm ⟨cells, inside, code, less, known⟩
      exact calm code (knownIff.mpr ⟨cells, inside, known⟩) less
    · intro calm code inside less
      obtain ⟨cells, here, known⟩ := knownIff.mp inside
      exact calm ⟨cells, here, code, less, known⟩
  · rw [same, countedLossless readable, none, not_and_or, knownIff]

def ofResults (results : List Value) : Store :=
  ofTables ⟨(results.map fun result => ⟨.integer 1, .integer 443, .integer 0, result, .null⟩).toArray, #[], #[]⟩

theorem oldRowsCounted : ∃ counts, (ofResults [.integer 2, .null, .integer 2]).resultCounts = .ok counts ∧
    CountsOf [2, -1, 2] counts ∧ Report.Lossless [2, -1, 2] (Report.resultMembers counts) := by
  have calm : ∀ row t, (collect row t).1 = .ok () := fun _ _ => rfl
  obtain ⟨counts, given, -, -, -, exact, -, lossless⟩ := @countsAgreeWithStream _ _ _ calm
    (ofResults [.integer 2, .null, .integer 2]) 3 [] _ _ rfl
  refine ⟨counts, given, exact.mpr ?_, lossless.mpr ?_⟩
  · simp [ofResults, ofTables]
  · simp [ofResults, ofTables]

theorem rowsWithoutResultMiscounted :
    let s := ofResults [.null, .integer (-5), .integer (-1)]
    let counts := [(-1, 1), (-5, 1), (-1, 1)]
    (s.forEachRaw collect []).1 = .ok 3 ∧ (s.forEachRaw collect []).2.map RawRow.result = [-1, -5, -1] ∧
    s.resultCounts = .ok counts ∧ ¬ CountsOf [-1, -5, -1] counts ∧
    ¬ Report.Lossless [-1, -5, -1] (Report.resultMembers counts) := by
  intro s counts
  have ascending : [(-5 : Int64), -1].mergeSort (fun a b => a ≤ b) = [-5, -1] :=
    List.mergeSort_of_pairwise (by decide)
  refine ⟨rfl, rfl, ?_, ?_, ?_⟩
  · show Except.ok ((-1, 1) :: runLengths ([-5, -1].mergeSort _)) = _
    rw [ascending]
    rfl
  · intro exact
    exact absurd exact.ascending (by decide)
  · intro lossless
    have shown := lossless (-1) (by decide)
    rw [Report.resultLookup] at shown
    simp [counts, Report.count] at shown

end Store
end TlsCensus
