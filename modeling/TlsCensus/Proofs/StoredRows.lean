import TlsCensus.Proofs.Deposits
import TlsCensus.Store

/-! What a store holds after any use of a window onto it: all rows that were handed in, raw rows
and certificates each in the order they came, whatever the batches and whenever it was committed.
Reading gives back what was handed in, and a visitor that fails has received the rows up to
the one it failed at and no other. -/
namespace TlsCensus

structure Sink.Keeps {σ ε : Type} (S : Sink σ ε) (kept : σ → Prop) : Prop where
  begins {s} : kept s → kept (S.beginTransaction s).2
  commits {s} : kept s → kept (S.commitTransaction s).2
  inserts {s} (row) : kept s → kept (S.insert row s).2

namespace Window
variable {σ ε : Type} {S : Sink σ ε} {kept : σ → Prop} {w : Window σ}

section Kept
variable (keeps : S.Keeps kept) (now : Nat)
include keeps

theorem ensureOpenKeeps (start : kept w.sink) : kept (w.ensureOpen S now).2.sink := by
  have begun := keeps.begins start
  unfold ensureOpen
  split
  · exact start
  · split <;> rename_i asked <;> rwa [asked] at begun

theorem flushKeeps (start : kept w.sink) : kept (w.flush S).2.sink := by
  have committed := keeps.commits start
  unfold flush
  split
  · exact start
  · split <;> rename_i asked <;> rwa [asked] at committed

theorem commitIfDueKeeps (start : kept w.sink) : kept (w.commitIfDue S now).2.sink := by
  have flushed := flushKeeps keeps start
  unfold commitIfDue
  split
  · split <;> rename_i asked <;> rwa [asked] at flushed
  · exact start

theorem storeCertificateKeeps (start : kept w.sink) (record : CertificateRecord) :
    kept (w.storeCertificate S record now).2.sink := by
  have opened := ensureOpenKeeps keeps now start
  unfold storeCertificate
  split <;> rename_i asked <;> rw [asked] at opened
  · exact opened
  · exact commitIfDueKeeps keeps now (keeps.inserts (.certificate record) opened)

theorem insertAllKeeps (rows : List Row) {s : σ} (start : kept s) : kept (insertAll S rows s).2 := by
  induction rows generalizing s with
  | nil => exact start
  | cons row rest ih =>
    have later := ih (keeps.inserts row start)
    simp only [insertAll]
    split <;> exact later

theorem storeOutcomesKeeps (start : kept w.sink) (batch : List Outcome) :
    kept (w.storeOutcomes S batch now).2.sink := by
  have opened := ensureOpenKeeps keeps now start
  unfold storeOutcomes
  split
  · exact start
  · split <;> rename_i asked <;> rw [asked] at opened
    · exact opened
    · exact commitIfDueKeeps keeps now (insertAllKeeps keeps (batch.map .raw) opened)

theorem applyKeeps (start : kept w.sink) (operation : Operation) : kept (w.apply S operation).sink := by
  cases operation with
  | ensureOpen now => exact ensureOpenKeeps keeps now start
  | commitIfDue now => exact commitIfDueKeeps keeps now start
  | flush => exact flushKeeps keeps start
  | storeOutcomes batch now => exact storeOutcomesKeeps keeps now start batch
  | storeCertificate record now => exact storeCertificateKeeps keeps now start record

theorem runKeeps (start : kept w.sink) (operations : List Operation) : kept (w.run S operations).sink := by
  induction operations generalizing w with
  | nil => exact start
  | cons operation rest ih => exact ih (applyKeeps keeps start operation)

end Kept

namespace Operation

def outcomes : Operation → List Outcome
  | .storeOutcomes batch _ => batch
  | _ => []

def records : Operation → List CertificateRecord
  | .storeCertificate record _ => [record]
  | _ => []

def rows (operation : Operation) : List Row := operation.outcomes.map .raw ++ operation.records.map .certificate

end Operation

section Obeyed
variable {outside inside : σ → Prop} (obeys : S.Obeys (fun _ => false) outside inside) {w : Window (σ × List Ask)}
include obeys

theorem applyObeyed (settled : w.Settled outside inside) (operation : Operation) :
    (w.apply S.logged operation).Settled outside inside ∧
    (w.apply S.logged operation).stored = w.stored ++ operation.rows := by
  cases operation with
  | ensureOpen now =>
    obtain ⟨-, within, opened⟩ := ensureOpenObeyed now obeys settled
    refine ⟨?_, (ensureOpenStored now).trans (List.append_nil _).symm⟩
    rwa [apply, Settled, opened]
  | commitIfDue now =>
    exact ⟨commitIfDueObeyed now obeys settled, (commitIfDueStored now).trans (List.append_nil _).symm⟩
  | flush =>
    obtain ⟨-, start, closed⟩ := flushObeyed obeys settled
    refine ⟨?_, flushStored.trans (List.append_nil _).symm⟩
    rwa [apply, Settled, closed]
  | storeOutcomes batch now =>
    obtain ⟨last, grown⟩ := storeOutcomesObeyed now obeys settled batch
    refine ⟨last, grown.trans ?_⟩
    simp [Operation.rows, Operation.outcomes, Operation.records]
  | storeCertificate record now =>
    obtain ⟨-, last, grown⟩ := storeCertificateObeyed now obeys settled record
    exact ⟨last, grown⟩

theorem runObeyed (settled : w.Settled outside inside) (operations : List Operation) :
    (w.run S.logged operations).Settled outside inside ∧
    (w.run S.logged operations).stored = w.stored ++ operations.flatMap Operation.rows := by
  induction operations generalizing w with
  | nil => exact ⟨settled, (List.append_nil _).symm⟩
  | cons operation rest ih =>
    obtain ⟨here, grown⟩ := applyObeyed obeys settled operation
    obtain ⟨last, all⟩ := ih here
    refine ⟨last, all.trans ?_⟩
    rw [grown, List.append_assoc, List.flatMap_cons]

end Obeyed

end Window

theorem Sink.Obeys.logged {σ ε : Type} {S : Sink σ ε} {outside inside : σ → Prop}
    (obeys : S.Obeys (fun _ => false) outside inside) :
    S.logged.Obeys (fun _ => false) (fun s => outside s.1 ∧ ∀ ask ∈ s.2, ask.granted = true)
      (fun s => inside s.1 ∧ ∀ ask ∈ s.2, ask.granted = true) where
  begins {s} start := by
    obtain ⟨begun, within⟩ := obeys.begins start.1
    refine ⟨begun, within, ?_⟩
    simpa [Sink.logged, begun, Except.isOk, Except.toBool, or_imp, forall_and] using start.2
  commits {s} start := by
    obtain ⟨committed, left⟩ := obeys.commits start.1
    refine ⟨committed, left, ?_⟩
    simpa [Sink.logged, committed, Except.isOk, Except.toBool, or_imp, forall_and] using start.2
  inserts {s} row start := by
    obtain ⟨answered, within⟩ := obeys.inserts row start.1
    refine ⟨answered, within, ?_⟩
    simpa [Sink.logged, answered, or_imp, forall_and] using start.2

namespace Store

def rawCells? : Row → Option RawCells
  | .raw outcome => some (.ofOutcome outcome)
  | .certificate _ => none

def certificateCells? : Row → Option CertificateCells
  | .certificate record => some (.ofRecord record)
  | .raw _ => none

structure Follows (start : Tables) (s : Store × List Ask) : Prop where
  raw : s.1.tables.raw.toList = start.raw.toList ++ (rowsOf (Ask.allGranted s.2)).filterMap rawCells?
  certificates : s.1.tables.certificates.toList =
    start.certificates.toList ++ (rowsOf (Ask.allGranted s.2)).filterMap certificateCells?

theorem followsStart (s : Store) : Follows s.tables (s, []) := ⟨(List.append_nil _).symm, (List.append_nil _).symm⟩

theorem followsBare {start : Tables} {s : Store × List Ask} (follows : Follows start s) {after : Store}
    (same : after.tables = s.1.tables) {call : SinkCall} (bare : rowsOf [call] = []) (ok : Bool) :
    Follows start (after, s.2 ++ [⟨call, ok⟩]) := by
  have rows := Window.rowsAppend s.2 call ok
  rw [bare, ite_self, List.append_nil] at rows
  refine ⟨?_, ?_⟩
  · rw [rows, same]
    exact follows.raw
  · rw [rows, same]
    exact follows.certificates

theorem sinkFollows (start : Tables) : sink.logged.Keeps (Follows start) where
  begins {s} follows := by
    refine followsBare follows ?_ rfl _
    simp only [sink, beginTransaction]
    split <;> rfl
  commits {s} follows := by
    refine followsBare follows ?_ rfl _
    simp only [sink, commitTransaction]
    split <;> rfl
  inserts {s} row follows := by
    have granted : (sink.insert row s.1).1.isOk = true := by cases row <;> rfl
    have log := Window.rowsAppend s.2 (.inserted row) true
    have rawTable : (sink.insert row s.1).2.tables.raw.toList =
        s.1.tables.raw.toList ++ [row].filterMap rawCells? := by
      cases row with
      | raw outcome => exact Array.toList_push
      | certificate record => exact (List.append_nil _).symm
    have certificateTable : (sink.insert row s.1).2.tables.certificates.toList =
        s.1.tables.certificates.toList ++ [row].filterMap certificateCells? := by
      cases row with
      | raw outcome => exact (List.append_nil _).symm
      | certificate record => exact Array.toList_push
    refine ⟨?_, ?_⟩ <;> simp only [Sink.logged, granted, log]
    · rw [rawTable, follows.raw, List.append_assoc, List.filterMap_append]
      rfl
    · rw [certificateTable, follows.certificates, List.append_assoc, List.filterMap_append]
      rfl

theorem sinkObeys : sink.Obeys (fun _ => false) (fun s => s.saved = none) (fun s => s.saved.isSome) where
  begins {s} idle := by
    simp only [sink, beginTransaction, idle]
    exact ⟨trivial, rfl⟩
  commits {s} busy := by
    obtain ⟨saved, some⟩ := Option.isSome_iff_exists.mp busy
    simp only [sink, commitTransaction, some]
    exact ⟨trivial, trivial⟩
  inserts {s} row busy := by
    cases row <;> exact ⟨rfl, busy⟩

theorem readOutcome (o : Outcome) : ∃ fields, (RawCells.ofOutcome o).read = .ok fields ∧ fields.toRow = o.toRow := by
  refine ⟨_, rfl, ?_⟩
  simp [RawCells.Fields.toRow, RawCells.ofOutcome, Outcome.toRow, Value.octets]

theorem readRecord (r : CertificateRecord) : certificateRecord (.ofRecord r) = .ok r := by
  have known : KeyType.ofStored? r.keyType.stored = some r.keyType := by cases r.keyType <;> rfl
  have code : ((CertificateCells.ofRecord r).keyType.asInteger 0 "KeyType").mapError StoreError.mismatch =
      .ok r.keyType.stored := rfl
  have cells : (CertificateCells.ofRecord r).read.mapError StoreError.mismatch =
      .ok ⟨r.keyType.stored, Int64.ofNat r.bitLength.toNat, r.der⟩ := rfl
  simp only [certificateRecord, code, cells, known, bind, Except.bind]
  simp [pure, Except.pure]

theorem readRecords (records : List CertificateRecord) :
    (records.map CertificateCells.ofRecord).mapM certificateRecord = .ok records := by
  induction records with
  | nil => rfl
  | cons r rest ih =>
    rw [List.map_cons, List.mapM_cons, readRecord, ih]
    rfl

section Visits
variable {τ δ : Type} (f : RawRow → τ → Except δ Unit × τ)

def noting (row : RawRow) (s : τ × List RawRow) : Except δ Unit × τ × List RawRow :=
  ((f row s.1).1, (f row s.1).2, s.2 ++ [row])

inductive Takes : List RawRow → τ → τ → Prop where
  | nil (t) : Takes [] t t
  | cons {row rest t u v} (taken : f row t = (.ok (), u)) (tail : Takes rest u v) : Takes (row :: rest) t v

inductive Visited (rows : List RawRow) (t : τ) : Except (VisitError δ) Nat × τ × List RawRow → Prop where
  | all {u} (takes : Takes f rows t u) : Visited rows t (.ok rows.length, u, rows)
  | upTo {before row after u e v} (cut : rows = before ++ row :: after) (takes : Takes f before t u)
      (failed : f row u = (.error e, v)) : Visited rows t (.error (.visitor e), v, before ++ [row])

theorem visitNoting (n : Nat) (cells : List RawCells) (s : τ × List RawRow) :
    visit f n cells s.1 = ((visit (noting f) n cells s).1, (visit (noting f) n cells s).2.1) := by
  induction cells generalizing n s with
  | nil => rfl
  | cons row rest ih =>
    rw [visit, visit]
    cases row.read with
    | error m => rfl
    | ok fields =>
      cases given : f fields.toRow s.1 with
      | mk answer t =>
        simp only [noting, given]
        cases answer with
        | error e => rfl
        | ok => exact ih (n + 1) (t, s.2 ++ [fields.toRow])

theorem visitOutcomes (n : Nat) (outcomes : List Outcome) (s : τ × List RawRow) :
    let rows := outcomes.map Outcome.toRow
    let noted := visit (noting f) n (outcomes.map RawCells.ofOutcome) s
    (∃ u, Takes f rows s.1 u ∧ noted = (.ok (n + outcomes.length), u, s.2 ++ rows)) ∨
      ∃ before row after u e v, rows = before ++ row :: after ∧ Takes f before s.1 u ∧
        f row u = (.error e, v) ∧ noted = (.error (.visitor e), v, s.2 ++ (before ++ [row])) := by
  induction outcomes generalizing n s with
  | nil => exact .inl ⟨s.1, .nil _, by simp [visit]⟩
  | cons o rest ih =>
    obtain ⟨fields, read, row⟩ := readOutcome o
    simp only [List.map_cons, visit, read, row]
    cases given : f o.toRow s.1 with
    | mk answer t =>
      simp only [noting, given]
      cases answer with
      | error e => exact .inr ⟨[], o.toRow, _, s.1, e, t, rfl, .nil _, given, rfl⟩
      | ok =>
        rcases ih (n + 1) (t, s.2 ++ [o.toRow]) with
          ⟨u, takes, ended⟩ | ⟨before, row, after, u, e, v, cut, takes, failed, ended⟩
        · refine .inl ⟨u, .cons given takes, ended.trans ?_⟩
          simp [Nat.add_comm, Nat.add_left_comm]
        · refine .inr ⟨o.toRow :: before, row, after, u, e, v, ?_, .cons given takes, failed, ended.trans ?_⟩
          · rw [cut, List.cons_append]
          · simp

end Visits

def collect (row : RawRow) (rows : List RawRow) : Except Empty Unit × List RawRow := (.ok (), rows ++ [row])

theorem takesCollect {rows seen last : List RawRow} (takes : Takes collect rows seen last) : last = seen ++ rows := by
  induction takes with
  | nil => exact (List.append_nil _).symm
  | cons taken tail ih =>
    cases taken
    simpa using ih

section Filled
variable (maxAge : Nat) (operations : List Window.Operation)

def filled : Except StoreError Unit × Window (Store × List Ask) :=
  ((Window.new (empty, []) maxAge).run sink.logged operations).flush sink.logged

theorem operationsRaw : (operations.flatMap Window.Operation.rows).filterMap rawCells? =
    (operations.flatMap Window.Operation.outcomes).map RawCells.ofOutcome := by
  rw [List.filterMap_flatMap, List.map_flatMap]
  congr
  funext operation
  simp [Window.Operation.rows, Function.comp_def, rawCells?]

theorem operationsCertificates : (operations.flatMap Window.Operation.rows).filterMap certificateCells? =
    (operations.flatMap Window.Operation.records).map CertificateCells.ofRecord := by
  rw [List.filterMap_flatMap, List.map_flatMap]
  congr
  funext operation
  simp [Window.Operation.rows, Function.comp_def, certificateCells?]

theorem filledTables : (filled maxAge operations).1 = .ok () ∧
    (filled maxAge operations).2.sink.1.saved = none ∧
    (filled maxAge operations).2.sink.1.tables.raw.toList =
      (operations.flatMap Window.Operation.outcomes).map RawCells.ofOutcome ∧
    (filled maxAge operations).2.sink.1.tables.certificates.toList =
      (operations.flatMap Window.Operation.records).map CertificateCells.ofRecord := by
  have start : (Window.new (empty, []) maxAge).Settled (fun s => s.saved = none) (fun s => s.saved.isSome) := rfl
  obtain ⟨settled, stored⟩ := Window.runObeyed sinkObeys start operations
  obtain ⟨flushed, left, -⟩ := Window.flushObeyed sinkObeys settled
  have follows : Follows .empty (filled maxAge operations).2.sink :=
    Window.flushKeeps (sinkFollows _) (Window.runKeeps (sinkFollows _) (followsStart empty) operations)
  have rows : rowsOf (Ask.allGranted (filled maxAge operations).2.sink.2) =
      operations.flatMap Window.Operation.rows := Window.flushStored.trans stored
  refine ⟨flushed, left, ?_, ?_⟩
  · rw [follows.raw, rows, operationsRaw]
    rfl
  · rw [follows.certificates, rows, operationsCertificates]
    rfl

/- The log that the window keeps is kept again, so that the sink below it, log and all, is one
that grants everything. -/
theorem filledGranted : ∀ ask ∈ (filled maxAge operations).2.log, ask.granted = true := by
  let twice := Window.new ((empty, ([] : List Ask)), ([] : List Ask)) maxAge
  have start : twice.Settled (fun s => s.1.saved = none ∧ ∀ ask ∈ s.2, ask.granted = true)
      (fun s => s.1.saved.isSome ∧ ∀ ask ∈ s.2, ask.granted = true) := ⟨rfl, nofun⟩
  obtain ⟨settled, -⟩ := Window.runObeyed sinkObeys.logged start operations
  obtain ⟨-, left, -⟩ := Window.flushObeyed sinkObeys.logged settled
  rw [filled, show Window.new (empty, []) maxAge = twice.unlogged from rfl, Window.runUnlogged, Window.flushUnlogged]
  exact left.2

theorem filledVisits {τ δ : Type} (f : RawRow → τ → Except δ Unit × τ) (t : τ) :
    let s := (filled maxAge operations).2.sink.1
    let noted := s.forEachRaw (noting f) (t, [])
    s.forEachRaw f t = (noted.1, noted.2.1) ∧
      Visited f ((operations.flatMap Window.Operation.outcomes).map Outcome.toRow) t noted := by
  intro s noted
  obtain ⟨-, -, raw, -⟩ := filledTables maxAge operations
  have visited : noted = visit (noting f) 0 ((operations.flatMap Window.Operation.outcomes).map RawCells.ofOutcome) (t, []) :=
    congrArg (fun cells => visit (noting f) 0 cells (t, [])) raw
  refine ⟨visitNoting f 0 _ (t, []), ?_⟩
  rcases visitOutcomes f 0 (operations.flatMap Window.Operation.outcomes) (t, []) with
    ⟨u, takes, ended⟩ | ⟨before, row, after, u, e, v, cut, takes, failed, ended⟩
  · rw [visited, ended]
    simpa using Visited.all takes
  · rw [visited, ended]
    exact .upTo cut takes failed

end Filled

theorem storedRowsReadBack (maxAge : Nat) (operations : List Window.Operation) :
    let last := filled maxAge operations
    let s := last.2.sink.1
    let outcomes := operations.flatMap Window.Operation.outcomes
    let rows := outcomes.map Outcome.toRow
    ((Window.new empty maxAge).run sink operations).flush sink = (last.1, last.2.unlogged) ∧
    last.1 = .ok () ∧ (∀ ask ∈ last.2.log, ask.granted = true) ∧ s.closed = s.tables ∧
    s.certificates = .ok (operations.flatMap Window.Operation.records) ∧
    s.forEachRaw collect [] = (.ok outcomes.length, rows) ∧
    ∀ {τ δ : Type} (f : RawRow → τ → Except δ Unit × τ) (t : τ),
      let noted := s.forEachRaw (noting f) (t, [])
      s.forEachRaw f t = (noted.1, noted.2.1) ∧ Visited f rows t noted := by
  intro last s outcomes rows
  obtain ⟨flushed, closed, raw, records⟩ := filledTables maxAge operations
  have plainly : ((Window.new empty maxAge).run sink operations).flush sink = (last.1, last.2.unlogged) := by
    rw [show Window.new empty maxAge = (Window.new (empty, []) maxAge).unlogged from rfl, Window.runUnlogged,
      Window.flushUnlogged]
    rfl
  refine ⟨plainly, flushed, filledGranted maxAge operations, ?_, ?_, ?_, filledVisits maxAge operations⟩
  · rw [Store.closed, closed]
    rfl
  · rw [certificates, records, readRecords]
  · obtain ⟨same, visited⟩ := filledVisits maxAge operations collect []
    rw [same]
    generalize forEachRaw (noting collect) _ ([], []) = noted at visited
    cases visited with
    | all takes => simp [takesCollect takes, rows, outcomes]
    | @upTo _ _ _ _ e => exact e.elim

end Store
end TlsCensus
