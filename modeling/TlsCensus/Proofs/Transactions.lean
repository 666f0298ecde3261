import TlsCensus.Window.Recorder
import Mathlib.Data.List.Induction

/-! What a window asks of its sink, in order and with the answers. What was granted spells
whole transactions and perhaps one that is not committed yet. The window is open exactly
while there is one, and nothing is asked out of its place. -/
namespace TlsCensus

structure Ask where
  call : SinkCall
  granted : Bool
  deriving DecidableEq, Repr

namespace Sink
variable {σ ε : Type}

def logged (S : Sink σ ε) : Sink (σ × List Ask) ε where
  beginTransaction s := ((S.beginTransaction s.1).1, (S.beginTransaction s.1).2,
    s.2 ++ [⟨.begun, (S.beginTransaction s.1).1.isOk⟩])
  commitTransaction s := ((S.commitTransaction s.1).1, (S.commitTransaction s.1).2,
    s.2 ++ [⟨.committed, (S.commitTransaction s.1).1.isOk⟩])
  insert row s := ((S.insert row s.1).1, (S.insert row s.1).2,
    s.2 ++ [⟨.inserted row, (S.insert row s.1).1.isOk⟩])

end Sink

namespace Ask

def granted? (ask : Ask) : Option SinkCall := if ask.granted then some ask.call else none

def allGranted (log : List Ask) : List SinkCall := log.filterMap granted?

theorem grantedAppend (log : List Ask) (call : SinkCall) (ok : Bool) :
    allGranted (log ++ [⟨call, ok⟩]) = allGranted log ++ if ok then [call] else [] := by
  cases ok <;> simp [allGranted, granted?]

end Ask

section Words

def Uncommitted (calls : List SinkCall) : Prop :=
  ∃ before after, calls = before ++ .begun :: after ∧ .begun ∉ after ∧ .committed ∉ after

def transaction (rows : List Row) : List SinkCall := .begun :: rows.map .inserted

def ledger (whole : List (List Row)) (pending : Option (List Row)) : List SinkCall :=
  whole.flatMap (fun rows => transaction rows ++ [.committed]) ++ (pending.map transaction).getD []

def rowOf? : SinkCall → Option Row
  | .inserted row => some row
  | _ => none

def rowsOf (calls : List SinkCall) : List Row := calls.filterMap rowOf?

theorem rowsTransaction (rows : List Row) : rowsOf (transaction rows) = rows := by
  induction rows with
  | nil => rfl
  | cons row rest ih => exact congrArg (row :: ·) ih

theorem rowsLedger (whole : List (List Row)) (pending : Option (List Row)) :
    rowsOf (ledger whole pending) = whole.flatten ++ pending.getD [] := by
  have opened : rowsOf ((pending.map transaction).getD []) = pending.getD [] := by
    cases pending with
    | none => rfl
    | some rows => exact rowsTransaction rows
  rw [ledger, rowsOf, List.filterMap_append, ← rowsOf, ← rowsOf, opened]
  congr 1
  induction whole with
  | nil => rfl
  | cons rows rest ih =>
    rw [List.flatMap_cons, rowsOf, List.filterMap_append, List.filterMap_append, ← rowsOf, ← rowsOf, ← rowsOf,
      ih, rowsTransaction, List.flatten_cons]
    simp [rowsOf, rowOf?]

theorem ledgerEnd {whole : List (List Row)} {before after : List SinkCall} {call : SinkCall}
    (cut : ledger whole none = before ++ call :: after) (other : call ≠ .committed) : .committed ∈ after := by
  have shape : ledger whole none = whole.flatMap fun rows => transaction rows ++ [.committed] :=
    List.append_nil _
  rw [shape] at cut
  cases whole using List.reverseRecOn with
  | nil => simp at cut
  | append_singleton rest rows =>
    rw [List.flatMap_append, List.flatMap_singleton, ← List.append_assoc] at cut
    cases after using List.reverseRecOn with
    | nil => exact absurd (List.cons.inj (List.append_inj' cut rfl).2).1.symm other
    | append_singleton middle last =>
      rw [← List.cons_append, ← List.append_assoc] at cut
      rw [← (List.append_inj' cut rfl).2]
      exact List.mem_append_right _ List.mem_cons_self

theorem uncommittedLedger {whole : List (List Row)} {pending : Option (List Row)} :
    Uncommitted (ledger whole pending) ↔ pending.isSome = true := by
  cases pending with
  | none =>
    refine ⟨fun uncommitted => ?_, nofun⟩
    obtain ⟨before, after, cut, -, dry⟩ := uncommitted
    exact absurd (ledgerEnd cut nofun) dry
  | some rows => exact ⟨fun _ => rfl, fun _ => ⟨_, rows.map .inserted, rfl, by simp, by simp⟩⟩

end Words

/- Each ask stands where it may: a begin outside a transaction, all else inside one. -/
def Placed (log : List Ask) : Prop :=
  ∀ before ask after, log = before ++ ask :: after →
    (ask.call = .begun ↔ ¬ Uncommitted (Ask.allGranted before))

theorem placedLast {log : List Ask} (placed : Placed log) {ask : Ask}
    (here : ask.call = .begun ↔ ¬ Uncommitted (Ask.allGranted log)) : Placed (log ++ [ask]) := by
  intro before other after cut
  cases after using List.reverseRecOn with
  | nil =>
    obtain ⟨rfl, same⟩ := List.append_inj' cut rfl
    cases same
    exact here
  | append_singleton middle last =>
    rw [← List.cons_append, ← List.append_assoc] at cut
    exact placed before other middle (List.append_inj' cut rfl).1

structure Orderly (log : List Ask) (isOpen : Bool) : Prop where
  word : ∃ whole pending, Ask.allGranted log = ledger whole pending ∧ pending.isSome = isOpen
  placed : Placed log

namespace Orderly
variable {log : List Ask}

theorem openIff {isOpen : Bool} (orderly : Orderly log isOpen) :
    isOpen = true ↔ Uncommitted (Ask.allGranted log) := by
  obtain ⟨whole, pending, word, rfl⟩ := orderly.word
  rw [word, uncommittedLedger]

theorem empty : Orderly [] false := ⟨⟨[], none, rfl, rfl⟩, fun before ask after cut => by simp at cut⟩

theorem afterBegin (orderly : Orderly log false) (ok : Bool) : Orderly (log ++ [⟨.begun, ok⟩]) ok := by
  refine ⟨?_, placedLast orderly.placed ?_⟩
  · obtain ⟨whole, pending, word, closed⟩ := orderly.word
    cases Option.isSome_eq_false_iff.mp closed |> Option.isNone_iff_eq_none.mp
    rw [Ask.grantedAppend, word]
    cases ok with
    | false => exact ⟨whole, none, List.append_nil _, rfl⟩
    | true =>
      refine ⟨whole, some [], ?_, rfl⟩
      simp [ledger, transaction]
  · rw [← orderly.openIff]
    simp

theorem afterInsert (orderly : Orderly log true) (row : Row) (ok : Bool) :
    Orderly (log ++ [⟨.inserted row, ok⟩]) true := by
  refine ⟨?_, placedLast orderly.placed ?_⟩
  · obtain ⟨whole, pending, word, opened⟩ := orderly.word
    obtain ⟨rows, rfl⟩ := Option.isSome_iff_exists.mp opened
    rw [Ask.grantedAppend, word]
    cases ok with
    | false => exact ⟨whole, some rows, List.append_nil _, rfl⟩
    | true =>
      refine ⟨whole, some (rows ++ [row]), ?_, rfl⟩
      simp [ledger, transaction]
  · rw [← orderly.openIff]
    simp

theorem afterCommit (orderly : Orderly log true) (ok : Bool) : Orderly (log ++ [⟨.committed, ok⟩]) (!ok) := by
  refine ⟨?_, placedLast orderly.placed ?_⟩
  · obtain ⟨whole, pending, word, opened⟩ := orderly.word
    obtain ⟨rows, rfl⟩ := Option.isSome_iff_exists.mp opened
    rw [Ask.grantedAppend, word]
    cases ok with
    | false => exact ⟨whole, some rows, List.append_nil _, rfl⟩
    | true =>
      refine ⟨whole ++ [rows], none, ?_, rfl⟩
      simp [ledger, transaction]
  · rw [← orderly.openIff]
    simp

theorem wholeTransactions (orderly : Orderly log false) :
    ∃ whole, Ask.allGranted log = ledger whole none ∧ whole.flatten = rowsOf (Ask.allGranted log) := by
  obtain ⟨whole, pending, word, closed⟩ := orderly.word
  cases Option.isSome_eq_false_iff.mp closed |> Option.isNone_iff_eq_none.mp
  refine ⟨whole, word, ?_⟩
  rw [word, rowsLedger]
  exact (List.append_nil _).symm

end Orderly

namespace Window
variable {σ ε : Type}

inductive Operation where
  | ensureOpen (now : Nat)
  | commitIfDue (now : Nat)
  | flush
  | storeOutcomes (batch : List Outcome) (now : Nat)
  | storeCertificate (record : CertificateRecord) (now : Nat)
  deriving DecidableEq, Repr

def apply (S : Sink σ ε) (w : Window σ) : Operation → Window σ
  | .ensureOpen now => (w.ensureOpen S now).2
  | .commitIfDue now => (w.commitIfDue S now).2
  | .flush => (w.flush S).2
  | .storeOutcomes batch now => (w.storeOutcomes S batch now).2
  | .storeCertificate record now => (w.storeCertificate S record now).2

def run (S : Sink σ ε) (w : Window σ) (operations : List Operation) : Window σ :=
  operations.foldl (apply S) w

section Unlogged

def unlogged (w : Window (σ × List Ask)) : Window σ := ⟨w.sink.1, w.openedAt, w.maxAge⟩

def log (w : Window (σ × List Ask)) : List Ask := w.sink.2

variable (S : Sink σ ε) (w : Window (σ × List Ask))

theorem ensureOpenUnlogged (now : Nat) :
    w.unlogged.ensureOpen S now = ((w.ensureOpen S.logged now).1, (w.ensureOpen S.logged now).2.unlogged) := by
  unfold ensureOpen
  cases opened : w.openedAt with
  | some time => simp [unlogged, opened]
  | none =>
    cases begun : S.beginTransaction w.sink.1 with
    | mk answer t => cases answer <;> simp [unlogged, Sink.logged, opened, begun]

theorem flushUnlogged :
    w.unlogged.flush S = ((w.flush S.logged).1, (w.flush S.logged).2.unlogged) := by
  unfold flush
  cases opened : w.openedAt with
  | none => simp [unlogged, opened]
  | some time =>
    cases committed : S.commitTransaction w.sink.1 with
    | mk answer t => cases answer <;> simp [unlogged, Sink.logged, opened, committed]

theorem commitIfDueUnlogged (now : Nat) :
    w.unlogged.commitIfDue S now = ((w.commitIfDue S.logged now).1, (w.commitIfDue S.logged now).2.unlogged) := by
  have due : w.unlogged.isDue now = w.isDue now := rfl
  unfold commitIfDue
  rw [due, flushUnlogged]
  split
  · cases w.flush S.logged with
    | mk answer v => cases answer <;> rfl
  · rfl

theorem insertAllUnlogged (rows : List Row) (s : σ × List Ask) :
    insertAll S rows s.1 = ((insertAll S.logged rows s).1, (insertAll S.logged rows s).2.1) := by
  induction rows generalizing s with
  | nil => rfl
  | cons row rest ih =>
    have later := ih (S.logged.insert row s).2
    cases answered : S.insert row s.1 with
    | mk answer t =>
      have here : S.logged.insert row s = (answer, t, s.2 ++ [⟨.inserted row, answer.isOk⟩]) := by
        simp only [Sink.logged, answered]
      rw [here] at later
      simp only [insertAll, answered, here, later]
      cases answer <;> rfl

theorem storeOutcomesUnlogged (batch : List Outcome) (now : Nat) :
    w.unlogged.storeOutcomes S batch now =
      ((w.storeOutcomes S.logged batch now).1, (w.storeOutcomes S.logged batch now).2.unlogged) := by
  unfold storeOutcomes
  rw [ensureOpenUnlogged]
  split
  · rfl
  · cases w.ensureOpen S.logged now with
    | mk answer v =>
      cases answer with
      | error e => rfl
      | ok =>
        have inserted := insertAllUnlogged S (batch.map .raw) v.sink
        simp only [show v.unlogged.sink = v.sink.1 from rfl, inserted]
        exact congrArg (Prod.mk _) (congrArg Prod.snd (commitIfDueUnlogged S { v with sink := _ } now))

theorem storeCertificateUnlogged (record : CertificateRecord) (now : Nat) :
    w.unlogged.storeCertificate S record now =
      ((w.storeCertificate S.logged record now).1, (w.storeCertificate S.logged record now).2.unlogged) := by
  unfold storeCertificate
  rw [ensureOpenUnlogged]
  cases w.ensureOpen S.logged now with
  | mk answer v =>
    cases answer with
    | error e => rfl
    | ok =>
      have due := commitIfDueUnlogged S { v with sink := (S.logged.insert (.certificate record) v.sink).2 } now
      exact congrArg (Prod.mk _) (congrArg Prod.snd due)

theorem runUnlogged (operations : List Operation) :
    w.unlogged.run S operations = (w.run S.logged operations).unlogged := by
  induction operations generalizing w with
  | nil => rfl
  | cons operation rest ih =>
    have step : w.unlogged.apply S operation = (w.apply S.logged operation).unlogged := by
      cases operation with
      | ensureOpen now => exact congrArg Prod.snd (ensureOpenUnlogged S w now)
      | commitIfDue now => exact congrArg Prod.snd (commitIfDueUnlogged S w now)
      | flush => exact congrArg Prod.snd (flushUnlogged S w)
      | storeOutcomes batch now => exact congrArg Prod.snd (storeOutcomesUnlogged S w batch now)
      | storeCertificate record now => exact congrArg Prod.snd (storeCertificateUnlogged S w record now)
    rw [run, List.foldl_cons, step]
    exact ih _

end Unlogged

section InOrder
variable {S : Sink σ ε} {w : Window (σ × List Ask)} (now : Nat)

def InOrder (w : Window (σ × List Ask)) : Prop := Orderly w.log w.isOpen

theorem orderlyNew (s : σ) (maxAge : Nat) : (new (s, []) maxAge).InOrder := Orderly.empty

theorem orderlyEnsureOpen (orderly : w.InOrder) : (w.ensureOpen S.logged now).2.InOrder ∧
    ((w.ensureOpen S.logged now).1 = .ok () → (w.ensureOpen S.logged now).2.isOpen = true) := by
  unfold ensureOpen
  cases opened : w.openedAt with
  | some time => exact ⟨orderly, fun _ => by simp [isOpen, opened]⟩
  | none =>
    have closed : Orderly w.log false := by simpa [InOrder, isOpen, opened] using orderly
    have begun := closed.afterBegin (S.beginTransaction w.sink.1).1.isOk
    cases asked : S.beginTransaction w.sink.1 with
    | mk answer t =>
      rw [asked] at begun
      cases answer with
      | error e =>
        simp only [Sink.logged, asked]
        exact ⟨begun, nofun⟩
      | ok =>
        simp only [Sink.logged, asked]
        exact ⟨begun, fun _ => rfl⟩

theorem orderlyFlush (orderly : w.InOrder) : (w.flush S.logged).2.InOrder ∧
    ((w.flush S.logged).1 = .ok () → (w.flush S.logged).2.isOpen = false) := by
  unfold flush
  cases opened : w.openedAt with
  | none => exact ⟨orderly, fun _ => by simp [isOpen, opened]⟩
  | some time =>
    have pending : Orderly w.log true := by simpa [InOrder, isOpen, opened] using orderly
    have committed := pending.afterCommit (S.commitTransaction w.sink.1).1.isOk
    cases asked : S.commitTransaction w.sink.1 with
    | mk answer t =>
      rw [asked] at committed
      cases answer with
      | error e =>
        simp only [Sink.logged, asked]
        exact ⟨committed, nofun⟩
      | ok =>
        simp only [Sink.logged, asked]
        exact ⟨committed, fun _ => rfl⟩

theorem orderlyCommitIfDue (orderly : w.InOrder) : (w.commitIfDue S.logged now).2.InOrder := by
  have flushed := (orderlyFlush (S := S) orderly).1
  unfold commitIfDue
  split
  · cases asked : w.flush S.logged with
    | mk answer v =>
      rw [asked] at flushed
      cases answer <;> exact flushed
  · exact orderly

theorem orderlyInsertAll (rows : List Row) {s : σ × List Ask} (pending : Orderly s.2 true) :
    Orderly (insertAll S.logged rows s).2.2 true := by
  induction rows generalizing s with
  | nil => exact pending
  | cons row rest ih =>
    have later := ih (s := (S.logged.insert row s).2) (pending.afterInsert row _)
    simp only [insertAll]
    split <;> exact later

theorem inOrderOpen (opened : w.isOpen = true) {s : σ × List Ask} (pending : Orderly s.2 true) :
    InOrder { w with sink := s } := by
  have still : isOpen { w with sink := s } = true := opened
  rw [InOrder, still]
  exact pending

theorem orderlyStoreOutcomes (orderly : w.InOrder) (batch : List Outcome) :
    (w.storeOutcomes S.logged batch now).2.InOrder := by
  have opens := orderlyEnsureOpen (S := S) now orderly
  unfold storeOutcomes
  split
  · exact orderly
  · cases asked : w.ensureOpen S.logged now with
    | mk answer v =>
      rw [asked] at opens
      cases answer with
      | error e => exact opens.1
      | ok =>
        have opened := opens.2 rfl
        have pending : Orderly v.log true := opened ▸ opens.1
        have inserted := orderlyInsertAll (S := S) (batch.map .raw) pending
        exact orderlyCommitIfDue now (inOrderOpen opened inserted)

theorem orderlyStoreCertificate (orderly : w.InOrder) (record : CertificateRecord) :
    (w.storeCertificate S.logged record now).2.InOrder := by
  have opens := orderlyEnsureOpen (S := S) now orderly
  unfold storeCertificate
  cases asked : w.ensureOpen S.logged now with
  | mk answer v =>
    rw [asked] at opens
    cases answer with
    | error e => exact opens.1
    | ok =>
      have opened := opens.2 rfl
      have pending : Orderly v.log true := opened ▸ opens.1
      have inserted := pending.afterInsert (.certificate record) (S.insert (.certificate record) v.sink.1).1.isOk
      exact orderlyCommitIfDue now (inOrderOpen opened inserted)

theorem orderlyApply (orderly : w.InOrder) (operation : Operation) : (w.apply S.logged operation).InOrder := by
  cases operation with
  | ensureOpen now => exact (orderlyEnsureOpen now orderly).1
  | commitIfDue now => exact orderlyCommitIfDue now orderly
  | flush => exact (orderlyFlush orderly).1
  | storeOutcomes batch now => exact orderlyStoreOutcomes now orderly batch
  | storeCertificate record now => exact orderlyStoreCertificate now orderly record

theorem orderlyRun (orderly : w.InOrder) (operations : List Operation) : (w.run S.logged operations).InOrder := by
  induction operations generalizing w with
  | nil => exact orderly
  | cons operation rest ih => exact ih (orderlyApply orderly operation)

end InOrder

theorem grantedCallsSpellTransactions (S : Sink σ ε) (s : σ) (maxAge : Nat) (operations : List Operation) :
    let last := (new (s, []) maxAge).run S.logged operations
    let calls := Ask.allGranted last.log
    (new s maxAge).run S operations = last.unlogged ∧
    (∃ whole pending, calls = ledger whole pending) ∧ (last.isOpen = true ↔ Uncommitted calls) ∧
    (∀ before ask after, last.log = before ++ ask :: after →
      (ask.call = .begun ↔ ¬ Uncommitted (Ask.allGranted before))) ∧
    ((last.flush S.logged).1 = .ok () → ∀ before row after,
      Ask.allGranted (last.flush S.logged).2.log = before ++ .inserted row :: after → .committed ∈ after) := by
  intro last calls
  have orderly : last.InOrder := orderlyRun (orderlyNew s maxAge) operations
  obtain ⟨whole, pending, word, -⟩ := orderly.word
  refine ⟨runUnlogged S (new (s, []) maxAge) operations, ⟨whole, pending, word⟩, orderly.openIff, orderly.placed, ?_⟩
  intro flushed before row after cut
  obtain ⟨settled, closes⟩ := orderlyFlush (S := S) orderly
  have closed := closes flushed
  rw [InOrder, closed] at settled
  obtain ⟨_, ends, -⟩ := settled.wholeTransactions
  exact ledgerEnd (ends.symm.trans cut) nofun

/- A refused begin loses a row and a refused commit none: the transaction goes on, so that the
rows behind it are committed with the one before it. -/
theorem refusedCallsLeaveOneTransaction :
    let row (address : UInt32) : Outcome := ⟨address, 443, .tlsCompleted, [22], 0⟩
    let operations := [.storeOutcomes [row 1] 0, .storeOutcomes [row 2, row 7] 1, .flush, .commitIfDue 8,
      .storeCertificate ⟨.rsa, 2048, [48]⟩ 2, .storeOutcomes [row 3] 4]
    let last := (new (⟨1, 2, [7], [], []⟩, []) 5).run Recorder.sink.logged operations
    let flushed := last.flush Recorder.sink.logged
    last.isOpen = true ∧ Uncommitted (Ask.allGranted last.log) ∧ flushed.1 = .ok () ∧
    Ask.allGranted flushed.2.log =
      [.begun, .inserted (.raw (row 2)), .inserted (.certificate ⟨.rsa, 2048, [48]⟩),
        .inserted (.raw (row 3)), .committed] ∧
    ∀ before row after, Ask.allGranted flushed.2.log = before ++ .inserted row :: after → .committed ∈ after := by
  intro row operations last flushed
  obtain ⟨-, -, openIff, -, committed⟩ := grantedCallsSpellTransactions Recorder.sink ⟨1, 2, [7], [], []⟩ 5 operations
  have opened : last.isOpen = true := by decide
  have ok : flushed.1 = .ok () := by decide
  exact ⟨opened, openIff.mp opened, ok, by decide, committed ok⟩

end Window
end TlsCensus
