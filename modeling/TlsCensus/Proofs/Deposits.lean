import TlsCensus.Proofs.Transactions

/-! The rows that a sink has let in through a window. A batch adds some of its rows in their
order and its report counts them; a sink that refuses certain rows and nothing else adds
all the others. -/
namespace TlsCensus

/- Outside a transaction a begin is granted and leads inside, inside a commit is granted and
leads outside, and of the rows just those named are refused. -/
structure Sink.Obeys {σ ε : Type} (S : Sink σ ε) (refused : Row → Bool) (outside inside : σ → Prop) : Prop where
  begins {s} : outside s → (S.beginTransaction s).1 = .ok () ∧ inside (S.beginTransaction s).2
  commits {s} : inside s → (S.commitTransaction s).1 = .ok () ∧ outside (S.commitTransaction s).2
  inserts {s} (row) : inside s → (S.insert row s).1.isOk = !refused row ∧ inside (S.insert row s).2

section Memory

def Recorder.Willing (addresses bitLengths : List UInt32) (r : Recorder) : Prop :=
  r.refusedBegins = 0 ∧ r.refusedCommits = 0 ∧ r.refusedAddresses = addresses ∧
  r.refusedBitLengths = bitLengths

theorem recorderObeys (addresses bitLengths : List UInt32) :
    Recorder.sink.Obeys (Recorder.refuses ⟨0, 0, addresses, bitLengths, []⟩)
      (Recorder.Willing addresses bitLengths) (Recorder.Willing addresses bitLengths) where
  begins {r} willing := by
    obtain ⟨none, -⟩ := id willing
    simp only [Recorder.sink, none]
    exact ⟨trivial, willing⟩
  commits {r} willing := by
    obtain ⟨-, none, -⟩ := id willing
    simp only [Recorder.sink, none]
    exact ⟨trivial, willing⟩
  inserts {r} row willing := by
    have same : r.refuses row = Recorder.refuses ⟨0, 0, addresses, bitLengths, []⟩ row := by
      obtain ⟨-, -, rfl, rfl⟩ := willing
      cases row <;> rfl
    simp only [Recorder.sink, same]
    split <;> rename_i refused <;> simp only [refused] <;> exact ⟨rfl, willing⟩

theorem recorderGrants : Recorder.sink.Obeys (fun _ => false) (Recorder.Willing [] []) (Recorder.Willing [] []) := by
  have nothing : Recorder.refuses ⟨0, 0, [], [], []⟩ = fun _ => false := by
    funext row
    cases row <;> rfl
  rw [← nothing]
  exact recorderObeys [] []

end Memory

namespace Window
variable {σ ε : Type} {S : Sink σ ε} {w : Window (σ × List Ask)} (now : Nat)

def stored (w : Window (σ × List Ask)) : List Row := rowsOf (Ask.allGranted w.log)

theorem rowsAppend (log : List Ask) (call : SinkCall) (ok : Bool) :
    rowsOf (Ask.allGranted (log ++ [⟨call, ok⟩])) =
      rowsOf (Ask.allGranted log) ++ if ok then rowsOf [call] else [] := by
  rw [Ask.grantedAppend, rowsOf, List.filterMap_append]
  cases ok <;> rfl

def Blind {β : Type} (view : Ask → Option β) : Prop := ∀ call ok, rowOf? call = none → view ⟨call, ok⟩ = none

def storedRow? (ask : Ask) : Option Row := ask.granted?.bind rowOf?

theorem storedView : w.stored = w.log.filterMap storedRow? := List.filterMap_filterMap

theorem storedBlind : Blind storedRow? := by
  intro call ok bare
  cases ok with
  | false => rfl
  | true => exact bare

section Any
variable {β : Type} {view : Ask → Option β} (blind : Blind view)
include blind

theorem blindLast (log : List Ask) (call : SinkCall) (bare : rowOf? call = none) (ok : Bool) :
    List.filterMap view (log ++ [⟨call, ok⟩]) = log.filterMap view := by
  simp [blind call ok bare]

theorem ensureOpenView : (w.ensureOpen S.logged now).2.log.filterMap view = w.log.filterMap view := by
  unfold ensureOpen
  cases opened : w.openedAt with
  | some time => rfl
  | none =>
    have begun := blindLast blind w.log .begun rfl (S.beginTransaction w.sink.1).1.isOk
    simp only [Sink.logged]
    split <;> rename_i asked <;> cases (Prod.mk.inj asked).2 <;> exact begun

theorem flushView : (w.flush S.logged).2.log.filterMap view = w.log.filterMap view := by
  unfold flush
  cases opened : w.openedAt with
  | none => rfl
  | some time =>
    have committed := blindLast blind w.log .committed rfl (S.commitTransaction w.sink.1).1.isOk
    simp only [Sink.logged]
    split <;> rename_i asked <;> cases (Prod.mk.inj asked).2 <;> exact committed

theorem commitIfDueView : (w.commitIfDue S.logged now).2.log.filterMap view = w.log.filterMap view := by
  have flushed := flushView (S := S) (w := w) blind
  unfold commitIfDue
  split
  · split <;> rename_i asked <;> rwa [asked] at flushed
  · rfl

theorem storeCertificateAsks (record : CertificateRecord) : ∃ asks : List Ask,
    (w.storeCertificate S.logged record now).2.log.filterMap view = w.log.filterMap view ++ asks.filterMap view ∧
    ((asks = [] ∧ (w.storeCertificate S.logged record now).1.isOk = false) ∨
      asks = [⟨.inserted (.certificate record), (w.storeCertificate S.logged record now).1.isOk⟩]) := by
  unfold storeCertificate
  have opened := ensureOpenView (S := S) (w := w) now blind
  cases asked : w.ensureOpen S.logged now with
  | mk answer v =>
    rw [asked] at opened
    cases answer with
    | error e => exact ⟨[], by rw [List.filterMap_nil, List.append_nil, opened], .inl ⟨rfl, rfl⟩⟩
    | ok =>
      refine ⟨_, ?_, .inr rfl⟩
      rw [← opened, ← List.filterMap_append]
      exact commitIfDueView now blind

end Any

section Stored

theorem ensureOpenStored : (w.ensureOpen S.logged now).2.stored = w.stored := by
  rw [storedView, storedView, ensureOpenView now storedBlind]

theorem flushStored : (w.flush S.logged).2.stored = w.stored := by
  rw [storedView, storedView, flushView storedBlind]

theorem commitIfDueStored : (w.commitIfDue S.logged now).2.stored = w.stored := by
  rw [storedView, storedView, commitIfDueView now storedBlind]

theorem flushedLedger (orderly : w.InOrder) (flushed : (w.flush S.logged).1 = .ok ()) :
    ∃ whole, Ask.allGranted (w.flush S.logged).2.log = ledger whole none ∧ whole.flatten = w.stored := by
  obtain ⟨settled, closes⟩ := orderlyFlush (S := S) orderly
  rw [InOrder, closes flushed] at settled
  obtain ⟨whole, word, rows⟩ := settled.wholeTransactions
  exact ⟨whole, word, rows.trans flushStored⟩

theorem insertAllStored (S : Sink σ ε) (rows : List Row) (s : σ × List Ask) : ∃ kept : List Row,
    kept.Sublist rows ∧ (insertAll S.logged rows s).1.stored = kept.length ∧
    (insertAll S.logged rows s).1.stored + (insertAll S.logged rows s).1.failed = rows.length ∧
    rowsOf (Ask.allGranted (insertAll S.logged rows s).2.2) = rowsOf (Ask.allGranted s.2) ++ kept := by
  induction rows generalizing s with
  | nil => exact ⟨[], .slnil, rfl, rfl, (List.append_nil _).symm⟩
  | cons row rest ih =>
    have here := rowsAppend s.2 (.inserted row) (S.insert row s.1).1.isOk
    rw [show s.2 ++ [⟨.inserted row, (S.insert row s.1).1.isOk⟩] = (S.logged.insert row s).2.2 from rfl,
      show (S.insert row s.1).1 = (S.logged.insert row s).1 from rfl] at here
    cases asked : S.logged.insert row s with
    | mk answer t =>
      obtain ⟨kept, among, count, whole, grown⟩ := ih t
      rw [asked] at here
      rw [here] at grown
      simp only [insertAll, asked, List.length_cons]
      cases answer with
      | ok =>
        refine ⟨row :: kept, among.cons_cons row, ?_, ?_, ?_⟩
        · rw [List.length_cons, ← count]
        · dsimp only
          omega
        · exact grown.trans (List.append_assoc _ _ _)
      | error e =>
        refine ⟨kept, among.cons row, count, ?_, ?_⟩
        · dsimp only
          omega
        · exact grown.trans (congrArg (· ++ kept) (List.append_nil _))

theorem storeOutcomesStored (S : Sink σ ε) (w : Window (σ × List Ask)) (batch : List Outcome) (now : Nat) :
    ∃ kept : List Row, kept.Sublist (batch.map .raw) ∧
      (w.storeOutcomes S.logged batch now).1.stored = kept.length ∧
      (w.storeOutcomes S.logged batch now).1.stored + (w.storeOutcomes S.logged batch now).1.failed = batch.length ∧
      (w.storeOutcomes S.logged batch now).2.stored = w.stored ++ kept := by
  unfold storeOutcomes
  split
  · rename_i empty
    rw [List.isEmpty_iff.mp empty]
    exact ⟨[], .slnil, rfl, rfl, (List.append_nil _).symm⟩
  · have opened := ensureOpenStored (S := S) (w := w) now
    cases asked : w.ensureOpen S.logged now with
    | mk answer v =>
      rw [asked] at opened
      cases answer with
      | error e => exact ⟨[], List.nil_sublist _, rfl, Nat.zero_add _, by rw [List.append_nil, opened]⟩
      | ok =>
        obtain ⟨kept, among, count, whole, grown⟩ := insertAllStored S (batch.map .raw) v.sink
        rw [List.length_map] at whole
        refine ⟨kept, among, count, whole, ?_⟩
        rw [← opened]
        exact (commitIfDueStored now).trans grown

end Stored

section Obeyed
variable {refused : Row → Bool} {outside inside : σ → Prop} (obeys : S.Obeys refused outside inside)

def Settled (outside inside : σ → Prop) (w : Window (σ × List Ask)) : Prop :=
  if w.isOpen then inside w.sink.1 else outside w.sink.1

include obeys

theorem ensureOpenObeyed (settled : w.Settled outside inside) :
    (w.ensureOpen S.logged now).1 = .ok () ∧ inside (w.ensureOpen S.logged now).2.sink.1 ∧
    (w.ensureOpen S.logged now).2.isOpen = true := by
  unfold ensureOpen
  cases opened : w.openedAt with
  | some time =>
    have within : inside w.sink.1 := by simpa [Settled, isOpen, opened] using settled
    exact ⟨rfl, within, by simp [isOpen, opened]⟩
  | none =>
    have start : outside w.sink.1 := by simpa [Settled, isOpen, opened] using settled
    obtain ⟨begun, within⟩ := obeys.begins start
    simp only [Sink.logged, begun]
    exact ⟨trivial, within, rfl⟩

theorem flushObeyed (settled : w.Settled outside inside) :
    (w.flush S.logged).1 = .ok () ∧ outside (w.flush S.logged).2.sink.1 ∧
    (w.flush S.logged).2.isOpen = false := by
  unfold flush
  cases opened : w.openedAt with
  | none =>
    have start : outside w.sink.1 := by simpa [Settled, isOpen, opened] using settled
    exact ⟨rfl, start, by simp [isOpen, opened]⟩
  | some time =>
    have within : inside w.sink.1 := by simpa [Settled, isOpen, opened] using settled
    obtain ⟨committed, start⟩ := obeys.commits within
    simp only [Sink.logged, committed]
    exact ⟨trivial, start, rfl⟩

theorem commitIfDueObeyed (settled : w.Settled outside inside) :
    (w.commitIfDue S.logged now).2.Settled outside inside := by
  have flushed := flushObeyed obeys settled
  unfold commitIfDue
  split
  · cases asked : w.flush S.logged with
    | mk answer v =>
      rw [asked] at flushed
      obtain ⟨rfl, start, closed⟩ := flushed
      rwa [Settled, closed]
  · exact settled

theorem insertAllObeyed (rows : List Row) {s : σ × List Ask} (within : inside s.1) :
    inside (insertAll S.logged rows s).2.1 ∧
    rowsOf (Ask.allGranted (insertAll S.logged rows s).2.2) =
      rowsOf (Ask.allGranted s.2) ++ rows.filter (!refused ·) := by
  induction rows generalizing s with
  | nil => exact ⟨within, (List.append_nil _).symm⟩
  | cons row rest ih =>
    obtain ⟨answered, still⟩ := obeys.inserts row within
    have here := rowsAppend s.2 (.inserted row) (S.insert row s.1).1.isOk
    obtain ⟨last, grown⟩ := ih (s := (S.logged.insert row s).2) still
    have rows : rowsOf (Ask.allGranted (S.logged.insert row s).2.2) ++ rest.filter (!refused ·) =
        rowsOf (Ask.allGranted s.2) ++ (row :: rest).filter (!refused ·) := by
      rw [List.filter_cons, ← answered]
      rw [show (S.logged.insert row s).2.2 = s.2 ++ [⟨.inserted row, (S.insert row s.1).1.isOk⟩] from rfl, here,
        List.append_assoc]
      split <;> rfl
    simp only [insertAll]
    split <;> exact ⟨last, grown.trans rows⟩

theorem storeOutcomesObeyed (settled : w.Settled outside inside) (batch : List Outcome) :
    (w.storeOutcomes S.logged batch now).2.Settled outside inside ∧
    (w.storeOutcomes S.logged batch now).2.stored = w.stored ++ (batch.map .raw).filter (!refused ·) := by
  unfold storeOutcomes
  split
  · rename_i empty
    rw [List.isEmpty_iff.mp empty]
    exact ⟨settled, (List.append_nil _).symm⟩
  · obtain ⟨granted, within, opened⟩ := ensureOpenObeyed now obeys settled
    have same := ensureOpenStored (S := S) (w := w) now
    cases asked : w.ensureOpen S.logged now with
    | mk answer v =>
      rw [asked] at granted within opened same
      cases granted
      obtain ⟨last, grown⟩ := insertAllObeyed obeys (batch.map .raw) within
      refine ⟨?_, ?_⟩
      · apply commitIfDueObeyed now obeys
        have still : isOpen { v with sink := (insertAll S.logged (batch.map .raw) v.sink).2 } = true := opened
        rwa [Settled, still]
      · rw [← same]
        exact (commitIfDueStored now).trans grown

theorem storeCertificateObeyed (settled : w.Settled outside inside) (record : CertificateRecord) :
    (w.storeCertificate S.logged record now).1.isOk = (!refused (.certificate record)) ∧
    (w.storeCertificate S.logged record now).2.Settled outside inside ∧
    (w.storeCertificate S.logged record now).2.stored =
      w.stored ++ if refused (.certificate record) then [] else [.certificate record] := by
  unfold storeCertificate
  obtain ⟨granted, within, opened⟩ := ensureOpenObeyed now obeys settled
  have same := ensureOpenStored (S := S) (w := w) now
  cases asked : w.ensureOpen S.logged now with
  | mk answer v =>
    rw [asked] at granted within opened same
    cases granted
    obtain ⟨answered, last⟩ := obeys.inserts (.certificate record) within
    have here := rowsAppend v.log (.inserted (.certificate record)) (S.insert (.certificate record) v.sink.1).1.isOk
    refine ⟨answered, ?_, ?_⟩
    · apply commitIfDueObeyed now obeys
      have still : isOpen { v with sink := (S.logged.insert (.certificate record) v.sink).2 } = true := opened
      rwa [Settled, still]
    · rw [← same]
      refine (commitIfDueStored now).trans (here.trans ?_)
      rw [answered]
      cases refused (.certificate record) <;> rfl

end Obeyed

end Window
end TlsCensus
