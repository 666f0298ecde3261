import TlsCensus.Proofs.Deposits
import Mathlib.Data.Bool.Count

/-! What storing rows comes to, whatever state the window is in and whatever the sink answers. A
begin comes first where none is open, and where it is refused nothing else is asked. Then each
row is offered once, and the age of the transaction alone decides whether a commit is asked for
behind them. A commit that is refused leaves the time of the begin as it was, so the next rows
stored then or later ask for it again, until it is granted. -/
namespace TlsCensus

namespace Ask

def offers (rows : List Row) (answers : List Bool) : List Ask :=
  List.zipWith (fun row ok => ⟨.inserted row, ok⟩) rows answers

def commits (answer : Option Bool) : List Ask := (answer.map (⟨.committed, ·⟩)).toList

end Ask

def Sink.committing {σ ε : Type} (S : Sink σ ε) (commit : σ → Except ε Unit × σ) : Sink σ ε :=
  { S with commitTransaction := commit }

namespace Window
variable {σ ε : Type}

def watched (w : Window σ) : Window (σ × List Ask) := ⟨(w.sink, []), w.openedAt, w.maxAge⟩

def begunAt (w : Window σ) (now : Nat) : Nat := w.openedAt.getD now

def begins (w : Window σ) : List Ask := if w.isOpen then [] else [⟨.begun, true⟩]

def Barred (S : Sink σ ε) (w : Window (σ × List Ask)) : Prop :=
  w.openedAt = none ∧ (S.beginTransaction w.sink.1).1.isOk = false

inductive Storing (S : Sink σ ε) (w : Window (σ × List Ask)) (rows : List Row) (now : Nat) :
    List Bool → Option Bool → Window (σ × List Ask) → Prop where
  | barred {after} (barred : w.Barred S) (asked : after.log = w.log ++ [⟨.begun, false⟩])
      (closed : after.openedAt = none) : Storing S w rows now (rows.map fun _ => false) none after
  | offered {answers commit after} (opens : ¬ w.Barred S) (each : answers.length = rows.length)
      (due : commit.isSome = true ↔ w.maxAge ≤ now - w.begunAt now)
      (asked : after.log = w.log ++ (w.begins ++ Ask.offers rows answers ++ Ask.commits commit))
      (left : after.openedAt = if commit = some true then none else some (w.begunAt now)) :
      Storing S w rows now answers commit after

section Calls
variable {S : Sink σ ε} {w : Window (σ × List Ask)} {now : Nat}

theorem openCases (S : Sink σ ε) (w : Window (σ × List Ask)) (now : Nat) :
    (w.Barred S ∧ ∃ e v, w.ensureOpen S.logged now = (.error e, v) ∧ v.log = w.log ++ [⟨.begun, false⟩] ∧
      v.openedAt = none) ∨
    (¬ w.Barred S ∧ ∃ v, w.ensureOpen S.logged now = (.ok (), v) ∧ v.log = w.log ++ w.begins ∧
      v.openedAt = some (w.begunAt now) ∧ v.maxAge = w.maxAge) := by
  unfold ensureOpen Barred begunAt begins isOpen
  cases opened : w.openedAt with
  | some time => exact .inr ⟨by simp, w, rfl, (List.append_nil _).symm, opened, rfl⟩
  | none =>
    cases begun : S.beginTransaction w.sink.1 with
    | mk answer s =>
      cases answer <;> simp only [Sink.logged, begun]
      · exact .inl ⟨⟨trivial, rfl⟩, _, _, rfl, rfl, rfl⟩
      · exact .inr ⟨fun bar => Bool.noConfusion bar.2, _, rfl, rfl, rfl, rfl⟩

theorem flushOpened {opened : Nat} (S : Sink σ ε) (began : w.openedAt = some opened) : ∃ ok,
    (w.flush S.logged).2.log = w.log ++ Ask.commits (some ok) ∧
    (w.flush S.logged).2.openedAt = if some ok = some true then none else some opened := by
  refine ⟨(S.commitTransaction w.sink.1).1.isOk, ?_⟩
  unfold flush
  rw [began]
  cases committed : S.commitTransaction w.sink.1 with
  | mk answer s =>
    cases answer <;> simp only [Sink.logged, committed] <;> exact ⟨rfl, rfl⟩

theorem commitOpened {opened : Nat} (S : Sink σ ε) (began : w.openedAt = some opened) (now : Nat) : ∃ commit,
    (commit.isSome = true ↔ w.maxAge ≤ now - opened) ∧
    (w.commitIfDue S.logged now).2.log = w.log ++ Ask.commits commit ∧
    (w.commitIfDue S.logged now).2.openedAt = if commit = some true then none else some opened := by
  obtain ⟨ok, asked, left⟩ := flushOpened S began
  have age : w.isDue now = decide (w.maxAge ≤ now - opened) := by rw [isDue, began]
  unfold commitIfDue
  rw [age]
  by_cases due : w.maxAge ≤ now - opened
  · rw [if_pos (decide_eq_true due)]
    refine ⟨some ok, by simp [due], ?_⟩
    cases flushed : w.flush S.logged with
    | mk answer v =>
      rw [flushed] at asked left
      cases answer <;> exact ⟨asked, left⟩
  · rw [if_neg (by simpa using due)]
    exact ⟨none, by simp [due], (List.append_nil _).symm, began⟩

theorem offeredStoring {v : Window (σ × List Ask)} {rows : List Row} {answers : List Bool} {s : σ × List Ask}
    (opens : ¬ w.Barred S) (begun : v.log = w.log ++ w.begins) (began : v.openedAt = some (w.begunAt now))
    (age : v.maxAge = w.maxAge) (each : answers.length = rows.length)
    (asked : s.2 = v.log ++ Ask.offers rows answers) :
    ∃ commit, Storing S w rows now answers commit (commitIfDue S.logged now { v with sink := s }).2 := by
  obtain ⟨commit, due, committed, left⟩ := commitOpened S (w := { v with sink := s }) began now
  refine ⟨commit, .offered opens each (age ▸ due) ?_ left⟩
  rw [committed, log, asked, begun]
  simp only [List.append_assoc]

theorem insertAllOffers (S : Sink σ ε) (rows : List Row) (s : σ × List Ask) : ∃ answers : List Bool,
    answers.length = rows.length ∧ (insertAll S.logged rows s).1 = ⟨answers.count true, answers.count false⟩ ∧
    (insertAll S.logged rows s).2.2 = s.2 ++ Ask.offers rows answers := by
  induction rows generalizing s with
  | nil => exact ⟨[], rfl, rfl, (List.append_nil _).symm⟩
  | cons row rest ih =>
    obtain ⟨answers, each, report, asked⟩ := ih (S.logged.insert row s).2
    have grown : (insertAll S.logged rest (S.logged.insert row s).2).2.2 =
        s.2 ++ Ask.offers (row :: rest) ((S.insert row s.1).1.isOk :: answers) := by
      rw [asked]
      exact List.append_assoc _ _ _
    refine ⟨(S.insert row s.1).1.isOk :: answers, congrArg (· + 1) each, ?_, ?_⟩
    · have same : (S.logged.insert row s).1 = (S.insert row s.1).1 := rfl
      simp only [insertAll, same, report]
      cases (S.insert row s.1).1 <;> simp [Except.isOk, Except.toBool]
    · simp only [insertAll]
      split <;> exact grown

theorem storeOutcomesStoring (S : Sink σ ε) (w : Window (σ × List Ask)) {batch : List Outcome} (nonempty : batch ≠ [])
    (now : Nat) : ∃ answers commit,
      Storing S w (batch.map .raw) now answers commit (w.storeOutcomes S.logged batch now).2 ∧
      (w.storeOutcomes S.logged batch now).1 = ⟨answers.count true, answers.count false⟩ := by
  have filled : batch.isEmpty = false := by simpa using nonempty
  simp only [storeOutcomes, filled]
  rcases openCases S w now with ⟨barred, e, v, opened, asked, closed⟩ | ⟨opens, v, opened, asked, began, age⟩
  · rw [opened]
    exact ⟨_, none, .barred barred asked closed, by simp [List.count_replicate]⟩
  · obtain ⟨answers, each, report, offered⟩ := insertAllOffers S (batch.map .raw) v.sink
    obtain ⟨commit, storing⟩ := offeredStoring opens asked began age each offered
    rw [opened]
    exact ⟨answers, commit, storing, report⟩

theorem storeCertificateStoring (S : Sink σ ε) (w : Window (σ × List Ask)) (record : CertificateRecord) (now : Nat) :
    ∃ commit, Storing S w [.certificate record] now [(w.storeCertificate S.logged record now).1.isOk] commit
      (w.storeCertificate S.logged record now).2 := by
  unfold storeCertificate
  rcases openCases S w now with ⟨barred, e, v, opened, asked, closed⟩ | ⟨opens, v, opened, asked, began, age⟩
  · rw [opened]
    exact ⟨none, .barred barred asked closed⟩
  · rw [opened]
    exact offeredStoring opens asked began age rfl rfl

theorem certificateAnswer (S : Sink σ ε) (w : Window σ) (record : CertificateRecord) (now : Nat) :
    (w.storeCertificate S record now).1 =
      (w.ensureOpen S now).1.bind fun _ => (S.insert (.certificate record) (w.ensureOpen S now).2.sink).1 := by
  unfold storeCertificate
  split <;> rename_i opened <;> rw [opened] <;> rfl

theorem certificateUncommitted (S : Sink σ ε) (commit : σ → Except ε Unit × σ) (w : Window σ)
    (record : CertificateRecord) (now : Nat) :
    (w.storeCertificate (S.committing commit) record now).1 = (w.storeCertificate S record now).1 := by
  rw [certificateAnswer, certificateAnswer]
  rfl

theorem reportUncommitted (S : Sink σ ε) (commit : σ → Except ε Unit × σ) (w : Window σ) (batch : List Outcome)
    (now : Nat) : (w.storeOutcomes (S.committing commit) batch now).1 = (w.storeOutcomes S batch now).1 := by
  have inserts (rows : List Row) (s : σ) : insertAll (S.committing commit) rows s = insertAll S rows s := by
    induction rows generalizing s with
    | nil => rfl
    | cons row rest ih =>
      have same : (S.committing commit).insert = S.insert := rfl
      simp only [insertAll, same, ih]
  have opens : w.ensureOpen (S.committing commit) now = w.ensureOpen S now := rfl
  simp only [storeOutcomes, opens, inserts]
  split
  · rfl
  · split <;> rfl

end Calls

inductive Operation.Stores : Operation → List Row → Nat → Prop where
  | outcomes {batch} (nonempty : batch ≠ []) (now) : Stores (.storeOutcomes batch now) (batch.map .raw) now
  | certificate (record now) : Stores (.storeCertificate record now) [.certificate record] now

/- A log only grows, and an open transaction goes on as it began until a commit is granted. -/
def Lasts (w after : Window (σ × List Ask)) : Prop :=
  ∃ more, after.log = w.log ++ more ∧
    ∀ opened, w.openedAt = some opened → ⟨.committed, true⟩ ∉ more → after.openedAt = some opened

section Runs
variable {S : Sink σ ε} {w after : Window (σ × List Ask)} {rows : List Row} {answers : List Bool}
  {commit : Option Bool} {now : Nat}

namespace Lasts

theorem refl (w : Window (σ × List Ask)) : w.Lasts w := ⟨[], (List.append_nil _).symm, fun _ began _ => began⟩

theorem trans {u v : Window (σ × List Ask)} (first : w.Lasts u) (second : u.Lasts v) : w.Lasts v := by
  obtain ⟨more, grown, still⟩ := first
  obtain ⟨last, added, kept⟩ := second
  refine ⟨more ++ last, by rw [added, grown, List.append_assoc], fun opened began ungranted => ?_⟩
  rw [List.mem_append, not_or] at ungranted
  exact kept opened (still opened began ungranted.1) ungranted.2

theorem ofAsks (asks : List Ask) (asked : after.log = w.log ++ (asks ++ Ask.commits commit))
    (left : ∀ opened, w.openedAt = some opened → after.openedAt = if commit = some true then none else some opened) :
    w.Lasts after := by
  refine ⟨_, asked, fun opened began ungranted => ?_⟩
  have kept : commit ≠ some true := by
    rintro rfl
    exact ungranted (List.mem_append_right _ List.mem_cons_self)
  rw [left opened began, if_neg kept]

end Lasts

theorem applyStoring (S : Sink σ ε) (w : Window (σ × List Ask)) {operation : Operation}
    (stores : operation.Stores rows now) :
    ∃ answers commit, Storing S w rows now answers commit (w.apply S.logged operation) := by
  cases stores with
  | outcomes nonempty now =>
    obtain ⟨answers, commit, storing, -⟩ := storeOutcomesStoring S w nonempty now
    exact ⟨answers, commit, storing⟩
  | certificate record now => exact ⟨_, storeCertificateStoring S w record now⟩

theorem storingLasts (storing : Storing S w rows now answers commit after) : w.Lasts after := by
  cases storing with
  | barred bar asked => exact ⟨_, asked, fun _ began => absurd (began.symm.trans bar.1) nofun⟩
  | offered opens each due asked left =>
    refine .ofAsks _ asked fun opened began => ?_
    rw [left, begunAt, began, Option.getD_some]

theorem flushLasts (S : Sink σ ε) (w : Window (σ × List Ask)) : w.Lasts (w.flush S.logged).2 := by
  cases opened : w.openedAt with
  | none =>
    rw [flush, opened]
    exact .refl w
  | some time =>
    obtain ⟨ok, asked, left⟩ := flushOpened S opened
    have asked : (w.flush S.logged).2.log = w.log ++ ([] ++ Ask.commits (some ok)) := asked
    exact .ofAsks [] asked fun _ began => Option.some.inj (opened.symm.trans began) ▸ left

theorem applyLasts (S : Sink σ ε) (w : Window (σ × List Ask)) (operation : Operation) :
    w.Lasts (w.apply S.logged operation) := by
  cases operation with
  | ensureOpen now =>
    rcases openCases S w now with ⟨bar, e, v, opens, asked, -⟩ | ⟨-, v, opens, asked, began, -⟩ <;>
      rw [apply, opens]
    · exact ⟨_, asked, fun _ began => absurd (began.symm.trans bar.1) nofun⟩
    · refine ⟨_, asked, fun opened before _ => ?_⟩
      rw [began, begunAt, before, Option.getD_some]
  | commitIfDue now =>
    have flushed := flushLasts S w
    rw [apply, commitIfDue]
    split
    · split <;> rename_i asked <;> rwa [asked] at flushed
    · exact .refl w
  | flush => exact flushLasts S w
  | storeOutcomes batch now =>
    by_cases empty : batch = []
    · subst empty
      exact .refl w
    · obtain ⟨answers, commit, storing⟩ := applyStoring S w (.outcomes empty now)
      exact storingLasts storing
  | storeCertificate record now =>
    obtain ⟨answers, commit, storing⟩ := applyStoring S w (.certificate record now)
    exact storingLasts storing

theorem runLasts (S : Sink σ ε) (w : Window (σ × List Ask)) (operations : List Operation) :
    w.Lasts (w.run S.logged operations) := by
  induction operations generalizing w with
  | nil => exact .refl w
  | cons operation rest ih => exact (applyLasts S w operation).trans (ih _)

theorem applyAge (S : Sink σ ε) (w : Window σ) (operation : Operation) : (w.apply S operation).maxAge = w.maxAge := by
  have opens (now : Nat) : (w.ensureOpen S now).2.maxAge = w.maxAge := by
    unfold ensureOpen
    split
    · rfl
    · split <;> rfl
  have flushes (v : Window σ) : (v.flush S).2.maxAge = v.maxAge := by
    unfold flush
    split
    · rfl
    · split <;> rfl
  have commits (v : Window σ) (now : Nat) : (v.commitIfDue S now).2.maxAge = v.maxAge := by
    have flushed := flushes v
    unfold commitIfDue
    split
    · split <;> rename_i asked <;> rwa [asked] at flushed
    · rfl
  cases operation with
  | ensureOpen now => exact opens now
  | commitIfDue now => exact commits w now
  | flush => exact flushes w
  | storeOutcomes batch now =>
    have opened := opens now
    rw [apply, storeOutcomes]
    split
    · rfl
    · split <;> rename_i asked <;> rw [asked] at opened
      · exact opened
      · exact (commits _ now).trans opened
  | storeCertificate record now =>
    have opened := opens now
    rw [apply, storeCertificate]
    split <;> rename_i asked <;> rw [asked] at opened
    · exact opened
    · exact (commits _ now).trans opened

theorem runAge (S : Sink σ ε) (w : Window σ) (operations : List Operation) : (w.run S operations).maxAge = w.maxAge := by
  induction operations generalizing w with
  | nil => rfl
  | cons operation rest ih => exact (ih _).trans (applyAge S w operation)

structure Stored (S : Sink σ ε) (w : Window (σ × List Ask)) (rows : List Row) (now : Nat) (answers : List Bool)
    (commit : Option Bool) (after : Window (σ × List Ask)) : Prop where
  storing : Storing S w rows now answers commit after
  left : after.openedAt = none ∨ (∃ opened, after.openedAt = some opened ∧ now - opened < w.maxAge) ∨ commit = some false
  retried : commit = some false → ∀ operations more,
    (after.run S.logged operations).log = after.log ++ more → ⟨.committed, true⟩ ∉ more →
    ∀ next rows later, next.Stores rows later → now ≤ later → ∃ answers ok,
      ((after.run S.logged operations).apply S.logged next).log =
        (after.run S.logged operations).log ++ (Ask.offers rows answers ++ [⟨.committed, ok⟩])

theorem storingLeft (storing : Storing S w rows now answers commit after) :
    after.openedAt = none ∨ (∃ opened, after.openedAt = some opened ∧ now - opened < w.maxAge) ∨ commit = some false := by
  cases storing with
  | barred bar asked closed => exact .inl closed
  | offered opens each due asked left =>
    match commit with
    | some true => exact .inl left
    | some false => exact .inr (.inr rfl)
    | none => exact .inr (.inl ⟨_, left, Nat.not_le.mp fun late => Bool.noConfusion (due.mpr late)⟩)

theorem overdueStoring {opened : Nat} (began : w.openedAt = some opened) (overdue : w.maxAge ≤ now - opened)
    (storing : Storing S w rows now answers commit after) :
    ∃ ok, after.log = w.log ++ (Ask.offers rows answers ++ [⟨.committed, ok⟩]) := by
  cases storing with
  | barred bar => exact absurd (began.symm.trans bar.1) nofun
  | offered opens each due asked left =>
    rw [begunAt, began, Option.getD_some] at due
    obtain ⟨ok, rfl⟩ := Option.isSome_iff_exists.mp (due.mpr overdue)
    have begun : w.begins = [] := by rw [begins, isOpen, began]; rfl
    rw [begun, List.nil_append] at asked
    exact ⟨ok, asked⟩

theorem storingStored (operation : Operation)
    (storing : Storing S w rows now answers commit (w.apply S.logged operation)) :
    Stored S w rows now answers commit (w.apply S.logged operation) := by
  refine ⟨storing, storingLeft storing, ?_⟩
  rintro rfl operations more grown ungranted next rows' later stores since
  cases storing with
  | offered opens each due asked left =>
    have overdue := due.mp rfl
    obtain ⟨added, log, lasts⟩ := runLasts S (w.apply S.logged operation) operations
    obtain rfl : added = more := List.append_cancel_left (log.symm.trans grown)
    have began := lasts _ left ungranted
    have age := (runAge S.logged (w.apply S.logged operation) operations).trans (applyAge S.logged w operation)
    obtain ⟨answers', commit', storing'⟩ := applyStoring S _ stores
    exact ⟨answers', overdueStoring began (by rw [age]; omega) storing'⟩

end Runs

theorem storingFollowsAge (S : Sink σ ε) (w : Window σ) (now : Nat) :
    (∀ batch : List Outcome, batch ≠ [] → ∃ answers commit,
      let after := (w.watched.storeOutcomes S.logged batch now).2
      w.storeOutcomes S batch now = (⟨answers.count true, answers.count false⟩, after.unlogged) ∧
      answers.count true + answers.count false = batch.length ∧
      Stored S w.watched (batch.map .raw) now answers commit after ∧
      ∀ other, (w.storeOutcomes (S.committing other) batch now).1 = (w.storeOutcomes S batch now).1) ∧
    ∀ record : CertificateRecord, ∃ ok commit,
      let after := (w.watched.storeCertificate S.logged record now).2
      let opened := w.ensureOpen S now
      w.storeCertificate S record now =
        (opened.1.bind fun _ => (S.insert (.certificate record) opened.2.sink).1, after.unlogged) ∧
      (w.storeCertificate S record now).1.isOk = ok ∧
      Stored S w.watched [.certificate record] now [ok] commit after := by
  refine ⟨fun batch nonempty => ?_, fun record => ?_⟩
  · obtain ⟨answers, commit, storing, report⟩ := storeOutcomesStoring S w.watched nonempty now
    have plainly := storeOutcomesUnlogged S w.watched batch now
    rw [report] at plainly
    have each : answers.length = batch.length := by
      cases storing with
      | barred => rw [List.length_map, List.length_map]
      | offered opens each => rw [each, List.length_map]
    have counted : answers.count true + answers.count false = batch.length := by
      rw [List.count_true_add_count_false, each]
    exact ⟨answers, commit, plainly, counted, storingStored (.storeOutcomes batch now) storing,
      fun other => reportUncommitted S other w batch now⟩
  · obtain ⟨commit, storing⟩ := storeCertificateStoring S w.watched record now
    have plainly := storeCertificateUnlogged S w.watched record now
    have same : (w.storeCertificate S record now).1 = (w.watched.storeCertificate S.logged record now).1 :=
      congrArg Prod.fst plainly
    have behind : (w.storeCertificate S record now).2 = (w.watched.storeCertificate S.logged record now).2.unlogged :=
      congrArg Prod.snd plainly
    rw [← same] at storing
    refine ⟨_, commit, ?_, rfl, storingStored (.storeCertificate record now) storing⟩
    rw [← certificateAnswer, ← behind]

theorem refusedCommitIsTriedAgain :
    let row (address : UInt32) : Outcome := ⟨address, 443, .tlsCompleted, [22], 0⟩
    let w : Window Recorder := ⟨⟨0, 2, [7], [], []⟩, some 0, 5⟩
    let batch := [row 1, row 7, row 2]
    let after := (w.watched.storeOutcomes Recorder.sink.logged batch 5).2
    let later := after.run Recorder.sink.logged [.ensureOpen 9, .storeOutcomes [row 3] 4]
    let next := Operation.storeCertificate ⟨.rsa, 2048, [48]⟩ 6
    batch ≠ [] ∧ (w.storeOutcomes Recorder.sink batch 5).1 = ⟨2, 1⟩ ∧ after.openedAt = some 0 ∧
    after.log = Ask.offers (batch.map .raw) [true, false, true] ++ [⟨.committed, false⟩] ∧
    later.log = after.log ++ [⟨.inserted (.raw (row 3)), true⟩] ∧ later.openedAt = some 0 ∧
    ∃ answers ok, (later.apply Recorder.sink.logged next).log =
      later.log ++ (Ask.offers [.certificate ⟨.rsa, 2048, [48]⟩] answers ++ [⟨.committed, ok⟩]) := by
  intro row w batch after later next
  have nonempty : batch ≠ [] := List.cons_ne_nil _ _
  obtain ⟨answers, commit, -, -, stored, -⟩ := (storingFollowsAge Recorder.sink w 5).1 batch nonempty
  have began : after.openedAt = some 0 := by decide
  have grown : later.log = after.log ++ [⟨.inserted (.raw (row 3)), true⟩] := by decide
  have failed : commit = some false := by
    rcases stored.left with closed | ⟨opened, begun, young⟩ | failed
    · exact absurd (began.symm.trans closed) nofun
    · cases Option.some.inj (began.symm.trans begun)
      exact absurd young (Nat.lt_irrefl 5)
    · exact failed
  exact ⟨nonempty, by decide, began, by decide, grown, by decide,
    stored.retried failed _ _ grown (by decide) next _ _ (.certificate _ _) (by decide)⟩

end Window
end TlsCensus
