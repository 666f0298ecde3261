import TlsCensus.Outcome

/-! One transaction is kept open over many inserts and committed once it is old enough.
A sink is any state with three operations, each of which may fail and may change the
state all the same. Ages saturate at zero when times go backwards. -/
namespace TlsCensus

inductive Row where
  | raw (outcome : Outcome)
  | certificate (record : CertificateRecord)
  deriving DecidableEq, Repr

structure Sink (σ ε : Type) where
  beginTransaction : σ → Except ε Unit × σ
  commitTransaction : σ → Except ε Unit × σ
  insert : Row → σ → Except ε Unit × σ

structure BatchReport where
  stored : Nat
  failed : Nat
  deriving DecidableEq, Repr

structure Window (σ : Type) where
  sink : σ
  openedAt : Option Nat
  maxAge : Nat
  deriving Repr

namespace Window
variable {σ ε : Type}

def new (sink : σ) (maxAge : Nat) : Window σ := ⟨sink, none, maxAge⟩

def isOpen (w : Window σ) : Bool := w.openedAt.isSome

def ensureOpen (S : Sink σ ε) (now : Nat) (w : Window σ) : Except ε Unit × Window σ :=
  match w.openedAt with
  | some _ => (.ok (), w)
  | none =>
    match S.beginTransaction w.sink with
    | (.ok (), s) => (.ok (), { w with sink := s, openedAt := some now })
    | (.error e, s) => (.error e, { w with sink := s })

/-- Commits what is open. A failed commit leaves the window open at its old time. -/
def flush (S : Sink σ ε) (w : Window σ) : Except ε Unit × Window σ :=
  match w.openedAt with
  | none => (.ok (), w)
  | some _ =>
    match S.commitTransaction w.sink with
    | (.ok (), s) => (.ok (), { w with sink := s, openedAt := none })
    | (.error e, s) => (.error e, { w with sink := s })

def isDue (now : Nat) (w : Window σ) : Bool :=
  match w.openedAt with
  | some opened => w.maxAge ≤ now - opened
  | none => false

def commitIfDue (S : Sink σ ε) (now : Nat) (w : Window σ) : Except ε Bool × Window σ :=
  if w.isDue now then
    match w.flush S with
    | (.ok (), w) => (.ok true, w)
    | (.error e, w) => (.error e, w)
  else (.ok false, w)

def insertAll (S : Sink σ ε) : List Row → σ → BatchReport × σ
  | [], s => (⟨0, 0⟩, s)
  | row :: rest, s =>
    let (answer, s) := S.insert row s
    let (report, s) := insertAll S rest s
    match answer with
    | .ok () => ({ report with stored := report.stored + 1 }, s)
    | .error _ => ({ report with failed := report.failed + 1 }, s)

def storeOutcomes (S : Sink σ ε) (batch : List Outcome) (now : Nat) (w : Window σ) :
    BatchReport × Window σ :=
  if batch.isEmpty then (⟨0, 0⟩, w)
  else
    match w.ensureOpen S now with
    | (.error _, w) => (⟨0, batch.length⟩, w)
    | (.ok (), w) =>
      let (report, s) := insertAll S (batch.map .raw) w.sink
      (report, (commitIfDue S now { w with sink := s }).2)

def storeCertificate (S : Sink σ ε) (record : CertificateRecord) (now : Nat) (w : Window σ) :
    Except ε Unit × Window σ :=
  match w.ensureOpen S now with
  | (.error e, w) => (.error e, w)
  | (.ok (), w) =>
    let (answer, s) := S.insert (.certificate record) w.sink
    (answer, (commitIfDue S now { w with sink := s }).2)

end Window
end TlsCensus
