import TlsCensus.Probe.Worker
import TlsCensus.Window

/-! A scan gives each worker one shard of the sweep. The workers' batches reach the one
window in some order that keeps each worker's own; which worker comes next is a
parameter. When all have stopped the window is flushed. -/
namespace TlsCensus

/-- One item at a time from the front of a queue that still holds some. Of the queues left,
`pick n` chooses the one to go on with when `n` items are left besides the chosen. -/
def interleave {α : Type} (pick : Nat → Nat) : Nat → List (List α) → List α
  | 0, _ => []
  | n + 1, queues =>
    let waiting := queues.filter (!·.isEmpty)
    let i := pick n % waiting.length
    match waiting[i]? with
    | some (first :: rest) => first :: interleave pick n (waiting.set i rest)
    | _ => []

structure ScanSummary where
  workers : Nat
  seed : UInt64
  total : Nat
  interrupted : Bool
  progress : Progress
  reports : List WorkerReport
  deriving DecidableEq, Repr

inductive ScanError (ε : Type) where
  | sweep (error : SweepError)
  | finalCommit (error : ε)
  deriving DecidableEq, Repr

def ScanError.message {ε : Type} : ScanError ε → String
  | .sweep e => e.message
  | .finalCommit _ => "final commit of raw results"

structure ScanEnd (σ ε : Type) where
  result : Except (ScanError ε) ScanSummary
  progress : Progress
  sink : σ

namespace Scan
variable {κ σ ε : Type}

structure Setting (κ σ ε : Type) where
  worker : Worker.Setting κ
  sink : Sink σ ε
  maxAge : Nat
  storedAt : Nat → Nat
  stopped : Bool
  pick : Nat → Nat

def trace (E : Setting κ σ ε) (id : Nat) (shard : Sweep) : Worker.Trace :=
  if E.stopped then Worker.stopped id else (Worker.new id shard).run E.worker

def shards (sweep : Sweep) (workers : Nat) : Except SweepError (List Sweep) :=
  (List.range workers).mapM (sweep.shard workers)

def storeAll (E : Setting κ σ ε) : Nat → List (List Outcome) → Progress × Window σ →
    Progress × Window σ
  | _, [], state => state
  | n, batch :: rest, (progress, window) =>
    let (report, window) := window.storeOutcomes E.sink batch (E.storedAt n)
    storeAll E (n + 1) rest
      (progress.recordStored report.stored.toUInt64 report.failed.toUInt64, window)

/-- Runs all workers to their ends and flushes. A failed flush is told before a worker's
failure, and of those the one of the first worker. -/
def run (E : Setting κ σ ε) (sweep : Sweep) (workers : Nat) (sink : σ) : ScanEnd σ ε :=
  let workers := max workers 1
  match shards sweep workers with
  | .error e => ⟨.error (.sweep e), .zero, sink⟩
  | .ok shards =>
    let traces := shards.mapIdx (trace E)
    let batches := traces.map (·.batches)
    let counted := (traces.map (·.progress)).foldl Progress.add .zero
    let (progress, window) := storeAll E 0 (interleave E.pick batches.flatten.length batches)
      (counted, .new sink E.maxAge)
    match window.flush E.sink with
    | (.error e, window) => ⟨.error (.finalCommit e), progress, window.sink⟩
    | (.ok (), window) =>
      match traces.findSome? (·.failure) with
      | some e => ⟨.error (.sweep e), progress, window.sink⟩
      | none =>
        let reports := traces.map (·.report)
        let interrupted := reports.any (·.interrupted)
        ⟨.ok ⟨workers, sweep.seed, sweep.total, interrupted, progress, reports⟩, progress,
          window.sink⟩

end Scan
end TlsCensus
