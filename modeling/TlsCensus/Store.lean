import TlsCensus.Store.Table
import TlsCensus.Window

/-! The store of raw rows, certificates and runs. Inside a transaction it remembers what
it held at the beginning, which is what remains when it is closed without a commit. -/
namespace TlsCensus

inductive StoreError where
  | mismatch (cell : Value.Mismatch)
  | unsupportedTable (name : String)
  | unknownKeyType (code : Int64)
  | nestedTransaction
  | noTransaction
  | duplicateRun
  deriving DecidableEq, Repr

def StoreError.message : StoreError → String
  | .mismatch cell => cell.message
  | .unsupportedTable name => s!"unsupported table: {name}"
  | .unknownKeyType code =>
    let code := code.toInt
    s!"unknown KeyType {code} in certificates table"
  | .nestedTransaction => "cannot start a transaction within a transaction"
  | .noTransaction => "cannot commit - no transaction is active"
  | .duplicateRun => "UNIQUE constraint failed: runs.run_id"

structure Store where
  tables : Tables
  saved : Option Tables
  deriving DecidableEq, Repr

inductive VisitError (δ : Type) where
  | store (error : StoreError)
  | visitor (error : δ)
  deriving DecidableEq, Repr

namespace Store

def ofTables (tables : Tables) : Store := ⟨tables, none⟩

def empty : Store := ofTables .empty

def closed (s : Store) : Tables := s.saved.getD s.tables

/-! Transactions and insertion -/

def beginTransaction (s : Store) : Except StoreError Unit × Store :=
  match s.saved with
  | some _ => (.error .nestedTransaction, s)
  | none => (.ok (), { s with saved := some s.tables })

def commitTransaction (s : Store) : Except StoreError Unit × Store :=
  match s.saved with
  | some _ => (.ok (), { s with saved := none })
  | none => (.error .noTransaction, s)

def addRaw (cells : RawCells) (s : Store) : Store :=
  { s with tables := { s.tables with raw := s.tables.raw.push cells } }

def addCertificate (cells : CertificateCells) (s : Store) : Store :=
  { s with tables := { s.tables with certificates := s.tables.certificates.push cells } }

def sink : Sink Store StoreError where
  beginTransaction := beginTransaction
  commitTransaction := commitTransaction
  insert row s :=
    match row with
    | .raw o => (.ok (), s.addRaw (.ofOutcome o))
    | .certificate r => (.ok (), s.addCertificate (.ofRecord r))

/-! Rows -/

def visit {τ δ : Type} (f : RawRow → τ → Except δ Unit × τ) :
    Nat → List RawCells → τ → Except (VisitError δ) Nat × τ
  | n, [], t => (.ok n, t)
  | n, cells :: rest, t =>
    match cells.read with
    | .error m => (.error (.store (.mismatch m)), t)
    | .ok fields =>
      match f fields.toRow t with
      | (.error e, t) => (.error (.visitor e), t)
      | (.ok (), t) => visit f (n + 1) rest t

def forEachRaw {τ δ : Type} (f : RawRow → τ → Except δ Unit × τ) (s : Store) (t : τ) :
    Except (VisitError δ) Nat × τ :=
  visit f 0 s.tables.raw.toList t

def certificateRecord (cells : CertificateCells) : Except StoreError CertificateRecord := do
  let code ← (cells.keyType.asInteger 0 "KeyType").mapError .mismatch
  match KeyType.ofStored? code with
  | none => .error (.unknownKeyType code)
  | some keyType =>
    let fields ← cells.read.mapError .mismatch
    return ⟨keyType, fields.bitLength.toUInt64.toUInt32, fields.data⟩

def certificates (s : Store) : Except StoreError (List CertificateRecord) :=
  s.tables.certificates.toList.mapM certificateRecord

def runLengths : List Int64 → List (Int64 × Nat)
  | [] => []
  | n :: rest =>
    match runLengths rest with
    | (m, k) :: more => if n = m then (n, k + 1) :: more else (n, 1) :: (m, k) :: more
    | [] => [(n, 1)]

def integer? : Value → Option Int64
  | .integer n => some n
  | _ => none

/-- Result codes, ascending, with the number of rows of each. Rows without a result come
first and count as -1, apart from those whose result is -1. -/
def resultCounts (s : Store) : Except StoreError (List (Int64 × Nat)) :=
  let results := s.tables.raw.toList.map (·.result)
  match [Value.Kind.real, .text, .blob].find? (fun kind => results.any (·.kind = kind)) with
  | some kind => .error (.mismatch ⟨kind, 0, "result"⟩)
  | none =>
    let absent := results.countP (· = .null)
    let known := runLengths ((results.filterMap integer?).mergeSort (fun a b => a ≤ b))
    .ok (if absent = 0 then known else (-1, absent) :: known)

def countRows (table : String) (s : Store) : Except StoreError Nat :=
  if table = "raw_data" then .ok s.tables.raw.size
  else if table = "certificates" then .ok s.tables.certificates.size
  else if table = "runs" then .ok s.tables.runs.size
  else .error (.unsupportedTable table)

def hasTable (table : String) : Bool := ["runs", "raw_data", "certificates"].contains table

/-! Runs -/

structure RunStart where
  runId : String
  startedAt : Int64
  toolVersion : String
  arguments : String
  seed : Option UInt64
  deriving DecidableEq, Repr

def beginRun (run : RunStart) (s : Store) : Except StoreError String × Store :=
  if s.tables.runs.any (·.runId == run.runId) then (.error .duplicateRun, s)
  else
    let cells : RunCells := ⟨run.runId, run.startedAt, none, run.toolVersion, run.arguments,
      run.seed.map UInt64.toInt64, ⟨0, 0, 0, 0⟩⟩
    (.ok run.runId, { s with tables := { s.tables with runs := s.tables.runs.push cells } })

def finishRun (runId : String) (finishedAt : Int64) (counters : RunCounters) (s : Store) : Store :=
  { s with tables := { s.tables with runs := s.tables.runs.map (RunCells.finish runId finishedAt counters) } }

def run? (runId : String) (s : Store) : Option RunRecord :=
  (s.tables.runs.find? (·.runId == runId)).map RunCells.read

end Store
end TlsCensus
