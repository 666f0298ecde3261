import TlsCensus.Address
import TlsCensus.Capture
import TlsCensus.Store
import TlsCensus.Text.Json

/-! Stored replies counted by kind, and the listing of them, one line for each row: six
values behind commas, under a header, or as members of a JSON object. No value needs
quoting. -/
namespace TlsCensus.Triage

structure Totals where
  rows : Nat
  valid : Nat
  error : Nat
  invalid : Nat
  deriving DecidableEq, Repr

def Totals.zero : Totals := ⟨0, 0, 0, 0⟩

def Totals.count (t : Totals) : Capture.ResponseKind → Totals
  | .handshake => { t with rows := t.rows + 1, valid := t.valid + 1 }
  | .other => { t with rows := t.rows + 1, error := t.error + 1 }
  | .empty => { t with rows := t.rows + 1, invalid := t.invalid + 1 }

structure Entry where
  address : UInt32
  port : UInt16
  fetchedAt : UInt64
  result : Int64
  kind : Capture.ResponseKind
  responseLength : Nat
  deriving DecidableEq, Repr

namespace Entry

def ofRow (r : RawRow) : Entry :=
  ⟨r.address, r.port, r.fetchedAt, r.result, .of r.response, r.response.length⟩

def names : List String := ["ip", "port", "fetch_time_ms", "result", "kind", "response_len"]

def values (e : Entry) : List JsonTree :=
  [.text (Address.text e.address), .integer e.port.toNat, .integer e.fetchedAt.toNat,
   .text (ResultCode.labelOfStored e.result), .text e.kind.label, .integer e.responseLength]

def bare : JsonTree → String
  | .text s => s
  | t => t.scalar

def csv (e : Entry) : String := ",".intercalate (e.values.map bare) ++ "\n"

def json (e : Entry) : String := (JsonTree.object (names.zip e.values)).compact ++ "\n"

end Entry

inductive Format where
  | csv
  | jsonLines
  deriving DecidableEq, Repr

def header : String := ",".intercalate Entry.names ++ "\n"

def Format.text : Format → List Entry → String
  | _, [] => ""
  | .csv, entries => header ++ String.join (entries.map Entry.csv)
  | .jsonLines, entries => String.join (entries.map Entry.json)

def visit (r : RawRow) (state : Totals × Array Entry) : Except Empty Unit × Totals × Array Entry :=
  let (totals, entries) := state
  (.ok (), totals.count (.of r.response), entries.push (.ofRow r))

/-- Counts every row. The entries are those of the rows before the first that cannot be
read, and the totals are known when all can be. -/
def run (s : Store) : Except StoreError Totals × List Entry :=
  match s.forEachRaw visit (.zero, #[]) with
  | (.ok _, totals, entries) => (.ok totals, entries.toList)
  | (.error (.store e), _, entries) => (.error e, entries.toList)

end TlsCensus.Triage
