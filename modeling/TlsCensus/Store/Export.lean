import TlsCensus.Store

/-! A table written column by column: integers of 64 bits and byte strings, none of them
absent, in batches of bounded size. -/
namespace TlsCensus

structure Column where
  name : String
  isBytes : Bool
  deriving DecidableEq, Repr

inductive Field where
  | integer (n : Int64)
  | bytes (content : Bytes)
  deriving DecidableEq, Repr

structure Export where
  columns : List Column
  batches : List (List (List Field))
  deriving DecidableEq, Repr

namespace Export

def rows (x : Export) : List (List Field) := x.batches.flatten

def Field.text : Field → String
  | .integer n => toString n.toInt
  | .bytes content => content.toHex

def toText (x : Export) : String :=
  let line (cells : List String) : String := ",".intercalate cells ++ "\n"
  String.join (line (x.columns.map (·.name)) :: x.rows.map (fun r => line (r.map Field.text)))

def batchSize : Nat := 10000

def readBatches {α β ε : Type} (n : Nat) (read : α → Except ε β) (items : List α) :
    Except ε (List (List β)) :=
  if n = 0 ∨ items.isEmpty then .ok []
  else do
    let batch ← (items.take n).mapM read
    let rest ← readBatches n read (items.drop n)
    return batch :: rest
termination_by items.length
decreasing_by
  rename_i more
  simp only [not_or, List.isEmpty_iff] at more
  have := List.length_pos_iff.2 more.2
  simp only [List.length_drop]
  omega

def rawColumns : List Column :=
  [⟨"ip", false⟩, ⟨"port", false⟩, ⟨"fetchTime", false⟩, ⟨"result", false⟩, ⟨"response", true⟩]

def certificateColumns : List Column := [⟨"KeyType", false⟩, ⟨"BitLen", false⟩, ⟨"Data", true⟩]

def rawFields (cells : RawCells) : Except Value.Mismatch (List Field) := do
  let address ← cells.address.asInteger 0 "ip"
  let port ← cells.port.asInteger 1 "port"
  let fetchedAt ← cells.fetchedAt.asIntegerOr 0 2 "fetchTime"
  let result ← cells.result.asIntegerOr (-1) 3 "result"
  return [.integer address, .integer port, .integer fetchedAt, .integer result,
    .bytes cells.response.octets]

def certificateFields (cells : CertificateCells) : Except Value.Mismatch (List Field) := do
  let keyType ← cells.keyType.asInteger 0 "KeyType"
  let bitLength ← cells.bitLength.asInteger 1 "BitLen"
  return [.integer keyType, .integer bitLength, .bytes cells.data.octets]

def ofTable (table : String) (s : Store) : Except StoreError Export :=
  if table = "raw_data" then do
    let batches ← (readBatches batchSize rawFields s.tables.raw.toList).mapError .mismatch
    return ⟨rawColumns, batches⟩
  else if table = "certificates" then do
    let batches ←
      (readBatches batchSize certificateFields s.tables.certificates.toList).mapError .mismatch
    return ⟨certificateColumns, batches⟩
  else .error (.unsupportedTable table)

end Export
end TlsCensus
