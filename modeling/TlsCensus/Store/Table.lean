import TlsCensus.Outcome
import TlsCensus.Store.Value

/-! What the three tables hold. The columns of raw rows and of certificates are integers
but for the last, which is bytes; what was written there by others may be of any kind. -/
namespace TlsCensus

structure RawCells where
  address : Value
  port : Value
  fetchedAt : Value
  result : Value
  response : Value
  deriving DecidableEq, Repr

structure CertificateCells where
  keyType : Value
  bitLength : Value
  data : Value
  deriving DecidableEq, Repr

namespace RawCells

def written (address port fetchedAt result response : Value) : RawCells :=
  ⟨address.asNumber, port.asNumber, fetchedAt.asNumber, result.asNumber, response⟩

def ofOutcome (o : Outcome) : RawCells :=
  ⟨.integer (Int64.ofNat o.address.toNat), .integer (Int64.ofNat o.port.toNat),
   .integer o.fetchedAt.toInt64, .integer o.result.stored, .blob o.raw⟩

structure Fields where
  address : Int64
  port : Int64
  fetchedAt : Int64
  result : Int64
  response : Bytes
  deriving DecidableEq, Repr

def read (c : RawCells) : Except Value.Mismatch Fields := do
  let address ← c.address.asInteger 0 "ip"
  let port ← c.port.asInteger 1 "port"
  let fetchedAt ← c.fetchedAt.asIntegerOr 0 2 "fetchTime"
  let result ← c.result.asIntegerOr (-1) 3 "result"
  return ⟨address, port, fetchedAt, result, c.response.octets⟩

def Fields.toRow (f : Fields) : RawRow :=
  ⟨f.address.toUInt64.toUInt32, f.port.toUInt64.toUInt16, f.fetchedAt.toUInt64, f.result,
   f.response⟩

end RawCells

namespace CertificateCells

def written (keyType bitLength data : Value) : CertificateCells :=
  ⟨keyType.asNumber, bitLength.asNumber, data⟩

def ofRecord (r : CertificateRecord) : CertificateCells :=
  ⟨.integer r.keyType.stored, .integer (Int64.ofNat r.bitLength.toNat), .blob r.der⟩

structure Fields where
  keyType : Int64
  bitLength : Int64
  data : Bytes
  deriving DecidableEq, Repr

def read (c : CertificateCells) : Except Value.Mismatch Fields := do
  let keyType ← c.keyType.asInteger 0 "KeyType"
  let bitLength ← c.bitLength.asInteger 1 "BitLen"
  return ⟨keyType, bitLength, c.data.octets⟩

end CertificateCells

structure RunCounters where
  attempted : Int64
  completed : Int64
  stored : Int64
  errors : Int64
  deriving DecidableEq, Repr

structure RunCells where
  runId : String
  startedAt : Int64
  finishedAt : Option Int64
  toolVersion : String
  arguments : String
  seed : Option Int64
  counters : RunCounters
  deriving DecidableEq, Repr

structure RunRecord where
  runId : String
  startedAt : Int64
  finishedAt : Option Int64
  toolVersion : String
  arguments : String
  seed : Option UInt64
  counters : RunCounters
  deriving DecidableEq, Repr

def RunCells.read (c : RunCells) : RunRecord :=
  ⟨c.runId, c.startedAt, c.finishedAt, c.toolVersion, c.arguments, c.seed.map Int64.toUInt64,
   c.counters⟩

def RunCells.finish (runId : String) (finishedAt : Int64) (counters : RunCounters) (c : RunCells) : RunCells :=
  if c.runId = runId then { c with finishedAt := some finishedAt, counters := counters } else c

structure Tables where
  raw : Array RawCells
  certificates : Array CertificateCells
  runs : Array RunCells
  deriving DecidableEq, Repr

def Tables.empty : Tables := ⟨#[], #[], #[]⟩

end TlsCensus
