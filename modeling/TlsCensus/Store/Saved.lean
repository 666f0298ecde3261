import TlsCensus.Store.Table

/-! Tables as text, so that they can stay in a file: a heading, then one row a line behind
the name of its table. A cell is a letter for its kind and its octets in hexadecimal. -/
namespace TlsCensus.Tables

def heading : String := "tls census tables"

def octetsOf (n : UInt64) : Bytes := (Bytes.littleEndian 8 n.toNat).reverse

def ofOctets (b : Bytes) : UInt64 := (Bytes.bigEndian b).toUInt64

def cellText : Value → String
  | .null => "n"
  | .integer n => "i" ++ Bytes.toHex (octetsOf n.toUInt64)
  | .real x => "r" ++ Bytes.toHex (octetsOf x.bits)
  | .text s => "t" ++ Bytes.toHex (Bytes.ofText s)
  | .blob b => "b" ++ Bytes.toHex b

def cell? (word : String) : Option Value :=
  match word.toList with
  | [] => none
  | letter :: digits => do
    let octets ← (Bytes.ofHexDigits (digits.map (fun c => c.toNat.toUInt8))).toOption
    match letter with
    | 'n' => some .null
    | 'i' => some (.integer (ofOctets octets).toInt64)
    | 'r' => some (.real ⟨ofOctets octets⟩)
    | 't' => octets.text?.map .text
    | 'b' => some (.blob octets)
    | _ => none

def rawRow (c : RawCells) : List Value := [c.address, c.port, c.fetchedAt, c.result, c.response]

def certificateRow (c : CertificateCells) : List Value := [c.keyType, c.bitLength, c.data]

def orNull (n : Option Int64) : Value := (n.map .integer).getD .null

def runRow (c : RunCells) : List Value :=
  [.text c.runId, .integer c.startedAt, orNull c.finishedAt, .text c.toolVersion, .text c.arguments,
   orNull c.seed, .integer c.counters.attempted, .integer c.counters.completed,
   .integer c.counters.stored, .integer c.counters.errors]

def integer? : Value → Option Int64
  | .integer n => some n
  | _ => none

def addRow (table : String) (row : List Value) (t : Tables) : Option Tables :=
  match table, row with
  | "raw_data", [a, b, c, d, e] => some { t with raw := t.raw.push ⟨a, b, c, d, e⟩ }
  | "certificates", [a, b, c] => some { t with certificates := t.certificates.push ⟨a, b, c⟩ }
  | "runs", [.text id, .integer started, finished, .text version, .text arguments, seed,
      .integer attempted, .integer completed, .integer stored, .integer errors] =>
    some { t with runs := t.runs.push ⟨id, started, integer? finished, version, arguments,
      integer? seed, ⟨attempted, completed, stored, errors⟩⟩ }
  | _, _ => none

def line (table : String) (row : List Value) : String := " ".intercalate (table :: row.map cellText)

def toText (t : Tables) : String :=
  "\n".intercalate (heading :: t.raw.toList.map (line "raw_data" ∘ rawRow) ++
    t.certificates.toList.map (line "certificates" ∘ certificateRow) ++
    t.runs.toList.map (line "runs" ∘ runRow))

def addLine (t : Tables) (text : String) : Option Tables :=
  match text.splitOn " " with
  | [] => none
  | table :: words => do addRow table (← words.mapM cell?) t

def ofText? (s : String) : Option Tables :=
  match s.splitOn "\n" with
  | [] => none
  | first :: rest => if first = heading then rest.foldlM addLine .empty else none

end TlsCensus.Tables
