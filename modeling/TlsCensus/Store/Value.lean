import TlsCensus.Binary64.Decimal
import TlsCensus.Bytes

/-! A cell of a table holds a value of any kind. A column of integers turns what spells
a number into one when it is written, and what is a whole number of 64 bits into an
integer; a column of bytes keeps every value as it is. -/
namespace TlsCensus

inductive Value where
  | null
  | integer (n : Int64)
  | real (x : Binary64)
  | text (content : String)
  | blob (content : Bytes)
  deriving DecidableEq, Repr

namespace Value

inductive Kind where
  | null
  | integer
  | real
  | text
  | blob
  deriving DecidableEq, Repr

def Kind.label : Kind → String
  | .null => "Null"
  | .integer => "Integer"
  | .real => "Real"
  | .text => "Text"
  | .blob => "Blob"

def kind : Value → Kind
  | .null => .null
  | .integer _ => .integer
  | .real _ => .real
  | .text _ => .text
  | .blob _ => .blob

def ofReal (x : Binary64) : Value := if x.isNaN then .null else .real x

def fits (n : Int) : Bool := -0x8000000000000000 ≤ n ∧ n < 0x8000000000000000

def narrow (x : Binary64) : Value :=
  match x.toInt? with
  | some n => if fits n ∧ n ≠ -0x8000000000000000 then .integer (Int64.ofInt n) else .real x
  | none => .real x

def isSpace (c : Char) : Bool := c = ' ' || ('\t' ≤ c && c ≤ '\r')

def ofNumeral? (s : String) : Option Value :=
  let trimmed := ((s.toList.dropWhile isSpace).reverse.dropWhile isSpace).reverse
  (Binary64.Written.read? trimmed).map fun w =>
    let n : Int := if w.negative then -w.digits else w.digits
    if w.whole && fits n then .integer (Int64.ofInt n) else narrow (.ofWritten w)

def asNumber : Value → Value
  | .real x => narrow x
  | .text s => (ofNumeral? s).getD (.text s)
  | v => v

def octets : Value → Bytes
  | .null => []
  | .integer n => Bytes.ofText (toString n.toInt)
  | .real x => Bytes.ofText x.text
  | .text s => Bytes.ofText s
  | .blob b => b

structure Mismatch where
  kind : Kind
  column : Nat
  name : String
  deriving DecidableEq, Repr

def Mismatch.message (m : Mismatch) : String :=
  let (kind, column, name) := (m.kind.label, m.column, m.name)
  s!"Invalid column type {kind} at index: {column}, name: {name}"

def asInteger (column : Nat) (name : String) : Value → Except Mismatch Int64
  | .integer n => .ok n
  | v => .error ⟨v.kind, column, name⟩

def asIntegerOr (absent : Int64) (column : Nat) (name : String) : Value → Except Mismatch Int64
  | .null => .ok absent
  | v => v.asInteger column name

end Value
end TlsCensus
