import TlsCensus.Bytes

/-! Tagged, length-prefixed elements. Lengths need not be minimal, but must be definite;
only where a caller says so may a constructed element run to its end marker. Of a tag,
the number is what counts: its class is kept for the few who ask. -/
namespace TlsCensus.Der

structure Header where
  tagClass : UInt8
  constructed : Bool
  tag : UInt32
  length : Option Nat
  deriving DecidableEq, Repr

structure Element where
  header : Header
  content : Bytes
  deriving DecidableEq, Repr

abbrev Reader (α : Type) := Bytes → Option (α × Bytes)

def integerTag : UInt32 := 2
def bitStringTag : UInt32 := 3
def octetStringTag : UInt32 := 4
def sequenceTag : UInt32 := 16
def utcTimeTag : UInt32 := 23
def generalizedTimeTag : UInt32 := 24

def longTag : Nat → UInt32 → Reader UInt32
  | allowed + 1, value, b :: rest =>
    let value := value <<< 7 ||| (b &&& 0x7F).toUInt32
    if b &&& 0x80 = 0 then some (value, rest) else longTag allowed value rest
  | _, _, _ => none

def readTag : Reader (UInt8 × Bool × UInt32)
  | [] => none
  | b :: rest =>
    let build (tag : UInt32) := (b >>> 6, b &&& 0x20 != 0, tag)
    if b &&& 0x1F = 0x1F then (longTag 5 0 rest).map fun (tag, rest) => (build tag, rest)
    else some (build (b &&& 0x1F).toUInt32, rest)

def readLength : Reader (Option Nat)
  | [] => none
  | b :: rest =>
    if b < 0x80 then some (some b.toNat, rest)
    else if b = 0x80 then some (none, rest)
    else if b = 0xFF then none
    else do
      let (octets, rest) ← Bytes.cut? (b &&& 0x7F).toNat rest
      let n := Bytes.bigEndian octets
      if n < 0x10000000000000000 then some (some n, rest) else none

def readHeader : Reader Header := fun b => do
  let ((tagClass, constructed, tag), b) ← readTag b
  let (length, b) ← readLength b
  some (⟨tagClass, constructed, tag, length⟩, b)

def read : Reader Element := fun b => do
  let (header, b) ← readHeader b
  let (content, b) ← Bytes.cut? (← header.length) b
  some (⟨header, content⟩, b)

def skipToEnd : Nat → Nat → Bytes → Option Bytes
  | fuel + 1, depth + 1, b => do
    let (header, b) ← readHeader b
    match header.length with
    | some 0 => if header.tag = 0 then some b else skipToEnd fuel (depth + 1) b
    | some n =>
      let (_, b) ← Bytes.cut? n b
      skipToEnd fuel (depth + 1) b
    | none =>
      if header.constructed then
        let b ← skipToEnd fuel depth b
        skipToEnd fuel (depth + 1) b
      else none
  | _, _, _ => none

def readAnyLength : Reader Element := fun b => do
  let (header, after) ← readHeader b
  match header.length with
  | some n =>
    let (content, rest) ← Bytes.cut? n after
    some (⟨header, content⟩, rest)
  | none =>
    if header.constructed then
      let rest ← skipToEnd after.length 49 after
      some (⟨header, after.take (after.length - rest.length - 2)⟩, rest)
    else none

def readTagged (tag : UInt32) : Reader Bytes := fun b => do
  let (e, b) ← read b
  if e.header.tag = tag then some (e.content, b) else none

def readPrimitive (tag : UInt32) : Reader Bytes := fun b => do
  let (e, b) ← read b
  if e.header.tag = tag ∧ ¬ e.header.constructed then some (e.content, b) else none

/-- Reads the content of a sequence. What the inner reader leaves over is ignored. -/
def inSequence {α : Type} (inner : Reader α) : Reader α := fun b => do
  let (content, b) ← readTagged sequenceTag b
  let (value, _) ← inner content
  some (value, b)

def integerContent : Bytes → Bool
  | [] => false
  | 0 :: next :: _ => 0x80 ≤ next
  | _ => true

def readInteger : Reader Bytes := fun b => do
  let (content, b) ← readPrimitive integerTag b
  if integerContent content then some (content, b) else none

def trailingZeros (b : UInt8) : Nat :=
  ((List.range 8).find? (fun i => b.toNat.testBit i)).getD 8

def readBitString : Reader Bytes := fun b => do
  let (content, b) ← readPrimitive bitStringTag b
  match content with
  | [] => none
  | [unused] => if unused = 0 then some ([], b) else none
  | unused :: bits =>
    if unused.toNat ≤ trailingZeros (bits.getLastD 0) then some (bits, b) else none

def significantBits (value : Bytes) : Option UInt32 :=
  match value.dropWhile (· = 0) with
  | [] => none
  | top :: rest =>
    let bits := 8 * rest.length + top.toNat.log2 + 1
    if bits < 0x100000000 then some bits.toUInt32 else none

def integerBits? : Bytes → Option UInt32
  | 0x02 :: first :: rest => do
    let (length, rest) ←
      if first < 0x80 then some (first.toNat, rest)
      else
        let n := (first &&& 0x7F).toNat
        if n = 0 ∨ 4 < n then none
        else (Bytes.cut? n rest).map fun (octets, rest) => (Bytes.bigEndian octets, rest)
    let (value, _) ← Bytes.cut? length rest
    significantBits value
  | _ => none

end TlsCensus.Der
