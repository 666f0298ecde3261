import TlsCensus.Binary64

/-! Decimal text of numbers. Written are the fewest digits that read back, of those the
nearest to the number, an equally near pair upwards, and always without an exponent. -/
namespace TlsCensus.Binary64

/-- How far below a finite number the numbers reach that round to it, in quarters of its
unit. Above they reach two quarters; below a power of two only one. -/
def quartersBelow (x : Binary64) : Nat := if x.fraction = 0 ∧ 1 < x.exponentField then 1 else 2

def onGrid (x : Binary64) (k : Int) : Option Nat :=
  let (num, den) := x.ratio
  let ends := x.significand % 2 = 0
  let unit := 1 <<< x.power.toNat
  let value := 4 * num * Nat.pow 10 (-k).toNat
  let step := 4 * den * Nat.pow 10 k.toNat
  let gap (n : Nat) := n * unit * Nat.pow 10 (-k).toNat
  let fits (d : Nat) : Bool :=
    let here := d * step
    if here ≤ value then
      value < here + gap x.quartersBelow || (ends && value = here + gap x.quartersBelow)
    else here < value + gap 2 || (ends && here = value + gap 2)
  let floor := value / step
  let nearest := if step ≤ 2 * (value % step) then [floor + 1, floor] else [floor, floor + 1]
  nearest.find? fits

def shortest (x : Binary64) : Nat × Int :=
  let grids := (List.range 640).map (fun (i : Nat) => (309 : Int) - i)
  (grids.findSome? (fun k => (x.onGrid k).map (fun d => (d, k)))).getD (0, 0)

def positional (digits : Nat) (k : Int) : String :=
  let text := (Nat.toDigits 10 digits) ++ List.replicate k.toNat '0'
  let places := (-k).toNat
  if places = 0 then String.ofList text
  else
    let padded := List.replicate (places + 1 - text.length) '0' ++ text
    let whole := padded.length - places
    String.ofList (padded.take whole ++ '.' :: padded.drop whole)

def text (x : Binary64) : String :=
  if x.isNaN then "NaN"
  else
    let magnitude :=
      if x.isInfinite then "inf"
      else if x.significand = 0 then "0"
      else positional x.shortest.1 x.shortest.2
    if x.isNegative then "-" ++ magnitude else magnitude

structure Written where
  negative : Bool
  digits : Nat
  exponent : Int
  whole : Bool
  deriving DecidableEq, Repr

namespace Written

def sign : List Char → Bool × List Char
  | '-' :: rest => (true, rest)
  | '+' :: rest => (false, rest)
  | cs => (false, cs)

def run (cs : List Char) : List Char × List Char :=
  (cs.takeWhile Char.isDigit, cs.dropWhile Char.isDigit)

def fractionPart : List Char → List Char × Bool × List Char
  | '.' :: rest => ((run rest).1, true, (run rest).2)
  | cs => ([], false, cs)

def exponentPart : List Char → Option (Int × Bool)
  | [] => some (0, false)
  | c :: rest =>
    let (negative, rest) := sign rest
    let (digits, tail) := run rest
    if (c = 'e' ∨ c = 'E') ∧ ¬ digits.isEmpty ∧ tail.isEmpty then
      let n : Int := min (Address.decimal digits) 100000
      some (if negative then -n else n, true)
    else none

def read? (cs : List Char) : Option Written :=
  let (negative, cs) := sign cs
  let (front, cs) := run cs
  let (back, pointed, cs) := fractionPart cs
  if front.isEmpty && back.isEmpty then none
  else do
    let (e, scaled) ← exponentPart cs
    some ⟨negative, Address.decimal (front ++ back), e - back.length, !pointed && !scaled⟩

end Written

def ofWritten (w : Written) : Binary64 := ofDecimal w.negative w.digits w.exponent

def ofText? (cs : List Char) : Option Binary64 :=
  let (negative, word) := Written.sign cs
  let word := String.ofList (word.map Char.toLower)
  if word = "inf" ∨ word = "infinity" then some (ofParts negative infinite)
  else if word = "nan" then some (ofParts negative (infinite + 1 <<< 51))
  else (Written.read? cs).map ofWritten

end TlsCensus.Binary64
