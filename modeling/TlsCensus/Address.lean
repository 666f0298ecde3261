import TlsCensus.Text.Blank

/-! IPv4 addresses as 32-bit numbers, most significant octet first, and their dotted
text. A lone address is read strictly; before a slash leading zeros are let through. -/
namespace TlsCensus.Address

def octets (a : UInt32) : List Nat :=
  [(a >>> 24).toNat, (a >>> 16).toNat % 256, (a >>> 8).toNat % 256, a.toNat % 256]

def text (a : UInt32) : String := ".".intercalate ((octets a).map (fun o => toString o))

def ofOctets (a b c d : Nat) : UInt32 :=
  a.toUInt32 <<< 24 ||| b.toUInt32 <<< 16 ||| c.toUInt32 <<< 8 ||| d.toUInt32

def decimal (cs : List Char) : Nat := cs.foldl (fun n c => n * 10 + (c.toNat - 48)) 0

def number? (width bound : Nat) (cs : List Char) : Option (Nat × List Char) :=
  let digits := cs.takeWhile Char.isDigit
  let n := decimal digits
  if digits.isEmpty || width < digits.length || bound ≤ n then none
  else some (n, cs.drop digits.length)

def strictOctet? (cs : List Char) : Option (Nat × List Char) :=
  match cs with
  | '0' :: c :: _ => if c.isDigit then none else number? 3 256 cs
  | _ => number? 3 256 cs

def looseOctet? (cs : List Char) : Option (Nat × List Char) := number? 3 256 cs

def expect (c : Char) : List Char → Option (List Char)
  | d :: rest => if c = d then some rest else none
  | [] => none

def dotted? (octet? : List Char → Option (Nat × List Char)) (cs : List Char) :
    Option (UInt32 × List Char) := do
  let (a, cs) ← octet? cs
  let (b, cs) ← octet? (← expect '.' cs)
  let (c, cs) ← octet? (← expect '.' cs)
  let (d, cs) ← octet? (← expect '.' cs)
  some (ofOctets a b c d, cs)

def ofText? (cs : List Char) : Option UInt32 :=
  match dotted? strictOctet? cs with
  | some (a, []) => some a
  | _ => none

def withLength? (cs : List Char) : Option (UInt32 × UInt8) := do
  let (a, cs) ← dotted? looseOctet? cs
  let (length, cs) ← number? 2 33 (← expect '/' cs)
  if cs.isEmpty then some (a, length.toUInt8) else none

end TlsCensus.Address
