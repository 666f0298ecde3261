import TlsCensus.Bytes

/-! The two written forms of a moment: a year of two digits, which counts from 1950, and
one of four digits, which must end in Z. Seconds may be missing in front of the zone. -/
namespace TlsCensus.Moment

def digit? (b : UInt8) : Option Nat := if 48 ≤ b ∧ b ≤ 57 then some (b.toNat - 48) else none

def pair? : Bytes → Option (Nat × Bytes)
  | a :: b :: rest => do
    let tens ← digit? a
    let ones ← digit? b
    some (tens * 10 + ones, rest)
  | _ => none

def isLeap (year : Nat) : Bool := year % 4 = 0 ∧ (year % 100 ≠ 0 ∨ year % 400 = 0)

def daysIn (year month : Nat) : Nat :=
  match month with
  | 2 => if isLeap year then 29 else 28
  | 4 | 6 | 9 | 11 => 30
  | 1 | 3 | 5 | 7 | 8 | 10 | 12 => 31
  | _ => 0

def clock? (year : Nat) (b : Bytes) : Option Bytes := do
  let (month, b) ← pair? b
  let (day, b) ← pair? b
  let (hour, b) ← pair? b
  let (minute, b) ← pair? b
  let (second, b) ← if 2 ≤ b.length then pair? b else some (0, b)
  if 1 ≤ day ∧ day ≤ daysIn year month ∧ hour ≤ 23 ∧ minute ≤ 59 ∧ second ≤ 59 then some b else none

def isZone : Bytes → Bool
  | [0x5A] => true
  | sign :: rest =>
    (sign == 0x2B || sign == 0x2D) &&
      match pair? rest with
      | some (hours, rest) =>
        match pair? rest with
        | some (minutes, []) => hours ≤ 25 ∧ minutes ≤ 59
        | _ => false
      | none => false
  | [] => false

def isShort (b : Bytes) : Bool :=
  match pair? b with
  | some (year, rest) =>
    match clock? (if year < 50 then 2000 + year else 1900 + year) rest with
    | some zone => isZone zone
    | none => false
  | none => false

def fraction? : Bytes → Option Bytes
  | 0x2E :: rest =>
    let digits := rest.takeWhile (fun b => (digit? b).isSome)
    if digits.length ≤ 3 then some (rest.drop digits.length) else none
  | b => some b

def isLong (b : Bytes) : Bool :=
  match pair? b with
  | some (century, rest) =>
    match pair? rest with
    | some (year, rest) =>
      match (clock? (century * 100 + year) rest).bind fraction? with
      | some zone => zone = [0x5A]
      | none => false
    | none => false
  | none => false

end TlsCensus.Moment
