import TlsCensus.Binary64.Decimal

/-! JSON text of a tree, on one line or indented by two blanks. Members keep the order
they are given in; a reader that wants them sorted sorts the tree. -/
namespace TlsCensus

inductive JsonTree where
  | null
  | bool (b : Bool)
  | integer (n : Int)
  | decimal (x : Binary64)
  | text (s : String)
  | list (items : List JsonTree)
  | object (members : List (String × JsonTree))
  deriving Inhabited, Repr

namespace JsonTree

def hexDigit (n : Nat) : Char := (Nat.toDigits 16 n).headD '0'

def escapedChar (c : Char) : List Char :=
  match c with
  | '"' => ['\\', '"']
  | '\\' => ['\\', '\\']
  | '\n' => ['\\', 'n']
  | '\r' => ['\\', 'r']
  | '\t' => ['\\', 't']
  | '\x08' => ['\\', 'b']
  | '\x0c' => ['\\', 'f']
  | c =>
    if c.toNat < 32 then ['\\', 'u', '0', '0', hexDigit (c.toNat / 16), hexDigit (c.toNat % 16)]
    else [c]

def quoted (s : String) : String := String.ofList ('"' :: s.toList.flatMap escapedChar ++ ['"'])

/-- A number that is not an integer, or not meant as one: with a point, or with an
exponent where more than sixteen places or five leading zeros would be written. -/
def decimalText (x : Binary64) : String :=
  if x.exponentField = 2047 then "null"
  else
    let sign := if x.isNegative then "-" else ""
    let (d, k) := if x.significand = 0 then (0, 0) else x.shortest
    let digits := Nat.toDigits 10 d
    let point := (digits.length : Int) + k
    let body :=
      if 0 ≤ k ∧ point ≤ 16 then Binary64.positional d k ++ ".0"
      else if -5 < point ∧ point ≤ 16 then Binary64.positional d k
      else
        let mantissa := match digits with
          | [c] => [c]
          | c :: rest => c :: '.' :: rest
          | [] => []
        String.ofList mantissa ++ "e" ++ toString (point - 1)
    sign ++ body

def scalar : JsonTree → String
  | .bool true => "true"
  | .bool false => "false"
  | .integer n => toString n
  | .decimal x => decimalText x
  | .text s => quoted s
  | _ => "null"

mutual
def compact : JsonTree → String
  | .list items => "[" ++ compactItems items ++ "]"
  | .object members => "\x7b" ++ compactMembers members ++ "\x7d"
  | t => t.scalar

def compactItems : List JsonTree → String
  | [] => ""
  | [t] => compact t
  | t :: rest => compact t ++ "," ++ compactItems rest

def compactMembers : List (String × JsonTree) → String
  | [] => ""
  | [(k, t)] => quoted k ++ ":" ++ compact t
  | (k, t) :: rest => quoted k ++ ":" ++ compact t ++ "," ++ compactMembers rest
end

def line (depth : Nat) : String := String.ofList ('\n' :: List.replicate (2 * depth) ' ')

mutual
def indentedAt (depth : Nat) : JsonTree → String
  | .list [] => "[]"
  | .object [] => "\x7b\x7d"
  | .list items => "[" ++ line (depth + 1) ++ indentedItems depth items ++ line depth ++ "]"
  | .object members =>
    "\x7b" ++ line (depth + 1) ++ indentedMembers depth members ++ line depth ++ "\x7d"
  | t => t.scalar

def indentedItems (depth : Nat) : List JsonTree → String
  | [] => ""
  | [t] => indentedAt (depth + 1) t
  | t :: rest => indentedAt (depth + 1) t ++ "," ++ line (depth + 1) ++ indentedItems depth rest

def indentedMembers (depth : Nat) : List (String × JsonTree) → String
  | [] => ""
  | [(k, t)] => quoted k ++ ": " ++ indentedAt (depth + 1) t
  | (k, t) :: rest =>
    quoted k ++ ": " ++ indentedAt (depth + 1) t ++ "," ++ line (depth + 1) ++
      indentedMembers depth rest
end

def indented (t : JsonTree) : String := indentedAt 0 t

def insertMember (member : String × JsonTree) : List (String × JsonTree) → List (String × JsonTree)
  | [] => [member]
  | m :: rest =>
    if member.1 < m.1 then member :: m :: rest
    else if member.1 = m.1 then member :: rest
    else m :: insertMember member rest

mutual
def sorted : JsonTree → JsonTree
  | .list items => .list (sortedItems items)
  | .object members => .object (sortedMembers [] members)
  | t => t

def sortedItems : List JsonTree → List JsonTree
  | [] => []
  | t :: rest => sorted t :: sortedItems rest

def sortedMembers (done : List (String × JsonTree)) :
    List (String × JsonTree) → List (String × JsonTree)
  | [] => done
  | (k, t) :: rest => sortedMembers (insertMember (k, sorted t) done) rest
end

end JsonTree
end TlsCensus
