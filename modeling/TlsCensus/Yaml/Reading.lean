import TlsCensus.Yaml.Node

/-! What the nodes of a document say when a certain kind of value is expected of them. A
node of another kind is refused. Quotes decide: a quoted word is text and nothing else. -/
namespace TlsCensus.Yaml

def digits? (radix : Nat) (cs : List Char) : Option Nat :=
  if cs.isEmpty then none
  else do
    let values ← cs.mapM Quoted.hexValue?
    if values.all (· < radix) then some (values.foldl (fun n d => n * radix + d) 0) else none

def isSigned (cs : List Char) : Bool := cs.head? = some '+' || cs.head? = some '-'

def unsigned (cs : List Char) : List Char := if isSigned cs then cs.drop 1 else cs

def isPadded (cs : List Char) : Bool :=
  1 < cs.length && cs.head? = some '0' && cs.all Char.isDigit

def word64? (n : Option Nat) : Option UInt64 :=
  n.bind (fun n => if n < 0x10000000000000000 then some n.toUInt64 else none)

def radix? : List Char → Option Nat
  | '0' :: 'x' :: _ => some 16
  | '0' :: 'o' :: _ => some 8
  | '0' :: 'b' :: _ => some 2
  | _ => none

def number? (cs : List Char) : Option UInt64 :=
  let body := if cs.head? = some '+' then cs.drop 1 else cs
  match radix? body with
  | some radix => if isSigned (body.drop 2) then none else word64? (digits? radix (body.drop 2))
  | none => if isSigned body || isPadded (unsigned cs) then none else word64? (digits? 10 body)

def isNull (text : String) : Bool := ["null", "Null", "NULL", "~"].contains text

def bool? (text : String) : Option Bool :=
  if ["true", "True", "TRUE"].contains text then some true
  else if ["false", "False", "FALSE"].contains text then some false
  else none

def coreTag (name : String) : String := "tag:yaml.org,2002:" ++ name

namespace Document

def text? (d : Document) (n : Node) : Option String :=
  match d.resolve n with
  | .scalar text _ _ => some text
  | _ => none

/-- The text of a scalar that may stand for something else than text: a plain one, or a
literal block whose tag says so. -/
def word? (d : Document) (tag : String) (n : Node) : Option String :=
  match d.resolve n with
  | .scalar text .plain _ => some text
  | .scalar text .literal t => if t = some (coreTag tag) then some text else none
  | _ => none

def word64? (d : Document) (n : Node) : Option UInt64 :=
  (d.word? "int" n).bind (fun text => number? text.toList)

def below? (bound : Nat) (d : Document) (n : Node) : Option Nat :=
  (d.word64? n).bind (fun n => if n.toNat < bound then some n.toNat else none)

def word32? (d : Document) (n : Node) : Option UInt32 := (d.below? 0x100000000 n).map Nat.toUInt32

def word16? (d : Document) (n : Node) : Option UInt16 := (d.below? 0x10000 n).map Nat.toUInt16

def bool? (d : Document) (n : Node) : Option Bool := (d.word? "bool" n).bind Yaml.bool?

def items? (d : Document) (n : Node) : Option (List Node) :=
  match d.resolve n with
  | .sequence items => some items
  | .scalar "" .plain _ => some []
  | _ => none

def texts? (d : Document) (n : Node) : Option (List String) := (d.items? n).bind (List.mapM d.text?)

def members? (d : Document) (n : Node) : Option (List (String × Node)) :=
  match d.resolve n with
  | .mapping members => members.mapM (fun (k, v) => (d.text? k).map (·, v))
  | .scalar "" .plain _ => some []
  | _ => none

/-- What `read` makes of a node, and nothing of a null. Tagged as null a plain scalar has to
be one; under another tag it is none. -/
def optional? {α : Type} (d : Document) (read : Node → Option α) (n : Node) : Option (Option α) :=
  let given := (read n).map some
  match d.resolve n with
  | .scalar text .plain none => if text.isEmpty || isNull text then some none else given
  | .scalar text .plain (some tag) =>
    if tag ≠ coreTag "null" then given else if isNull text then some none else none
  | _ => given

def member? {α : Type} (d : Document) (read : Node → Option α) (members : List (String × Node))
    (key : String) : Option (Option α) :=
  match members.lookup key with
  | none => some none
  | some n => d.optional? read n

end Document
end TlsCensus.Yaml
