/-! A place in a YAML text: what is left of it, and where that is. -/
namespace TlsCensus.Yaml

def isBreak (c : Char) : Bool :=
  c = '\n' || c = '\r' || c = '\u0085' || c = '\u2028' || c = '\u2029'

def isBlank (c : Char) : Bool := c = ' ' || c = '\t'

def isWord (c : Char) : Bool := c.isAlphanum || c = '_' || c = '-'

def isAllowed (c : Char) : Bool :=
  c = '\t' || c = '\n' || c = '\r' || (' ' ≤ c && c ≤ '~') || c = '\u0085' ||
    ('\u00a0' ≤ c && c ≠ '\ufffe' && c ≠ '\uffff')

structure Cursor where
  rest : List Char
  index : Nat
  line : Nat
  column : Nat
  deriving DecidableEq, Repr

namespace Cursor

def start (cs : List Char) : Cursor := ⟨cs, 0, 0, 0⟩

def is (c : Char) (k : Cursor) : Bool := k.rest.head? == some c

def has (n : Nat) (p : Char → Bool) (k : Cursor) : Bool := (k.rest[n]?).any p

def isEnd (k : Cursor) : Bool := k.rest.isEmpty

def endsLine (n : Nat) (k : Cursor) : Bool := (k.rest[n]?).all isBreak

def endsWord (n : Nat) (k : Cursor) : Bool := (k.rest[n]?).all (fun c => isBlank c || isBreak c)

def advance (n : Nat) (k : Cursor) : Cursor :=
  ⟨k.rest.drop n, k.index + n, k.line, k.column + n⟩

def skip (k : Cursor) : Cursor := k.advance 1

def skipBreak (k : Cursor) : Cursor :=
  match k.rest with
  | '\r' :: '\n' :: rest => ⟨rest, k.index + 2, k.line + 1, 0⟩
  | _ :: rest => ⟨rest, k.index + 1, k.line + 1, 0⟩
  | [] => k

def breakText (k : Cursor) : List Char :=
  match k.rest with
  | c :: _ => if c = '\u2028' ∨ c = '\u2029' then [c] else if isBreak c then ['\n'] else []
  | [] => []

def skipWhile (p : Char → Bool) (k : Cursor) : Cursor := k.advance (k.rest.takeWhile p).length

def skipBlanks (k : Cursor) : Cursor := k.skipWhile isBlank

def skipComment (k : Cursor) : Cursor :=
  if k.is '#' then k.skipWhile (fun c => !isBreak c) else k

def atMark (c : Char) (k : Cursor) : Bool :=
  k.column = 0 && k.rest.take 3 = [c, c, c] && k.endsWord 3

def atDocumentMark (k : Cursor) : Bool := k.atMark '-' || k.atMark '.'

end Cursor
end TlsCensus.Yaml
