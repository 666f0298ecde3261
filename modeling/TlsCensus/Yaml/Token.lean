import TlsCensus.Yaml.Scalar

/-! The tokens of a YAML text. Indentation opens and closes block collections. What may
turn out to be the key of a mapping is remembered until a colon on the same line makes it
one, and the key token is then put in front of it. -/
namespace TlsCensus.Yaml

inductive Style where
  | plain
  | quoted
  | literal
  | folded
  deriving DecidableEq, Repr

inductive Token where
  | versionDirective (major minor : Nat)
  | tagDirective (handle lead : String)
  | documentStart
  | documentEnd
  | blockSequenceStart
  | blockMappingStart
  | blockEnd
  | flowSequenceStart
  | flowSequenceEnd
  | flowMappingStart
  | flowMappingEnd
  | blockEntry
  | flowEntry
  | key
  | value
  | alias (name : String)
  | anchor (name : String)
  | tag (handle suffix : String)
  | scalar (text : String) (style : Style)
  deriving DecidableEq, Repr

structure SimpleKey where
  token : Nat
  required : Bool
  index : Nat
  line : Nat
  column : Nat
  deriving DecidableEq, Repr

structure Scanner where
  cursor : Cursor
  tokens : Array Token
  indent : Int
  indents : List Int
  keyAllowed : Bool
  key : Option SimpleKey
  outerKeys : List (Option SimpleKey)
  deriving DecidableEq, Repr

namespace Scanner

def start (cs : List Char) : Scanner := ⟨.start cs, #[], -1, [], true, none, []⟩

def inFlow (s : Scanner) : Bool := !s.outerKeys.isEmpty

def emit (t : Token) (s : Scanner) : Scanner := { s with tokens := s.tokens.push t }

def move (n : Nat) (s : Scanner) : Scanner := { s with cursor := s.cursor.advance n }

def allowKey (allowed : Bool) (s : Scanner) : Scanner := { s with keyAllowed := allowed }

/-! Keys -/

def dropKey (s : Scanner) : Option Scanner :=
  if s.key.any (·.required) then none else some { s with key := none }

def saveKey (s : Scanner) : Option Scanner :=
  if !s.keyAllowed then some s
  else do
    let required := !s.inFlow && s.indent = s.cursor.column
    let k := s.cursor
    let s ← s.dropKey
    return { s with key := some ⟨s.tokens.size, required, k.index, k.line, k.column⟩ }

def isStale (k : Cursor) (key : SimpleKey) : Bool :=
  key.line < k.line || key.index + 1024 < k.index

/-- A key ends with its line, and is at most 1024 characters long. -/
def dropStaleKeys (s : Scanner) : Option Scanner :=
  let stale (key : Option SimpleKey) := key.any (isStale s.cursor)
  if (s.key :: s.outerKeys).any (fun key => stale key && key.any (·.required)) then none
  else
    let fresh (key : Option SimpleKey) := if stale key then none else key
    some { s with key := fresh s.key, outerKeys := s.outerKeys.map fresh }

/-! Indentation -/

def roll (column : Nat) (place : Nat) (opening : Token) (s : Scanner) : Scanner :=
  if s.inFlow || (column : Int) ≤ s.indent then s
  else { s with indents := s.indent :: s.indents, indent := column,
                tokens := s.tokens.insertIdxIfInBounds place opening }

def unrollTo (column : Int) : List Int → Scanner → Scanner
  | [], s => s
  | outer :: indents, s =>
    if s.indent ≤ column then s
    else unrollTo column indents { s.emit .blockEnd with indent := outer, indents := indents }

def unroll (column : Int) (s : Scanner) : Scanner :=
  if s.inFlow then s else unrollTo column s.indents s

/-! Blanks, comments and breaks between tokens -/

def toNextToken : Nat → Scanner → Scanner
  | 0, s => s
  | n + 1, s =>
    let k := if s.cursor.column = 0 && s.cursor.is '\ufeff' then s.cursor.skip else s.cursor
    let tabs := s.inFlow || !s.keyAllowed
    let k := (k.skipWhile (fun c => c = ' ' || (tabs && c = '\t'))).skipComment
    let s := { s with cursor := k }
    if k.has 0 isBreak then
      toNextToken n { s with cursor := k.skipBreak, keyAllowed := s.keyAllowed || !s.inFlow }
    else s

/-! Directives, anchors and tags -/

def number? (k : Cursor) : Option (Nat × Cursor) :=
  let digits := k.rest.takeWhile Char.isDigit
  if digits.isEmpty || 9 < digits.length then none
  else some (digits.foldl (fun n c => n * 10 + (c.toNat - 48)) 0, k.advance digits.length)

def version? (k : Cursor) : Option (Token × Cursor) := do
  let (major, k) ← number? k.skipBlanks
  if !k.is '.' then none
  let (minor, k) ← number? k.skip
  return (.versionDirective major minor, k)

def handle? (directive : Bool) (k : Cursor) : Option (List Char × Cursor) :=
  if !k.is '!' then none
  else
    let word := k.skip.rest.takeWhile isWord
    let k := k.advance (word.length + 1)
    if k.is '!' then some ('!' :: word ++ ['!'], k.skip)
    else if directive && !word.isEmpty then none
    else some ('!' :: word, k)

def isUri (verbatim : Bool) (c : Char) : Bool :=
  isWord c || ";/?:@&=+$.!~*()".contains c || c = '\'' || (verbatim && ",[]".contains c)

def escapedBytes : Nat → List Char → Option (List UInt8)
  | 0, _ => some []
  | n + 1, '%' :: a :: b :: rest => do
    let byte := (← Quoted.hexValue? a) * 16 + (← Quoted.hexValue? b)
    return byte.toUInt8 :: (← escapedBytes n rest)
  | _ + 1, _ => none

def leadingWidth (byte : UInt8) : Nat :=
  if byte < 0x80 then 1 else if byte &&& 0xe0 = 0xc0 then 2
  else if byte &&& 0xf0 = 0xe0 then 3 else if byte &&& 0xf8 = 0xf0 then 4 else 0

def escapedChar (cs : List Char) : Option (List Char × Nat) := do
  let first ← (← escapedBytes 1 cs).head?
  let width := leadingWidth first
  if width = 0 then none
  let bytes ← escapedBytes width cs
  if (bytes.drop 1).any (fun b => b &&& 0xc0 ≠ 0x80) then none
  return ((String.fromUTF8? ⟨bytes.toArray⟩).map String.toList |>.getD [], width * 3)

def uri (verbatim : Bool) : Nat → List Char → Cursor → Option (List Char × Cursor)
  | 0, text, k => some (text, k)
  | n + 1, text, k =>
    if k.is '%' then do
      let (c, width) ← escapedChar k.rest
      uri verbatim n (text ++ c) (k.advance width)
    else if k.has 0 (isUri verbatim) then uri verbatim n (text ++ k.rest.take 1) k.skip
    else some (text, k)

def uriFrom (verbatim : Bool) (k : Cursor) : Option (List Char × Cursor) :=
  uri verbatim (k.rest.length + 1) [] k

def tagDirective? (k : Cursor) : Option (Token × Cursor) := do
  let (handle, k) ← handle? true k.skipBlanks
  if !k.has 0 isBlank then none
  let (lead, k) ← uriFrom true k.skipBlanks
  if lead.isEmpty || !k.endsWord 0 then none
  return (.tagDirective (String.ofList handle) (String.ofList lead), k)

def directive (s : Scanner) : Option Scanner := do
  let s ← (s.unroll (-1)).dropKey
  let name := s.cursor.skip.rest.takeWhile isWord
  let k := s.cursor.advance (name.length + 1)
  if !k.endsWord 0 then none
  let (token, k) ← if name = "YAML".toList then version? k
    else if name = "TAG".toList then tagDirective? k else none
  let k := k.skipBlanks.skipComment
  if !k.endsLine 0 then none
  return { s.emit token with cursor := k.skipBreak, keyAllowed := false }

def name (token : String → Token) (s : Scanner) : Option Scanner := do
  let s ← s.saveKey
  let word := s.cursor.skip.rest.takeWhile isWord
  let k := s.cursor.advance (word.length + 1)
  if word.isEmpty || !(k.endsWord 0 || k.has 0 (fun c => "?:,]\x7d%@\x60".contains c)) then none
  return { s.emit (token (String.ofList word)) with cursor := k, keyAllowed := false }

def verbatimTag (k : Cursor) : Option (List Char × List Char × Cursor) := do
  let (suffix, k) ← uriFrom true (k.advance 2)
  if suffix.isEmpty || !k.is '>' then none
  return ([], suffix, k.skip)

def shorthandTag (k : Cursor) : Option (List Char × List Char × Cursor) := do
  let (handle, after) ← handle? false k
  if 1 < handle.length && handle.getLast? = some '!' then
    let (suffix, k) ← uriFrom false after
    if suffix.isEmpty then none
    return (handle, suffix, k)
  else
    let (suffix, k) ← uri false (after.rest.length + 1) (handle.drop 1) after
    return if suffix.isEmpty then ([], ['!'], k) else (['!'], suffix, k)

def tag (s : Scanner) : Option Scanner := do
  let s ← s.saveKey
  let (handle, suffix, k) ← if s.cursor.has 1 (· = '<') then verbatimTag s.cursor
    else shorthandTag s.cursor
  if !(k.endsWord 0 || (s.inFlow && k.is ',')) then none
  let token := Token.tag (String.ofList handle) (String.ofList suffix)
  return { s.emit token with cursor := k, keyAllowed := false }

/-! Structure -/

def openFlow (opening : Token) (s : Scanner) : Option Scanner := do
  let s ← s.saveKey
  return { (s.emit opening).move 1 with
    key := none, outerKeys := s.key :: s.outerKeys, keyAllowed := true }

def closeFlow (closing : Token) (s : Scanner) : Option Scanner := do
  let s ← s.dropKey
  let s := match s.outerKeys with
    | [] => s
    | key :: outer => { s with key := key, outerKeys := outer }
  return ((s.emit closing).move 1).allowKey false

def flowEntry (s : Scanner) : Option Scanner := do
  let s ← s.dropKey
  return ((s.emit .flowEntry).move 1).allowKey true

def blockEntry (s : Scanner) : Option Scanner := do
  if !s.inFlow && !s.keyAllowed then none
  let s ← (s.roll s.cursor.column s.tokens.size .blockSequenceStart).dropKey
  return ((s.emit .blockEntry).move 1).allowKey true

def explicitKey (s : Scanner) : Option Scanner := do
  if !s.inFlow && !s.keyAllowed then none
  let s ← (s.roll s.cursor.column s.tokens.size .blockMappingStart).dropKey
  return ((s.emit .key).move 1).allowKey (!s.inFlow)

def valueMark (s : Scanner) : Option Scanner :=
  match s.key with
  | some key =>
    let s := { s with tokens := s.tokens.insertIdxIfInBounds key.token .key }
    let s := s.roll key.column key.token .blockMappingStart
    some (({ s.emit .value with key := none }.move 1).allowKey false)
  | none =>
    if !s.inFlow && !s.keyAllowed then none
    else
      let s := s.roll s.cursor.column s.tokens.size .blockMappingStart
      some (((s.emit .value).move 1).allowKey (!s.inFlow))

def documentMark (token : Token) (s : Scanner) : Option Scanner := do
  let s ← (s.unroll (-1)).dropKey
  return ((s.emit token).move 3).allowKey false

/-! Scalars -/

def blockScalar (literal : Bool) (s : Scanner) : Option Scanner := do
  let s ← s.dropKey
  let (text, k) ← Block.read literal s.indent s.cursor.skip
  let token := Token.scalar (String.ofList text) (if literal then .literal else .folded)
  return { s.emit token with cursor := k, keyAllowed := true }

def quotedScalar (single : Bool) (s : Scanner) : Option Scanner := do
  let s ← s.saveKey
  let (text, k) ← Quoted.read single (s.cursor.rest.length + 1) [] s.cursor.skip
  return { s.emit (.scalar (String.ofList text) .quoted) with cursor := k, keyAllowed := false }

def plainScalar (s : Scanner) : Option Scanner := do
  let s ← s.saveKey
  let (text, broken, k) ←
    Plain.read s.inFlow (s.indent + 1) (s.cursor.rest.length + 1) [] .none s.cursor
  return { s.emit (.scalar (String.ofList text) .plain) with cursor := k, keyAllowed := broken }

def isIndicator (c : Char) : Bool := "-?:,[]\x7b\x7d#&*!|>'\"%@\x60".contains c

def startsPlain (s : Scanner) : Bool :=
  let k := s.cursor
  k.has 0 (fun c => !isBlank c && !isBreak c && !isIndicator c) ||
    (k.is '-' && !k.has 1 isBlank) ||
    (!s.inFlow && (k.is '?' || k.is ':') && !k.endsWord 1)

def token (c : Char) (s : Scanner) : Option Scanner :=
  let k := s.cursor
  if k.column = 0 && c = '%' then s.directive
  else if k.atMark '-' then s.documentMark .documentStart
  else if k.atMark '.' then s.documentMark .documentEnd
  else if c = '[' then s.openFlow .flowSequenceStart
  else if c = '{' then s.openFlow .flowMappingStart
  else if c = ']' then s.closeFlow .flowSequenceEnd
  else if c = '}' then s.closeFlow .flowMappingEnd
  else if c = ',' then s.flowEntry
  else if c = '-' && k.endsWord 1 then s.blockEntry
  else if c = '?' && (s.inFlow || k.endsWord 1) then s.explicitKey
  else if c = ':' && (s.inFlow || k.endsWord 1) then s.valueMark
  else if c = '*' then s.name .alias
  else if c = '&' then s.name .anchor
  else if c = '!' then s.tag
  else if c = '|' && !s.inFlow then s.blockScalar true
  else if c = '>' && !s.inFlow then s.blockScalar false
  else if c = '\'' then s.quotedScalar true
  else if c = '"' then s.quotedScalar false
  else if s.startsPlain then s.plainScalar
  else none

def run : Nat → Scanner → Option (List Token)
  | 0, _ => none
  | n + 1, s => do
    let s ← (s.toNextToken (s.cursor.rest.length + 1)).dropStaleKeys
    let s := s.unroll s.cursor.column
    match s.cursor.rest with
    | [] => return ((← (s.unroll (-1)).dropKey).tokens).toList
    | c :: _ => run n (← s.token c)

end Scanner

def tokens? (text : String) : Option (List Token) :=
  let cs := match text.toList with
    | '\ufeff' :: rest => rest
    | cs => cs
  if cs.all isAllowed then Scanner.run (cs.length + 2) (.start cs) else none

end TlsCensus.Yaml
