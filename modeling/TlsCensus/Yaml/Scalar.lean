import TlsCensus.Yaml.Cursor

/-! Scalars as they stand in a text: plain words, quoted text and blocks. Lines are folded:
one break between words reads as a blank, more as all breaks but the first. -/
namespace TlsCensus.Yaml

structure Gap where
  blanks : List Char
  breaks : Option (List Char × List Char)
  deriving DecidableEq, Repr

namespace Gap

def none : Gap := ⟨[], .none⟩

def escaped : Gap := ⟨[], some ([], [])⟩

def isBroken (g : Gap) : Bool := g.breaks.isSome

def addBreak (text : List Char) (g : Gap) : Gap :=
  match g.breaks with
  | .none => ⟨[], some (text, [])⟩
  | some (first, more) => ⟨[], some (first, more ++ text)⟩

def folded (g : Gap) : List Char :=
  match g.breaks with
  | .none => g.blanks
  | some (first, more) =>
    if first = ['\n'] then (if more.isEmpty then [' '] else more) else first ++ more

def read (limit : Int) : Nat → Gap → Cursor → Option (Gap × Cursor)
  | 0, g, k => some (g, k)
  | n + 1, g, k =>
    match k.rest with
    | [] => some (g, k)
    | c :: _ =>
      if isBlank c then
        if !g.isBroken then read limit n { g with blanks := g.blanks ++ [c] } k.skip
        else if c = '\t' ∧ k.column < limit then .none
        else read limit n g k.skip
      else if isBreak c then read limit n (g.addBreak k.breakText) k.skipBreak
      else some (g, k)

end Gap

namespace Plain

def isFlowMark (c : Char) : Bool := c = ',' || c = '[' || c = ']' || c = '{' || c = '}'

def word (flow : Bool) : List Char → Option (List Char)
  | [] => some []
  | ':' :: rest =>
    if flow && rest.head?.any (fun c => c = '?' || isFlowMark c) then none
    else if rest.head?.all (fun c => isBlank c || isBreak c) then some []
    else (word flow rest).map (':' :: ·)
  | c :: rest =>
    if isBlank c || isBreak c || (flow && isFlowMark c) then some []
    else (word flow rest).map (c :: ·)

def read (flow : Bool) (indent : Int) :
    Nat → List Char → Gap → Cursor → Option (List Char × Bool × Cursor)
  | 0, text, gap, k => some (text, gap.isBroken, k)
  | n + 1, text, gap, k =>
    if k.atDocumentMark || k.is '#' then some (text, gap.isBroken, k)
    else do
      let word ← word flow k.rest
      let (text, gap) := if word.isEmpty then (text, gap) else (text ++ gap.folded ++ word, .none)
      let k := k.advance word.length
      if k.isEnd || !k.endsWord 0 then return (text, gap.isBroken, k)
      let (gap, k) ← gap.read indent (k.rest.length + 1) k
      if !flow && k.column < indent then return (text, gap.isBroken, k)
      read flow indent n text gap k

end Plain

namespace Quoted

def hexValue? (c : Char) : Option Nat :=
  if '0' ≤ c ∧ c ≤ '9' then some (c.toNat - 48)
  else if 'a' ≤ c ∧ c ≤ 'f' then some (c.toNat - 87)
  else if 'A' ≤ c ∧ c ≤ 'F' then some (c.toNat - 55)
  else none

def coded (digits : Nat) (cs : List Char) : Option (Char × Nat) := do
  let values ← (cs.take digits).mapM hexValue?
  let code := values.foldl (fun n d => n * 16 + d) 0
  if values.length = digits ∧ code.isValidChar then some (Char.ofNat code, digits + 1) else none

def escape : List Char → Option (Char × Nat)
  | [] => none
  | c :: rest =>
    match c with
    | '0' => some ('\x00', 1)
    | 'a' => some ('\x07', 1)
    | 'b' => some ('\x08', 1)
    | 't' | '\t' => some ('\t', 1)
    | 'n' => some ('\n', 1)
    | 'v' => some ('\x0b', 1)
    | 'f' => some ('\x0c', 1)
    | 'r' => some ('\r', 1)
    | 'e' => some ('\x1b', 1)
    | ' ' => some (' ', 1)
    | '"' => some ('"', 1)
    | '/' => some ('/', 1)
    | '\\' => some ('\\', 1)
    | 'N' => some ('\u0085', 1)
    | '_' => some ('\u00a0', 1)
    | 'L' => some ('\u2028', 1)
    | 'P' => some ('\u2029', 1)
    | 'x' => coded 2 rest
    | 'u' => coded 4 rest
    | 'U' => coded 8 rest
    | _ => none

def mark (single : Bool) : Char := if single then '\'' else '"'

def word (single : Bool) : Nat → List Char → Cursor → Option (List Char × Bool × Cursor)
  | 0, text, k => some (text, false, k)
  | n + 1, text, k =>
    if k.endsWord 0 then some (text, false, k)
    else if single && k.rest.take 2 = ['\'', '\''] then word single n (text ++ ['\'']) (k.advance 2)
    else if k.is (mark single) then some (text, false, k)
    else if !single && k.is '\\' then
      if k.has 1 isBreak then some (text, true, k.skip.skipBreak)
      else do
        let (c, width) ← escape (k.rest.drop 1)
        word single n (text ++ [c]) (k.advance (width + 1))
    else word single n (text ++ k.rest.take 1) k.skip

def read (single : Bool) : Nat → List Char → Cursor → Option (List Char × Cursor)
  | 0, _, _ => none
  | n + 1, text, k =>
    if k.atDocumentMark || k.isEnd then none
    else do
      let (text, escaped, k) ← word single (k.rest.length + 1) text k
      if !escaped && k.is (mark single) then return (text, k.skip)
      let (gap, k) ← Gap.read 0 (k.rest.length + 1) (if escaped then .escaped else .none) k
      read single n (text ++ gap.folded) k

end Quoted

namespace Block

inductive Chomp where
  | strip
  | clip
  | keep
  deriving DecidableEq, Repr

def chomp? (k : Cursor) : Option Chomp :=
  if k.is '+' then some .keep else if k.is '-' then some .strip else none

def digit? (k : Cursor) : Option Nat :=
  k.rest.head?.bind (fun c => if c.isDigit then some (c.toNat - 48) else none)

def header (k : Cursor) : Option (Chomp × Option Nat × Cursor) :=
  let result := match chomp? k with
    | some chomp =>
      match digit? k.skip with
      | some d => (chomp, some d, k.advance 2)
      | none => (chomp, none, k.skip)
    | none =>
      match digit? k with
      | some d =>
        match chomp? k.skip with
        | some chomp => (chomp, some d, k.advance 2)
        | none => (.clip, some d, k.skip)
      | none => (.clip, none, k)
  if result.2.1 = some 0 then none else some result

/-- Breaks and indentation in front of a line. Without a depth the deepest of these lines
gives it, but at least `least`. -/
def breaks (least : Nat) : Nat → Option Nat → List Char → Nat → Cursor →
    Option (List Char × Nat × Cursor)
  | 0, depth, text, deepest, k => some (text, depth.getD (max deepest least), k)
  | n + 1, depth, text, deepest, k =>
    let spaces := (k.rest.takeWhile (· = ' ')).length
    let k := k.advance (match depth with | some d => min spaces (d - k.column) | none => spaces)
    let deepest := max deepest k.column
    if k.is '\t' && depth.all (k.column < ·) then none
    else if k.has 0 isBreak then
      breaks least n depth (text ++ k.breakText) deepest k.skipBreak
    else some (text, depth.getD (max deepest least), k)

def lines (literal : Bool) (depth : Nat) : Nat → List Char → List Char → List Char → Bool → Cursor →
    Option (List Char × List Char × List Char × Cursor)
  | 0, text, lead, more, _, k => some (text, lead, more, k)
  | n + 1, text, lead, more, wasBlank, k =>
    if k.column ≠ depth || k.isEnd then some (text, lead, more, k)
    else do
      let isBlank := k.has 0 isBlank
      let joined :=
        if !literal && lead = ['\n'] && !wasBlank && !isBlank then
          if more.isEmpty then [' '] else more
        else lead ++ more
      let line := k.rest.takeWhile (fun c => !isBreak c)
      let k := k.advance line.length
      let lead := k.breakText
      let (more, _, k) ← breaks depth (k.rest.length + 1) (some depth) [] 0 k.skipBreak
      lines literal depth n (text ++ joined ++ line) lead more isBlank k

def read (literal : Bool) (indent : Int) (k : Cursor) : Option (List Char × Cursor) := do
  let (chomp, increment, k) ← header k
  let k := k.skipBlanks.skipComment
  if !k.endsLine 0 then none
  let depth := increment.map (· + indent.toNat)
  let (more, depth, k) ← breaks (max (indent + 1) 1).toNat (k.rest.length + 1) depth [] 0 k.skipBreak
  let (text, lead, more, k) ← lines literal depth (k.rest.length + 1) [] [] more false k
  let text := if chomp = .strip then text else text ++ lead
  return (if chomp = .keep then text ++ more else text, k)

end Block
end TlsCensus.Yaml
