import TlsCensus.Yaml.Token

/-! The tree that tokens describe. Aliases are kept as such; the document tells which node
each of them stands for. A stream of no document at all is empty, one of several is refused. -/
namespace TlsCensus.Yaml

inductive Node where
  | scalar (text : String) (style : Style) (tag : Option String)
  | sequence (items : List Node)
  | mapping (members : List (Node × Node))
  | alias (id : Nat)
  deriving Inhabited, Repr

namespace Node

def absent : Node := .scalar "" .plain none

end Node

structure Document where
  root : Option Node
  targets : List (Nat × Node)
  deriving Repr

def Document.resolve (d : Document) : Node → Node
  | .alias id => (d.targets.lookup id).getD (.alias id)
  | n => n

/-- Tokens on their way to a tree. An anchor has a number that its name stands for; numbers
are counted by names, so an anchor that takes over a name may share its number with a later
one, and the later one then has it. -/
structure Composer where
  tokens : List Token
  handles : List (String × String)
  names : List (String × Nat)
  places : List (Nat × Nat)
  anchored : Nat
  nodes : List (Nat × Node)
  deriving Repr

namespace Composer

def start (tokens : List Token) : Composer := ⟨tokens, [], [], [], 0, []⟩

def next (s : Composer) : Option Token := s.tokens.head?

def drop (s : Composer) : Composer := { s with tokens := s.tokens.drop 1 }

def stops (tokens : List Token) (s : Composer) : Bool := s.next.all tokens.contains

def declare (name : String) (s : Composer) : Nat × Composer :=
  let id := s.names.length
  (s.anchored, { s with names := (name, id) :: s.names.filter (·.1 ≠ name),
                        places := (id, s.anchored) :: s.places, anchored := s.anchored + 1 })

structure Properties where
  place : Option Nat
  tag : Option String
  deriving DecidableEq, Repr

def Properties.none : Properties := ⟨.none, .none⟩

def resolveTag (handle suffix : String) (s : Composer) : Option String :=
  if handle.isEmpty then some suffix else (s.handles.lookup handle).map (· ++ suffix)

def anchorProperty (p : Properties) (s : Composer) : Properties × Composer :=
  match s.next with
  | some (.anchor name) =>
    let (place, s) := s.drop.declare name
    ({ p with place := some place }, s)
  | _ => (p, s)

def tagProperty (p : Properties) (s : Composer) : Option (Properties × Composer) :=
  match s.next with
  | some (.tag handle suffix) => do
    let tag ← s.resolveTag handle suffix
    return ({ p with tag := some tag }, s.drop)
  | _ => some (p, s)

def properties (s : Composer) : Option (Properties × Composer) :=
  match s.next with
  | some (.anchor _) =>
    let (p, s) := s.anchorProperty .none
    s.tagProperty p
  | _ => do
    let (p, s) ← s.tagProperty .none
    return if p.tag.isSome then s.anchorProperty p else (p, s)

def define (p : Properties) (n : Node) (s : Composer) : Node × Composer :=
  match p.place with
  | some place => (n, { s with nodes := (place, n) :: s.nodes })
  | none => (n, s)

def scalarTag (tag : Option String) : Option String := if tag = some "!" then none else tag

mutual
def node : Nat → Bool → Bool → Composer → Option (Node × Composer)
  | 0, _, _, _ => none
  | n + 1, block, afterKey, s =>
    match s.next with
    | some (.alias name) => do
      let id ← s.names.lookup name
      return (.alias id, s.drop)
    | _ => do
      let (p, s) ← s.properties
      let (content, s) ← match s.next with
        | some (.scalar text style) => some (.scalar text style (scalarTag p.tag), s.drop)
        | some .flowSequenceStart => flowSequence n true s.drop
        | some .flowMappingStart => flowMapping n true s.drop
        | some .blockEntry => if afterKey then entries n s else bare p s
        | some .blockSequenceStart => if block then blockSequence n s.drop else bare p s
        | some .blockMappingStart => if block then blockMapping n s.drop else bare p s
        | _ => bare p s
      return s.define p content

def bare (p : Composer.Properties) (s : Composer) : Option (Node × Composer) :=
  if p.place.isSome || p.tag.isSome then some (.scalar "" .plain p.tag, s) else none

def blockUnless : Nat → List Token → Bool → Composer → Option (Node × Composer)
  | 0, _, _, _ => none
  | n + 1, tokens, afterKey, s =>
    if s.stops tokens then some (.absent, s) else node n true afterKey s

def flowUnless : Nat → List Token → Composer → Option (Node × Composer)
  | 0, _, _ => none
  | n + 1, tokens, s => if s.stops tokens then some (.absent, s) else node n false false s

def blockSequence : Nat → Composer → Option (Node × Composer)
  | 0, _ => none
  | n + 1, s =>
    match s.next with
    | some .blockEnd => some (.sequence [], s.drop)
    | some .blockEntry => do
      let (item, s) ← blockUnless n [.blockEntry, .blockEnd] false s.drop
      let (rest, s) ← blockSequence n s
      return (cons item rest, s)
    | _ => none

def entries : Nat → Composer → Option (Node × Composer)
  | 0, _ => none
  | n + 1, s =>
    match s.next with
    | some .blockEntry => do
      let (item, s) ← blockUnless n [.blockEntry, .key, .value, .blockEnd] false s.drop
      let (rest, s) ← entries n s
      return (cons item rest, s)
    | _ => some (.sequence [], s)

def blockMapping : Nat → Composer → Option (Node × Composer)
  | 0, _ => none
  | n + 1, s =>
    match s.next with
    | some .blockEnd => some (.mapping [], s.drop)
    | some .key => do
      let (k, s) ← blockUnless n [.key, .value, .blockEnd] true s.drop
      let (v, s) ← match s.next with
        | some .value => blockUnless n [.key, .value, .blockEnd] true s.drop
        | _ => some (.absent, s)
      let (rest, s) ← blockMapping n s
      return (consMember k v rest, s)
    | _ => none

def flowSequence : Nat → Bool → Composer → Option (Node × Composer)
  | 0, _, _ => none
  | n + 1, first, s => do
    if s.next = some .flowSequenceEnd then return (.sequence [], s.drop)
    let s ← separated first s
    match s.next with
    | some .flowSequenceEnd => return (.sequence [], s.drop)
    | some .key =>
      let (pair, s) ← flowPair n s.drop
      let (rest, s) ← flowSequence n false s
      return (cons pair rest, s)
    | _ =>
      let (item, s) ← node n false false s
      let (rest, s) ← flowSequence n false s
      return (cons item rest, s)

/-- A single member inside a sequence. A key that is absent takes the token in its place
with it. -/
def flowPair : Nat → Composer → Option (Node × Composer)
  | 0, _ => none
  | n + 1, s => do
    let (k, s) ← if s.stops [.value, .flowEntry, .flowSequenceEnd] then some (.absent, s.drop)
      else node n false false s
    let (v, s) ← match s.next with
      | some .value => flowUnless n [.flowEntry, .flowSequenceEnd] s.drop
      | _ => some (.absent, s)
    return (.mapping [(k, v)], s)

def flowMapping : Nat → Bool → Composer → Option (Node × Composer)
  | 0, _, _ => none
  | n + 1, first, s => do
    if s.next = some .flowMappingEnd then return (.mapping [], s.drop)
    let s ← separated first s
    match s.next with
    | some .flowMappingEnd => return (.mapping [], s.drop)
    | some .key =>
      let (k, s) ← flowUnless n [.value, .flowEntry, .flowMappingEnd] s.drop
      let (v, s) ← match s.next with
        | some .value => flowUnless n [.flowEntry, .flowMappingEnd] s.drop
        | _ => some (.absent, s)
      let (rest, s) ← flowMapping n false s
      return (consMember k v rest, s)
    | _ =>
      let (k, s) ← node n false false s
      let (rest, s) ← flowMapping n false s
      return (consMember k .absent rest, s)

def separated (first : Bool) (s : Composer) : Option Composer :=
  if first then some s else if s.next = some .flowEntry then some s.drop else none

def cons (item : Node) : Node → Node
  | .sequence items => .sequence (item :: items)
  | n => n

def consMember (k v : Node) : Node → Node
  | .mapping members => .mapping ((k, v) :: members)
  | n => n
end

def directives : Bool → List Token → List (String × String) → Option (List (String × String) × List Token)
  | seen, .versionDirective major minor :: rest, handles =>
    if seen || major ≠ 1 || !(minor = 1 || minor = 2) then none else directives true rest handles
  | seen, .tagDirective handle lead :: rest, handles =>
    if handles.any (·.1 = handle) then none else directives seen rest ((handle, lead) :: handles)
  | _, tokens, handles => some (handles, tokens)

def standardHandles : List (String × String) := [("!", "!"), ("!!", "tag:yaml.org,2002:")]

def isFinished (s : Composer) : Bool := s.tokens.all (· = .documentEnd)

def targets (s : Composer) : List (Nat × Node) :=
  s.places.filterMap (fun (id, place) => (s.nodes.lookup place).map (fun n => (id, n)))

def document? (tokens : List Token) : Option Document :=
  if tokens.isEmpty then some ⟨none, []⟩
  else do
    let (handles, rest) ← directives false tokens []
    let explicit := rest.head? = some .documentStart
    if !explicit && rest.length ≠ tokens.length then none
    let s := { start (if explicit then rest.drop 1 else rest) with handles := handles ++ standardHandles }
    let fuel := 4 * tokens.length + 8
    let (root, s) ← if explicit then blockUnless fuel [.documentStart, .documentEnd] false s
      else node fuel true false s
    if !s.isFinished then none
    return ⟨some root, s.targets⟩

end Composer

def Document.ofText? (text : String) : Option Document := (tokens? text).bind Composer.document?

end TlsCensus.Yaml
