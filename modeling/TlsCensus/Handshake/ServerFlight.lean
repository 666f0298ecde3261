import TlsCensus.Capture

/-! A server's first flight under TLS 1.2, followed through the bytes as they come: hello,
certificate, key exchange and hello done, in this order, packed in records in any way.
What is not complete yet is waited for; what is out of place fails. Signatures and
certificates are taken as they come. -/
namespace TlsCensus.ServerFlight

def ecdsaSuites : List Nat := [0xC02C, 0xC02B, 0xCCA9]

def suites : List Nat := [0xC02C, 0xC02B, 0xCCA9, 0xC030, 0xC02F, 0xCCA8]

def groups : List (Nat × Nat) := [(0x1D, 32), (0x17, 65), (0x18, 97)]

structure Hello where
  suite : Nat
  stapling : Bool
  deriving DecidableEq, Repr

structure KeyExchange where
  group : Nat
  key : Bytes
  scheme : Nat
  deriving DecidableEq, Repr

inductive Stage where
  | hello
  | certificate (hello : Hello)
  | status (hello : Hello) (chain : Bytes)
  | keyExchange (hello : Hello) (chain : Bytes)
  | request (hello : Hello) (chain : Bytes) (exchange : KeyExchange)
  | helloDone (hello : Hello) (chain : Bytes) (exchange : KeyExchange)
  | cipherChange (asked : Bool)
  | encrypted (asked : Bool)
  deriving DecidableEq, Repr

def extensions : Nat → List Nat → Bytes → Option (List Nat)
  | _, found, [] => some found
  | fuel + 1, found, b => do
    let (kind, b) ← Bytes.cut? 2 b
    let (_, b) ← Bytes.sized? 2 b
    let kind := Bytes.bigEndian kind
    if found.contains kind then none else extensions fuel (kind :: found) b
  | 0, _, _ => none

def welcome : List Nat := [5, 10, 11, 13, 23, 35, 0xFF01]

def readHello (body : Bytes) : Option Hello := do
  let (version, b) ← Bytes.cut? 2 body
  let (_, b) ← Bytes.cut? 32 b
  let (session, b) ← Bytes.sized? 1 b
  let (suite, b) ← Bytes.cut? 2 b
  let (compression, b) ← Bytes.cut? 1 b
  let kinds ← if b.isEmpty then some [] else do
    let inner ← Bytes.exactly? 2 b
    extensions inner.length [] inner
  let suite := Bytes.bigEndian suite
  if version = [3, 3] ∧ session.length ≤ 32 ∧ compression = [0] ∧ suites.contains suite ∧
      kinds.all welcome.contains then
    some ⟨suite, kinds.contains 5⟩
  else none

def readChain (body : Bytes) : Option Bytes := do
  let list ← Bytes.exactly? 3 body
  match Capture.entries 0 list with
  | (_, none) => some list
  | (_, some _) => none

def readKeyExchange (body : Bytes) : Option KeyExchange := do
  let (curve, b) ← Bytes.cut? 3 body
  let (key, b) ← Bytes.sized? 1 b
  let (scheme, b) ← Bytes.cut? 2 b
  let _ ← Bytes.exactly? 2 b
  match curve with
  | [3, high, low] => some ⟨Bytes.bigEndian [high, low], key, Bytes.bigEndian scheme⟩
  | _ => none

def isRequest (body : Bytes) : Bool :=
  ((Bytes.sized? 1 body).bind fun (_, b) =>
    (Bytes.sized? 2 b).bind fun (_, b) => Bytes.exactly? 2 b).isSome

def signs (suite scheme : Nat) : Bool :=
  if ecdsaSuites.contains suite then [0x0203, 0x0403, 0x0503, 0x0603, 0x0807].contains scheme
  else [0x0201, 0x0401, 0x0501, 0x0601, 0x0804, 0x0805, 0x0806].contains scheme

def fits (hello : Hello) (exchange : KeyExchange) : Bool :=
  signs hello.suite exchange.scheme && groups.lookup exchange.group == some exchange.key.length

def Stage.message (type : UInt8) (body : Bytes) (stage : Stage) : Option Stage :=
  match stage, type with
  | .hello, 2 => (readHello body).map .certificate
  | .certificate h, 11 => (readChain body).map (if h.stapling then .status h else .keyExchange h)
  | .status h chain, 22 => some (.keyExchange h chain)
  | .status h chain, 12 | .keyExchange h chain, 12 => (readKeyExchange body).map (.request h chain)
  | .request h chain kx, 13 => if isRequest body then some (.helloDone h chain kx) else none
  | .request h chain kx, 14 =>
    if body.isEmpty ∧ ¬ chain.isEmpty ∧ fits h kx then some (.cipherChange false) else none
  | .helloDone h chain kx, 14 =>
    if body.isEmpty ∧ ¬ chain.isEmpty ∧ fits h kx then some (.cipherChange true) else none
  | _, _ => none

structure Progress where
  stage : Stage
  waiting : Bytes
  warnings : Nat
  closed : Bool
  deriving DecidableEq, Repr

def Progress.start : Progress := ⟨.hello, [], 0, false⟩

def maxMessage : Nat := 0xFFFF

def messages (stage : Stage) (b : Bytes) : Option (Stage × Bytes) :=
  match b with
  | t :: x :: y :: z :: rest =>
    if maxMessage < Capture.uint24 x y z then none
    else
      match _cut : Bytes.cut? (Capture.uint24 x y z) rest with
      | none => some (stage, t :: x :: y :: z :: rest)
      | some (body, rest) =>
        match stage.message t body with
        | none => none
        | some stage => messages stage rest
  | b => some (stage, b)
  termination_by b.length
  decreasing_by
    have whole := congrArg List.length (Bytes.cutLength _cut).1
    simp only [List.length_cons, List.length_append] at whole ⊢
    omega

/-- One alert: goodbye ends the reading, four warnings pass, all else fails. -/
def Progress.alert (p : Progress) : Bytes → Option Progress
  | [_, 0] => some { p with closed := true }
  | [1, _] => if p.warnings < 4 then some { p with warnings := p.warnings + 1 } else none
  | _ => none

def Progress.record (p : Progress) (contentType : UInt8) (fragment : Bytes) : Option Progress :=
  match p.stage, contentType with
  | .encrypted _, _ => none
  | stage, 22 =>
    (messages stage (p.waiting ++ fragment)).map fun (stage, waiting) =>
      { p with stage := stage, waiting := waiting }
  | _, 21 => if p.waiting.isEmpty then p.alert fragment else none
  | .cipherChange asked, 20 =>
    if p.waiting.isEmpty ∧ fragment = [1] then some { p with stage := .encrypted asked } else none
  | _, _ => none

inductive Framing where
  | incomplete
  | malformed
  | record (contentType : UInt8) (fragment rest : Bytes)
  deriving DecidableEq, Repr

def contentTypes : List UInt8 := [20, 21, 22, 23, 24]

def isVersion (high low : UInt8) : Bool :=
  high == 3 || [(2, 0), (0xFE, 0xFF), (0xFE, 0xFD), (0xFE, 0xFC)].contains (high, low)

def body (t : UInt8) (length : Nat) (b : Bytes) : Framing :=
  if (length = 0 ∧ t ≠ 23) ∨ 18432 ≤ length then .malformed
  else
    match Bytes.cut? length b with
    | none => .incomplete
    | some (fragment, rest) => if 16384 < length then .malformed else .record t fragment rest

theorem bodyLength {n : Nat} {b fragment rest : Bytes} {t u : UInt8}
    (h : body u n b = .record t fragment rest) : rest.length ≤ b.length := by
  unfold body at h
  split at h <;> try contradiction
  split at h <;> try contradiction
  rename_i cut
  split at h <;> try contradiction
  cases h
  have whole := congrArg List.length (Bytes.cutLength cut).1
  simp only [List.length_append] at whole
  omega

/-- The record in front. A header is refused as soon as its bad part is there. -/
def frame : Bytes → Framing
  | [] => .incomplete
  | t :: rest =>
    if ¬ contentTypes.contains t then .malformed
    else
      match rest with
      | high :: low :: rest =>
        if ¬ isVersion high low then .malformed
        else
          match rest with
          | l :: m :: rest =>
            body t (Bytes.bigEndian [l, m]) rest
          | _ => .incomplete
      | _ => .incomplete

theorem frameLength {b fragment rest : Bytes} {t : UInt8} (h : frame b = .record t fragment rest) :
    rest.length < b.length := by
  unfold frame at h
  split at h <;> try contradiction
  split at h <;> try contradiction
  split at h <;> try contradiction
  split at h <;> try contradiction
  split at h <;> try contradiction
  have shorter := bodyLength h
  simp only [List.length_cons]
  omega

def run (p : Progress) (b : Bytes) : Option (Progress × Bytes) :=
  if p.closed then some (p, [])
  else
    match _framed : frame b with
    | .incomplete => some (p, b)
    | .malformed => none
    | .record t fragment rest =>
      match p.record t fragment with
      | none => none
      | some p => run p rest
  termination_by b.length
  decreasing_by exact frameLength _framed

def Stage.finished : Stage → Option Bool
  | .cipherChange asked | .encrypted asked => some asked
  | _ => none

end TlsCensus.ServerFlight
