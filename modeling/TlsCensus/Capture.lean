import TlsCensus.Bytes

/-! A capture is what a server sent: records, in a handshake record messages, in a
certificate message a list of DER blobs. No length is trusted. Damage ends the walk at
its own level and is reported with its offset in the capture; what was cut out before
it is kept. -/
namespace TlsCensus.Capture

inductive Issue where
  | record (offset : Nat)
  | message (offset : Nat)
  | certificates (offset : Nat)
  deriving DecidableEq, Repr

namespace Issue

def offset : Issue → Nat
  | .record n | .message n | .certificates n => n

def describe : Issue → String
  | .record n => s!"record at offset {n} runs past the end of the capture"
  | .message n => s!"handshake message at offset {n} runs past its record"
  | .certificates n => s!"certificate list at offset {n} runs past its message"

end Issue

def uint24 (a b c : UInt8) : Nat := Bytes.bigEndian [a, b, c]

structure Record where
  contentType : UInt8
  version : UInt16
  fragment : Bytes
  deriving DecidableEq, Repr

def handshakeType : UInt8 := 22
def certificateType : UInt8 := 11

def readRecord? : Bytes → Option (Record × Bytes)
  | t :: v :: w :: l :: m :: rest =>
    (Bytes.cut? (Bytes.bigEndian [l, m]) rest).map fun (fragment, rest) =>
      (⟨t, (Bytes.bigEndian [v, w]).toUInt16, fragment⟩, rest)
  | _ => none

theorem readRecordLength {b rest : Bytes} {r : Record} (h : readRecord? b = some (r, rest)) :
    b.length = 5 + r.fragment.length + rest.length := by
  unfold readRecord? at h
  split at h <;> try contradiction
  obtain ⟨⟨front, back⟩, cut, same⟩ := Option.map_eq_some_iff.mp h
  cases same
  have whole := congrArg List.length (Bytes.cutLength cut).1
  simp only [List.length_cons, List.length_append] at whole ⊢
  omega

def recordAt (capture : Bytes) (offset : Nat) : Except Issue Record :=
  match readRecord? (capture.drop offset) with
  | some (r, _) => .ok r
  | none => .error (.record offset)

structure Message where
  offset : Nat
  messageType : UInt8
  payload : Bytes
  deriving DecidableEq, Repr

def messages (base : Nat) (fragment : Bytes) : List Message × Option Issue :=
  match fragment with
  | [] => ([], none)
  | t :: a :: b :: c :: rest =>
    match _cut : Bytes.cut? (uint24 a b c) rest with
    | none => ([], some (.message base))
    | some (payload, rest) =>
      let (more, issue) := messages (base + 4 + payload.length) rest
      (⟨base + 4, t, payload⟩ :: more, issue)
  | _ => ([], some (.message base))
  termination_by fragment.length
  decreasing_by
    have whole := congrArg List.length (Bytes.cutLength _cut).1
    simp only [List.length_cons, List.length_append] at whole ⊢
    omega

def entries (base : Nat) (list : Bytes) : List Bytes × Option Issue :=
  match list with
  | [] => ([], none)
  | a :: b :: c :: rest =>
    match _cut : Bytes.cut? (uint24 a b c) rest with
    | none => ([], some (.certificates base))
    | some (der, rest) =>
      let (more, issue) := entries (base + 3 + der.length) rest
      (der :: more, issue)
  | _ => ([], some (.certificates base))
  termination_by list.length
  decreasing_by
    have whole := congrArg List.length (Bytes.cutLength _cut).1
    simp only [List.length_cons, List.length_append] at whole ⊢
    omega

/-- The non-empty entries of a certificate message whose payload starts at `base`. A bad
total drops the message, a bad entry keeps the entries before it. -/
def certificates (base : Nat) (payload : Bytes) : List Bytes × Option Issue :=
  match payload with
  | a :: b :: c :: rest =>
    match Bytes.cut? (uint24 a b c) rest with
    | none => ([], some (.certificates base))
    | some (list, _) =>
      let (found, issue) := entries (base + 3) list
      (found.filter (fun der => !der.isEmpty), issue)
  | _ => ([], some (.certificates base))

structure Extraction where
  certificates : List Bytes
  issues : List Issue
  records : Nat
  deriving DecidableEq, Repr

namespace Extraction

def empty : Extraction := ⟨[], [], 0⟩

def append (x y : Extraction) : Extraction :=
  ⟨x.certificates ++ y.certificates, x.issues ++ y.issues, x.records + y.records⟩

def ofMessage (m : Message) : Extraction :=
  if m.messageType = certificateType then
    let (found, issue) := Capture.certificates m.offset m.payload
    ⟨found, issue.toList, 0⟩
  else empty

def ofFragment (base : Nat) (fragment : Bytes) : Extraction :=
  let (found, issue) := messages base fragment
  let inner := (found.map ofMessage).foldr append ⟨[], issue.toList, 0⟩
  { inner with records := inner.records + 1 }

/-- The walk over bytes that start at `offset`. Bytes that start no handshake record are
stepped over one by one. -/
def walk (offset : Nat) (b : Bytes) : Extraction :=
  match b with
  | [] => empty
  | t :: rest =>
    if t = handshakeType then
      match _read : readRecord? (t :: rest) with
      | none => ⟨[], [.record offset], 0⟩
      | some (r, after) =>
        append (ofFragment (offset + 5) r.fragment) (walk (offset + 5 + r.fragment.length) after)
    else walk (offset + 1) rest
  termination_by b.length
  decreasing_by
    · have whole := readRecordLength _read
      omega
    · simp

end Extraction

def extract (capture : Bytes) : Extraction := Extraction.walk 0 capture

inductive ResponseKind where
  | empty
  | handshake
  | other
  deriving DecidableEq, Repr

namespace ResponseKind

def of : Bytes → ResponseKind
  | [] => .empty
  | t :: _ => if t = handshakeType then .handshake else .other

def label : ResponseKind → String
  | .empty => "invalid"
  | .handshake => "valid"
  | .other => "error"

end ResponseKind
end TlsCensus.Capture
