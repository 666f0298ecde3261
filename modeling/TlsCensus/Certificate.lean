import TlsCensus.Certificate.Der
import TlsCensus.Certificate.Moment

/-! The shape of an X.509 certificate, as far as it decides whether a blob is one, and
the public key in it. Names are taken unseen once they are sequences; bytes behind a
complete value are ignored, except at the end of the signed part. -/
namespace TlsCensus

structure Algorithm where
  oid : Bytes
  parameters : Option Bytes
  deriving DecidableEq, Repr

structure PublicKeyInfo where
  algorithm : Algorithm
  key : Bytes
  deriving DecidableEq, Repr

structure Certificate where
  version : Nat
  serial : Bytes
  publicKey : PublicKeyInfo
  deriving DecidableEq, Repr

namespace Certificate
open Der (Reader)

def readVersion : Reader Nat := fun b => do
  let (header, _) ← Der.readHeader b
  if header.tag ≠ 0 then some (0, b)
  else do
    let (e, rest) ← Der.read b
    let (content, _) ← Der.readInteger e.content
    let n := Bytes.bigEndian content
    if header.tagClass = 2 ∧ header.constructed ∧ content.headD 0 < 0x80 ∧ n < 0x100000000 then
      some (n, rest)
    else none

def readSerial : Reader Bytes := fun b => do
  let (e, b) ← Der.readAnyLength b
  if e.header.tag = Der.integerTag then some (e.content, b) else none

def readAlgorithm : Reader Algorithm := Der.inSequence fun b => do
  let (oid, b) ← Der.read b
  if oid.header.constructed then none
  else if b.isEmpty then some (⟨oid.content, none⟩, b)
  else do
    let (parameters, b) ← Der.read b
    some (⟨oid.content, some parameters.content⟩, b)

def readName : Reader Unit := Der.inSequence fun b => some ((), b)

def readMoment : Reader Unit := fun b => do
  let (e, b) ← Der.read b
  if e.header.tag = Der.utcTimeTag ∧ Moment.isShort e.content then some ((), b)
  else if e.header.tag = Der.generalizedTimeTag ∧ Moment.isLong e.content then some ((), b)
  else none

def readValidity : Reader Unit := Der.inSequence fun b => do
  let (_, b) ← readMoment b
  readMoment b

def readPublicKey : Reader PublicKeyInfo := Der.inSequence fun b => do
  let (algorithm, b) ← readAlgorithm b
  let (key, b) ← Der.readBitString b
  some (⟨algorithm, key⟩, b)

def skipCritical (b : Bytes) : Bytes :=
  match Der.read b with
  | some (e, rest) =>
    if e.header.tag = 1 ∧ e.content.length = 1 ∧ ¬ e.header.constructed then rest else b
  | none => b

def readExtension : Reader Unit := Der.inSequence fun b => do
  let (oid, b) ← Der.read b
  if oid.header.constructed then none
  else do
    let (_, b) ← Der.readPrimitive Der.octetStringTag (skipCritical b)
    some ((), b)

def areExtensions : Nat → Bytes → Bool
  | _, [] => true
  | 0, _ => false
  | fuel + 1, b =>
    match readExtension b with
    | some (_, rest) => areExtensions fuel rest
    | none => false

/-- The signed part ends after the key, or with a header of tag number 3 and one
sequence of extensions that takes all the rest. -/
def isTail (b : Bytes) : Bool :=
  b.isEmpty ||
    match Der.readHeader b with
    | some (header, rest) =>
      header.tag == 3 &&
        match Der.readTagged Der.sequenceTag rest with
        | some (content, []) => areExtensions content.length content
        | _ => false
    | none => false

def readSigned : Reader Certificate := Der.inSequence fun b => do
  let (version, b) ← readVersion b
  let (serial, b) ← readSerial b
  let (_, b) ← readAlgorithm b
  let (_, b) ← readName b
  let (_, b) ← readValidity b
  let (_, b) ← readName b
  let (publicKey, b) ← readPublicKey b
  if isTail b then some (⟨version, serial, publicKey⟩, b) else none

def read : Reader Certificate := Der.inSequence fun b => do
  let (certificate, b) ← readSigned b
  let (_, b) ← readAlgorithm b
  let (_, b) ← Der.readBitString b
  some (certificate, b)

end Certificate
end TlsCensus
