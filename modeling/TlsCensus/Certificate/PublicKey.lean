import TlsCensus.Certificate
import TlsCensus.Certificate.KeyInfo
import TlsCensus.Certificate.Oid

/-! Family and size of a public key. The family goes by the text of the algorithm's
identifier; a key is opened only when the identifier is the usual one octet for octet. -/
namespace TlsCensus.PublicKeyInfo

def rsaOid : Bytes := [0x2A, 0x86, 0x48, 0x86, 0xF7, 0x0D, 0x01, 0x01, 0x01]
def ecOid : Bytes := [0x2A, 0x86, 0x48, 0xCE, 0x3D, 0x02, 0x01]

def namedCurves : List (Bytes × UInt32) := [
  ([0x2A, 0x86, 0x48, 0xCE, 0x3D, 0x03, 0x01, 0x07], 256),
  ([0x2B, 0x81, 0x04, 0x00, 0x22], 384),
  ([0x2B, 0x81, 0x04, 0x00, 0x23], 521),
  ([0x2B, 0x81, 0x04, 0x00, 0x0A], 256),
  ([0x2B, 0x81, 0x04, 0x00, 0x21], 224)]

def readRsa : Der.Reader (Bytes × Bytes) := Der.inSequence fun b => do
  let (modulus, b) ← Der.readInteger b
  let (exponent, b) ← Der.readInteger b
  some ((modulus, exponent), b)

def rsaBits : Bytes → Nat
  | [] => 0
  | first :: rest => if first < 0x80 then 8 * rest.length else 0

def pointBits : Bytes → Nat
  | 4 :: rest => rest.length * 8 / 2
  | 2 :: rest | 3 :: rest => rest.length * 8
  | _ => 0

def primeBits (parameters : Option Bytes) (key : Bytes) : Except ClassifyError UInt32 :=
  match (parameters.bind Der.integerBits?).or (Der.integerBits? key) with
  | some bits => .ok bits
  | none => .error .undecodable

def curveBits (k : PublicKeyInfo) : Except ClassifyError UInt32 :=
  match k.algorithm.parameters.bind (fun oid => namedCurves.lookup oid) with
  | some bits => .ok bits
  | none =>
    if k.algorithm.oid = ecOid then .ok (pointBits k.key).toUInt32 else .error .undecodable

def modulusBits (k : PublicKeyInfo) : Except ClassifyError UInt32 :=
  if k.algorithm.oid = rsaOid then
    match readRsa k.key with
    | some ((modulus, _), _) => .ok (rsaBits modulus).toUInt32
    | none => .error .undecodable
  else .error .undecodable

def classify (k : PublicKeyInfo) : Except ClassifyError KeyInfo :=
  match Oid.text k.algorithm.oid with
  | "1.2.840.113549.1.1.1" | "1.2.840.113549.1.1.10" => k.modulusBits.map (⟨.rsa, ·⟩)
  | "1.2.840.10045.2.1" => k.curveBits.map (⟨.ec, ·⟩)
  | "1.2.840.10040.4.1" => (primeBits k.algorithm.parameters k.key).map (⟨.dsa, ·⟩)
  | "1.2.840.10046.2.1" | "1.2.840.113549.1.3.1" =>
    (primeBits k.algorithm.parameters k.key).map (⟨.dh, ·⟩)
  | other => .error (.unsupported other)

end PublicKeyInfo

def Certificate.classify : Classifier := fun der =>
  match Certificate.read der with
  | some (certificate, _) => certificate.publicKey.classify
  | none => .error .undecodable

end TlsCensus
