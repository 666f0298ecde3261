import TlsCensus.Digest.Sha256
import TlsCensus.Text.Blank

/-! A digest names a byte string by its SHA-256 value and carries no trust. Its text
is sixty-four lowercase hexadecimal digits; reading takes either case and blank ends. -/
namespace TlsCensus

structure Digest where
  octets : Bytes
  size : octets.length = 32
  deriving DecidableEq, Repr

instance : Hashable Digest := ⟨fun d => hash d.octets⟩

namespace Digest

def ofHasher (s : Sha256.Hasher) : Digest := ⟨s.finish.octets, Sha256.lengthOctets _⟩

def ofBytes (data : Bytes) : Digest := ofHasher (Sha256.Hasher.new.update data)

def toHex (d : Digest) : String := Bytes.toHex d.octets

inductive ParseError where
  | length (actual : Nat)
  | hex (bad : Bytes.BadDigit)
  deriving DecidableEq, Repr

def quotedOctet (b : UInt8) : String :=
  let body :=
    match b.toNat with
    | 0 => "\\0"
    | 9 => "\\t"
    | 10 => "\\n"
    | 13 => "\\r"
    | 39 => "\\'"
    | 92 => "\\\\"
    | n =>
      if n < 32 || (127 ≤ n && n ≤ 160) || n == 173 then
        "\\u\x7b" ++ String.ofList (Nat.toDigits 16 n) ++ "\x7d"
      else String.singleton (Char.ofNat n)
  "'" ++ body ++ "'"

def ParseError.message : ParseError → String
  | .length actual => s!"digest must be 64 hex characters, got {actual}"
  | .hex bad =>
    let shown := quotedOctet bad.octet
    s!"invalid hex in digest: Invalid character {shown} at position {bad.position}"

def ofHex (text : String) : Except ParseError Digest :=
  let digits := Bytes.ofText (Text.trim text)
  if digits.length = 64 then
    match Bytes.ofHexDigits digits with
    | .error bad => .error (.hex bad)
    | .ok octets =>
      if h : octets.length = 32 then .ok ⟨octets, h⟩ else .error (.length digits.length)
  else .error (.length digits.length)

end Digest
end TlsCensus
