/-! Byte strings are lists of octets. Held here: the numbers they spell in either
byte order and their hexadecimal text. Reading hex names the first bad octet. -/
namespace TlsCensus

abbrev Bytes := List UInt8

namespace Bytes

def ofText (s : String) : Bytes := s.toUTF8.data.toList

def text? (b : Bytes) : Option String := String.fromUTF8? ⟨b.toArray⟩

def bigEndian (b : Bytes) : Nat := b.foldl (fun n x => n * 256 + x.toNat) 0

def littleEndian : Nat → Nat → Bytes
  | 0, _ => []
  | count + 1, n => n.toUInt8 :: littleEndian count (n / 256)

def cut? (n : Nat) (b : Bytes) : Option (Bytes × Bytes) :=
  let front := b.take n
  if front.length = n then some (front, b.drop n) else none

theorem cutLength {n : Nat} {b front rest : Bytes} (h : cut? n b = some (front, rest)) :
    b = front ++ rest ∧ front.length = n := by
  simp only [cut?] at h
  split at h <;> try contradiction
  rename_i size
  cases Option.some.inj h
  exact ⟨(List.take_append_drop n b).symm, size⟩

def sized? (width : Nat) (b : Bytes) : Option (Bytes × Bytes) := do
  let (length, b) ← cut? width b
  cut? (bigEndian length) b

def exactly? (width : Nat) (b : Bytes) : Option Bytes := do
  let (body, rest) ← sized? width b
  if rest.isEmpty then some body else none

def hexDigit (n : UInt8) : Char :=
  if n < 10 then Char.ofNat (48 + n.toNat) else Char.ofNat (87 + n.toNat)

def hexChars : Bytes → List Char
  | [] => []
  | b :: rest => hexDigit (b >>> 4) :: hexDigit (b &&& 15) :: hexChars rest

def toHex (b : Bytes) : String := String.ofList (hexChars b)

def hexValue? (c : UInt8) : Option UInt8 :=
  if 48 ≤ c && c ≤ 57 then some (c - 48)
  else if 97 ≤ c && c ≤ 102 then some (c - 87)
  else if 65 ≤ c && c ≤ 70 then some (c - 55)
  else none

structure BadDigit where
  octet : UInt8
  position : Nat
  deriving DecidableEq, Repr

def hexValues (position : Nat) : Bytes → Except BadDigit Bytes
  | [] => .ok []
  | c :: rest =>
    match hexValue? c with
    | none => .error ⟨c, position⟩
    | some v => (hexValues (position + 1) rest).map (v :: ·)

def joinDigits : Bytes → Bytes
  | high :: low :: rest => (high <<< 4 ||| low) :: joinDigits rest
  | _ => []

def ofHexDigits (text : Bytes) : Except BadDigit Bytes :=
  (hexValues 0 text).map joinDigits

end Bytes
end TlsCensus
