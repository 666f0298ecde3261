import TlsCensus.Bytes

/-! Object identifiers by their content octets. The text is dotted; it falls back to the
octets in hex when an arc needs more than 64 bits. The first octet is split by forty. -/
namespace TlsCensus.Oid

def widest : Nat → Nat → Bytes → Nat
  | best, _, [] => best
  | best, bits, b :: rest =>
    if b < 0x80 then widest (max best (bits + 7)) 0 rest else widest best (bits + 7) rest

/-- The arcs after the first two. The last may lack its final octet. -/
def arcs (value : UInt64) : Bytes → List UInt64
  | [] => []
  | [b] => [value <<< 7 + (b &&& 0x7F).toUInt64]
  | b :: rest =>
    let value := value <<< 7 + (b &&& 0x7F).toUInt64
    if b < 0x80 then value :: arcs 0 rest else arcs value rest

def numbers : Bytes → List Nat
  | [] => []
  | [0] => [0]
  | first :: rest =>
    first.toNat / 40 :: first.toNat % 40 :: (arcs 0 rest).map (fun n => n.toNat)

def text (oid : Bytes) : String :=
  if widest 0 0 (oid.drop 1) ≤ 64 then ".".intercalate ((numbers oid).map (fun n => toString n))
  else " ".intercalate (oid.map (fun b => Bytes.toHex [b]))

end TlsCensus.Oid
