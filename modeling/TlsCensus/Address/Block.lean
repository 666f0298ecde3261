import TlsCensus.Address

/-! Inclusive blocks of addresses. A prefix shorter than /31 loses its first and its
last address; /31 and /32 keep every one. -/
namespace TlsCensus

structure Block where
  first : UInt32
  last : UInt32
  deriving DecidableEq, Repr

namespace Block

inductive PrefixError where
  | length (length : UInt8)
  | hostBits (address : UInt32) (length : UInt8)
  deriving DecidableEq, Repr

def hostMask (length : UInt8) : UInt32 :=
  if length = 0 then 0xFFFFFFFF else (1 <<< (32 - length).toUInt32) - 1

def ofPrefix (address : UInt32) (length : UInt8) : Except PrefixError Block :=
  if 32 < length then .error (.length length)
  else if address &&& hostMask length ≠ 0 then .error (.hostBits address length)
  else
    let last := address ||| hostMask length
    if 31 ≤ length then .ok ⟨address, last⟩ else .ok ⟨address + 1, last - 1⟩

def size (b : Block) : Nat := (b.last - b.first).toNat + 1

def contains (b : Block) (a : UInt32) : Bool := b.first ≤ a && a ≤ b.last

def overlaps (b c : Block) : Bool := b.first ≤ c.last && c.first ≤ b.last

def text (b : Block) : String := Address.text b.first ++ "-" ++ Address.text b.last

def order (b c : Block) : Ordering :=
  (compare b.first c.first).then (compare b.last c.last)

def insertSorted (b : Block) : List Block → List Block
  | [] => [b]
  | c :: rest => if (c.order b).isGT then b :: c :: rest else c :: insertSorted b rest

def total : List Block → Nat
  | [] => 0
  | b :: rest => b.size + total rest

def at? : List Block → Nat → Option UInt32
  | [], _ => none
  | b :: rest, i => if i < b.size then some (b.first + i.toUInt32) else at? rest (i - b.size)

end Block
end TlsCensus
