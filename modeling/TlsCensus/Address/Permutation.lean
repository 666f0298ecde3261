import TlsCensus.Digest.Blake3

/-! A keyed bijection of `[0, range)`. A balanced network permutes the smallest
power-of-two domain that covers the range; outputs in the padding are fed through it
again, at most `cap` times. The round function is a parameter throughout, and `keyed`
is the one in use. -/
namespace TlsCensus

structure Network where
  highBits : UInt64
  lowBits : UInt64
  rounds : UInt32
  deriving DecidableEq, Repr

namespace Network

abbrev RoundFunction := UInt32 → UInt64 → UInt64

def lowMask (bits : UInt64) : UInt64 :=
  if bits = 0 then 0 else if 64 ≤ bits then 0xFFFFFFFFFFFFFFFF else (1 <<< bits) - 1

def bitsFor (range : UInt64) : Nat :=
  if range ≤ 1 then 0 else (range - 1).toNat.log2 + 1

def covering (range : UInt64) (rounds : UInt32) : Network :=
  let bits := bitsFor range
  let high := (bits + 1) / 2
  ⟨high.toUInt64, (bits - high).toUInt64, rounds⟩

def split (n : Network) (v : UInt64) : UInt64 × UInt64 := (v >>> n.lowBits, v &&& lowMask n.lowBits)

def join (n : Network) (halves : UInt64 × UInt64) : UInt64 := halves.1 <<< n.lowBits ||| halves.2

def round (n : Network) (F : RoundFunction) (k : UInt32) (halves : UInt64 × UInt64) : UInt64 × UInt64 :=
  if k % 2 = 0 then (halves.1 ^^^ (F k halves.2 &&& lowMask n.highBits), halves.2)
  else (halves.1, halves.2 ^^^ (F k halves.1 &&& lowMask n.lowBits))

def forward (n : Network) (F : RoundFunction) : Nat → UInt64 × UInt64 → UInt64 × UInt64
  | 0, halves => halves
  | count + 1, halves => n.round F count.toUInt32 (forward n F count halves)

def backward (n : Network) (F : RoundFunction) : Nat → UInt64 × UInt64 → UInt64 × UInt64
  | 0, halves => halves
  | count + 1, halves => backward n F count (n.round F count.toUInt32 halves)

def encrypt (n : Network) (F : RoundFunction) (v : UInt64) : UInt64 :=
  n.join (n.forward F n.rounds.toNat (n.split v))

def decrypt (n : Network) (F : RoundFunction) (v : UInt64) : UInt64 :=
  n.join (n.backward F n.rounds.toNat (n.split v))

end Network

structure Permutation where
  range : UInt64
  seed : UInt64
  network : Network
  cap : UInt32
  deriving DecidableEq, Repr

namespace Permutation

def defaultRounds : UInt32 := 4
def defaultCap : UInt32 := 128

inductive Error where
  | emptyRange
  | outside (index range : UInt64)
  | walkTooLong (start : UInt64) (cap : UInt32)
  deriving DecidableEq, Repr

def new (range seed : UInt64) (rounds : UInt32) : Except Error Permutation :=
  if range = 0 then .error .emptyRange
  else .ok ⟨range, seed, .covering range rounds, defaultCap⟩

def withCap (p : Permutation) (cap : UInt32) : Permutation := { p with cap := cap }

def wordsOf (v : UInt64) : List UInt32 := [v.toUInt32, (v >>> 32).toUInt32]

def keyed (seed : UInt64) : Network.RoundFunction :=
  let key := Blake3.hash (wordsOf seed)
  fun k half =>
    let out := Blake3.keyedHash key (k :: wordsOf half)
    (out.get ⟨0, Nat.zero_lt_succ 7⟩).toUInt64 ||| (out.get ⟨1, Nat.succ_lt_succ (Nat.zero_lt_succ 6)⟩).toUInt64 <<< 32

def land (range : UInt64) (step : UInt64 → UInt64) : Nat → UInt64 → Option UInt64
  | 0, v => if v < range then some v else none
  | more + 1, v => if v < range then some v else land range step more (step v)

def walk (p : Permutation) (step : UInt64 → UInt64) (start : UInt64) : Except Error UInt64 :=
  if p.range ≤ start then .error (.outside start p.range)
  else
    match land p.range step p.cap.toNat (step start) with
    | some v => .ok v
    | none => .error (.walkTooLong start p.cap)

def shuffleBy (F : Network.RoundFunction) (p : Permutation) (index : UInt64) : Except Error UInt64 :=
  p.walk (p.network.encrypt F) index

def unshuffleBy (F : Network.RoundFunction) (p : Permutation) (value : UInt64) : Except Error UInt64 :=
  p.walk (p.network.decrypt F) value

def shuffle (p : Permutation) (index : UInt64) : Except Error UInt64 :=
  p.shuffleBy (keyed p.seed) index

def unshuffle (p : Permutation) (value : UInt64) : Except Error UInt64 :=
  p.unshuffleBy (keyed p.seed) value

def describe (p : Permutation) : String :=
  let n := p.network
  "PermutationEngine \x7b " ++ s!"range: {p.range}, seed: {p.seed}, rounds: {n.rounds}, " ++
    s!"a_bits: {n.highBits}, b_bits: {n.lowBits}, cycle_cap: {p.cap}" ++ " \x7d"

end Permutation
end TlsCensus
