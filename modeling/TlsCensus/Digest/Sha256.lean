import TlsCensus.Bytes

/-! SHA-256 by blocks of sixteen big-endian words. A hasher takes its input in
pieces; what it has absorbed and what still waits for a full block are its state. -/
namespace TlsCensus.Sha256

structure Words where
  a : UInt32
  b : UInt32
  c : UInt32
  d : UInt32
  e : UInt32
  f : UInt32
  g : UInt32
  h : UInt32
  deriving DecidableEq, Repr

def Words.toList (w : Words) : List UInt32 := [w.a, w.b, w.c, w.d, w.e, w.f, w.g, w.h]

def initial : Words :=
  ⟨0x6a09e667, 0xbb67ae85, 0x3c6ef372, 0xa54ff53a, 0x510e527f, 0x9b05688c, 0x1f83d9ab, 0x5be0cd19⟩

def roundConstants : List UInt32 := [
  0x428a2f98, 0x71374491, 0xb5c0fbcf, 0xe9b5dba5, 0x3956c25b, 0x59f111f1, 0x923f82a4, 0xab1c5ed5,
  0xd807aa98, 0x12835b01, 0x243185be, 0x550c7dc3, 0x72be5d74, 0x80deb1fe, 0x9bdc06a7, 0xc19bf174,
  0xe49b69c1, 0xefbe4786, 0x0fc19dc6, 0x240ca1cc, 0x2de92c6f, 0x4a7484aa, 0x5cb0a9dc, 0x76f988da,
  0x983e5152, 0xa831c66d, 0xb00327c8, 0xbf597fc7, 0xc6e00bf3, 0xd5a79147, 0x06ca6351, 0x14292967,
  0x27b70a85, 0x2e1b2138, 0x4d2c6dfc, 0x53380d13, 0x650a7354, 0x766a0abb, 0x81c2c92e, 0x92722c85,
  0xa2bfe8a1, 0xa81a664b, 0xc24b8b70, 0xc76c51a3, 0xd192e819, 0xd6990624, 0xf40e3585, 0x106aa070,
  0x19a4c116, 0x1e376c08, 0x2748774c, 0x34b0bcb5, 0x391c0cb3, 0x4ed8aa4a, 0x5b9cca4f, 0x682e6ff3,
  0x748f82ee, 0x78a5636f, 0x84c87814, 0x8cc70208, 0x90befffa, 0xa4506ceb, 0xbef9a3f7, 0xc67178f2]

def rotateRight (x : UInt32) (n : UInt32) : UInt32 := x >>> n ||| x <<< (32 - n)

def bigSigma0 (x : UInt32) := rotateRight x 2 ^^^ rotateRight x 13 ^^^ rotateRight x 22
def bigSigma1 (x : UInt32) := rotateRight x 6 ^^^ rotateRight x 11 ^^^ rotateRight x 25
def smallSigma0 (x : UInt32) := rotateRight x 7 ^^^ rotateRight x 18 ^^^ x >>> 3
def smallSigma1 (x : UInt32) := rotateRight x 17 ^^^ rotateRight x 19 ^^^ x >>> 10

def choose (x y z : UInt32) := x &&& y ^^^ ~~~x &&& z
def majority (x y z : UInt32) := x &&& y ^^^ x &&& z ^^^ y &&& z

def wordsOf : Bytes → List UInt32
  | p :: q :: r :: s :: rest =>
    (p.toUInt32 <<< 24 ||| q.toUInt32 <<< 16 ||| r.toUInt32 <<< 8 ||| s.toUInt32) :: wordsOf rest
  | _ => []

def nextWord (window : List UInt32) : UInt32 :=
  smallSigma1 (window.getD 14 0) + window.getD 9 0 + smallSigma0 (window.getD 1 0) + window.getD 0 0

def schedule : Nat → List UInt32 → List UInt32
  | 0, window => window
  | more + 1, window => window.headD 0 :: schedule more (window.drop 1 ++ [nextWord window])

def round (w : Words) (kw : UInt32 × UInt32) : Words :=
  let t1 := w.h + bigSigma1 w.e + choose w.e w.f w.g + kw.1 + kw.2
  let t2 := bigSigma0 w.a + majority w.a w.b w.c
  ⟨t1 + t2, w.a, w.b, w.c, w.d + t1, w.e, w.f, w.g⟩

def compress (w : Words) (block : Bytes) : Words :=
  let out := (roundConstants.zip (schedule 48 (wordsOf block))).foldl round w
  ⟨w.a + out.a, w.b + out.b, w.c + out.c, w.d + out.d,
   w.e + out.e, w.f + out.f, w.g + out.g, w.h + out.h⟩

def absorb (w : Words) (data : Bytes) : Words × Bytes :=
  match _cut : Bytes.cut? 64 data with
  | some (block, rest) => absorb (compress w block) rest
  | none => (w, data)
termination_by data.length
decreasing_by
  have whole := Bytes.cutLength _cut
  simp only [whole.1, List.length_append, whole.2]
  omega

structure Hasher where
  words : Words
  waiting : Bytes
  size : Nat
  deriving DecidableEq, Repr

def Hasher.new : Hasher := ⟨initial, [], 0⟩

def Hasher.update (s : Hasher) (data : Bytes) : Hasher :=
  let (words, waiting) := absorb s.words (s.waiting ++ data)
  ⟨words, waiting, s.size + data.length⟩

def padding (size : Nat) : Bytes :=
  0x80 :: List.replicate ((119 - size % 64) % 64) 0 ++ (Bytes.littleEndian 8 (8 * size)).reverse

def octets (x : UInt32) : Bytes :=
  [(x >>> 24).toUInt8, (x >>> 16).toUInt8, (x >>> 8).toUInt8, x.toUInt8]

def Words.octets (w : Words) : Bytes := w.toList.flatMap Sha256.octets

theorem lengthOctets (w : Words) : w.octets.length = 32 := rfl

def Hasher.finish (s : Hasher) : Words :=
  (absorb s.words (s.waiting ++ padding s.size)).1

end TlsCensus.Sha256
