/-! BLAKE3 of a message of at most sixteen whole words: one block, which is both the
first and the last of its chunk and the root of its tree. Longer input is out of scope. -/
namespace TlsCensus.Blake3

abbrev Key := Vector UInt32 8

def initial : Key :=
  #v[0x6a09e667, 0xbb67ae85, 0x3c6ef372, 0xa54ff53a, 0x510e527f, 0x9b05688c, 0x1f83d9ab, 0x5be0cd19]

abbrev Block := Vector UInt32 16

def rotateRight (x : UInt32) (n : UInt32) : UInt32 := x >>> n ||| x <<< (32 - n)

def mix (v : Block) (a b c d : Fin 16) (x y : UInt32) : Block :=
  let va := v[a] + v[b] + x
  let vd := rotateRight (v[d] ^^^ va) 16
  let vc := v[c] + vd
  let vb := rotateRight (v[b] ^^^ vc) 12
  let va := va + vb + y
  let vd := rotateRight (vd ^^^ va) 8
  let vc := vc + vd
  let vb := rotateRight (vb ^^^ vc) 7
  ((((v.set a va).set b vb).set c vc).set d vd)

def round (v m : Block) : Block :=
  let v := mix v 0 4 8 12 m[0] m[1]
  let v := mix v 1 5 9 13 m[2] m[3]
  let v := mix v 2 6 10 14 m[4] m[5]
  let v := mix v 3 7 11 15 m[6] m[7]
  let v := mix v 0 5 10 15 m[8] m[9]
  let v := mix v 1 6 11 12 m[10] m[11]
  let v := mix v 2 7 8 13 m[12] m[13]
  mix v 3 4 9 14 m[14] m[15]

def permute (m : Block) : Block :=
  #v[m[2], m[6], m[3], m[10], m[7], m[0], m[4], m[13],
     m[1], m[11], m[12], m[5], m[9], m[14], m[15], m[8]]

def rounds : Nat → Block → Block → Block
  | 0, v, _ => v
  | more + 1, v, m => rounds more (round v m) (permute m)

def singleBlock (key : Key) (flags : UInt32) (message : List UInt32) : Key :=
  let start : Block :=
    #v[key[0], key[1], key[2], key[3], key[4], key[5], key[6], key[7],
       initial[0], initial[1], initial[2], initial[3],
       0, 0, (4 * message.length).toUInt32, flags]
  let block : Block := Vector.ofFn fun i => message.getD i.val 0
  let v := rounds 7 start block
  Vector.ofFn fun i => v[i.val] ^^^ v[i.val + 8]

def hash (message : List UInt32) : Key := singleBlock initial 0x0B message

def keyedHash (key : Key) (message : List UInt32) : Key := singleBlock key 0x1B message

end TlsCensus.Blake3
