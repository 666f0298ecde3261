import TlsCensus.Address.Block
import TlsCensus.Address.Permutation

/-! A sweep visits every address of its blocks once, in keyed pseudorandom order. Its
cursor runs over a window of the index space of the sorted blocks laid end to end; each
index is shuffled over the whole space, so disjoint windows visit disjoint addresses. -/
namespace TlsCensus

inductive SweepError where
  | permutation (error : Permutation.Error)
  | badPrefix (error : Block.PrefixError)
  | badCidr (text : String)
  | overlap (new existing : Block)
  | noRanges
  | badShard (index count : Nat)
  | exhausted
  | shardWindow (index count start stop : Nat)
  | outsideBlocks (cursor : Nat)
  deriving DecidableEq, Repr

namespace SweepError

def message : SweepError → String
  | .permutation .emptyRange => "permutation range must be non-zero"
  | .permutation (.outside index range) => s!"index {index} outside permutation range {range}"
  | .permutation (.walkTooLong start cap) =>
    s!"permutation invariant violated: cycle walk from {start} exceeded {cap} steps"
  | .badPrefix (.length length) => s!"invalid prefix length /{length}"
  | .badPrefix (.hostBits address length) =>
    let address := Address.text address
    s!"{address}/{length} has host bits set"
  | .badCidr text => s!"invalid CIDR '{text}'"
  | .overlap new existing =>
    let (new, existing) := (new.text, existing.text)
    s!"range {new} overlaps already configured {existing}"
  | .noRanges => "no address ranges configured"
  | .badShard index count => s!"invalid shard {index} of {count}"
  | .exhausted => "address space exhausted"
  | .shardWindow index count start stop =>
    s!"shard invariant violated: shard {index}/{count}: start {start} > end {stop}"
  | .outsideBlocks cursor => s!"shard invariant violated: cursor {cursor} maps outside every range"

def isFatal : SweepError → Bool
  | .permutation (.walkTooLong ..) | .shardWindow .. | .outsideBlocks _ => true
  | _ => false

end SweepError

structure Sweep where
  blocks : List Block
  total : Nat
  seed : UInt64
  rounds : UInt32
  cap : UInt32
  permutation : Option Permutation
  cursor : Nat
  start : Nat
  stop : Nat
  deriving DecidableEq, Repr

namespace Sweep

def new (seed : UInt64) (rounds : UInt32) : Sweep :=
  ⟨[], 0, seed, rounds, Permutation.defaultCap, none, 0, 0, 0⟩

def withCap (s : Sweep) (cap : UInt32) : Sweep :=
  { s with cap := cap, permutation := s.permutation.map (·.withCap cap) }

def addBlock (s : Sweep) (block : Block) : Except SweepError Unit × Sweep :=
  match s.blocks.find? (·.overlaps block) with
  | some existing => (.error (.overlap block existing), s)
  | none =>
    let blocks := block.insertSorted s.blocks
    let grown := { s with blocks := blocks, total := Block.total blocks }
    match Permutation.new grown.total.toUInt64 s.seed s.rounds with
    | .error e => (.error (.permutation e), grown)
    | .ok p =>
      (.ok (), { grown with permutation := some (p.withCap s.cap), cursor := 0, start := 0,
                            stop := grown.total })

def addPrefix (s : Sweep) (address : UInt32) (length : UInt8) : Except SweepError Unit × Sweep :=
  match Block.ofPrefix address length with
  | .error e => (.error (.badPrefix e), s)
  | .ok block => s.addBlock block

def readCidr (cs : List Char) : Option (UInt32 × UInt8) :=
  if cs.contains '/' then Address.withLength? cs
  else (Address.ofText? cs).map (fun a => (a, 32))

def addCidr (s : Sweep) (text : String) : Except SweepError Unit × Sweep :=
  let cs := Text.trimChars text.toList
  match readCidr cs with
  | none => (.error (.badCidr (String.ofList cs)), s)
  | some (address, length) => s.addPrefix address length

def shard (s : Sweep) (count index : Nat) : Except SweepError Sweep :=
  if count = 0 ∨ count ≤ index then .error (.badShard index count)
  else if s.blocks.isEmpty then .error .noRanges
  else
    let chunk := s.total / count
    let start := index * chunk
    let stop := if index + 1 = count then s.total else start + chunk
    if stop < start then .error (.shardWindow index count start stop)
    else .ok { s with start := start, cursor := start, stop := stop }

def finished (s : Sweep) : Bool := s.stop ≤ s.cursor

def remaining (s : Sweep) : Nat := s.stop - s.cursor

/-- The next address of the window. The cursor moves once its index is shuffled. -/
def next (s : Sweep) : Except SweepError UInt32 × Sweep :=
  match s.permutation with
  | none => (.error .noRanges, s)
  | some p =>
    if s.finished then (.error .exhausted, s)
    else
      match p.shuffle s.cursor.toUInt64 with
      | .error e => (.error (.permutation e), s)
      | .ok index =>
        let moved := { s with cursor := s.cursor + 1 }
        match Block.at? s.blocks index.toNat with
        | none => (.error (.outsideBlocks s.cursor), moved)
        | some address => (.ok address, moved)

theorem remainingNext {s after : Sweep} {address : UInt32} (taken : s.next = (.ok address, after)) :
    after.remaining < s.remaining := by
  unfold next at taken
  split at taken
  · simp at taken
  · split at taken
    · simp at taken
    · rename_i unfinished
      split at taken
      · simp at taken
      · split at taken
        · simp at taken
        · have moved := (Prod.mk.inj taken).2
          simp [finished] at unfinished
          simp [← moved, remaining]
          omega

end Sweep
end TlsCensus
