import TlsCensus.Window

/-! A sink kept in memory. It refuses the first few begins and commits and every row
it is told to refuse, and writes down, in order, the calls it let through. -/
namespace TlsCensus

inductive SinkCall where
  | begun
  | committed
  | inserted (row : Row)
  deriving DecidableEq, Repr

inductive Refusal where
  | begin
  | commit
  | insert
  deriving DecidableEq, Repr

def Refusal.message : Refusal → String
  | .begin => "begin refused"
  | .commit => "commit refused"
  | .insert => "insert refused"

structure Recorder where
  refusedBegins : Nat
  refusedCommits : Nat
  refusedAddresses : List UInt32
  refusedBitLengths : List UInt32
  calls : List SinkCall
  deriving DecidableEq, Repr

namespace Recorder

def refuses (r : Recorder) : Row → Bool
  | .raw o => r.refusedAddresses.contains o.address
  | .certificate c => r.refusedBitLengths.contains c.bitLength

def note (r : Recorder) (call : SinkCall) : Recorder := { r with calls := r.calls ++ [call] }

def sink : Sink Recorder Refusal where
  beginTransaction r :=
    match r.refusedBegins with
    | n + 1 => (.error .begin, { r with refusedBegins := n })
    | 0 => (.ok (), r.note .begun)
  commitTransaction r :=
    match r.refusedCommits with
    | n + 1 => (.error .commit, { r with refusedCommits := n })
    | 0 => (.ok (), r.note .committed)
  insert row r :=
    if r.refuses row then (.error .insert, r) else (.ok (), r.note (.inserted row))

end Recorder
end TlsCensus
