import Std.Data.HashSet
import TlsCensus.Digest

/-! The digests met so far. Membership is decided and recorded in one step; nothing is
ever removed. -/
namespace TlsCensus

inductive Observation where
  | first
  | duplicate
  deriving DecidableEq, Repr

structure Seen where
  digests : Std.HashSet Digest

namespace Seen

def empty : Seen := ⟨∅⟩

def contains (s : Seen) (d : Digest) : Bool := s.digests.contains d

def size (s : Seen) : Nat := s.digests.size

def observe (s : Seen) (d : Digest) : Observation × Seen :=
  if s.contains d then (.duplicate, s) else (.first, ⟨s.digests.insert d⟩)

end Seen
end TlsCensus
