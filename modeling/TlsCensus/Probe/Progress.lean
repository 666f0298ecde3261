import TlsCensus.Outcome

/-! Counters of a running scan. They wrap at 64 bits. -/
namespace TlsCensus

structure Progress where
  attempted : UInt64
  connectFailed : UInt64
  tcpTimeout : UInt64
  completed : UInt64
  tlsTimeout : UInt64
  tlsError : UInt64
  stored : UInt64
  storeFailures : UInt64
  deriving DecidableEq, Repr

namespace Progress

def zero : Progress := ⟨0, 0, 0, 0, 0, 0, 0, 0⟩

def recordAttempt (p : Progress) : Progress := { p with attempted := p.attempted + 1 }

def recordResult (p : Progress) : ResultCode → Progress
  | .connectFailed => { p with connectFailed := p.connectFailed + 1 }
  | .tcpTimeout => { p with tcpTimeout := p.tcpTimeout + 1 }
  | .tlsCompleted => { p with completed := p.completed + 1 }
  | .tlsTimeout => { p with tlsTimeout := p.tlsTimeout + 1 }
  | .tlsError => { p with tlsError := p.tlsError + 1 }

def recordStored (p : Progress) (stored failed : UInt64) : Progress :=
  { p with stored := p.stored + stored, storeFailures := p.storeFailures + failed }

def recordAll (p : Progress) (outcomes : List Outcome) : Progress :=
  outcomes.foldl (fun p o => p.recordResult o.result) p

def add (p q : Progress) : Progress :=
  ⟨p.attempted + q.attempted, p.connectFailed + q.connectFailed, p.tcpTimeout + q.tcpTimeout,
   p.completed + q.completed, p.tlsTimeout + q.tlsTimeout, p.tlsError + q.tlsError,
   p.stored + q.stored, p.storeFailures + q.storeFailures⟩

def finished (p : Progress) : UInt64 :=
  p.connectFailed + p.tcpTimeout + p.completed + p.tlsTimeout + p.tlsError

end Progress

def storable (storeUnanswered : Bool) (outcomes : List Outcome) : List Outcome :=
  if storeUnanswered then outcomes else outcomes.filter (·.result ≠ .tcpTimeout)

end TlsCensus
