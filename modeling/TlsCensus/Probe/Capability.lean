import TlsCensus.Bytes

/-! A handshake seen from outside: it is begun once, takes bytes in, gives bytes out and
says how far it is. Any state with these four operations is one. -/
namespace TlsCensus

inductive HandshakeError where
  | alreadyInitiated
  deriving DecidableEq, Repr

def HandshakeError.message : HandshakeError → String
  | .alreadyInitiated => "handshake already initiated"

inductive Verdict where
  | awaiting
  | done
  | failed
  deriving DecidableEq, Repr

structure Capability (κ : Type) where
  initiate : κ → Except HandshakeError Unit × κ
  step : κ → Verdict × κ
  output : κ → Bytes × κ
  feed : Bytes → κ → κ

inductive CapabilityCall where
  | initiate
  | step
  | output
  | feed (data : Bytes)
  deriving DecidableEq, Repr

namespace Capability
variable {κ : Type}

def traced (C : Capability κ) : Capability (κ × List CapabilityCall) where
  initiate s := let (answer, k) := C.initiate s.1; (answer, k, s.2 ++ [.initiate])
  step s := let (verdict, k) := C.step s.1; (verdict, k, s.2 ++ [.step])
  output s := let (out, k) := C.output s.1; (out, k, s.2 ++ [.output])
  feed data s := (C.feed data s.1, s.2 ++ [.feed data])

end Capability

/-- A handshake read off a script: verdicts and outputs are used up in order, then it
awaits and is silent. -/
structure Script where
  verdicts : List Verdict
  outputs : List Bytes
  refusesInitiate : Bool
  deriving DecidableEq, Repr

def Script.capability : Capability Script where
  initiate s := (if s.refusesInitiate then .error .alreadyInitiated else .ok (), s)
  step s := (s.verdicts.headD .awaiting, { s with verdicts := s.verdicts.drop 1 })
  output s := (s.outputs.headD [], { s with outputs := s.outputs.drop 1 })
  feed _ s := s

end TlsCensus
