import TlsCensus.Bytes

/-! What is known of one address after a probe, and what is kept of a certificate.
Result and key codes have stored numbers of their own. -/
namespace TlsCensus

inductive ResultCode where
  | connectFailed
  | tcpTimeout
  | tlsCompleted
  | tlsTimeout
  | tlsError
  deriving DecidableEq, Repr

namespace ResultCode

def stored : ResultCode → Int64
  | .connectFailed => 0
  | .tcpTimeout => 1
  | .tlsCompleted => 2
  | .tlsTimeout => 3
  | .tlsError => 4

def all : List ResultCode := [.connectFailed, .tcpTimeout, .tlsCompleted, .tlsTimeout, .tlsError]

def ofStored? (n : Int64) : Option ResultCode := all.find? (·.stored == n)

def label : ResultCode → String
  | .connectFailed => "connect-failed"
  | .tcpTimeout => "tcp-timeout"
  | .tlsCompleted => "tls-completed"
  | .tlsTimeout => "tls-timeout"
  | .tlsError => "tls-error"

def isTimeout : ResultCode → Bool
  | .tcpTimeout | .tlsTimeout => true
  | _ => false

def labelOfStored (n : Int64) : String :=
  match ofStored? n with
  | some code => code.label
  | none => let number := n.toInt; s!"unknown({number})"

end ResultCode

inductive KeyType where
  | rsa
  | ec
  | dsa
  | dh
  deriving DecidableEq, Repr

namespace KeyType

def stored : KeyType → Int64
  | .rsa => 0
  | .ec => 1
  | .dsa => 2
  | .dh => 3

def all : List KeyType := [.rsa, .ec, .dsa, .dh]

def ofStored? (n : Int64) : Option KeyType := all.find? (·.stored == n)

def label : KeyType → String
  | .rsa => "RSA"
  | .ec => "EC"
  | .dsa => "DSA"
  | .dh => "DH"

end KeyType

structure Outcome where
  address : UInt32
  port : UInt16
  result : ResultCode
  raw : Bytes
  fetchedAt : UInt64
  deriving DecidableEq, Repr

def Outcome.connectFailed (address : UInt32) (port : UInt16) (fetchedAt : UInt64) : Outcome :=
  ⟨address, port, .connectFailed, [], fetchedAt⟩

structure RawRow where
  address : UInt32
  port : UInt16
  fetchedAt : UInt64
  result : Int64
  response : Bytes
  deriving DecidableEq, Repr

def Outcome.toRow (o : Outcome) : RawRow :=
  ⟨o.address, o.port, o.fetchedAt, o.result.stored, o.raw⟩

structure CertificateRecord where
  keyType : KeyType
  bitLength : UInt32
  der : Bytes
  deriving DecidableEq, Repr

end TlsCensus
