import TlsCensus.Outcome

/-! What a classifier says of a certificate: family and size of its public key, or why
there is no answer. -/
namespace TlsCensus

inductive ClassifyError where
  | unsupported (algorithm : String)
  | undecodable
  deriving DecidableEq, Repr

def ClassifyError.message : ClassifyError → String
  | .unsupported algorithm => s!"unsupported public key algorithm {algorithm}"
  | .undecodable => "certificate DER could not be decoded"

structure KeyInfo where
  keyType : KeyType
  bitLength : UInt32
  deriving DecidableEq, Repr

abbrev Classifier := Bytes → Except ClassifyError KeyInfo

end TlsCensus
