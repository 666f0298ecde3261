import TlsCensus.Capture
import TlsCensus.Certificate.KeyInfo
import TlsCensus.Seen
import TlsCensus.Window

/-! Captures in, unique classified certificates out. A blob is observed once per harvest
of the shared digests; only the first sight of it is classified and stored. The clock is
a parameter: its n-th reading is taken for the n-th store. -/
namespace TlsCensus

structure HarvestStats where
  rows : Nat
  empty : Nat
  handshake : Nat
  other : Nat
  records : Nat
  certificatesSeen : Nat
  unique : Nat
  duplicates : Nat
  unclassified : Nat
  stored : Nat
  storeFailures : Nat
  truncatedRecords : Nat
  truncatedMessages : Nat
  truncatedContainers : Nat
  deriving DecidableEq, Repr

namespace HarvestStats

def zero : HarvestStats := ⟨0, 0, 0, 0, 0, 0, 0, 0, 0, 0, 0, 0, 0, 0⟩

def countKind (s : HarvestStats) : Capture.ResponseKind → HarvestStats
  | .empty => { s with rows := s.rows + 1, empty := s.empty + 1 }
  | .handshake => { s with rows := s.rows + 1, handshake := s.handshake + 1 }
  | .other => { s with rows := s.rows + 1, other := s.other + 1 }

def countIssue (s : HarvestStats) : Capture.Issue → HarvestStats
  | .record _ => { s with truncatedRecords := s.truncatedRecords + 1 }
  | .message _ => { s with truncatedMessages := s.truncatedMessages + 1 }
  | .certificates _ => { s with truncatedContainers := s.truncatedContainers + 1 }

def countResponse (s : HarvestStats) (response : Bytes) : HarvestStats :=
  let found := Capture.extract response
  let s := s.countKind (.of response)
  found.issues.foldl countIssue { s with records := s.records + found.records }

end HarvestStats

structure Harvester (σ : Type) where
  window : Window σ
  stats : HarvestStats
  readings : Nat
  deriving Repr

namespace Harvester
variable {σ ε : Type}

structure Setting (σ ε : Type) where
  classify : Classifier
  sink : Sink σ ε
  clock : Nat → Nat

def new (sink : σ) (maxAge : Nat) : Harvester σ := ⟨.new sink maxAge, .zero, 0⟩

def keep (E : Setting σ ε) (der : Bytes) (h : Harvester σ) : Harvester σ :=
  match E.classify der with
  | .error _ => { h with stats := { h.stats with unclassified := h.stats.unclassified + 1 } }
  | .ok info =>
    let record := ⟨info.keyType, info.bitLength, der⟩
    match h.window.storeCertificate E.sink record (E.clock h.readings) with
    | (.ok (), w) => ⟨w, { h.stats with stored := h.stats.stored + 1 }, h.readings + 1⟩
    | (.error _, w) =>
      ⟨w, { h.stats with storeFailures := h.stats.storeFailures + 1 }, h.readings + 1⟩

def offer (E : Setting σ ε) (state : Seen × Harvester σ) (der : Bytes) : Seen × Harvester σ :=
  let (seen, h) := state
  let h := { h with stats := { h.stats with certificatesSeen := h.stats.certificatesSeen + 1 } }
  match seen.observe (.ofBytes der) with
  | (.duplicate, seen) =>
    (seen, { h with stats := { h.stats with duplicates := h.stats.duplicates + 1 } })
  | (.first, seen) =>
    (seen, keep E der { h with stats := { h.stats with unique := h.stats.unique + 1 } })

def processResponse (E : Setting σ ε) (state : Seen × Harvester σ) (response : Bytes) :
    Seen × Harvester σ :=
  let (seen, h) := state
  (Capture.extract response).certificates.foldl (offer E)
    (seen, { h with stats := h.stats.countResponse response })

def processAll (E : Setting σ ε) (state : Seen × Harvester σ) (responses : List Bytes) :
    Seen × Harvester σ :=
  responses.foldl (processResponse E) state

def finish (E : Setting σ ε) (h : Harvester σ) : Except ε (HarvestStats × σ) :=
  match h.window.flush E.sink with
  | (.ok (), w) => .ok (h.stats, w.sink)
  | (.error e, _) => .error e

end Harvester
end TlsCensus
