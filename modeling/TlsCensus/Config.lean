import TlsCensus.Yaml.Reading

/-! The configuration: one section for scans and one for harvests. A section knows its keys
and refuses others; beside the sections anything may stand. -/
namespace TlsCensus

structure ScanSection where
  ranges : Option (List String)
  port : Option UInt16
  workers : Option UInt64
  connections : Option UInt64
  timeoutMs : Option UInt64
  pollIntervalMs : Option UInt64
  commitIntervalMs : Option UInt64
  reportIntervalMs : Option UInt64
  rounds : Option UInt32
  seed : Option UInt64
  storeUnanswered : Option Bool
  db : Option String
  format : Option String
  deriving DecidableEq, Repr

structure HarvestSection where
  rawDb : Option String
  certsDb : Option String
  commitIntervalMs : Option UInt64
  format : Option String
  deriving DecidableEq, Repr

structure Config where
  scan : Option ScanSection
  harvest : Option HarvestSection
  deriving DecidableEq, Repr

namespace ScanSection

def empty : ScanSection :=
  ⟨none, none, none, none, none, none, none, none, none, none, none, none, none⟩

def keys : List String :=
  ["ranges", "port", "workers", "connections", "timeout_ms", "poll_interval_ms",
   "commit_interval_ms", "report_interval_ms", "rounds", "seed", "store_unanswered", "db", "format"]

end ScanSection

def HarvestSection.keys : List String := ["raw_db", "certs_db", "commit_interval_ms", "format"]

namespace Config
open Yaml (Document Node)

def empty : Config := ⟨none, none⟩

def distinct (keys : List String) (members : List (String × Node)) : Bool :=
  keys.all (fun key => members.countP (·.1 == key) ≤ 1)

def sectionMembers? (d : Document) (keys : List String) (n : Node) : Option (List (String × Node)) := do
  let members ← d.members? n
  if members.all (keys.contains ·.1) && distinct keys members then some members else none

def scanSection? (d : Document) (n : Node) : Option ScanSection := do
  let members ← sectionMembers? d ScanSection.keys n
  return {
    ranges := ← d.member? d.texts? members "ranges"
    port := ← d.member? d.word16? members "port"
    workers := ← d.member? d.word64? members "workers"
    connections := ← d.member? d.word64? members "connections"
    timeoutMs := ← d.member? d.word64? members "timeout_ms"
    pollIntervalMs := ← d.member? d.word64? members "poll_interval_ms"
    commitIntervalMs := ← d.member? d.word64? members "commit_interval_ms"
    reportIntervalMs := ← d.member? d.word64? members "report_interval_ms"
    rounds := ← d.member? d.word32? members "rounds"
    seed := ← d.member? d.word64? members "seed"
    storeUnanswered := ← d.member? d.bool? members "store_unanswered"
    db := ← d.member? d.text? members "db"
    format := ← d.member? d.text? members "format" }

def harvestSection? (d : Document) (n : Node) : Option HarvestSection := do
  let members ← sectionMembers? d HarvestSection.keys n
  return {
    rawDb := ← d.member? d.text? members "raw_db"
    certsDb := ← d.member? d.text? members "certs_db"
    commitIntervalMs := ← d.member? d.word64? members "commit_interval_ms"
    format := ← d.member? d.text? members "format" }

def ofDocument? (d : Document) : Option Config :=
  match d.root with
  | none => some .empty
  | some root => do
    let members ← d.members? root
    if !distinct ["scan", "harvest"] members then none
    return {
      scan := ← d.member? (scanSection? d) members "scan"
      harvest := ← d.member? (harvestSection? d) members "harvest" }

def ofText? (text : String) : Option Config := (Document.ofText? text).bind ofDocument?

end Config
end TlsCensus
