import TlsCensus.CommandLine.Task
import TlsCensus.Config

/-! What a command goes by: arguments before the configuration before what is usual. -/
namespace TlsCensus

inductive SettingsError where
  | unreadableRanges (path : String)
  | noRanges
  | nothingToRun
  deriving DecidableEq, Repr

def SettingsError.message : SettingsError → String
  | .unreadableRanges path => s!"read ranges file {path}"
  | .noRanges => "no ranges given: pass CIDR blocks, --ranges-file, or scan.ranges in the config"
  | .nothingToRun => "--workers and --connections must be > 0"

structure ScanSettings where
  ranges : List String
  port : UInt16
  workers : UInt64
  connections : UInt64
  timeoutMs : UInt64
  pollIntervalMs : UInt64
  commitIntervalMs : UInt64
  reportIntervalMs : UInt64
  rounds : UInt32
  seed : UInt64
  storeUnanswered : Bool
  db : String
  deriving DecidableEq, Repr

def usualDb : String := "tls_observatory.db"

def usualCertsDb : String := "certs.db"

def OutputFormat.choose (given : Option OutputFormat) (configured : Option String) : OutputFormat :=
  given.getD ((configured.map OutputFormat.ofWord).getD .text)

namespace ScanSettings

/-- Ranges given as arguments and those of the file behind `--ranges-file` come together;
the configured ones are taken where there are none. -/
def ranges? (read : String → Option (List String)) (given : ScanArguments) (configured : ScanSection) :
    Except SettingsError (List String) := do
  let listed ← match given.rangesFile with
    | none => .ok []
    | some path => match read path with
      | some ranges => .ok ranges
      | none => .error (.unreadableRanges path)
  let ranges := given.ranges ++ listed
  let ranges := if ranges.isEmpty then configured.ranges.getD [] else ranges
  if ranges.isEmpty then .error .noRanges else .ok ranges

def resolve (read : String → Option (List String)) (fresh : UInt64) (given : ScanArguments)
    (configured : ScanSection) : Except SettingsError ScanSettings := do
  let ranges ← ranges? read given configured
  let settings : ScanSettings := {
    ranges := ranges
    port := (given.port.or configured.port).getD 443
    workers := (given.workers.or configured.workers).getD 4
    connections := (given.connections.or configured.connections).getD 1024
    timeoutMs := (given.timeoutMs.or configured.timeoutMs).getD 5000
    pollIntervalMs := (given.pollIntervalMs.or configured.pollIntervalMs).getD 100
    commitIntervalMs := (given.commitIntervalMs.or configured.commitIntervalMs).getD 5000
    reportIntervalMs := (given.reportIntervalMs.or configured.reportIntervalMs).getD 5000
    rounds := (given.rounds.or configured.rounds).getD 4
    seed := (given.seed.or configured.seed).getD fresh
    storeUnanswered := given.storeUnanswered || configured.storeUnanswered.getD false
    db := (given.db.or configured.db).getD usualDb }
  if settings.workers = 0 ∨ settings.connections = 0 then .error .nothingToRun else .ok settings

end ScanSettings

structure HarvestSettings where
  rawDb : String
  certsDb : String
  commitIntervalMs : UInt64
  format : OutputFormat
  deriving DecidableEq, Repr

def HarvestSettings.resolve (given : HarvestArguments) (config : Config) : HarvestSettings :=
  let section? := config.harvest
  let scanDb := config.scan.bind (·.db)
  { rawDb := ((given.rawDb.or (section?.bind (·.rawDb))).or scanDb).getD usualDb
    certsDb := (given.certsDb.or (section?.bind (·.certsDb))).getD usualCertsDb
    commitIntervalMs := (given.commitIntervalMs.or (section?.bind (·.commitIntervalMs))).getD 5000
    format := .choose given.format (section?.bind (·.format)) }

def triageDb (given : TriageArguments) (config : Config) : String :=
  ((given.db.or (config.harvest.bind (·.rawDb))).or (config.scan.bind (·.db))).getD usualDb

end TlsCensus
