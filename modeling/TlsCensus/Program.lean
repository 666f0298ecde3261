import TlsCensus.Directory
import TlsCensus.Handshake.Client
import TlsCensus.Harvest.Transfer
import TlsCensus.Program.Report
import TlsCensus.RangeList

/-! A whole command: from the words of its line and the directory it works in to what it
prints and the directory it leaves. What chance, the clock and the network contribute is
a parameter. What a command has written before it fails stays. -/
namespace TlsCensus

inductive ProgramError where
  | unreadableConfig (path : String)
  | malformedConfig (path : String)
  | settings (error : SettingsError)
  | badRange (text : String) (error : SweepError)
  | databaseMissing (path : String)
  | rawDatabaseMissing (path : String)
  | unopenable (path : String)
  | noDatabase
  | store (error : StoreError)
  | scan (error : ScanError StoreError)
  | uncreatable (path : String)
  | noSuchPlace
  | placeIsDirectory
  deriving DecidableEq, Repr

def ProgramError.message : ProgramError → String
  | .unreadableConfig path => s!"read config {path}"
  | .malformedConfig path => s!"parse config {path}"
  | .settings e => e.message
  | .badRange text _ => s!"range {text}"
  | .databaseMissing path => s!"database not found: {path}"
  | .rawDatabaseMissing path => s!"raw database not found: {path}"
  | .unopenable path => s!"open {path}"
  | .noDatabase => "file is not a database"
  | .store e => e.message
  | .scan e => e.message
  | .uncreatable path => s!"create {path}"
  | .noSuchPlace => "No such file or directory (os error 2)"
  | .placeIsDirectory => "Is a directory (os error 21)"

structure Surroundings where
  reached : UInt16 → UInt32 → Bool
  peer : UInt16 → UInt32 → Peer
  client : UInt32 → ClientHandshake
  freshSeed : UInt64
  pick : Nat → Nat
  isStopped : Bool
  runId : String
  startedAt : Int64 := 0
  finishedAt : Int64 := 0
  elapsedMs : Nat := 0
  fetchedAt : UInt32 → UInt64
  storedAt : Nat → Nat
  room : UInt32 → Nat := fun _ => 65536
  timing : Timing := {}

structure Clock (m : Type → Type) where
  startedAt : m Int64
  finishedAt : m (Int64 × Nat)

def Surroundings.clock (w : Surroundings) : Clock Id := ⟨w.startedAt, (w.finishedAt, w.elapsedMs)⟩

inductive Ending where
  | refused (error : CommandLine.UsageError)
  | failed (error : ProgramError)
  | printed (text : String)
  deriving DecidableEq, Repr

def Ending.exitCode : Ending → Nat
  | .refused e => e.exitCode
  | .failed _ => 1
  | .printed _ => 0

/-- Steps in a directory, each of which may fail and may change it all the same. -/
abbrev Session (m : Type → Type) := ExceptT ProgramError (StateT Directory m)

namespace Program
variable {m : Type → Type} [Monad m]

def version : String := "0.1.0"

def banner : String := s!"observatory {version}"

def configName : String := "observatory.yaml"

/-! Files -/

def lift {α : Type} (r : Except ProgramError α) : Session m α := ExceptT.mk (pure r)

def put (path : String) (file : File) : Session m Unit :=
  match Place.ofPath path with
  | .entry name => modify (·.put name file)
  | _ => pure ()

-- Such a store vanishes when it is closed.
def isPassing (path : String) : Bool := path.isEmpty || path = ":memory:"

def openStore (path : String) : Session m Store := do
  if isPassing path then return .empty
  match Place.ofPath path with
  | .entry _ =>
    match (← get).find? path with
    | some (.store tables) => return .ofTables tables
    | none | some (.bytes []) =>
      put path (.store .empty)
      return .empty
    | some _ => throw .noDatabase
  | _ => throw (.unopenable path)

def closeStore (path : String) (s : Store) : Session m Unit :=
  if isPassing path then pure () else put path (.store s.closed)

def loadConfig (named : Option String) : Session m Config := do
  let d ← get
  match named.or (if d.holds configName then some configName else none) with
  | none => return .empty
  | some path =>
    match d.text? path with
    | none => throw (.unreadableConfig path)
    | some text =>
      match Config.ofText? text with
      | some config => return config
      | none => throw (.malformedConfig path)

/-! Scan -/

def addRanges : List String → Sweep → Except ProgramError Sweep
  | [], sweep => .ok sweep
  | text :: rest, sweep =>
    match sweep.addCidr text with
    | (.error e, _) => .error (.badRange text e)
    | (.ok (), sweep) => addRanges rest sweep

def scanSetting (w : Surroundings) (s : ScanSettings) : Scan.Setting ClientHandshake Store StoreError where
  worker := {
    handshake := ClientHandshake.capability
    setUp := fun address => some (w.client address)
    reached := w.reached s.port
    peer := w.peer s.port
    finishedAt := w.fetchedAt
    port := s.port
    connections := s.connections.toNat
    timeout := s.timeoutMs.toNat
    storeUnanswered := s.storeUnanswered
    room := w.room
    timing := w.timing }
  sink := Store.sink
  maxAge := s.commitIntervalMs.toNat
  storedAt := w.storedAt
  stopped := w.isStopped
  pick := w.pick

def counters (p : Progress) : RunCounters :=
  ⟨p.attempted.toInt64, p.completed.toInt64, p.stored.toInt64, (p.tlsError + p.storeFailures).toInt64⟩

/-- The clock is read again only when the scan is over. -/
def scanInto (clock : Clock m) (w : Surroundings) (s : ScanSettings) (sweep : Sweep) (store : Store) :
    m (Except ProgramError (ScanSummary × Nat) × Store) := do
  match store.beginRun ⟨w.runId, ← clock.startedAt, version, (Report.settings s).compact, some s.seed⟩ with
  | (.error e, store) => return (.error (.store e), store)
  | (.ok _, store) =>
    let last := Scan.run (scanSetting w s) sweep s.workers.toNat store
    match last.result with
    | .error e => return (.error (.scan e), last.sink)
    | .ok summary =>
      let (finishedAt, elapsedMs) ← clock.finishedAt
      return (.ok (summary, elapsedMs), last.sink.finishRun w.runId finishedAt (counters summary.progress))

def scan (clock : Clock m) (w : Surroundings) (given : ScanArguments) (config : Config) : Session m String := do
  let d ← get
  let configured := config.scan.getD .empty
  let listed (path : String) := (d.text? path).map RangeList.ofText
  let settings ← lift ((ScanSettings.resolve listed w.freshSeed given configured).mapError .settings)
  let sweep ← lift (addRanges settings.ranges (.new settings.seed settings.rounds))
  let store ← openStore settings.db
  let (result, store) ← (scanInto clock w settings sweep store : m _)
  closeStore settings.db store
  let (summary, elapsedMs) ← lift result
  return Report.scan (.choose given.format configured.format) w.runId elapsedMs settings summary

/-! Harvest, triage and export -/

def harvest (w : Surroundings) (given : HarvestArguments) (config : Config) : Session m String := do
  let settings := HarvestSettings.resolve given config
  if !(← get).holds settings.rawDb then throw (.rawDatabaseMissing settings.rawDb)
  let raw ← openStore settings.rawDb
  let certs ← openStore settings.certsDb
  let (result, certs) := Harvest.transfer w.storedAt settings.commitIntervalMs.toNat raw certs
  closeStore settings.certsDb certs
  let stats ← lift (result.mapError .store)
  return Report.harvest settings stats

def create (path : String) (file : File) (failure : Place → ProgramError) : Session m Unit :=
  match Place.ofPath path with
  | .entry name => modify (·.put name file)
  | place => throw (failure place)

def openExisting (path : String) : Session m Store := do
  if !(← get).holds path then throw (.databaseMissing path)
  openStore path

def triage (given : TriageArguments) (config : Config) : Session m String := do
  let db := triageDb given config
  let store ← openExisting db
  let (result, entries) := Triage.run store
  match given.out with
  | none => pure ()
  | some path =>
    let format := if given.asCsv then Triage.Format.csv else .jsonLines
    create path (.ofText (format.text entries)) (fun _ => .uncreatable path)
  let totals ← lift (result.mapError .store)
  let counts ← lift (store.resultCounts.mapError .store)
  return Report.triage given.format db given.out totals counts

def exportTable (given : ExportArguments) : Session m String := do
  let store ← openExisting given.db
  let failure : Place → ProgramError
    | .here => .placeIsDirectory
    | _ => .noSuchPlace
  match Export.ofTable given.table store with
  | .ok content =>
    create given.out (.table content) failure
    return s!"exported {content.rows.length} rows from {given.table} to {given.out}"
  | .error (.unsupportedTable name) => throw (.store (.unsupportedTable name))
  | .error e =>
    create given.out (.bytes []) failure
    throw (.store e)

def runTask (clock : Clock m) (w : Surroundings) (config : Config) : Task → Session m String
  | .version => return s!"{banner} (core {version})"
  | .scan given => scan clock w given config
  | .harvest given => harvest w given config
  | .triage given => triage given config
  | .exportTable given => exportTable given

-- The configuration is read whatever the command.
def runInvocation (clock : Clock m) (w : Surroundings) (i : Invocation) : Session m String := do
  runTask clock w (← loadConfig i.config) i.task

def configFiles (i : Invocation) : List String := configName :: i.config.toList

def taskFiles (config : Config) : Task → List String
  | .version => []
  | .scan given =>
    given.rangesFile.toList ++ [(given.db.or (config.scan.bind (·.db))).getD usualDb]
  | .harvest given =>
    let settings := HarvestSettings.resolve given config
    [settings.rawDb, settings.certsDb]
  | .triage given => [triageDb given config]
  | .exportTable given => [given.db]

def runBy (clock : Clock m) (w : Surroundings) (words : List String) (d : Directory) : m (Ending × Directory) := do
  match Invocation.ofWords words with
  | .error e => return (.refused e, d)
  | .ok i =>
    match ← (runInvocation clock w i).run d with
    | (.ok text, d) => return (.printed text, d)
    | (.error e, d) => return (.failed e, d)

def run (w : Surroundings) (words : List String) (d : Directory) : Ending × Directory := (runBy w.clock w words d).run

end Program
end TlsCensus
