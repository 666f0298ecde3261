import TlsCensus.CommandLine

/-! The program's commands and what each of them is given. -/
namespace TlsCensus
open CommandLine

inductive OutputFormat where
  | text
  | json
  deriving DecidableEq, Repr

namespace OutputFormat

def choices : List String := ["text", "json"]

def ofWord (word : String) : OutputFormat := if word = "json" then .json else .text

end OutputFormat

structure ScanArguments where
  ranges : List String
  rangesFile : Option String
  port : Option UInt16
  workers : Option UInt64
  connections : Option UInt64
  timeoutMs : Option UInt64
  pollIntervalMs : Option UInt64
  commitIntervalMs : Option UInt64
  reportIntervalMs : Option UInt64
  rounds : Option UInt32
  seed : Option UInt64
  storeUnanswered : Bool
  db : Option String
  format : Option OutputFormat
  deriving DecidableEq, Repr

structure HarvestArguments where
  rawDb : Option String
  certsDb : Option String
  commitIntervalMs : Option UInt64
  format : Option OutputFormat
  deriving DecidableEq, Repr

structure TriageArguments where
  db : Option String
  out : Option String
  asCsv : Bool
  format : OutputFormat
  deriving DecidableEq, Repr

structure ExportArguments where
  db : String
  table : String
  out : String
  deriving DecidableEq, Repr

inductive Task where
  | version
  | scan (given : ScanArguments)
  | harvest (given : HarvestArguments)
  | triage (given : TriageArguments)
  | exportTable (given : ExportArguments)
  deriving DecidableEq, Repr

structure Invocation where
  config : Option String
  task : Task
  deriving DecidableEq, Repr

namespace Invocation

/-! The rules of the command line -/

def word64 : ValueRule := .number 0x10000000000000000 false
def word32 : ValueRule := .number 0x100000000 true
def word16 : ValueRule := .number 0x10000 true

def free (name : String) (rule : ValueRule) : OptionRule := ⟨name, .valued rule, false⟩
def required (name : String) (rule : ValueRule) : OptionRule := ⟨name, .valued rule, true⟩
def flag (name : String) : OptionRule := ⟨name, .flag, false⟩

def shared : List OptionRule := [free "config" .path, ⟨"help", .help, false⟩]

def options : List OptionRule := shared ++ [⟨"version", .version, false⟩]

def format : OptionRule := free "format" (.choice OutputFormat.choices)

def scanOptions : List OptionRule :=
  [free "ranges-file" .path, free "port" word16, free "workers" word64, free "connections" word64,
   free "timeout-ms" word64, free "poll-interval-ms" word64, free "commit-interval-ms" word64,
   free "report-interval-ms" word64, free "rounds" word32, free "seed" word64,
   flag "store-unanswered", free "db" .path, format]

def harvestOptions : List OptionRule :=
  [free "raw-db" .path, free "certs-db" .path, free "commit-interval-ms" word64, format]

def triageOptions : List OptionRule := [free "db" .path, free "out" .path, flag "csv", format]

def exportOptions : List OptionRule := [required "db" .path, free "table" .text, required "out" .path]

def rules : List CommandRule :=
  [⟨"version", ⟨shared, [], false⟩⟩,
   ⟨"scan", ⟨shared ++ scanOptions, [], true⟩⟩,
   ⟨"harvest", ⟨shared ++ harvestOptions, [], false⟩⟩,
   ⟨"triage", ⟨shared ++ triageOptions, [], false⟩⟩,
   ⟨"export", ⟨shared ++ exportOptions, [], false⟩⟩]

def optionHelp (o : OptionRule) : String :=
  match o.kind with
  | .valued _ => if o.isRequired then s!"--{o.name} VALUE" else s!"[--{o.name} VALUE]"
  | _ => s!"[--{o.name}]"

def commandHelp (c : CommandRule) : String :=
  " ".intercalate (("  " ++ c.name) :: c.scope.options.map optionHelp ++
    (if c.scope.takesOperands then ["[RANGE]..."] else []))

def help : String :=
  "\n".intercalate ("usage: [--config VALUE] COMMAND, where COMMAND is one of" :: rules.map commandHelp)

/-! What was given, by name -/

def givenFormat (r : Reading) : Option OutputFormat := (r.text? "format").map .ofWord

def scanArguments (r : Reading) : ScanArguments where
  ranges := r.operands
  rangesFile := r.text? "ranges-file"
  port := (r.number? "port").map Nat.toUInt16
  workers := r.word64? "workers"
  connections := r.word64? "connections"
  timeoutMs := r.word64? "timeout-ms"
  pollIntervalMs := r.word64? "poll-interval-ms"
  commitIntervalMs := r.word64? "commit-interval-ms"
  reportIntervalMs := r.word64? "report-interval-ms"
  rounds := (r.number? "rounds").map Nat.toUInt32
  seed := r.word64? "seed"
  storeUnanswered := r.isGiven "store-unanswered"
  db := r.text? "db"
  format := givenFormat r

def harvestArguments (r : Reading) : HarvestArguments :=
  ⟨r.text? "raw-db", r.text? "certs-db", r.word64? "commit-interval-ms", givenFormat r⟩

def triageArguments (r : Reading) : TriageArguments :=
  ⟨r.text? "db", r.text? "out", r.isGiven "csv", (givenFormat r).getD .text⟩

def exportArguments (r : Reading) : ExportArguments :=
  ⟨(r.text? "db").getD "", (r.text? "table").getD "certificates", (r.text? "out").getD ""⟩

def taskOf (name : String) (r : Reading) : Task :=
  match name with
  | "scan" => .scan (scanArguments r)
  | "harvest" => .harvest (harvestArguments r)
  | "triage" => .triage (triageArguments r)
  | "export" => .exportTable (exportArguments r)
  | _ => .version

/-- The configuration named behind the command is the one that counts. -/
def ofWords (ws : List String) : Except UsageError Invocation := do
  let request ← Request.ofWords options rules ws
  return ⟨(request.reading.text? "config").or (request.before.text? "config"),
    taskOf request.command request.reading⟩

end Invocation
end TlsCensus
