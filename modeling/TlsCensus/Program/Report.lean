import TlsCensus.Harvest
import TlsCensus.Probe.Scan
import TlsCensus.Settings
import TlsCensus.Triage

/-! What commands print when they are done: lines for readers, or one JSON tree with its
members sorted. -/
namespace TlsCensus.Report

def count (n : Nat) : JsonTree := .integer n

def progress (p : Progress) : JsonTree :=
  .object [("attempted", count p.attempted.toNat), ("connect_failed", count p.connectFailed.toNat),
    ("tcp_timeout", count p.tcpTimeout.toNat), ("completed", count p.completed.toNat),
    ("tls_timeout", count p.tlsTimeout.toNat), ("tls_error", count p.tlsError.toNat),
    ("stored", count p.stored.toNat), ("store_failures", count p.storeFailures.toNat)]

def worker (r : WorkerReport) : JsonTree :=
  .object [("worker", count r.worker), ("attempted", count r.attempted), ("finished", count r.finished),
    ("dropped_in_flight", count r.droppedInFlight), ("interrupted", .bool r.interrupted)]

def summary (elapsedMs : Nat) (s : ScanSummary) : JsonTree :=
  .object [("workers", count s.workers), ("seed", count s.seed.toNat), ("total_addresses", count s.total),
    ("elapsed_ms", count elapsedMs), ("interrupted", .bool s.interrupted),
    ("progress", progress s.progress), ("reports", .list (s.reports.map worker))]

def settings (s : ScanSettings) : JsonTree :=
  .object [("ranges", .list (s.ranges.map .text)), ("port", count s.port.toNat),
    ("workers", count s.workers.toNat), ("connections", count s.connections.toNat),
    ("timeout_ms", count s.timeoutMs.toNat), ("poll_interval_ms", count s.pollIntervalMs.toNat),
    ("commit_interval_ms", count s.commitIntervalMs.toNat),
    ("report_interval_ms", count s.reportIntervalMs.toNat), ("rounds", count s.rounds.toNat),
    ("seed", count s.seed.toNat), ("store_unanswered", .bool s.storeUnanswered), ("db", .text s.db)]

def harvestStats (s : HarvestStats) : JsonTree :=
  .object [("rows", count s.rows), ("empty", count s.empty), ("handshake", count s.handshake),
    ("other", count s.other), ("records", count s.records), ("certificates_seen", count s.certificatesSeen),
    ("unique", count s.unique), ("duplicates", count s.duplicates),
    ("unclassified", count s.unclassified), ("stored", count s.stored),
    ("store_failures", count s.storeFailures), ("truncated_records", count s.truncatedRecords),
    ("truncated_messages", count s.truncatedMessages),
    ("truncated_containers", count s.truncatedContainers)]

def totals (t : Triage.Totals) : JsonTree :=
  .object [("rows", count t.rows), ("valid", count t.valid), ("error", count t.error),
    ("invalid", count t.invalid)]

def json (members : List (String × JsonTree)) : String := (JsonTree.object members).sorted.indented

def lines (ls : List String) : String := "\n".intercalate ls

def scanText (runId : String) (elapsedMs : Nat) (s : ScanSettings) (r : ScanSummary) : String :=
  let (p, port, db) := (r.progress, s.port, s.db)
  let interrupted := if r.interrupted then ", interrupted" else ""
  let head := s!"run {runId}: {r.total} addresses on port {port} with {r.workers} workers"
  let tail := s!" in {elapsedMs} ms (seed {r.seed}){interrupted}"
  lines [head ++ tail,
    s!"  attempted       {p.attempted}",
    s!"  connect failed  {p.connectFailed}",
    s!"  tcp timeout     {p.tcpTimeout}",
    s!"  tls completed   {p.completed}",
    s!"  tls timeout     {p.tlsTimeout}",
    s!"  tls error       {p.tlsError}",
    s!"  stored          {p.stored} ({p.storeFailures} failed) -> {db}"]

def scan (format : OutputFormat) (runId : String) (elapsedMs : Nat) (s : ScanSettings) (r : ScanSummary) :
    String :=
  match format with
  | .text => scanText runId elapsedMs s r
  | .json => json [("run_id", .text runId), ("settings", settings s), ("summary", summary elapsedMs r)]

def harvestText (s : HarvestSettings) (h : HarvestStats) : String :=
  let (raw, certs) := (s.rawDb, s.certsDb)
  lines [s!"harvested {raw} -> {certs}",
    s!"  rows          {h.rows} (valid {h.handshake}, error {h.other}, invalid {h.empty})",
    s!"  certificates  {h.certificatesSeen} seen, {h.unique} unique, {h.duplicates} duplicates",
    s!"  stored        {h.stored} ({h.unclassified} unclassified, {h.storeFailures} insert failures)",
    s!"  truncated     {h.truncatedRecords} records, {h.truncatedMessages} messages, " ++
      s!"{h.truncatedContainers} certificate lists"]

def harvest (s : HarvestSettings) (h : HarvestStats) : String :=
  match s.format with
  | .text => harvestText s h
  | .json => json [("raw_db", .text s.rawDb), ("certs_db", .text s.certsDb), ("stats", harvestStats h)]

def padded (width : Nat) (s : String) : String :=
  String.ofList (s.toList ++ List.replicate (width - s.length) ' ')

def resultLine (code : Int64) (n : Nat) : String :=
  let label := padded 16 (ResultCode.labelOfStored code)
  s!"  result {label} {n}"

def triageText (db : String) (out : Option String) (t : Triage.Totals) (counts : List (Int64 × Nat)) :
    String :=
  lines ([s!"{t.rows} rows in {db}",
    s!"  valid    {t.valid}",
    s!"  error    {t.error}",
    s!"  invalid  {t.invalid}"] ++ counts.map (fun (code, n) => resultLine code n) ++
    (out.map (fun path => s!"wrote {path}")).toList)

def triage (format : OutputFormat) (db : String) (out : Option String) (t : Triage.Totals)
    (counts : List (Int64 × Nat)) : String :=
  match format with
  | .text => triageText db out t counts
  | .json => json [("db", .text db), ("totals", totals t),
      ("results", .object (counts.map (fun (code, n) => (ResultCode.labelOfStored code, count n))))]

end TlsCensus.Report
