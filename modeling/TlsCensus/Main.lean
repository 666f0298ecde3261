import TlsCensus.Program
import TlsCensus.Store.Saved

/-! The program in the working directory. The files a command looks into are read before it
runs and those it has changed are written after it. Tables are kept as text. No socket is
opened from here: a scan reaches no host. -/
open TlsCensus

namespace TlsCensus.Main

def decode (content : Bytes) : File :=
  match content.text?.bind Tables.ofText? with
  | some tables => .store tables
  | none => .bytes content

def encode : File → Bytes
  | .bytes content => content
  | .store tables => .ofText tables.toText
  | .table content => .ofText content.toText

def read? (name : String) : IO (Option Bytes) :=
  try
    let content ← IO.FS.readBinFile name
    return some content.data.toList
  catch _ => return none

def load (paths : List String) (d : Directory) : IO Directory :=
  paths.foldlM (fun d path => do
    match Place.ofPath path with
    | .entry name => return ((← read? name).map (fun content => d.put name (decode content))).getD d
    | _ => return d) d

-- A file that is as it was is not written.
def save (before after : Directory) : IO Unit :=
  after.files.forM fun (name, file) => do
    let content := encode file
    if (before.files.lookup name).map encode ≠ some content then
      IO.FS.writeBinFile name ⟨content.toArray⟩

def number (octets : ByteArray) : Nat := Bytes.bigEndian octets.data.toList

/-- Milliseconds since 1970, by the date that a new file is given. -/
def unixMs : IO Int64 := do
  let (_, path) ← IO.FS.createTempFile
  let date := (← path.metadata).modified
  IO.FS.removeFile path
  return .ofInt (date.sec * 1000 + date.nsec.toNat / 1000000)

def clockNow : IO (Clock IO) := do
  let since ← IO.monoMsNow
  return { startedAt := unixMs, finishedAt := do return (← unixMs, (← IO.monoMsNow) - since) }

def surroundings : IO Surroundings := do
  let seed ← IO.getRandomBytes 8
  let id ← IO.getRandomBytes 16
  let random ← IO.getRandomBytes 32
  let share ← IO.getRandomBytes 32
  let now ← unixMs
  return {
    reached := fun _ _ => false
    peer := fun _ _ => Peer.refusing
    client := fun _ => .new random.data.toList share.data.toList
    freshSeed := (number seed).toUInt64
    pick := fun _ => 0
    isStopped := false
    runId := Bytes.toHex id.data.toList
    fetchedAt := fun _ => now.toUInt64
    storedAt := fun _ => 0 }

def directory (words : List String) : IO Directory := do
  match Invocation.ofWords words with
  | .error _ => return ⟨[]⟩
  | .ok i =>
    let d ← load (Program.configFiles i) ⟨[]⟩
    match ← (Program.loadConfig i.config).run d with
    | (.ok config, d) => load (Program.taskFiles config i.task) d
    | (.error _, d) => return d

def tell (ending : Ending) : IO Unit :=
  match ending with
  | .printed text => IO.println text
  | .failed e => IO.eprintln s!"Error: {e.message}"
  | .refused .helpWanted => IO.println Invocation.help
  | .refused .versionWanted => IO.println Program.banner
  | .refused e => IO.eprintln s!"error: {e.message}\n{Invocation.help}"

end TlsCensus.Main

open TlsCensus.Main in
def main (words : List String) : IO UInt32 := do
  let before ← directory words
  let (ending, after) ← Program.runBy (← clockNow) (← surroundings) words before
  save before after
  tell ending
  return ending.exitCode.toUInt32
