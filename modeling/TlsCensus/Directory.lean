import TlsCensus.Bytes
import TlsCensus.Store.Export

/-! The directory a command works in. A file is bytes, a store or an exported table; there
are no directories in it. -/
namespace TlsCensus

inductive File where
  | bytes (content : Bytes)
  | store (tables : Tables)
  | table (content : Export)
  deriving Repr

def File.ofText (s : String) : File := .bytes (.ofText s)

def File.text? : File → Option String
  | .bytes content => content.text?
  | _ => none

structure Directory where
  files : List (String × File)
  deriving Repr

inductive Place where
  | here
  | entry (name : String)
  | nowhere
  deriving DecidableEq, Repr

def Place.ofPath (path : String) : Place :=
  if path.isEmpty || path.startsWith "/" then .nowhere
  else match (path.splitOn "/").filter (fun part => part ≠ "" ∧ part ≠ ".") with
    | [] => .here
    | [name] => if name = ".." then .nowhere else .entry name
    | _ => .nowhere

namespace Directory

def find? (path : String) (d : Directory) : Option File :=
  match Place.ofPath path with
  | .entry name => d.files.lookup name
  | _ => none

def holds (path : String) (d : Directory) : Bool :=
  Place.ofPath path == .here || (d.find? path).isSome

def text? (path : String) (d : Directory) : Option String := (d.find? path).bind File.text?

def put (name : String) (file : File) (d : Directory) : Directory :=
  ⟨(name, file) :: d.files.filter (·.1 ≠ name)⟩

end Directory
end TlsCensus
