import TlsCensus.Bytes
import TlsCensus.Text.Blank

/-! A list of address blocks written one a line. A hash begins a comment, blanks around an
entry do not count, and lines that hold no entry are passed over. -/
namespace TlsCensus.RangeList

def splitLines : List Char → List (List Char)
  | [] => [[]]
  | c :: rest =>
    if c = '\n' then [] :: splitLines rest
    else match splitLines rest with
      | line :: more => (c :: line) :: more
      | [] => [[c]]

def entry (line : List Char) : List Char := Text.trimChars (line.takeWhile (· ≠ '#'))

def entries (cs : List Char) : List (List Char) :=
  ((splitLines cs).map entry).filter (!·.isEmpty)

def ofText (s : String) : List String := (entries s.toList).map String.ofList

def ofBytes? (content : Bytes) : Option (List String) := content.text?.map ofText

end TlsCensus.RangeList
