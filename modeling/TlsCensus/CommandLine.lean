/-! Words of a command line. Options begin with two dashes; one with a value takes it behind
an equals sign or from the next word. Two dashes alone end the options. A value is judged
when the next option or operand, or the end, shows that its option is complete; a word
that no rule admits is refused before that. -/
namespace TlsCensus.CommandLine

inductive UsageError where
  | invalidValue
  | invalidNumber
  | unexpectedValue
  | unknownArgument
  | unknownCommand
  | repeatedOption
  | missingOption
  | missingCommand
  | nothingGiven
  | helpWanted
  | versionWanted
  deriving DecidableEq, Repr

def UsageError.exitCode : UsageError → Nat
  | .helpWanted | .versionWanted => 0
  | _ => 2

def UsageError.message : UsageError → String
  | .invalidValue => "an option lacks a value that it can take"
  | .invalidNumber => "a value is not a number in the range of its option"
  | .unexpectedValue => "a value stands behind an option that takes none"
  | .unknownArgument => "unknown argument"
  | .unknownCommand => "unknown command"
  | .repeatedOption => "an option is given twice"
  | .missingOption => "a required option is missing"
  | .missingCommand => "no command is given"
  | .nothingGiven => "nothing is given"
  | .helpWanted => "help"
  | .versionWanted => "version"

inductive Argument where
  | text (s : String)
  | number (n : Nat)
  deriving DecidableEq, Repr

/-- What a value may be. Of numbers with a minus sign, where one is admitted, only zero is
not below zero. -/
inductive ValueRule where
  | path
  | text
  | number (bound : Nat) (minusAdmitted : Bool)
  | choice (words : List String)
  deriving DecidableEq, Repr

def decimal? (cs : List Char) : Option Nat :=
  if cs.isEmpty || !cs.all Char.isDigit then none
  else some (cs.foldl (fun n c => n * 10 + (c.toNat - 48)) 0)

def number? (minusAdmitted : Bool) : List Char → Option Nat
  | '+' :: rest => decimal? rest
  | '-' :: rest => if minusAdmitted && decimal? rest = some 0 then some 0 else none
  | cs => decimal? cs

def ValueRule.read (word : String) : ValueRule → Except UsageError Argument
  | .path => if word.isEmpty then .error .invalidValue else .ok (.text word)
  | .text => .ok (.text word)
  | .number bound minusAdmitted =>
    match number? minusAdmitted word.toList with
    | some n => if n < bound then .ok (.number n) else .error .invalidNumber
    | none => .error .invalidNumber
  | .choice words => if words.contains word then .ok (.text word) else .error .invalidValue

inductive OptionKind where
  | flag
  | valued (rule : ValueRule)
  | help
  | version
  deriving DecidableEq, Repr

structure OptionRule where
  name : String
  kind : OptionKind
  isRequired : Bool
  deriving DecidableEq, Repr

structure Scope where
  options : List OptionRule
  commands : List String
  takesOperands : Bool
  deriving Repr

def OptionKind.letter? : OptionKind → Option Char
  | .help => some 'h'
  | .version => some 'V'
  | _ => none

structure Reading where
  pending : Option (String × ValueRule × Option String)
  given : List (String × Argument)
  operands : List String
  deriving Repr

namespace Reading

def start : Reading := ⟨none, [], []⟩

def isAwaiting (r : Reading) : Bool :=
  match r.pending with
  | some (_, _, none) => true
  | _ => false

def isGiven (name : String) (r : Reading) : Bool := r.given.any (·.1 == name)

def add (name : String) (a : Argument) (r : Reading) : Reading :=
  { r with pending := none, given := r.given ++ [(name, a)] }

def take (name : String) (rule : ValueRule) (word : String) (r : Reading) : Except UsageError Reading :=
  if r.isGiven name then .error .repeatedOption
  else (rule.read word).map (r.add name)

def settle (r : Reading) : Except UsageError Reading :=
  match r.pending with
  | none => .ok r
  | some (_, _, none) => .error .invalidValue
  | some (name, rule, some word) => r.take name rule word

def react (rule : OptionRule) (attached : Option String) (r : Reading) : Except UsageError Reading :=
  match rule.kind, attached with
  | .valued v, some word => do (← r.settle).take rule.name v word
  | .valued v, none => do return { (← r.settle) with pending := some (rule.name, v, none) }
  | _, some _ => .error .unexpectedValue
  | .flag, none => do
    let r ← r.settle
    if r.isGiven rule.name then .error .repeatedOption else .ok (r.add rule.name (.text ""))
  | .help, none => do let _ ← r.settle; .error .helpWanted
  | .version, none => do let _ ← r.settle; .error .versionWanted

def long (c : Scope) (body : List Char) (r : Reading) : Except UsageError Reading :=
  let name := body.takeWhile (· ≠ '=')
  match c.options.find? (·.name.toList == name) with
  | none => .error .unknownArgument
  | some rule =>
    let rest := body.drop name.length
    r.react rule (if rest.isEmpty then none else some (String.ofList (rest.drop 1)))

/-- Letters may be joined, but the first of them ends the reading in any case. -/
def short (c : Scope) (letter : Char) (r : Reading) : Except UsageError Reading :=
  match c.options.find? (·.kind.letter? == some letter) with
  | none => .error .unknownArgument
  | some rule => r.react rule none

def supply (word : String) (r : Reading) : Reading :=
  { r with pending := r.pending.map (fun (name, rule, _) => (name, rule, some word)) }

def operand (c : Scope) (afterDashes : Bool) (word : String) (r : Reading) : Except UsageError Reading :=
  if c.takesOperands then do
    let r ← r.settle
    return { r with operands := r.operands ++ [word] }
  else if c.commands.isEmpty || (afterDashes && c.commands.contains word) then .error .unknownArgument
  else .error .unknownCommand

def words (c : Scope) : List String → Reading → Except UsageError (Reading × List String)
  | [], r => .ok (r, [])
  | word :: rest, r =>
    if !r.isAwaiting && c.commands.contains word then .ok (r, word :: rest)
    else match word.toList with
      | ['-', '-'] => do return (← rest.foldlM (fun r word => r.operand c true word) r, [])
      | '-' :: '-' :: body => do words c rest (← r.long c body)
      | '-' :: letter :: _ => do words c rest (← r.short c letter)
      | _ =>
        if r.isAwaiting then words c rest (r.supply word)
        else do words c rest (← r.operand c false word)

def requireAll (c : Scope) (r : Reading) : Except UsageError Reading :=
  if c.options.all (fun rule => !rule.isRequired || r.isGiven rule.name) then .ok r
  else .error .missingOption

def all (c : Scope) (ws : List String) : Except UsageError Reading := do
  (← (← words c ws start).1.settle).requireAll c

/-! Values by name. The rules say which of them are texts and which are numbers. -/

def text? (name : String) (r : Reading) : Option String :=
  match r.given.lookup name with
  | some (.text s) => some s
  | _ => none

def number? (name : String) (r : Reading) : Option Nat :=
  match r.given.lookup name with
  | some (.number n) => some n
  | _ => none

def word64? (name : String) (r : Reading) : Option UInt64 := (r.number? name).map Nat.toUInt64

end Reading

structure CommandRule where
  name : String
  scope : Scope
  deriving Repr

structure Request where
  command : String
  before : Reading
  reading : Reading
  deriving Repr

def helpName : String := "help"

def helpOn (commands : List String) (ws : List String) : UsageError :=
  if ws.length ≤ 1 && ws.all commands.contains then .helpWanted else .unknownCommand

/-- Reads a whole line: options of the program, a command and what belongs to it. What is
wrong behind the command is told first. -/
def Request.ofWords (options : List OptionRule) (rules : List CommandRule) (ws : List String) :
    Except UsageError Request := do
  let commands := rules.map (·.name) ++ [helpName]
  match ← Reading.words ⟨options, commands, false⟩ ws .start with
  | (before, name :: rest) =>
    if name = helpName then .error (helpOn commands rest)
    match rules.find? (·.name == name) with
    | none => .error .unknownCommand
    | some rule =>
      let reading ← Reading.all rule.scope rest
      return ⟨name, ← before.settle, reading⟩
  | (before, []) =>
    let before ← before.settle
    .error (if before.given.isEmpty then .nothingGiven else .missingCommand)

end TlsCensus.CommandLine
