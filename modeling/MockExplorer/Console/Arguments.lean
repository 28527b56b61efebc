/-!
# Command lines

The words of a command line are read left to right: options of the program, the name of a command, and
options of that command. The options of the program may also stand after the name of the command, where
they win over those before it.

An option that takes a value is checked only when the next option comes or the words end. Until then an
unknown option is the error that counts.
-/

namespace MockExplorer.Console

inductive ColorChoice where
  | auto
  | always
  | never
deriving DecidableEq, Repr, Inhabited

/-- Whether to use colours, when `auto` means where the output is a terminal. -/
def ColorChoice.shouldColor (c : ColorChoice) (isTerminal : Bool) : Bool :=
  match c with
  | .always => true
  | .never => false
  | .auto => isTerminal

inductive ReportFormat where
  | text
  | json
deriving DecidableEq, Repr, Inhabited

inductive Verbosity where
  | quiet
  | normal
  | verbose
  | debug
deriving DecidableEq, Repr, Inhabited

namespace Verbosity

/-- Quiet wins over any number of requests for more. -/
def ofFlags (quiet : Bool) (verbose : Nat) : Verbosity :=
  if quiet then .quiet
  else
    match verbose with
    | 0 => .normal
    | 1 => .verbose
    | _ => .debug

def isQuiet (v : Verbosity) : Bool := v = .quiet

def isVerbose (v : Verbosity) : Bool := v = .verbose || v = .debug

/-- The least level of log lines that are shown. -/
def logFilter : Verbosity → String
  | .quiet => "error"
  | .normal => "warn"
  | .verbose => "info"
  | .debug => "debug"

end Verbosity

/-- What `run` is asked to do. -/
structure RunArgs where
  cases : List String := []
  workers : Option UInt64 := none
  maxExecutions : Option UInt64 := none
  format : ReportFormat := .text
  output : Option String := none
deriving DecidableEq, Repr, Inhabited

inductive Command where
  | run (args : RunArgs)
  | targets (format : ReportFormat)
  | config (defaults : Bool)
deriving DecidableEq, Repr, Inhabited

/-- A command line that was understood. -/
structure Invocation where
  verbose : Nat := 0
  quiet : Bool := false
  color : ColorChoice := .auto
  config : Option String := none
  command : Command
deriving DecidableEq, Repr, Inhabited

/-- Where a word stands: before the name of a command, or after it. -/
inductive Level where
  | program
  | run
  | targets
  | config
deriving DecidableEq, Repr, Inhabited

/-- Why no command is run. -/
inductive UsageStop where
  | helpAsked
  | versionAsked (level : Level)
  | nothingGiven
  | commandMissing
  | unknownCommand
  | unknownArgument
  /-- A value is missing, empty, or not one of the choices. -/
  | invalidValue
  | notANumber
  /-- An option stands twice that may stand once. -/
  | repeated
  /-- A value was given to an option that takes none. -/
  | unexpectedValue
deriving DecidableEq, Repr, Inhabited

/-- Only a wrong command line is a failure. -/
def UsageStop.exitCode : UsageStop → UInt8
  | .helpAsked | .versionAsked _ => 0
  | _ => 2

/-- What is said of a wrong command line. -/
def UsageStop.text : UsageStop → String
  | .helpAsked => "help was asked for"
  | .versionAsked _ => "the version was asked for"
  | .nothingGiven | .commandMissing => "a command is required"
  | .unknownCommand => "unrecognized command"
  | .unknownArgument => "unexpected argument"
  | .invalidValue => "invalid or missing value"
  | .notANumber => "not a number"
  | .repeated => "an option cannot be used twice"
  | .unexpectedValue => "a value was given to an option that takes none"

/-! ## Options -/

/-- The options. -/
inductive Switch where
  | verbose
  | quiet
  | color
  | config
  | help
  | version
  | caseName
  | workers
  | maxExecutions
  | format
  | output
  | defaults
deriving DecidableEq, Repr, Inhabited

namespace Switch

def long : Switch → String
  | .verbose => "verbose"
  | .quiet => "quiet"
  | .color => "color"
  | .config => "config"
  | .help => "help"
  | .version => "version"
  | .caseName => "case"
  | .workers => "workers"
  | .maxExecutions => "max-executions"
  | .format => "format"
  | .output => "output"
  | .defaults => "defaults"

def short? : Switch → Option Char
  | .verbose => some 'v'
  | .quiet => some 'q'
  | .config => some 'c'
  | .help => some 'h'
  | .version => some 'V'
  | .workers => some 'j'
  | .format => some 'f'
  | .output => some 'o'
  | _ => none

def takesValue : Switch → Bool
  | .color | .config | .caseName | .workers | .maxExecutions | .format | .output => true
  | _ => false

end Switch

namespace Level

/-- The options that may stand at a level. -/
def switches (l : Level) : List Switch :=
  [.verbose, .quiet, .color, .config, .help, .version] ++
    match l with
    | .program => []
    | .run => [.caseName, .workers, .maxExecutions, .format, .output]
    | .targets => [.format]
    | .config => [.defaults]

def ofCommand? : String → Option Level
  | "run" => some .run
  | "targets" => some .targets
  | "config" => some .config
  | _ => none

def long? (l : Level) (name : String) : Option Switch := l.switches.find? (·.long = name)

def short? (l : Level) (c : Char) : Option Switch := l.switches.find? (·.short? = some c)

end Level

/-- Whether the word names a command, `help` included. -/
def isCommandName (word : String) : Bool := word = "help" || (Level.ofCommand? word).isSome

/-! ## Values -/

def readColor : String → Except UsageStop ColorChoice
  | "auto" => .ok .auto
  | "always" => .ok .always
  | "never" => .ok .never
  | _ => .error .invalidValue

def readFormat : String → Except UsageStop ReportFormat
  | "text" => .ok .text
  | "json" => .ok .json
  | _ => .error .invalidValue

def readPath (text : String) : Except UsageStop String :=
  if text.isEmpty then .error .invalidValue else .ok text

/-- Decimal digits, after a plus sign or without one. -/
def readNumber (text : String) : Except UsageStop UInt64 :=
  let digits := match text.toList with
    | '+' :: rest => rest
    | cs => cs
  let n := digits.foldl (fun n c => 10 * n + (c.toNat - 48)) 0
  if digits.isEmpty || !digits.all Char.isDigit || UInt64.size ≤ n then .error .notANumber
  else .ok (.ofNat n)

/-- What was given at one level. -/
structure Given where
  verbose : Nat := 0
  quiet : Bool := false
  color : Option ColorChoice := none
  config : Option String := none
  cases : List String := []
  workers : Option UInt64 := none
  maxExecutions : Option UInt64 := none
  format : Option ReportFormat := none
  output : Option String := none
  defaults : Bool := false
deriving DecidableEq, Inhabited

/-- The value of an option that needs one. -/
def present : Option String → Except UsageStop String
  | some v => .ok v
  | none => .error .invalidValue

/-- Sets what may be set once. -/
def once {α : Type} (old : Option α) (new : Except UsageStop α) : Except UsageStop (Option α) :=
  if old.isSome then .error .repeated else new.map some

/-- Raises a mark that may be raised once. -/
def mark (old : Bool) : Except UsageStop Bool := if old then .error .repeated else .ok true

namespace Given

/-- Takes in an option of a level with its value, if it has one. -/
def take (g : Given) (l : Level) (o : Switch) (v : Option String) : Except UsageStop Given :=
  match o with
  | .verbose => .ok { g with verbose := min 255 (g.verbose + 1) }
  | .quiet => do return { g with quiet := ← mark g.quiet }
  | .defaults => do return { g with defaults := ← mark g.defaults }
  | .help => .error .helpAsked
  | .version => .error (.versionAsked l)
  | .color => do let v ← present v; return { g with color := ← once g.color (readColor v) }
  | .config => do let v ← present v; return { g with config := ← once g.config (readPath v) }
  | .caseName => do return { g with cases := g.cases ++ [← present v] }
  | .workers => do let v ← present v; return { g with workers := ← once g.workers (readNumber v) }
  | .maxExecutions => do
    let v ← present v
    return { g with maxExecutions := ← once g.maxExecutions (readNumber v) }
  | .format => do let v ← present v; return { g with format := ← once g.format (readFormat v) }
  | .output => do let v ← present v; return { g with output := ← once g.output (readPath v) }

/-- Whether an option of the program was given. -/
def isEmpty (g : Given) : Bool := g.verbose = 0 && !g.quiet && g.color.isNone && g.config.isNone

end Given

/-! ## Words -/

/-- The state between two words of a level: what was given, the option whose value is awaited or not yet
checked, and whether `--` has ended the options. -/
structure Reading where
  level : Level
  given : Given := {}
  pending : Option (Switch × Option String) := none
  ended : Bool := false
deriving DecidableEq, Inhabited

namespace Reading

/-- Takes in the pending option. -/
def settle (s : Reading) : Except UsageStop Reading :=
  match s.pending with
  | none => .ok s
  | some (o, v) => do return { s with given := ← s.given.take s.level o v, pending := none }

/-- Takes in the pending option and then this one. -/
def accept (s : Reading) (o : Switch) (v : Option String) : Except UsageStop Reading := do
  let s ← s.settle
  return { s with given := ← s.given.take s.level o v }

/-- An option that takes a value: the value stands with it, or the next word is awaited. -/
def offer (s : Reading) (o : Switch) (attached : Option String) : Except UsageStop Reading :=
  match attached with
  | some v => s.accept o (some v)
  | none => do return { ← s.settle with pending := some (o, none) }

/-- A word that starts with two dashes. -/
def long (s : Reading) (cs : List Char) : Except UsageStop Reading :=
  let attached := match cs.dropWhile (· ≠ '=') with
    | [] => none
    | _ :: v => some (String.ofList v)
  match s.level.long? (String.ofList (cs.takeWhile (· ≠ '='))) with
  | none => .error .unknownArgument
  | some o =>
    if o.takesValue then s.offer o attached
    else if attached.isSome then .error .unexpectedValue
    else s.accept o none

/-- The rest of a cluster as a value; an equals sign before it is dropped. -/
def attachedValue : List Char → Option String
  | [] => none
  | '=' :: v => some (String.ofList v)
  | v => some (String.ofList v)

/-- A cluster of one-letter options; one that takes a value takes the rest. -/
def cluster : List Char → Reading → Except UsageStop Reading
  | [], s => .ok s
  | c :: rest, s =>
    match s.level.short? c with
    | none => .error .unknownArgument
    | some o =>
      if o.takesValue then s.offer o (attachedValue rest)
      else do cluster rest (← s.accept o none)

/-- A word that nothing asked for. -/
def stray (s : Reading) (word : String) : UsageStop :=
  if s.level = .program && !(s.ended && isCommandName word) then .unknownCommand else .unknownArgument

/-- Reads a word that does not name the command. -/
def word (s : Reading) (w : String) : Except UsageStop Reading :=
  if s.ended then .error (s.stray w)
  else if w = "--" then .ok { s with ended := true }
  else
    match w.toList with
    | '-' :: '-' :: cs => s.long cs
    | '-' :: c :: cs => cluster (c :: cs) s
    | _ =>
      match s.pending with
      | some (o, none) => .ok { s with pending := some (o, some w) }
      | _ => .error (s.stray w)

/-- Whether the next word may name a command. -/
def awaitsCommand (s : Reading) : Bool :=
  match s.pending with
  | some (_, none) => false
  | _ => !s.ended

end Reading

/-- What `help` with these words comes to. Only commands have help, and none has commands of its own. -/
def helpFor : List String → UsageStop
  | [] => .helpAsked
  | [w] => if isCommandName w then .helpAsked else .unknownCommand
  | _ => .unknownCommand

/-- Reads words up to the name of the command, and returns its level and the words after it. -/
def readProgram : List String → Reading → Except UsageStop (Reading × Option (Level × List String))
  | [], s => .ok (s, none)
  | w :: rest, s =>
    if s.awaitsCommand && w = "help" then .error (helpFor rest)
    else
      match if s.awaitsCommand then Level.ofCommand? w else none with
      | some l => .ok (s, some (l, rest))
      | none => do readProgram rest (← s.word w)

/-- The command of a level. -/
def Given.command (g : Given) (l : Level) : Command :=
  match l with
  | .targets => .targets (g.format.getD .text)
  | .config => .config g.defaults
  | _ =>
    .run { cases := g.cases, workers := g.workers, maxExecutions := g.maxExecutions,
           format := g.format.getD .text, output := g.output }

/-- What was given before and after the name of a command. -/
def Invocation.ofGiven (before after : Given) (l : Level) : Invocation :=
  { verbose := if after.verbose = 0 then before.verbose else after.verbose
    quiet := before.quiet || after.quiet
    color := (after.color <|> before.color).getD .auto
    config := after.config <|> before.config
    command := after.command l }

/-- Reads the words of a command line. -/
def Invocation.parse (words : List String) : Except UsageStop Invocation := do
  match ← readProgram words { level := .program } with
  | (s, some (l, rest)) =>
    let t ← rest.foldlM Reading.word { level := l }
    let t ← t.settle
    let s ← s.settle
    return .ofGiven s.given t.given l
  | (s, none) =>
    let s ← s.settle
    throw (if s.given.isEmpty then .nothingGiven else .commandMissing)

end MockExplorer.Console
