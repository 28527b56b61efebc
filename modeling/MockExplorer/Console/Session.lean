import MockExplorer.Console.Arguments
import MockExplorer.Console.Files
import MockExplorer.Console.Listing
import MockExplorer.Console.Notice
import MockExplorer.Fixture
import MockExplorer.Form.Report
import MockExplorer.Solver.Equality
import MockExplorer.Yaml.Settings

/-!
# Sessions

What each command does: load the settings, explore the cases, and show what came of it. A session says
what is printed and how it ends; only files are touched on the way.
-/

namespace MockExplorer.Console

/-- Why a command fails. -/
inductive ConsoleError where
  | config (message : String)
  | invalidArgument (message : String)
  | incomplete (message : String)
  | io (message : String)
  | mock (e : MockError)
deriving DecidableEq, Repr, Inhabited

def ConsoleError.text : ConsoleError → String
  | .config message => "Configuration error: " ++ message
  | .invalidArgument message => "Invalid argument: " ++ message
  | .incomplete message => "Campaign incomplete: " ++ message
  | .io message => "I/O error: " ++ message
  | .mock e => e.text

/-! ## Settings -/

/-- The settings file of a working directory. -/
def defaultSettingsPath : String := "./cmock.yaml"

/-- Settings and the file they came from, if any. -/
structure LoadedSettings where
  settings : Config := {}
  source : Option String := none
deriving DecidableEq, Inhabited

namespace LoadedSettings

def ofText (path text : String) : Except ConsoleError LoadedSettings :=
  match Config.ofYaml text with
  | .ok settings => .ok { settings, source := some path }
  | .error e => .error (.mock e)

/-- Replaces the number of workers and the budget, where these are given. -/
def withOverrides (l : LoadedSettings) (workers maxExecutions : Option UInt64) : LoadedSettings :=
  let c := l.settings.campaign
  { l with settings.campaign :=
      { c with
        workers := workers.getD c.workers
        maxExecutions := maxExecutions.getD c.maxExecutions } }

end LoadedSettings

/-- Loads the settings. A file that is named has to be there; the settings file of the working directory
is used if there is one. -/
def loadSettings {m : Type → Type} [Monad m] (fs : FileSystem m) (explicit : Option String) :
    m (Except ConsoleError LoadedSettings) := do
  match explicit with
  | some path =>
    match ← fs.read path with
    | .ok text => return LoadedSettings.ofText path text
    | .error e => return .error (.mock (.io e.text))
  | none =>
    match ← fs.read defaultSettingsPath with
    | .ok text => return LoadedSettings.ofText defaultSettingsPath text
    | .error .notFound | .error .isDirectory | .error .notDirectory => return .ok {}
    | .error e => return .error (.mock (.io e.text))

/-! ## Campaigns -/

/-- The fixture cases of these names; without a name, all regular ones. -/
def selectCases (names : List String) : Except ConsoleError (List TestCase) :=
  match names with
  | [] => .ok Fixture.cases
  | _ => names.mapM fun name =>
    match Fixture.find? name with
    | some t => .ok t
    | none => .error (.invalidArgument ("unknown case `" ++ name ++ "`"))

/-- Explores the cases over a fresh oracle. -/
def runCampaign (settings : Config) (processors : Nat) (cases : List TestCase) : CampaignReport :=
  (CampaignContext.runAll { config := settings, solver := .equality, processors } {} cases).1

/-! ## Commands -/

/-- What a command runs on. -/
structure Machine where
  /-- Whether the output goes to a terminal. -/
  isTerminal : Bool := false
  /-- Whether colours are shown at all. -/
  styled : Bool := false
  processors : Nat := 1
deriving DecidableEq, Repr, Inhabited

/-- What a command prints, and why it fails, if it does. -/
structure Transcript where
  stdout : String := ""
  notices : List String := []
  failure : Option ConsoleError := none
deriving DecidableEq, Inhabited

namespace Transcript

def exitCode (t : Transcript) : UInt8 := if t.failure.isSome then 1 else 0

/-- The lines on the error stream. -/
def stderr (t : Transcript) : List String :=
  t.notices ++ (t.failure.map fun e => "Error: " ++ e.text).toList

/-- The transcript of a command that fails at once. -/
def failed (e : ConsoleError) : Transcript := { failure := some e }

end Transcript

/-- Why a campaign does not count as a success. -/
def shortfall? (r : CampaignReport) : Option ConsoleError :=
  if r.isSuccess then none
  else
    let uncovered := r.cases.countP fun c => !c.status.isComplete
    some (.incomplete (toString uncovered ++ " of " ++ toString r.cases.length ++ " cases not covered"))

/-- The report in the format that was asked for. -/
def renderReport (r : CampaignReport) (format : ReportFormat) (styled : Bool) : String :=
  match format with
  | .text => r.listing styled
  | .json => (JsonForm.write r).pretty

variable {m : Type → Type} [Monad m]

/-- Explores cases and reports on them. -/
def runCommand (fs : FileSystem m) (machine : Machine) (color : ColorChoice) (verbosity : Verbosity)
    (loaded : LoadedSettings) (args : RunArgs) : m Transcript := do
  match loaded.settings.validate with
  | .error e => return .failed (.mock e)
  | .ok () =>
    match selectCases args.cases with
    | .error e => return .failed e
    | .ok cases =>
      let useColor := color.shouldColor machine.isTerminal
      let reporter : Reporter := { color := useColor, quiet := verbosity.isQuiet, styled := machine.styled }
      let report := runCampaign loaded.settings machine.processors cases
      let opening := loaded.source.map fun path => (⟨.info, "using " ++ path⟩ : Notice)
      let notices := reporter.report (opening.toList ++ noticesOf report)
      match args.output with
      | none =>
        let shown := !verbosity.isQuiet || args.format = .json
        let rendered := renderReport report args.format (useColor && machine.styled)
        return { stdout := if shown then rendered else "", notices, failure := shortfall? report }
      | some path =>
        match ← fs.write path (renderReport report args.format false) with
        | .error e => return { notices, failure := some (.io e.text) }
        | .ok () =>
          let closing := reporter.report [⟨.info, "report written to " ++ path⟩]
          return { notices := notices ++ closing, failure := shortfall? report }

/-- The targets of all fixture cases. -/
def fixtureTargets : List NamedTarget :=
  Fixture.all.flatMap fun t => t.targets.map fun target => ⟨t.name, target⟩

def targetsCommand (settings : Config) (format : ReportFormat) : Transcript :=
  match format with
  | .text => { stdout := NamedTarget.listing fixtureTargets settings.mock }
  | .json => { stdout := NamedTarget.jsonListing fixtureTargets settings.mock }

def configCommand (settings : Config) (defaults : Bool) : Transcript :=
  { stdout := (if defaults then {} else settings : Config).toYaml }

/-- Does what the command line asks for. -/
def Invocation.perform (i : Invocation) (fs : FileSystem m) (machine : Machine) : m Transcript := do
  match ← loadSettings fs i.config with
  | .error e => return .failed e
  | .ok loaded =>
    match i.command with
    | .run args =>
      runCommand fs machine i.color (.ofFlags i.quiet i.verbose)
        (loaded.withOverrides args.workers args.maxExecutions) args
    | .targets format => return targetsCommand loaded.settings format
    | .config defaults => return configCommand loaded.settings defaults

/-- The name that a level goes by. -/
def Level.displayName : Level → String
  | .program => "cmock"
  | .run => "cmock-run"
  | .targets => "cmock-targets"
  | .config => "cmock-config"

/-- The name of a level and the version of the program. -/
def versionText (l : Level) : String := l.displayName ++ " 0.4.0\n"

/-- How to use the program. -/
def helpText : String :=
  lines [
    "Usage: cmock [OPTIONS] <COMMAND>",
    "",
    "Commands:",
    "  run      Explore the fixture cases",
    "             --case <NAME>, -j/--workers <N>, --max-executions <N>,",
    "             -f/--format <text|json>, -o/--output <PATH>",
    "  targets  Show how the targets of the fixture cases are intercepted",
    "             -f/--format <text|json>",
    "  config   Show the settings in effect",
    "             --defaults",
    "  help     Show this text",
    "",
    "Options:",
    "  -v, --verbose         Say more; may be repeated",
    "  -q, --quiet           Show failures only",
    "      --color <WHEN>    auto, always or never",
    "  -c, --config <PATH>   Settings file (default: ./cmock.yaml, if there is one)",
    "  -h, --help            Show this text",
    "  -V, --version         Show the version"]

end MockExplorer.Console
