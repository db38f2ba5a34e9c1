import PipelineAudit.Cli.Command
import PipelineAudit.Report.Encode
import PipelineAudit.Repository
import PipelineAudit.Rule.Listing

/-!
# Running commands

`Cli.run` reads a command line, does what it asks for, and returns what was printed and logged and
the status with which the tool ends: 2 if the command line makes no sense, 1 if the work fails or
finds too much, and 0 otherwise.
-/

namespace PipelineAudit.Cli

/-- What commands know of the world. -/
structure Surroundings where
  /-- Whether reports may be coloured. -/
  color : Bool := false
  /-- Whether the output goes to a terminal. -/
  terminal : Bool := false
  /-- The time that reports give. -/
  now : Moment

/-! ## Help -/

/-- What follows the name of the tool in a command. -/
def synopsis (command : String × String × List OptionSpec) : String :=
  let (name, operands, _) := command
  name ++ " [OPTIONS]" ++ (if operands.isEmpty then "" else " " ++ operands)

/-- An option, with a word for its value. -/
def optionText (o : OptionSpec) : String :=
  "  " ++ o.name ++ (if o.takesValue then " VALUE" else "") ++ "\n"

/-- The options of a command. -/
def optionsText (options : List OptionSpec) : String :=
  "\nOptions:\n" ++ Text.join "" (options.map optionText)

/-- Help for a command, or for all of them. -/
def helpText (command : Option String) : String :=
  match command.bind fun name => commands.find? (·.1 == name) with
  | some c => "Usage: " ++ Release.toolName ++ " " ++ synopsis c ++ "\n" ++ optionsText c.2.2
  | none =>
    "Usage: " ++ Release.toolName ++ " [OPTIONS] COMMAND [ARGS]...\n" ++ optionsText sharedOptions
      ++ "\nCommands:\n" ++ Text.join "" (commands.map fun c => "  " ++ synopsis c ++ "\n")

/-- The version of the tool. -/
def versionText : String := Release.toolName ++ ", version " ++ Release.version ++ "\n"

/-! ## Commands -/

variable {m : Type → Type} [Monad m]

/-- Ends the work with a message where errors go. -/
def giveUp {α : Type} (message : String) : Work m α := do
  Work.complain message
  throw (.exit 1)

/-- Ends the work because of the command line. -/
def refuse {α : Type} (fault : UsageFault) : Work m α := do
  if fault == .nullInPath then throw .nullInPath
  Work.complain ("Error: " ++ fault.message)
  throw (.exit 2)

variable [FileStore m]

/-- Work whose refusal of a configuration ends the tool with a message. -/
def orGiveUp {α : Type} (what : String) (work : Work m α) : Work m α :=
  tryCatch work fun failure =>
    match failure with
    | .config why => giveUp (what ++ ": " ++ why.message)
    | other => throw other

/-- Checks that something is at a path. -/
def requirePath (path : String) (directories : Bool) : Work m Unit := do
  if Path.holdsNull path then refuse .nullInPath
  match ← Work.kind? path with
  | none => refuse (.nothingAt path)
  | some .directory => if directories then pure () else refuse (.directoryAt path)
  | some .file => pure ()

/-- The configuration of a selection, with some rules switched off. -/
def selectedConfig (selection : Selection) (disable : List String) : Work m Value := do
  let config ← orGiveUp "Error loading config file" (Config.load selection.config selection.profile)
  if disable.isEmpty then return config
  else Work.ofExcept .setting (Config.withoutRules config disable)

/-- The files that a path stands for: those of a repository, or itself. -/
def collect (path : String) : Work m (List String) := do
  let path := Path.normalize path
  if (← Work.kind? path) == some .directory then Repository.files path else return [path]

/-- Whether a report reaches a severity; one of a file that cannot be analyzed always does. -/
def reaches (severity : Severity) (r : Report) : Bool :=
  r.isFailed || r.findings.any fun f => severity.rank ≤ f.severity.rank

/-- How the reports of a scan are shown, given the options of the configuration. -/
def scanStyle (world : Surroundings) (c : ScanCommand) (options : Value) : Console.Style :=
  { verbose := c.verbose || (options.get "verbose").truthy
    showSnippets := ((options.get? "show_snippets").getD (.bool true)).truthy
    showGraph := c.graph
    color := world.color && !c.noColor && ((options.get? "color_output").getD (.bool true)).truthy }

/-- The text of reports in a format. -/
def reportText (world : Surroundings) (format : OutputFormat) (style : Console.Style)
    (reports : List Report) : String :=
  match format with
  | .json => Report.jsonText reports (some world.now)
  | .text => Console.text style reports

/-- Scans files and repositories. -/
def scan (world : Surroundings) (c : ScanCommand) : Work m Unit := do
  c.paths.forM (requirePath · true)
  let config ← selectedConfig c.selection c.disable
  let style := scanStyle world c (Engine.orEmpty (config.get "report"))
  let files := (← c.paths.mapM collect).flatten
  if files.isEmpty then giveUp "No pipeline files found"
  let target := c.outputFile.bind nonEmpty?
  if c.format == .text && target.isNone then
    Work.say ("Analyzing " ++ toString files.length ++ " pipeline file(s)")
  let analyzer ← Analyzer.make config c.strict c.selection.dialect
  let reports ← analyzer.reportOnFiles files
  let text := reportText world c.format style reports
  match target with
  | some path =>
    Work.ofFile (FileStore.write (m := m) path text)
    Work.say ("Results written to " ++ path ++ " (" ++ toString (Console.totalIssues reports)
      ++ " issues found)")
  | none => Work.print (if c.format == .json then text ++ "\n" else text)
  match c.failOn with
  | some severity => if reports.any (reaches severity) then throw (.exit 1)
  | none => pure ()

/-- Analyzes one file in detail. -/
def analyze (world : Surroundings) (path : String) (selection : Selection) : Work m Unit := do
  requirePath path false
  let config ← selectedConfig selection []
  let analyzer ← Analyzer.make config false selection.dialect
  let report ← analyzer.reportOnFile path
  Work.say ("Analysis of " ++ path ++ ":")
  Work.print (Console.text { verbose := true, showGraph := true, color := world.color } [report])
  if report.isFailed then throw (.exit 1)

/-- Lists the rules. -/
def showRules (world : Surroundings) (format : OutputFormat) : Work m Unit := do
  let engine ← Analysis.engineFor (.map []) false (some .builtIn)
  match format with
  | .json => Work.say (engine.toJson.indented 0)
  | .text =>
    Work.say (Release.toolName ++ " supports the following rules:")
    Work.print (engine.table world.terminal)

/-- Writes the default configuration to a file, or prints it. -/
def generateConfig (output : Option String) : Work m Unit := do
  let text ← orGiveUp "Could not write config" (Config.generate output)
  match output.bind nonEmpty? with
  | some path => Work.say ("Default config written to " ++ path)
  | none => Work.say text

/-- The analysis options of a configuration, by name. -/
def analysisRows (config : Value) : List String :=
  let rows := (config.get "analysis").entries.map fun (key, value) => (key.display, value.display)
  (rows.mergeSort fun a b => decide (a.1 ≤ b.1)).map fun (key, value) => " - " ++ key
    ++ ": " ++ value

/-- Shows the configuration. -/
def showConfig (c : ConfigCommand) : Work m Unit := do
  let config ← orGiveUp "Config validation failed" (Config.load c.config c.profile)
  let profile := (config.get? "profile").getD (.str Config.defaultProfile)
  Work.say ("Config loaded and valid (profile: " ++ profile.display ++ ").")
  Work.say "\nAnalysis options:"
  (analysisRows config).forM Work.say
  Work.say "\nRules:"
  let engine ← Analysis.engineFor config false (some .builtIn)
  Work.print engine.switches

/-- Looks at the configuration. -/
def configure (c : ConfigCommand) : Work m Unit := do
  match c.config with
  | some path => requirePath path true
  | none => pure ()
  if c.generate then generateConfig c.output else showConfig c

/-- Does what a command asks for. -/
def perform (world : Surroundings) : Command → Work m Unit
  | .help command => Work.print (helpText command)
  | .version => Work.print versionText
  | .scan c => scan world c
  | .analyze path selection => analyze world path selection
  | .rules format => showRules world format
  | .config c => configure c

/-! ## Outcomes -/

/-- How a run of the tool ends. -/
structure Outcome where
  status : Nat
  out : String := ""
  err : String := ""
  /-- The notices from the chosen level on. -/
  log : List Notice := []
  /-- A failure that no command deals with. -/
  failure : Option Failure := none

/-- The outcome of work. -/
def Outcome.ofWork (level : NoticeLevel) (result : Except Failure Unit) (session : Session) :
    Outcome :=
  let (status, failure) := match result with
    | .ok () => (0, none)
    | .error (.exit status) => (status, none)
    | .error other => (1, some other)
  { status := status
    out := session.out
    err := session.err
    log := session.notices.filter fun n => level.rank ≤ n.level.rank
    failure := failure }

/-- Runs the tool. -/
def run (world : Surroundings) (args : List String) : m Outcome := do
  let (level, work) := match Invocation.parse args with
    | .ok i => (i.level, perform world i.command)
    | .error fault => (.warning, refuse fault)
  let (result, session) ← (work : Work m Unit).run.run {}
  return .ofWork level result session

end PipelineAudit.Cli
