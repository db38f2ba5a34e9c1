import PipelineAudit.Cli.Arguments
import PipelineAudit.Config.Basic
import PipelineAudit.Notice
import PipelineAudit.Text.Case

/-!
# Commands

What the command line asks for. A command line names a command behind the options that all commands
share; without a command it asks for help. Help and version are given as soon as the options can be
read, whatever else is wrong.
-/

namespace PipelineAudit.Cli

/-- How reports are written. -/
inductive OutputFormat where
  | text
  | json
  deriving DecidableEq, Repr

/-- The options about which files are analyzed how. -/
structure Selection where
  dialect : Option String := none
  config : Option String := none
  profile : Option String := none
  deriving DecidableEq, Repr

/-- A scan of files and repositories. -/
structure ScanCommand where
  paths : List String
  selection : Selection := {}
  /-- Rules to switch off. -/
  disable : List String := []
  strict : Bool := false
  format : OutputFormat := .text
  outputFile : Option String := none
  /-- The lowest severity that makes the scan fail; none if nothing does. -/
  failOn : Option Severity := some .error
  graph : Bool := false
  noColor : Bool := false
  verbose : Bool := false
  deriving Repr

/-- A look at the configuration. -/
structure ConfigCommand where
  config : Option String := none
  profile : Option String := none
  generate : Bool := false
  output : Option String := none
  deriving DecidableEq, Repr

/-- What the tool is asked to do. -/
inductive Command where
  /-- Help for a command, or for all of them. -/
  | help (command : Option String)
  | version
  | scan (options : ScanCommand)
  | analyze (path : String) (selection : Selection)
  | rules (format : OutputFormat)
  | config (options : ConfigCommand)
  deriving Repr

/-- A command, with the lowest level of notices to show. -/
structure Invocation where
  level : NoticeLevel := .warning
  command : Command
  deriving Repr

/-! ## Options -/

/-- The option that asks for help. -/
def helpOption : OptionSpec := flag "--help"

/-- The options that all commands share. -/
def sharedOptions : List OptionSpec := [flag "--version", ⟨"--log-level", .text⟩, helpOption]

/-- The option for a profile. -/
def profileOption : OptionSpec := ⟨"--profile", .choice (Assoc.keys Config.profiles)⟩

/-- The options of a selection. -/
def selectionOptions : List OptionSpec :=
  [⟨"--dialect", .choice [Dialect.github.name, Dialect.gitlab.name]⟩, ⟨"--config", .path⟩,
    profileOption]

/-- The word with which nothing makes a scan fail. -/
def neverFails : String := "none"

/-- The options of a scan. -/
def scanOptions : List OptionSpec :=
  selectionOptions
    ++ [⟨"--disable", .text⟩, flag "--strict", ⟨"--output", .choice ["text", "json"]⟩,
    ⟨"--output-file", .path⟩,
      ⟨"--fail-on", .choice (Severity.all.map Severity.name ++ [neverFails])⟩,
    flag "--graph", flag "--no-color", flag "--verbose", helpOption]

/-- The options of an analysis. -/
def analyzeOptions : List OptionSpec := selectionOptions ++ [helpOption]

/-- The options of the list of rules. -/
def rulesOptions : List OptionSpec := [⟨"--format", .choice ["table", "json"]⟩, helpOption]

/-- The options of a look at the configuration. -/
def configOptions : List OptionSpec :=
  [⟨"--config", .path⟩, profileOption, flag "--generate", ⟨"--output", .path⟩, helpOption]

/-- The commands with their operands and options. -/
def commands : List (String × String × List OptionSpec) := [
  ("scan", "PATHS...", scanOptions),
  ("analyze", "FILE_PATH", analyzeOptions),
  ("rules", "", rulesOptions),
  ("config", "", configOptions)]

/-! ## Reading -/

/-- The selection of options that have been checked. -/
def Selection.ofArguments (a : Arguments) : Selection :=
  { dialect := a.value? "--dialect", config := a.value? "--config",
    profile := a.value? "--profile" }

/-- The severity that makes a scan fail. -/
def failOnOf (a : Arguments) : Option Severity :=
  match a.value? "--fail-on" with
  | some word => Severity.ofName? word
  | none => some .error

/-- The format that an option names. -/
def formatOf (a : Arguments) (option : String) : OutputFormat :=
  if a.value? option == some "json" then .json else .text

/-- Reads a scan. -/
def ScanCommand.ofArguments (a : Arguments) : Except UsageFault ScanCommand := do
  if a.operands.isEmpty then throw (.operandMissing "PATHS...")
  return {
    paths := a.operands
    selection := .ofArguments a
    disable := a.values "--disable"
    strict := a.has "--strict"
    format := formatOf a "--output"
    outputFile := a.value? "--output-file"
    failOn := failOnOf a
    graph := a.has "--graph"
    noColor := a.has "--no-color"
    verbose := a.has "--verbose" }

/-- Reads a command whose options have been checked. -/
def Command.ofArguments (name : String) (a : Arguments) : Except UsageFault Command :=
  match name with
  | "scan" => Command.scan <$> ScanCommand.ofArguments a
  | "analyze" => do
    match a.operands with
    | [path] => return .analyze path (.ofArguments a)
    | [] => throw (.operandMissing "FILE_PATH")
    | _ :: more => throw (.operandsUnexpected more)
  | "rules" => do
    a.noOperands
    return .rules (formatOf a "--format")
  | "config" => do
    a.noOperands
    return .config ⟨a.value? "--config", a.value? "--profile", a.has "--generate",
      a.value? "--output"⟩
  | _ => throw (.unknownCommand name)

/-- Reads a command. -/
def Command.parse (name : String) (args : List String) : Except UsageFault Command := do
  match commands.find? (·.1 == name) with
  | none => throw (.unknownCommand name)
  | some (_, _, options) =>
    let a ← Arguments.parse options true args
    if a.has helpOption.name then return .help (some name)
    a.check options
    Command.ofArguments name a

/-- Reads the level of notices, in capitals or not. -/
def levelOf (a : Arguments) : Except UsageFault NoticeLevel :=
  match a.value? "--log-level" with
  | none => .ok .warning
  | some word =>
    match NoticeLevel.all.find? fun l => Text.lower l.word == Text.lower word with
    | some level => .ok level
    | none => .error (.badChoice "--log-level" word (NoticeLevel.all.map NoticeLevel.word))

/-- Reads a command line. -/
def Invocation.parse (args : List String) : Except UsageFault Invocation := do
  let a ← Arguments.parse sharedOptions false args
  match a.given.find? fun g => g.1 == "--version" || g.1 == helpOption.name with
  | some (name, _) => return { command := if name == "--version" then .version else .help none }
  | none =>
    let level ← levelOf a
    match a.operands with
    | [] => return { level := level, command := .help none }
    | name :: rest => return { level := level, command := ← Command.parse name rest }

end PipelineAudit.Cli
