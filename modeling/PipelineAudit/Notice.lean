import PipelineAudit.Rule.Basic

/-!
# Notices

What the tool logs while it works. A notice has a level, a channel and a message.
-/

namespace PipelineAudit

/-- How important a notice is. -/
inductive NoticeLevel where
  | debug
  | info
  | warning
  | error
  deriving DecidableEq, Repr

namespace NoticeLevel

/-- The word for a level. -/
def word : NoticeLevel → String
  | debug => "DEBUG"
  | info => "INFO"
  | warning => "WARNING"
  | error => "ERROR"

/-- The rank of a level. -/
def rank : NoticeLevel → Nat
  | debug => 0
  | info => 1
  | warning => 2
  | error => 3

/-- All levels, from the lowest to the highest. -/
def all : List NoticeLevel := [debug, info, warning, error]

end NoticeLevel

/-- The message for a rule that fails. -/
def RuleFault.message : RuleFault → String
  | runsOnLabels => "runner labels are not a collection"
  | number fault => fault.message
  | line => "a line is no number"
  | category name => "Invalid finding type: " ++ name
  | severity name => "Invalid severity level: " ++ name
  | deliberate => "the rule was made to fail"

/-- What is logged. -/
inductive Notice where
  /-- A document has been read. -/
  | documentRead (file dialect : String) (jobs steps : Nat)
  /-- A document cannot be read. -/
  | documentRejected (file why : String)
  /-- A file cannot be read. -/
  | fileUnreadable (file why : String)
  /-- A configuration names a rule that does not exist. -/
  | unknownRule (name : String)
  /-- A rule failed. -/
  | ruleFailed (rule file : String) (why : RuleFault)
  /-- Jobs depend on each other in a circle. -/
  | cycle (file : String) (jobs : List String)
  /-- Security findings have been annotated. -/
  | annotated (file : String) (total highRisk mitigated : Nat)
  /-- A document has been analyzed. -/
  | analyzed (file : String) (findings score : Nat)
  /-- Files have been found in a repository. -/
  | filesFound (count : Nat) (root : String)
  /-- A configuration has been read. -/
  | configurationRead (path : String)
  /-- An entry of a table of known actions is malformed. -/
  | malformedAction (name : String)
  /-- A table of known actions is no mapping. -/
  | actionsNotAMapping (path : String)
  /-- A table of known actions cannot be read. -/
  | actionsUnreadable (path why : String)
  deriving Repr

namespace Notice

/-- The level of a notice. -/
def level : Notice → NoticeLevel
  | documentRead .. | cycle .. | annotated .. | configurationRead .. => .debug
  | analyzed .. | filesFound .. => .info
  | fileUnreadable .. => .error
  | _ => .warning

/-- The channel of a notice. -/
def channel : Notice → String
  | documentRead .. => "flowlyt.core.parser"
  | documentRejected .. | fileUnreadable .. | analyzed .. | filesFound .. | actionsUnreadable .. =>
    "flowlyt.core.scanner"
  | unknownRule .. | ruleFailed .. => "flowlyt.rules.engine"
  | cycle .. => "flowlyt.core.callgraph"
  | annotated .. => "flowlyt.core.reachability"
  | configurationRead .. => "flowlyt.core.config"
  | malformedAction .. | actionsNotAMapping .. => "flowlyt.utils.known_actions"

/-- The message of a notice, given the words for a failing rule. -/
def messageWith (failure : RuleFault → String) : Notice → String
  | documentRead file dialect jobs steps =>
    "Parsed " ++ file ++ " (" ++ dialect ++ "): " ++ toString jobs ++ " jobs, "
      ++ toString steps ++ " steps"
  | documentRejected file why => "Could not parse " ++ file ++ ": " ++ why
  | fileUnreadable file why => "Could not read " ++ file ++ ": " ++ why
  | unknownRule name => "Ignoring configuration for unknown rule '" ++ name ++ "'"
  | ruleFailed rule file why => "Rule " ++ rule ++ " failed on " ++ file ++ ": " ++ failure why
  | cycle file jobs => "Dependency cycle in " ++ file ++ ": " ++ (Value.ofStrings jobs).display
  | annotated file total highRisk mitigated =>
    "Reachability for " ++ file ++ ": " ++ toString total ++ " security findings, "
      ++ toString highRisk ++ " high risk, " ++ toString mitigated ++ " mitigated"
  | analyzed file findings score =>
    "Analyzed " ++ file ++ ": " ++ toString findings ++ " findings, score " ++ toString score
  | filesFound count root => "Found " ++ toString count ++ " pipeline files in " ++ root
  | configurationRead path => "Loaded configuration from " ++ path
  | malformedAction name => "Ignoring malformed known-actions entry for " ++ name
  | actionsNotAMapping path => "Known-actions database " ++ path ++ " is not a mapping; ignoring it"
  | actionsUnreadable path why => "Could not load known-actions database " ++ path ++ ": " ++ why

/-- The message of a notice. -/
def message : Notice → String := messageWith RuleFault.message

/-- A notice as a line of a log. -/
def line (n : Notice) : String := n.level.word ++ " " ++ n.channel ++ ": " ++ n.message

end Notice

end PipelineAudit
