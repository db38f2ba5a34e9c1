import PipelineAudit.Config.Basic

/-!
# Valid configurations

A configuration has known options only, and each one has the kind of value it needs. The first fault
in the order of the checks is reported.
-/

namespace PipelineAudit.Config

/-- Why a configuration is not valid: it is refused, or a value cannot be checked. -/
inductive InvalidConfig where
  | refused (error : ConfigError)
  | setting (fault : SettingFault)
  /-- A number is too long to be named in the refusal. -/
  | number (fault : NumberFault)
  deriving DecidableEq, Repr

/-- The outcome of a check. -/
abbrev Check := Except InvalidConfig Unit

/-- Refuses the configuration unless a condition holds. -/
def ensure (condition : Bool) (error : ConfigError) : Check :=
  if condition then .ok () else .error (.refused error)

/-- Refuses the configuration, naming a value, unless a condition holds. -/
def ensureFor (condition : Bool) (v : Value) (error : String → ConfigError) : Check :=
  if condition then .ok ()
  else match v.written with
    | .ok name => .error (.refused (error name))
    | .error fault => .error (.number fault)

/-- Whether a value is a truth value. -/
def isBool : Value → Bool
  | .bool _ => true
  | _ => false

/-- Whether a key is among names. -/
def isAmong (names : List String) : Value → Bool
  | .str s => names.contains s
  | _ => false

/-- Checks the switches of the rules. -/
def checkRules (config : Value) : Check :=
  match config.get? "rules" with
  | none => .ok ()
  | some (.map entries) =>
    entries.forM fun (rule, value) => ensureFor (isBool value) rule .ruleNotABoolean
  | some _ => .error (.refused .rulesNotAMapping)

/-- Checks one analysis option. -/
def checkAnalysisOption (entry : Value × Value) : Check := do
  ensureFor (isAmong (Assoc.keys defaultAnalysis) entry.1) entry.1 .unknownAnalysisOption
  ensureFor (isBool entry.2) entry.1 .analysisNotABoolean

/-- Checks the analysis options. -/
def checkAnalysis (config : Value) : Check :=
  match config.get? "analysis" with
  | none => .ok ()
  | some (.map entries) => entries.forM checkAnalysisOption
  | some _ => .error (.refused .analysisNotAMapping)

/-- Checks the profile. -/
def checkProfile (config : Value) : Check :=
  match config.get? "profile" with
  | none => .ok ()
  | some v =>
    if v.isKey then ensureFor (isAmong (Assoc.keys profiles) v) v .unknownProfile
    else .error (.setting .notUsable)

/-- Whether a value is a positive number of workers. -/
def isPositive : Value → Bool
  | .int n => decide (0 < n)
  | _ => false

/-- Checks the remaining options. -/
def checkOthers (config : Value) : Check := do
  ensure ((config.get? "max_workers").all isPositive) .workersNotPositive
  ensure ((config.get? "known_actions").all Value.isMap) .actionsNotAMapping
  let file := config.get "known_actions_file"
  ensure (file.isNull || file.isStr) .actionsFileNotAPath
  ensure ((config.get? "report").all Value.isMap) .reportNotAMapping

/-- Checks a configuration. -/
def validate (config : Value) : Check := do
  ensure config.isMap .notAMapping
  config.entries.forM fun (key, _) =>
    ensureFor (isAmong (Assoc.keys defaultFields) key) key .unknownOption
  checkRules config
  checkAnalysis config
  checkProfile config
  checkOthers config

end PipelineAudit.Config
