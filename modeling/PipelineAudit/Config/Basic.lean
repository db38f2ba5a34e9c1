import PipelineAudit.Rule.Engine

/-!
# Configurations

A configuration is a mapping. `Config.merge` lays one mapping over another: where both have a
mapping under a key the two are merged, and otherwise the second one wins. A profile changes the
analysis options that a configuration leaves at their defaults.
-/

namespace PipelineAudit

/-- Why a configuration is refused. -/
inductive ConfigError where
  | notAMapping
  | unknownOption (name : String)
  | rulesNotAMapping
  | ruleNotABoolean (rule : String)
  | analysisNotAMapping
  | unknownAnalysisOption (name : String)
  | analysisNotABoolean (name : String)
  | unknownProfile (name : String)
  | workersNotPositive
  | actionsNotAMapping
  | actionsFileNotAPath
  | reportNotAMapping
  /-- The file does not exist. -/
  | fileNotFound (path : String)
  /-- The file is not well formed. -/
  | malformed (why : String)
  /-- The file cannot be read. -/
  | unreadable (why : String)
  /-- The file cannot be written. -/
  | unwritable (why : String)
  /-- The file for the defaults cannot be written. -/
  | defaultsUnwritable (why : String)
  deriving DecidableEq, Repr

namespace Config

/-! ## Defaults -/

/-- The analysis options with their defaults. -/
def defaultAnalysis : Assoc String Value := [
  ("strict_mode", .bool false),
  ("ignore_info_level", .bool false),
  ("focus_on_security", .bool false),
  ("skip_documentation_checks", .bool false),
  ("require_job_names", .bool true),
  ("require_step_names", .bool true),
  ("require_error_handling", .bool true),
  ("require_caching", .bool true)]

/-- The profiles with the analysis options they set. -/
def profiles : Assoc String (Assoc String Value) := [
  ("default", []),
  ("strict", [
    ("strict_mode", .bool true),
    ("require_job_names", .bool true),
    ("require_step_names", .bool true),
    ("require_error_handling", .bool true),
    ("require_caching", .bool true)]),
  ("security", [
    ("ignore_info_level", .bool true),
    ("focus_on_security", .bool true),
    ("skip_documentation_checks", .bool true),
    ("require_job_names", .bool false),
    ("require_step_names", .bool false),
    ("require_error_handling", .bool true),
    ("require_caching", .bool false)])]

/-- The name of the profile that changes nothing. -/
def defaultProfile : String := "default"

/-- The options with their defaults. -/
def defaultFields : Assoc String Value := [
  ("profile", .str defaultProfile),
  ("rules", .map []),
  ("analysis", .ofFields defaultAnalysis),
  ("known_actions_file", .null),
  ("known_actions", .map []),
  ("max_workers", .int 4),
  ("report", .ofFields [
    ("color_output", .bool true),
    ("show_snippets", .bool true),
    ("verbose", .bool false)])]

/-- The default configuration. -/
def default : Value := .ofFields defaultFields

/-! ## Merging -/

mutual

/-- Lays entries over others. -/
def mergeEntries (base : List (Value × Value)) : List (Value × Value) → List (Value × Value)
  | [] => base
  | e :: rest => mergeEntries (mergeEntry base e) rest
termination_by structural es => es

/-- Lays one entry over others. -/
def mergeEntry (base : List (Value × Value)) : Value × Value → List (Value × Value)
  | (key, value) => Value.insertEntry base key (mergeValue (Value.lookup base key) value)
termination_by structural e => e

/-- Lays a value over what was there before. -/
def mergeValue (old : Option Value) : Value → Value
  | .map entries =>
    match old with
    | some (.map base) => .map (mergeEntries base entries)
    | _ => .map entries
  | v => v
termination_by structural v => v

end

/-- Lays one mapping over another. -/
def merge (base override : Value) : Except SettingFault Value :=
  match base, override with
  | .map b, .map o => .ok (.map (mergeEntries b o))
  | _, _ => .error .notAMapping

/-! ## Profiles -/

/-- The default of an analysis option, null if it has none. -/
def analysisDefault (key : Value) : Value :=
  (Value.lookup (Value.ofFields defaultAnalysis).entries key).getD .null

/-- The analysis options that differ from their defaults. -/
def explicitAnalysis (analysis : List (Value × Value)) : List (Value × Value) :=
  analysis.filter fun e => !(analysisDefault e.1).same e.2

/-- The analysis options under a profile: defaults, then the profile, then what differs from the
defaults. -/
def profiledAnalysis (profile : Assoc String Value) (analysis : List (Value × Value)) : Value :=
  let entries := fun (fields : Assoc String Value) => (Value.ofFields fields).entries
  .map (mergeEntries (mergeEntries (entries defaultAnalysis) (entries profile))
    (explicitAnalysis analysis))

/-- Why a profile cannot be applied. -/
inductive ProfileFault where
  | unknown (name : String)
  | setting (fault : SettingFault)
  deriving DecidableEq, Repr

/-- The configuration under a profile. -/
def withProfile (config : Value) (name : String) : Except ProfileFault Value :=
  match profiles.get? name with
  | none => .error (.unknown name)
  | some profile =>
    match config, (Engine.sectionOf config "analysis").map Value.isMap with
    | .map entries, .ok true =>
      let analysis := (Engine.orEmpty (config.get "analysis")).entries
      let named := Value.insertEntry entries (.str "profile") (.str name)
      .ok (.map (Value.insertEntry named (.str "analysis") (profiledAnalysis profile analysis)))
    | _, _ => .error (.setting .notAMapping)

/-! ## Rules -/

/-- Switches rules off. -/
def withoutRules (config : Value) (rules : List String) : Except SettingFault Value :=
  match config with
  | .map entries =>
    match (config.get? "rules").getD (.map []) with
    | .map toggles =>
      let toggles := rules.foldl (fun es r => Value.insertEntry es (.str r) (.bool false)) toggles
      .ok (.map (Value.insertEntry entries (.str "rules") (.map toggles)))
    | _ => if rules.isEmpty then .ok config else .error .notUsable
  | _ => .error .notAMapping

end Config

/-- What is wrong with a configuration, in words. -/
def ConfigError.message : ConfigError → String
  | notAMapping => "Configuration must be a mapping"
  | unknownOption name => "Unknown configuration option '" ++ name ++ "'"
  | rulesNotAMapping => "'rules' must be a dictionary"
  | ruleNotABoolean rule => "Rule '" ++ rule ++ "' must be a boolean (true/false)"
  | analysisNotAMapping => "'analysis' must be a dictionary"
  | unknownAnalysisOption name => "Unknown analysis option '" ++ name ++ "'"
  | analysisNotABoolean name => "'analysis." ++ name ++ "' must be a boolean"
  | unknownProfile name =>
    "Unknown profile '" ++ name ++ "'. Must be one of: "
      ++ Text.join ", " (Assoc.keys Config.profiles)
  | workersNotPositive => "'max_workers' must be a positive integer"
  | actionsNotAMapping => "'known_actions' must be a dictionary"
  | actionsFileNotAPath => "'known_actions_file' must be a path"
  | reportNotAMapping => "'report' must be a dictionary"
  | fileNotFound path => "Configuration file not found: " ++ path
  | malformed why => "Error parsing YAML configuration: " ++ why
  | unreadable why => "Error loading configuration: " ++ why
  | unwritable why => "Error saving configuration: " ++ why
  | defaultsUnwritable why => "Error saving default configuration: " ++ why

end PipelineAudit
