import PipelineAudit.Rule.Catalog

/-!
# The rule engine

The engine holds rules with their switches. A configuration can switch rules off through the
analysis options and on or off by their names; names win. A rule that fails on a document is
reported and skipped, and the findings of the other rules are kept.
-/

namespace PipelineAudit

/-- Why a configuration cannot be used. -/
inductive SettingFault where
  /-- A mapping is needed. -/
  | notAMapping
  /-- The value does not allow the use that is made of it. -/
  | notUsable
  /-- A list has no item at a position. -/
  | missingItem
  deriving DecidableEq, Repr

/-- A rule with its switch, as it stands in an engine. A rule may stand there more than once, and
still has one switch; the number tells it from other rules with its id. -/
structure EngineRule where
  rule : Rule
  enabled : Bool := true
  number : Nat := 0

/-- Whether two entries are of one rule. -/
def EngineRule.isSame (r other : EngineRule) : Bool :=
  r.rule.id == other.rule.id && r.number == other.number

/-- Rules with their switches, and the options that all of them get. -/
structure Engine where
  options : RuleOptions
  rules : List EngineRule

namespace Engine

/-! ## Switches -/

/-- Sets the switch of the first rule with an id, wherever this rule stands. -/
def setSwitch (id : String) (enabled : Bool) (rules : List EngineRule) : List EngineRule :=
  match rules.find? (·.rule.id == id) with
  | some first => rules.map fun r => if r.isSame first then { r with enabled := enabled } else r
  | none => rules

/-- The first rule with an id. -/
def find? (e : Engine) (id : String) : Option EngineRule := e.rules.find? (·.rule.id == id)

/-- Switches a rule on or off. -/
def switch (e : Engine) (id : String) (enabled : Bool) : Engine :=
  { e with rules := setSwitch id enabled e.rules }

/-- Adds an entry at the end. If its rule stands there already, it gets the switch of this rule. -/
def add (e : Engine) (r : EngineRule) : Engine :=
  { e with rules := e.rules ++ [(e.rules.find? (·.isSame r)).getD r] }

/-- Adds a new rule at the end, switched on. -/
def register (e : Engine) (rule : Rule) : Engine := e.add { rule := rule, number := e.rules.length }

/-- The ids of the rules that are switched on. -/
def enabledIds (e : Engine) : List String := (e.rules.filter (·.enabled)).map (·.rule.id)

/-! ## Construction -/

/-- All rules, switched on. -/
def ofOptions (options : RuleOptions) : Engine :=
  ⟨options, Rules.catalog.map fun r => { rule := r }⟩

/-- Analysis options with the rule that each one switches off, and the value that does so. -/
def analysisToggles : List (String × String × Bool) := [
  ("require_job_names", "job_name", false),
  ("require_step_names", "step_name", false),
  ("require_error_handling", "error_handling", false),
  ("require_caching", "missing_cache", false),
  ("skip_documentation_checks", "documentation", true)]

/-- A value, or an empty mapping in place of one that counts as false. -/
def orEmpty (v : Value) : Value := if v.truthy then v else .map []

/-- The section of a configuration with a name; empty if it is missing. -/
def sectionOf (config : Value) (name : String) : Except SettingFault Value :=
  if config.isMap then .ok (orEmpty (config.get name)) else .error .notAMapping

/-- Whether the analysis options ask for strict mode. -/
def strictOption (analysis : Value) : Except SettingFault Bool :=
  if analysis.isMap then .ok (analysis.get "strict_mode").truthy else .error .notAMapping

/-- Whether a collection that is no mapping holds a text. -/
def holdsText (v : Value) (text : String) : Except SettingFault Bool :=
  match v with
  | .seq items => .ok (items.any fun item => item.same (.str text))
  | .str s => .ok (Text.contains s text)
  | _ => .error .notUsable

/-- Applies one analysis option. -/
def applyToggle (analysis : Value) (e : Engine) (toggle : String × String × Bool) :
    Except SettingFault Engine := do
  let (option, id, off) := toggle
  if analysis.isMap then
    match analysis.get? option with
    | some v => return if v.truthy == off then e.switch id false else e
    | none => return e
  else if ← holdsText analysis option then throw .notUsable
  else return e

/-- The rule that a key of the rules section names. -/
def ruleNamed? (e : Engine) (key : Value) : Option EngineRule :=
  match key with
  | .str id => e.find? id
  | _ => none

/-- Applies one entry of the rules section. -/
def applyRule (e : Engine) (entry : Value × Value) : Engine :=
  match e.ruleNamed? entry.1 with
  | some r => e.switch r.rule.id entry.2.truthy
  | none => e

/-- Applies the rules section. -/
def applyRules (e : Engine) (rules : Value) : Except SettingFault Engine :=
  match rules with
  | .map entries => .ok (entries.foldl applyRule e)
  | _ => .error .notAMapping

/-- The engine for a configuration. An empty table of known actions stands for the built-in one. -/
def ofConfig (config : Value) (strict : Bool) (known : Option KnownActions) :
    Except SettingFault Engine := do
  let config := orEmpty config
  let analysis ← sectionOf config "analysis"
  let strict ← if strict then pure true else strictOption analysis
  let e := ofOptions { strict := strict, knownActions := KnownActions.orBuiltIn known }
  if config.entries.isEmpty then return e
  let e ← analysisToggles.foldlM (applyToggle analysis) e
  e.applyRules (← sectionOf config "rules")

/-- The names in the rules section of a configuration that no built-in rule has. -/
def unknownRules (config : Value) : List String :=
  let e := ofOptions {}
  ((config.get "rules").entries.filter fun entry => (e.ruleNamed? entry.1).isNone).map
    fun entry => entry.1.display

/-! ## Scanning -/

/-- The rules that run on a document. -/
def applicable (e : Engine) (d : Document) : List Rule :=
  (e.rules.filter fun r => r.enabled && r.rule.covers d).map (·.rule)

/-- What the rules that run on a document return. -/
def outcomes (e : Engine) (subject : Subject) : List (Rule × Except RuleFault (List Finding)) :=
  (e.applicable subject.document).map fun r => (r, r.check e.options subject)

/-- The findings of all rules that do not fail, without repeats. -/
def scan (e : Engine) (subject : Subject) : List Finding :=
  Finding.distinct ((e.outcomes subject).flatMap fun o => (o.2.toOption).getD [])

/-- The rules that fail on a document. -/
def failures (e : Engine) (subject : Subject) : List (String × RuleFault) :=
  (e.outcomes subject).filterMap fun o =>
    match o.2 with
    | .error why => some (o.1.id, why)
    | .ok _ => none

end Engine

end PipelineAudit
