import PipelineAudit.Rule.Usage

/-!
# Rules on the actions that a document depends on

Actions and releases that are deprecated, releases behind the latest one, and heavy reuse.
-/

namespace PipelineAudit.Rules

/-! ## Deprecation -/

/-- Deprecated releases of an action and what replaces them. -/
structure DeprecatedReleases where
  versions : List String
  replacement : String

/-- Actions with deprecated releases. -/
def deprecatedReleases : Assoc String DeprecatedReleases := [
  ("actions/checkout", ⟨["v1", "v2"], "actions/checkout@v4"⟩),
  ("actions/setup-node", ⟨["v1", "v2"], "actions/setup-node@v4"⟩),
  ("actions/setup-python", ⟨["v1", "v2", "v3"], "actions/setup-python@v5"⟩),
  ("actions/cache", ⟨["v1", "v2"], "actions/cache@v4"⟩),
  ("actions/upload-artifact", ⟨["v1", "v2", "v3"], "actions/upload-artifact@v4"⟩),
  ("actions/download-artifact", ⟨["v1", "v2", "v3"], "actions/download-artifact@v4"⟩)]

/-- Deprecated actions and what replaces them. -/
def deprecatedActions : Assoc String String := [
  ("actions/create-release", "softprops/action-gh-release"),
  ("actions/upload-release-asset", "softprops/action-gh-release"),
  ("actions/setup-ruby", "ruby/setup-ruby"),
  ("actions-rs/toolchain", "dtolnay/rust-toolchain"),
  ("actions-rs/cargo", "a plain `cargo` run step")]

/-- Why an action is deprecated. -/
inductive Deprecation where
  /-- The action itself is. -/
  | action (replacement : String)
  /-- The release is. -/
  | release (replacement : String)
  deriving DecidableEq, Repr

/-- The major version of a ref, for a rule. -/
def majorOf (ref : String) : Except RuleFault (Option Int) :=
  (majorVersion ref).mapError RuleFault.number

/-- Whether and why an action is deprecated. -/
def deprecation? (a : ActionRef) : Except RuleFault (Option Deprecation) := do
  let name := Text.lower a.name
  if !a.isExternal then return none
  if let some replacement := deprecatedActions.get? name then return some (.action replacement)
  let some releases := deprecatedReleases.get? name | return none
  let some ref := a.ref | return none
  let some major ← majorOf ref | return none
  return if releases.versions.contains ("v" ++ toString major) then
    some (.release releases.replacement) else none

/-- What the rule says. -/
def deprecatedActionSpec : RuleSpec where
  id := "deprecated_action"
  category := .dependency
  severity := .error
  title := "Deprecated action version"
  description := "The action version runs on a deprecated runtime"
  remediation := "Update to a supported alternative action"
  dialects := [.github]

/-- The draft for a deprecated action. -/
def deprecationDraft (j : Job) (s : Step) (a : ActionRef) : Deprecation → Draft
  | .release replacement =>
    { s.draft j ("'" ++ a.raw ++ "' is a deprecated version") with
      suggestion := some ("Replace with " ++ replacement)
      severity := some .error }
  | .action replacement =>
    { s.draft j ("Action '" ++ a.name ++ "' is deprecated and should be replaced") with
      title := some "Deprecated action"
      suggestion := some ("Replace with " ++ replacement)
      severity := some .warning }

/-- Actions and releases are not deprecated. -/
def deprecatedAction : Rule :=
  deprecatedActionSpec.fallibleStepRule fun _ _ j s => do
    let some a := s.action | return []
    let some why ← deprecation? a | return []
    return [deprecationDraft j s a why]

/-! ## Later releases -/

/-- What the rule says. -/
def outdatedActionSpec : RuleSpec where
  id := "outdated_action"
  category := .dependency
  severity := .warning
  title := "Outdated action version"
  description := "A newer major version of the action is available"
  remediation := "Update to the latest major version"
  dialects := [.github]

/-- The advice to take a known release. -/
def updateAdvice (a : ActionRef) (known : KnownAction) : String :=
  match known.sha.bind nonEmpty? with
  | some sha => "Update to " ++ a.name ++ "@" ++ sha ++ " # " ++ known.latestTag
  | none => "Update to " ++ a.name ++ "@" ++ known.latestTag

/-- A tag is not behind the latest known release. Deprecated releases are reported elsewhere. -/
def outdatedAction : Rule :=
  outdatedActionSpec.fallibleStepRule fun options _ j s => do
    let some a := s.action | return []
    if a.kind != .tag then return []
    if (← deprecation? a).isSome then return []
    let some known := options.knownActions.lookup a.slug | return []
    let current ← majorOf (a.ref.getD "")
    let latest ← majorOf known.latestTag
    match current, latest with
    | some m, some n =>
      if m < n then
        let text := "'" ++ a.raw ++ "' is behind the latest release " ++ known.latestTag
        return [{ s.draft j text with suggestion := some (updateAdvice a known) }]
      else return []
    | _, _ => return []

/-! ## Frequent actions -/

/-- What the rule says. -/
def frequentActionSpec : RuleSpec where
  id := "frequent_action"
  category := .dependency
  severity := .info
  title := "Frequently used action"
  description := "The action is a significant dependency of this workflow"
  remediation := "Keep the action's version consistent across all usages"
  dialects := [.github]

/-- The number of uses up to which an action is not used frequently. -/
def maxFrequentUses : Nat := 3

/-- How often an action is used, and in which versions if there are several. -/
def frequencyText (u : ActionUse) : String :=
  let versions := u.refs.eraseDups
  let used := "Action '" ++ u.name ++ "' is used " ++ toString u.count ++ " times"
  if 1 < versions.length then
    used ++ " with " ++ toString versions.length ++ " different versions ("
      ++ Text.join ", " versions ++ ")"
  else used

/-- The actions that a document depends on most. -/
def frequentAction : Rule :=
  frequentActionSpec.pureRule fun _ subject =>
    let external := (ActionUse.uses subject.document.steps).filter fun u => u.1.isExternal
    (ActionUse.moreThan maxFrequentUses external).map fun u =>
      u.draft (frequencyText u)

end PipelineAudit.Rules
