import Mathlib.Data.List.Basic
import PipelineAudit.Proofs.Workflow.Document
import PipelineAudit.Rule.Catalog

/-!
# What stands over the findings of the rules

Every rule of the catalogue makes its findings from drafts, whichever way it goes through the jobs
and steps of a document (`RuleSpec.Makes`, with one lemma for each kind of rule). Two of them ask of
each action a question that may have no answer (`RuleSpec.actionRule`). A draft leaves severity and
title to its rule or sets them itself (`Draft.override`), and all rules but one choose from a few
fixed ones: a `Voice` is a rule with what its drafts set and the proof that they set nothing else.
So the headings of findings are those of one list (`Rules.headings`), about which questions can be
decided, or name a job that does not exist (`Rules.heading_of_mem_catalog`).
-/

namespace PipelineAudit

/-- What a draft sets itself instead of leaving it to its rule: severity and title. -/
def Draft.override (d : Draft) : Option Severity × Option String := (d.severity, d.title)

/-- What stands over a finding: its rule, what it is about, how bad it is and its title. -/
structure Heading where
  ruleId : String
  category : Category
  severity : Severity
  title : String
  deriving DecidableEq

/-- The heading of a finding. -/
def Finding.heading (f : Finding) : Heading := ⟨f.ruleId, f.category, f.severity, f.title⟩

/-- What is collected item by item comes from one of the items. -/
lemma exists_of_mem_collected {ε α β : Type} {f : α → Except ε (List β)} {items : List α}
    {all : List β} {b : β} (h : (do return (← items.mapM f).flatten) = .ok all) (hb : b ∈ all) :
    ∃ a ∈ items, ∃ found, f a = .ok found ∧ b ∈ found := by
  obtain ⟨collected, hcollected, h⟩ := bind_eq_ok.mp h
  cases h
  obtain ⟨found, hfound, hb⟩ := List.mem_flatten.mp hb
  obtain ⟨a, ha, hfa⟩ := exists_of_mem_mapM hcollected hfound
  exact ⟨a, ha, found, hfa, hb⟩

namespace RuleSpec

/-- The heading of the findings of a rule that set a severity and a title. -/
def heading (spec : RuleSpec) (set : Option Severity × Option String) : Heading :=
  ⟨spec.id, spec.category, set.1.getD spec.severity, orElseText set.2 spec.title⟩

/-- The finding of a draft is made with its line and the lines around it. -/
lemma finding_eq_ok {spec : RuleSpec} {subject : Subject} {d : Draft} {f : Finding} :
    spec.finding subject d = .ok f ↔ ∃ line snippet, d.line = .ok line ∧
      Snippet.around subject.source line = .ok snippet ∧
        f = d.findingWith spec.toRuleText spec.category (d.severity.getD spec.severity)
          subject.fileName line snippet := by
  constructor
  · intro h
    obtain ⟨⟨line, snippet⟩, hevidence, hmade⟩ := bind_eq_ok.mp h
    obtain ⟨line', hline, hshown⟩ := bind_eq_ok.mp (mapError_eq_ok.mp hevidence)
    obtain ⟨snippet', hsnippet, hpair⟩ := bind_eq_ok.mp hshown
    cases hpair
    exact ⟨line, snippet, hline, hsnippet, (Except.ok.inj hmade).symm⟩
  · rintro ⟨line, snippet, hline, hsnippet, rfl⟩
    have hevidence : d.evidence subject.source = .ok (line, snippet) :=
      mapError_eq_ok.mpr (bind_eq_ok.mpr ⟨line, hline, bind_eq_ok.mpr ⟨snippet, hsnippet, rfl⟩⟩)
    exact bind_eq_ok.mpr ⟨_, hevidence, rfl⟩

/-- On a subject, a rule makes its findings from drafts with a property. -/
def MakesOn (spec : RuleSpec) (rule : Rule) (options : RuleOptions) (subject : Subject)
    (p : Draft → Prop) : Prop :=
  ∀ found, rule.check options subject = .ok found →
    ∀ f ∈ found, ∃ draft, p draft ∧ spec.finding subject draft = .ok f

/-- A rule makes its findings from drafts with a property. -/
def Makes (spec : RuleSpec) (rule : Rule) (p : Draft → Prop) : Prop :=
  ∀ options subject found, rule.check options subject = .ok found →
    ∀ f ∈ found, ∃ draft, p draft ∧ spec.finding subject draft = .ok f

variable {spec : RuleSpec} {p : Draft → Prop}

/-! ## Kinds of rules -/

section kinds

variable {options : RuleOptions} {subject : Subject}

/-- A rule makes what it drafts. -/
lemma makesOn_rule {check : RuleOptions → Subject → Except RuleFault (List Draft)}
    (h : ∀ drafts, check options subject = .ok drafts → ∀ d ∈ drafts, p d) :
    spec.MakesOn (spec.rule check) options subject p := by
  intro found hfound f hf
  obtain ⟨drafts, hdrafts, hfound⟩ := bind_eq_ok.mp hfound
  obtain ⟨draft, hdraft, hfinding⟩ := exists_of_mem_mapM hfound hf
  exact ⟨draft, h drafts hdrafts draft hdraft, hfinding⟩

/-- A rule that cannot fail makes what it drafts. -/
lemma makesOn_pureRule {check : RuleOptions → Subject → List Draft}
    (h : ∀ d ∈ check options subject, p d) :
    spec.MakesOn (spec.pureRule check) options subject p := by
  refine makesOn_rule fun drafts hdrafts => ?_
  cases hdrafts
  exact h

/-- A rule on jobs makes what it drafts for each of them. -/
lemma makesOn_jobRule {check : RuleOptions → Subject → Job → List Draft}
    (h : ∀ j ∈ subject.document.jobs, ∀ d ∈ check options subject j, p d) :
    spec.MakesOn (spec.jobRule check) options subject p := by
  refine makesOn_pureRule fun d hd => ?_
  obtain ⟨j, hj, hd⟩ := List.mem_flatMap.mp hd
  exact h j hj d hd

/-- A rule on steps makes what it drafts for each of them. -/
lemma makesOn_stepRule {check : RuleOptions → Subject → Job → Step → List Draft}
    (h : ∀ j s, (j, s) ∈ subject.document.steps → ∀ d ∈ check options subject j s, p d) :
    spec.MakesOn (spec.stepRule check) options subject p := by
  refine makesOn_pureRule fun d hd => ?_
  obtain ⟨⟨j, s⟩, hs, hd⟩ := List.mem_flatMap.mp hd
  exact h j s hs d hd

/-- A rule on steps that may fail makes what it drafts for each of them. -/
lemma makesOn_fallibleStepRule
    {check : RuleOptions → Subject → Job → Step → Except RuleFault (List Draft)}
    (h : ∀ j s, (j, s) ∈ subject.document.steps →
      ∀ drafts, check options subject j s = .ok drafts → ∀ d ∈ drafts, p d) :
    spec.MakesOn (spec.fallibleStepRule check) options subject p := by
  refine makesOn_rule fun drafts hdrafts d hd => ?_
  obtain ⟨⟨j, s⟩, hs, ofStep, hcheck, hd⟩ := exists_of_mem_collected hdrafts hd
  exact h j s hs ofStep hcheck d hd

/-- A rule that writes texts first makes what it drafts. -/
lemma makesOn_writingRule {values : Document → List Value}
    {check : RuleOptions → Subject → List Draft}
    (h : ∀ d ∈ check options subject, p d) :
    spec.MakesOn (spec.writingRule values check) options subject p := by
  refine makesOn_rule fun drafts hdrafts => ?_
  split_ifs at hdrafts
  cases hdrafts
  exact h

section asking

variable {α : Type} {ask : RuleOptions → ActionRef → Except RuleFault (Option α)}
  {draft : Job → Step → ActionRef → α → Draft} {j : Job} {s : Step}

/-- The draft for the answer to a question about the action of a step, if it has an answer. -/
def answerDrafts (ask : RuleOptions → ActionRef → Except RuleFault (Option α))
    (draft : Job → Step → ActionRef → α → Draft) (options : RuleOptions) (j : Job) (s : Step) :
    Except RuleFault (List Draft) :=
  match s.action with
  | none => .ok []
  | some a => (ask options a).map fun answer? => (answer?.map (draft j s a)).toList

/-- There is at most one draft, and it is for an answer. -/
lemma answerDrafts_cases {drafts : List Draft}
    (h : answerDrafts ask draft options j s = .ok drafts) :
    drafts = [] ∨ ∃ a answer, drafts = [draft j s a answer] := by
  unfold answerDrafts at h
  split at h
  · cases h
    exact Or.inl rfl
  · rename_i a _
    obtain ⟨answer?, -, rfl⟩ := map_eq_ok.mp h
    cases answer? with
    | none => exact Or.inl rfl
    | some answer => exact Or.inr ⟨a, answer, rfl⟩

/-- The rule that asks a question about every action, which may fail, and drafts the answer, if
there is one. -/
def actionRule (spec : RuleSpec) (ask : RuleOptions → ActionRef → Except RuleFault (Option α))
    (draft : Job → Step → ActionRef → α → Draft) : Rule :=
  spec.fallibleStepRule fun options _ j s => answerDrafts ask draft options j s

/-- A rule on actions makes what it drafts for each answer. -/
lemma makesOn_actionRule
    (h : ∀ j s, (j, s) ∈ subject.document.steps → ∀ a answer, p (draft j s a answer)) :
    spec.MakesOn (spec.actionRule ask draft) options subject p := by
  refine makesOn_fallibleStepRule fun j s hs drafts hdrafts d hd => ?_
  rcases answerDrafts_cases hdrafts with rfl | ⟨a, answer, rfl⟩
  · cases hd
  · exact List.mem_singleton.mp hd ▸ h j s hs a answer

end asking

end kinds

/-! The same on every subject. -/

/-- A rule that cannot stop makes what its check makes. -/
lemma makes_pureRule {check : RuleOptions → Subject → List Draft}
    (h : ∀ options subject, ∀ d ∈ check options subject, p d) :
    spec.Makes (spec.pureRule check) p :=
  fun options subject => makesOn_pureRule (h options subject)

/-- A rule about jobs makes what its check makes for a job. -/
lemma makes_jobRule {check : RuleOptions → Subject → Job → List Draft}
    (h : ∀ options subject j, ∀ d ∈ check options subject j, p d) :
    spec.Makes (spec.jobRule check) p :=
  fun options subject => makesOn_jobRule fun j _ => h options subject j

/-- A rule about steps makes what its check makes for a step. -/
lemma makes_stepRule {check : RuleOptions → Subject → Job → Step → List Draft}
    (h : ∀ options subject j s, ∀ d ∈ check options subject j s, p d) :
    spec.Makes (spec.stepRule check) p :=
  fun options subject => makesOn_stepRule fun j s _ => h options subject j s

/-- A rule that writes values makes what its check makes. -/
lemma makes_writingRule {values : Document → List Value}
    {check : RuleOptions → Subject → List Draft}
    (h : ∀ options subject, ∀ d ∈ check options subject, p d) :
    spec.Makes (spec.writingRule values check) p :=
  fun options subject => makesOn_writingRule (h options subject)

end RuleSpec

/-- A rule with the severities and titles that its drafts set. -/
structure Voice where
  spec : RuleSpec
  rule : Rule
  sets : List (Option Severity × Option String) := [(none, none)]
  makes : spec.Makes rule fun d => d.override ∈ sets

namespace Rules

/-! ## Rules that set severities or titles -/

/-- The headings of findings about credentials. -/
lemma makes_hardcodedCredentials : hardcodedCredentialsSpec.Makes hardcodedCredentials fun d =>
    d.override ∈ [(none, none), (none, some "All secrets serialized with toJSON"),
      (some .warning, some "Secret passed to external command")] := by
  refine RuleSpec.makes_pureRule fun options subject d hd => ?_
  simp only [List.mem_append, or_assoc] at hd
  rcases hd with hd | hd | hd
  · obtain ⟨⟨text, i⟩, -, hd⟩ := List.mem_flatMap.mp hd
    grind [credentialsInLine, placeInSource, Draft.override]
  · grind [credentialsInValues, Draft.override]
  · obtain ⟨⟨j, s⟩, -, hd⟩ := List.mem_flatMap.mp hd
    grind [credentialsSent, Draft.override]

/-- The headings of findings about unpinned actions. -/
lemma makes_unpinnedAction : unpinnedActionSpec.Makes unpinnedAction fun d =>
    d.override ∈ [(some .error, none), (some .warning, none)] := by
  refine RuleSpec.makes_stepRule fun options subject j s d hd => ?_
  grind [pinningFault, Draft.override, Step.draft]

/-- The headings of findings about permissions. -/
lemma makes_permissions : permissionsSpec.Makes permissions fun d =>
    d.override ∈ [(some .error, none), (some .warning, none)] := by
  refine RuleSpec.makes_writingRule fun options subject d hd => ?_
  grind [Draft.override]

/-- The headings of findings about injected commands. -/
lemma makes_commandInjection : commandInjectionSpec.Makes commandInjection fun d =>
    d.override ∈ [(some .error, none), (some .warning, none)] := by
  refine RuleSpec.makes_writingRule fun options subject d hd => ?_
  obtain ⟨⟨j, s⟩, -, hd⟩ := List.mem_flatMap.mp hd
  grind [injectionDrafts, Draft.override, Step.draft]

/-- The headings of findings about errors that nothing handles. -/
lemma makes_errorHandling : errorHandlingSpec.Makes errorHandling fun d =>
    d.override ∈ [(none, none), (none, some "Risky step without error handling")] := by
  refine RuleSpec.makes_jobRule fun options subject j d hd => ?_
  grind [Draft.override, Job.draft, Step.draft]

/-- The rule on deprecated actions asks whether and why an action is deprecated. -/
lemma deprecatedAction_eq :
    deprecatedAction = deprecatedActionSpec.actionRule (fun _ => deprecation?)
      deprecationDraft := by
  unfold deprecatedAction RuleSpec.actionRule RuleSpec.answerDrafts
  congr 1
  funext options subject j s
  rcases s.action with - | a
  · rfl
  dsimp only
  rcases deprecation? a with fault | - | why
  · rfl
  · rfl
  · rfl

/-- What is said of deprecated actions is said of their steps. -/
lemma makesOn_deprecatedAction {options : RuleOptions} {subject : Subject} {p : Draft → Prop}
    (h : ∀ j s, (j, s) ∈ subject.document.steps → ∀ a why, p (deprecationDraft j s a why)) :
    deprecatedActionSpec.MakesOn deprecatedAction options subject p :=
  deprecatedAction_eq ▸ RuleSpec.makesOn_actionRule h

/-- The headings of findings about deprecated actions. -/
lemma makes_deprecatedAction : deprecatedActionSpec.Makes deprecatedAction fun d =>
    d.override ∈ [(some .error, none), (some .warning, some "Deprecated action")] := by
  refine fun options subject => makesOn_deprecatedAction fun j s _ a why => ?_
  cases why <;> simp [deprecationDraft, Draft.override, Step.draft]

/-- The title of a finding on a job that does not exist. -/
def missingTitle (name : String) : String := "Missing job dependency '" ++ name ++ "'"

/-- The title on a job that does not exist starts with words of its own. -/
lemma startsWith_missingTitle (name : String) :
    Text.startsWith (missingTitle name) "Missing job dependency '" = true := by
  have hstart : ∀ head tail : String, Text.startsWith (head ++ tail) head = true :=
    fun head tail => by
    rw [Text.startsWith, String.toList_append]
    exact List.isPrefixOf_iff_prefix.mpr (List.prefix_append _ _)
  have hsplit : missingTitle name = "Missing job dependency '" ++ (name ++ "'") :=
    String.append_assoc ..
  rw [hsplit, hstart]

/-- The heading of a finding on a job that does not exist. -/
def missingHeading (name : String) : Heading :=
  ⟨"missing_dependency", .structural, .error, missingTitle name⟩

/-- The title on a job that does not exist is not left to the rule. -/
lemma heading_missing (name : String) :
    missingDependencySpec.heading (none, some (missingTitle name)) = missingHeading name := by
  have hne : missingTitle name ≠ "" := by
    intro hempty
    unfold missingTitle at hempty
    exact absurd (String.append_eq_empty_iff.mp hempty).2 (by decide)
  have htitle : orElseText (some (missingTitle name)) missingDependencySpec.title =
      missingTitle name := by
    simp [orElseText, nonEmpty?, hne]
  rw [RuleSpec.heading, htitle]
  rfl

/-- A draft on a job that does not exist has the name of the job in its title. -/
lemma makes_missingDependency : missingDependencySpec.Makes missingDependency fun d =>
    ∃ name, d.override = (none, some (missingTitle name)) := by
  refine RuleSpec.makes_jobRule fun options subject j d hd => ?_
  obtain ⟨name, -, rfl⟩ := List.mem_map.mp hd
  exact ⟨name, rfl⟩

/-! ## Rules that may fail and set nothing -/

/-- What stops the rule on runners at a job. -/
def runnerFault : LabelFault → RuleFault
  | .notACollection => .runsOnLabels
  | .number fault => .number fault

/-- What the rule on runners drafts for a job. -/
def runnerDrafts (j : Job) : Except RuleFault (List Draft) :=
  (j.runsOnLabels.mapError runnerFault).map fun labels =>
    if labels.any fun label => Text.lower label == "self-hosted" then
      [j.draft ("Job '" ++ j.id ++ "' runs on a self-hosted runner")]
    else []

/-- The rule about runners as one that makes drafts job by job. -/
lemma selfHostedRunner_eq : selfHostedRunner = selfHostedRunnerSpec.rule fun _ subject => do
    return (← subject.document.jobs.mapM runnerDrafts).flatten := by
  unfold selfHostedRunner
  congr 1
  funext options subject
  congr 2
  funext j
  unfold runnerDrafts
  rcases j.runsOnLabels with (- | fault) | labels
  · rfl
  · rfl
  · dsimp only
    split_ifs with hown
    · simp [hown, Except.map, Except.mapError, pure, Except.pure]
    · simp [hown, Except.map, Except.mapError, pure, Except.pure]

/-- What is said of runners is said of their jobs. -/
lemma makesOn_selfHostedRunner {options : RuleOptions} {subject : Subject} {p : Draft → Prop}
    (h : ∀ j ∈ subject.document.jobs, ∀ text, p (j.draft text)) :
    selfHostedRunnerSpec.MakesOn selfHostedRunner options subject p := by
  rw [selfHostedRunner_eq]
  refine RuleSpec.makesOn_rule fun drafts hdrafts d hd => ?_
  obtain ⟨j, hj, ofJob, hcheck, hd⟩ := exists_of_mem_collected hdrafts hd
  obtain ⟨labels, -, rfl⟩ := map_eq_ok.mp hcheck
  split_ifs at hd
  · obtain rfl := List.mem_singleton.mp hd
    exact h j hj _
  · cases hd

/-- Findings about runners have the heading of the rule. -/
lemma makes_selfHostedRunner : selfHostedRunnerSpec.Makes selfHostedRunner fun d =>
    d.override ∈ [(none, none)] :=
  fun _ _ => makesOn_selfHostedRunner fun _ _ _ => List.mem_singleton_self _

/-- The latest known release of an action, where the action has a tag that is behind it and not
deprecated. -/
def laterRelease? (options : RuleOptions) (a : ActionRef) :
    Except RuleFault (Option KnownAction) := do
  if a.kind != .tag then return none
  if (← deprecation? a).isSome then return none
  let some known := options.knownActions.lookup a.slug | return none
  let current ← majorOf (a.ref.getD "")
  let latest ← majorOf known.latestTag
  match current, latest with
  | some m, some n => return if m < n then some known else none
  | _, _ => return none

/-- The draft for an action that is behind a release. -/
def updateDraft (j : Job) (s : Step) (a : ActionRef) (known : KnownAction) : Draft :=
  { s.draft j ("'" ++ a.raw ++ "' is behind the latest release " ++ known.latestTag) with
    suggestion := some (updateAdvice a known) }

/-- The rule on outdated actions asks for a later release. -/
lemma outdatedAction_eq :
    outdatedAction = outdatedActionSpec.actionRule laterRelease? updateDraft := by
  unfold outdatedAction RuleSpec.actionRule RuleSpec.answerDrafts laterRelease?
  congr 1
  funext options subject j s
  -- both end without a draft in the same cases
  rcases s.action with - | a
  · rfl
  dsimp only
  split_ifs
  · rfl
  rcases deprecation? a with fault | - | why
  · rfl
  · rcases options.knownActions.lookup a.slug with - | known
    · rfl
    simp only [bind, Except.bind, Option.isSome_none, Bool.false_eq_true, if_false]
    rcases majorOf (a.ref.getD "") with fault | current
    · rfl
    dsimp only
    rcases majorOf known.latestTag with fault | latest
    · rfl
    rcases current with - | m <;> rcases latest with - | n
    · rfl
    · rfl
    · rfl
    · dsimp only
      split_ifs <;> rfl
  · rfl

/-- What is said of outdated actions is said of their steps. -/
lemma makesOn_outdatedAction {options : RuleOptions} {subject : Subject} {p : Draft → Prop}
    (h : ∀ j s, (j, s) ∈ subject.document.steps →
      ∀ text advice, p { s.draft j text with suggestion := some advice }) :
    outdatedActionSpec.MakesOn outdatedAction options subject p :=
  outdatedAction_eq ▸ RuleSpec.makesOn_actionRule fun j s hs _ _ => h j s hs _ _

/-- Findings about outdated actions have the heading of the rule. -/
lemma makes_outdatedAction : outdatedActionSpec.Makes outdatedAction fun d =>
    d.override ∈ [(none, none)] :=
  fun _ _ => makesOn_outdatedAction fun _ _ _ _ _ => List.mem_singleton_self _

/-! ## The catalogue -/

/-- The rules on security with what they set. -/
def securityVoices : List Voice := [
  { spec := hardcodedCredentialsSpec, rule := hardcodedCredentials
    makes := makes_hardcodedCredentials },
  { spec := unpinnedActionSpec, rule := unpinnedAction, makes := makes_unpinnedAction },
  { spec := permissionsSpec, rule := permissions, makes := makes_permissions },
  { spec := unsafeScriptSpec, rule := unsafeScript
    makes := RuleSpec.makes_stepRule fun _ _ _ _ _ _ => by grind [Draft.override, Step.draft] },
  { spec := commandInjectionSpec, rule := commandInjection, makes := makes_commandInjection },
  { spec := privilegedCheckoutSpec, rule := privilegedCheckout
    makes := RuleSpec.makes_writingRule fun _ _ _ _ => by grind [Draft.override, Step.draft] },
  { spec := selfHostedRunnerSpec, rule := selfHostedRunner, makes := makes_selfHostedRunner },
  { spec := thirdPartyActionSpec, rule := thirdPartyAction
    makes := RuleSpec.makes_stepRule fun _ _ _ _ _ _ => by grind [Draft.override, Step.draft] }]

/-- The rules on wasted time with what they set. -/
def performanceVoices : List Voice := [
  { spec := missingCacheSpec, rule := missingCache
    makes := RuleSpec.makes_jobRule fun _ _ _ _ _ => by grind [Draft.override, Step.draft] },
  { spec := redundantCheckoutSpec, rule := redundantCheckout
    makes := RuleSpec.makes_jobRule fun _ _ _ _ _ => by grind [Draft.override, Step.draft] },
  { spec := largeMatrixSpec, rule := largeMatrix
    makes := RuleSpec.makes_jobRule fun _ _ _ _ _ => by grind [Draft.override, Job.draft] },
  { spec := unusedArtifactSpec, rule := unusedArtifact
    makes := RuleSpec.makes_writingRule fun _ _ _ _ => by grind [Draft.override, Step.draft] },
  { spec := heavyActionUsageSpec, rule := heavyActionUsage
    makes := RuleSpec.makes_pureRule fun _ _ _ _ => by
      grind [Draft.override, Step.draft, ActionUse.draft] }]

/-- The rules on readability with what they set. -/
def practiceVoices : List Voice := [
  { spec := workflowNameSpec, rule := workflowName
    makes := RuleSpec.makes_pureRule fun _ _ _ _ => by grind [Draft.override] },
  { spec := jobNameSpec, rule := jobName
    makes := RuleSpec.makes_jobRule fun _ _ _ _ _ => by grind [Draft.override, Job.draft] },
  { spec := stepNameSpec, rule := stepName
    makes := RuleSpec.makes_stepRule fun _ _ _ _ _ _ => by grind [Draft.override, Step.draft] },
  { spec := timeoutSpec, rule := timeout
    makes := RuleSpec.makes_jobRule fun _ _ _ _ _ => by grind [Draft.override, Job.draft] },
  { spec := errorHandlingSpec, rule := errorHandling, makes := makes_errorHandling },
  { spec := documentationSpec, rule := documentation
    makes := RuleSpec.makes_pureRule fun _ _ _ _ => by grind [Draft.override] },
  { spec := envShadowingSpec, rule := envShadowing
    makes := RuleSpec.makes_jobRule fun _ _ _ _ _ => by grind [Draft.override, Job.draft] }]

/-- The rules on actions with what they set. -/
def dependencyVoices : List Voice := [
  { spec := deprecatedActionSpec, rule := deprecatedAction, makes := makes_deprecatedAction },
  { spec := outdatedActionSpec, rule := outdatedAction, makes := makes_outdatedAction },
  { spec := frequentActionSpec, rule := frequentAction
    makes := RuleSpec.makes_pureRule fun _ _ _ _ => by
      grind [Draft.override, Step.draft, ActionUse.draft] }]

/-- The rules on the shape of a document with what they set, that on missing dependencies aside. -/
def structureVoices : List Voice := [
  { spec := complexWorkflowSpec, rule := complexWorkflow
    makes := RuleSpec.makes_pureRule fun _ _ _ _ => by grind [Draft.override] },
  { spec := complexTriggersSpec, rule := complexTriggers
    makes := RuleSpec.makes_pureRule fun _ _ _ _ => by grind [Draft.override] },
  { spec := excessiveJobsSpec, rule := excessiveJobs
    makes := RuleSpec.makes_pureRule fun _ _ _ _ => by grind [Draft.override] }]

/-- All rules that set one of a few severities and titles. -/
def voices : List Voice :=
  securityVoices ++ performanceVoices ++ practiceVoices ++ dependencyVoices ++ structureVoices

/-- A rule of the catalogue is that on missing dependencies or one of the others. -/
lemma mem_catalog_iff {rule : Rule} :
    rule ∈ catalog ↔ rule = missingDependency ∨ ∃ v ∈ voices, v.rule = rule := by
  have hvoices : voices.map Voice.rule = securityRules ++ performanceRules ++ practiceRules ++
      dependencyRules ++ [complexWorkflow, complexTriggers, excessiveJobs] := rfl
  rw [← List.mem_map, hvoices]
  simp only [catalog, structureRules, List.mem_append, List.mem_cons]
  tauto

/-- The headings of the findings of these rules. -/
def headings : List Heading := voices.flatMap fun v => v.sets.map v.spec.heading

end Rules

/-- The heading of a finding is that of its rule with what its draft sets. -/
lemma RuleSpec.heading_of_finding {spec : RuleSpec} {subject : Subject} {d : Draft} {f : Finding}
    (h : spec.finding subject d = .ok f) : f.heading = spec.heading d.override := by
  obtain ⟨_, _, -, -, rfl⟩ := RuleSpec.finding_eq_ok.mp h
  rfl

/-- **The heading of a finding of the catalogue** is one of the list, or that of a missing
dependency. -/
theorem Rules.heading_of_mem_catalog {rule : Rule} (hrule : rule ∈ catalog) {options : RuleOptions}
    {subject : Subject} {found : List Finding} (hfound : rule.check options subject = .ok found)
    {f : Finding} (hf : f ∈ found) :
    f.heading ∈ headings ∨ ∃ name, f.heading = missingHeading name := by
  rcases mem_catalog_iff.mp hrule with rfl | ⟨v, hv, rfl⟩
  · obtain ⟨d, ⟨name, hname⟩, hd⟩ := makes_missingDependency options subject found hfound f hf
    exact Or.inr ⟨name, by rw [RuleSpec.heading_of_finding hd, hname, heading_missing]⟩
  · obtain ⟨d, hset, hd⟩ := v.makes options subject found hfound f hf
    refine Or.inl (List.mem_flatMap.mpr ⟨v, hv, ?_⟩)
    rw [RuleSpec.heading_of_finding hd]
    exact List.mem_map_of_mem hset

end PipelineAudit
