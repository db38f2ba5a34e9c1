import PipelineAudit.Proofs.Pattern.Expression
import PipelineAudit.Proofs.Rule.Failure

/-!
# Untrusted input in scripts

The rule on injections looks at the script of a step as a whole: its commands and the argument of an
action that runs a script, one after the other. An input that either of them uses alone is used by
the whole (`Rules.mem_injectedInputs`), since text around a text hides no input. So a check that
comes to an end reports every step of which a part uses an input, and names all of them
(`Rules.seesInjections`). It reports nothing else: its findings are those of the drafts for such
steps (`Rules.exists_drafts_of_check`).

The check does not come to an end where an argument is a number too long to be written. The steps of
the document are then not reported, also those whose commands alone use an input
(`Rules.exists_unseen_injection`).
-/

namespace PipelineAudit

namespace Rules

variable {options : RuleOptions} {subject : Subject} {j : Job} {s : Step} {p : NamedPattern}

/-- The commands of a step alone, or the script that it hands to an action alone, use an untrusted
input in an expression. -/
def Injects (s : Step) (p : NamedPattern) : Prop :=
  p ∈ Untrusted.inExpressions (s.run.getD "") ∨
    p ∈ Untrusted.inExpressions (scriptArgument s).display

/-- Two texts that are joined, if they are not empty, stand in the result. -/
lemma exists_around_join (a b : String) :
    (∃ before after, Text.join "\n" ([a, b].filter fun t => !t.isEmpty) = before ++ a ++ after) ∧
      ∃ before after, Text.join "\n" ([a, b].filter fun t => !t.isEmpty) = before
        ++ b ++ after := by
  by_cases ha : a = "" <;> by_cases hb : b = ""
  · subst ha hb
    exact ⟨⟨"", "", rfl⟩, "", "", rfl⟩
  · subst ha
    have : Text.join "\n" (["", b].filter fun t => !t.isEmpty) = b := by simp [hb, Text.join]
    rw [this]
    exact ⟨⟨"", b, by simp⟩, "", "", by simp⟩
  · subst hb
    have : Text.join "\n" ([a, ""].filter fun t => !t.isEmpty) = a := by simp [ha, Text.join]
    rw [this]
    exact ⟨⟨"", "", by simp⟩, a, "", by simp⟩
  · have : Text.join "\n" ([a, b].filter fun t => !t.isEmpty) = a ++ "\n" ++ b := by
      simp [ha, hb, Text.join]
    rw [this]
    exact ⟨⟨"", "\n" ++ b, by simp [String.append_assoc]⟩, a ++ "\n", "", by simp⟩

/-- An input that a part of a script uses is used by the script. -/
lemma mem_injectedInputs (h : Injects s p) : p ∈ injectedInputs .github (shellText s) := by
  obtain ⟨⟨before, after, hrun⟩, before', after', hscript⟩ :=
    exists_around_join (s.run.getD "") (scriptArgument s).display
  rcases h with h | h
  · have := Untrusted.mem_inExpressions_append h before after
    rwa [← hrun] at this
  · have := Untrusted.mem_inExpressions_append h before' after'
    rwa [← hscript] at this

/-- Inputs in expressions are errors. -/
lemma severity_of_mem_inExpressions {text : String} (h : p ∈ Untrusted.inExpressions text) :
    p.severity = .error := by
  have hall : ∀ p ∈ Untrusted.patterns, p.dialects.contains .github = true →
      p.severity = .error := by
    decide +kernel
  obtain ⟨hp, inside, -, hfound⟩ := Untrusted.mem_inExpressions_iff.mp h
  exact hall p hp (Bool.and_eq_true _ _ ▸ hfound).1

/-- What is said of a step that uses untrusted inputs. -/
def injectionText (j : Job) (s : Step) (inputs : List NamedPattern) : String :=
  "Step " ++ s.label j ++ " interpolates untrusted input ("
    ++ Text.join ", " (inputs.map NamedPattern.description) ++ ") into a script"

/-- A finding reports that a step pastes untrusted input into its script: it is an error at the
step, and names every input that a part of the script uses. -/
structure ReportsInjection (f : Finding) (j : Job) (s : Step) : Prop where
  rule : f.ruleId = "command_injection"
  severity : f.severity = .error
  location : f.location = some ⟨some j.id, some (.ofNat s.index), s.lineValue⟩
  names : ∃ inputs, (∀ p, Injects s p → p ∈ inputs) ∧ f.description = injectionText j s inputs

/-- What the rule on injections sees, and what it reports. -/
structure SeesInjections (options : RuleOptions) (subject : Subject) : Prop where
  /-- An input is found in a text exactly if it is found in a part of it between an opening and the
  first closing behind that. -/
  finds : ∀ (p : NamedPattern) (text : String), p ∈ Untrusted.inExpressions text ↔
    p ∈ Untrusted.patterns ∧
    ∃ inside ∈ Expression.insides text.toList, p.found .github (String.ofList inside) = true
  /-- Text around a text hides no input that was found in it. -/
  around : ∀ (p : NamedPattern) (before text after : String), p ∈ Untrusted.inExpressions text →
    p ∈ Untrusted.inExpressions (before ++ text ++ after)
  /-- The check comes to an end if the arguments of actions that run scripts can be written. -/
  ends : commandInjection.Handles options subject ↔
    ∀ q ∈ subject.document.steps, (scriptArgument q.2).isWritable = true
  /-- If it does, every step is reported of which a part uses an input. -/
  reported : ∀ found, commandInjection.check options subject = .ok found →
    ∀ j s, (j, s) ∈ subject.document.steps → (∃ p, Injects s p) →
      ∃ f ∈ found, ReportsInjection f j s
  /-- Nothing is reported but steps whose script uses an input. -/
  told : ∀ found, commandInjection.check options subject = .ok found → ∀ f ∈ found,
    ∃ j s, (j, s) ∈ subject.document.steps ∧ injectedInputs .github (shellText s) ≠ [] ∧
      ReportsInjection f j s

/-- What is drafted for a step that uses untrusted inputs. -/
def injectionDraft (j : Job) (s : Step) : Draft :=
  { s.draft j (injectionText j s (injectedInputs .github (shellText s))) with
    severity := some .error }

/-- One finding is drafted for a step whose script uses an input. -/
lemma mem_injectionDrafts_iff {draft : Draft} : draft ∈ injectionDrafts .github j s ↔
    injectedInputs .github (shellText s) ≠ [] ∧ draft = injectionDraft j s := by
  by_cases hnone : injectedInputs .github (shellText s) = []
  · simp [injectionDrafts, hnone]
  · obtain ⟨p, hp⟩ := List.exists_mem_of_ne_nil _ hnone
    have hempty : (injectedInputs .github (shellText s)).isEmpty = false := by simpa using hnone
    have hany : (injectedInputs .github (shellText s)).any (·.severity == .error) = true :=
      List.any_eq_true.mpr ⟨p, hp, by simp [severity_of_mem_inExpressions hp]⟩
    simp [injectionDrafts, injectionDraft, injectionText, hnone, hempty, hany]

/-- The finding of such a draft reports the step. -/
lemma reportsInjection_of_finding {f : Finding}
    (h : commandInjectionSpec.finding subject (injectionDraft j s) = .ok f) :
    ReportsInjection f j s := by
  obtain ⟨line, _, hline, -, rfl⟩ := RuleSpec.finding_eq_ok.mp h
  obtain rfl : s.lineValue = line := Except.ok.inj hline
  have hne : injectionText j s (injectedInputs .github (shellText s)) ≠ "" := by
    simp [injectionText]
  refine ⟨rfl, rfl, rfl, injectedInputs .github (shellText s),
    fun p hp => mem_injectedInputs hp, ?_⟩
  simp [Draft.findingWith, orElseText, injectionDraft, Step.draft, nonEmpty?, hne]

/-- A check that comes to an end gives the findings of the drafts for the steps whose scripts use an
input. -/
lemma exists_drafts_of_check {found : List Finding} (h : subject.document.dialect = .github)
    (hfound : commandInjection.check options subject = .ok found) :
    ∃ drafts : List Draft, drafts.mapM (commandInjectionSpec.finding subject) = .ok found ∧
      ∀ draft, draft ∈ drafts ↔ ∃ j s, (j, s) ∈ subject.document.steps ∧
        injectedInputs .github (shellText s) ≠ [] ∧ draft = injectionDraft j s := by
  obtain ⟨drafts, hdrafts, hfound⟩ := bind_eq_ok.mp hfound
  refine ⟨drafts, hfound, fun draft => ?_⟩
  dsimp only at hdrafts
  split_ifs at hdrafts
  cases hdrafts
  rw [h, List.mem_flatMap]
  simp only [mem_injectionDrafts_iff, Prod.exists]

/-- **No text hides an injection**: an input that is found in a text is found wherever the text
stands, and the rule on injections reports every step of which a part uses an input, if its check
comes to an end. -/
theorem seesInjections (options : RuleOptions) (subject : Subject)
    (h : subject.document.dialect = .github) : SeesInjections options subject where
  finds p text := by
    rw [Untrusted.mem_inExpressions_iff, Untrusted.expressions_eq]
    simp
  around _ before text after hp := Untrusted.mem_inExpressions_append hp before after
  ends := by
    rw [handles_commandInjection_iff, List.forall_mem_map]
  reported found hfound j s hs hinjects := by
    obtain ⟨p, hp⟩ := hinjects
    obtain ⟨drafts, hfound, hdrafts⟩ := exists_drafts_of_check h hfound
    have hdraft : injectionDraft j s ∈ drafts :=
      (hdrafts _).mpr ⟨j, s, hs, List.ne_nil_of_mem (mem_injectedInputs hp), rfl⟩
    obtain ⟨f, hf, hfinding⟩ := exists_mem_of_mapM hfound hdraft
    exact ⟨f, hf, reportsInjection_of_finding hfinding⟩
  told found hfound f hf := by
    obtain ⟨drafts, hfound, hdrafts⟩ := exists_drafts_of_check h hfound
    obtain ⟨draft, hdraft, hfinding⟩ := exists_of_mem_mapM hfound hf
    obtain ⟨j, s, hs, hinputs, rfl⟩ := (hdrafts draft).mp hdraft
    exact ⟨j, s, hs, hinputs, reportsInjection_of_finding hfinding⟩

/-- Two steps that use an untrusted input behind an opening that is never closed: one in its
commands, one in the script that it hands to an action. -/
def pastingTree : Value :=
  .ofFields [("on", .str "pull_request"), ("jobs", .ofFields [("a", .ofFields [("steps", .seq [
    .ofFields [("run", .str "echo '$\x7b\x7b'\necho '$\x7b\x7b github.head_ref \x7d\x7d'")],
    .ofFields [("uses", .str "actions/github-script@v7"), ("with", .ofFields [("script",
      .str "open('$\x7b\x7b')\nopen('$\x7b\x7b github.event.commits[0] \x7d\x7d')")])]])])])]

/-- Both steps are reported. -/
theorem seesInjections_pasting :
    ∃ d, Document.ofTree pastingTree "" "github-actions" "ci.yml" = .ok d ∧ d.dialect = .github ∧
    (∃ q ∈ d.steps, (Untrusted.inExpressions (q.2.run.getD "")).map (·.id) = ["head-ref"]) ∧
    (∃ q ∈ d.steps, (Untrusted.inExpressions (scriptArgument q.2).display).map (·.id) =
      ["commits"]) ∧
    (∀ q ∈ d.steps, (scriptArgument q.2).isWritable = true) ∧
    SeesInjections {} ⟨d, "", "ci.yml"⟩ := by
  have hfacts : ∃ d, Document.ofTree pastingTree "" "github-actions" "ci.yml" = .ok d ∧
      d.dialect = .github ∧
      (∃ q ∈ d.steps, (Untrusted.inExpressions (q.2.run.getD "")).map (·.id) = ["head-ref"]) ∧
      (∃ q ∈ d.steps, (Untrusted.inExpressions (scriptArgument q.2).display).map (·.id) =
        ["commits"]) ∧
      ∀ q ∈ d.steps, (scriptArgument q.2).isWritable = true :=
    exists_ok_of_any (by decide +kernel)
  obtain ⟨d, hd, hdialect, hrun, hscript, hwritable⟩ := hfacts
  exact ⟨d, hd, hdialect, hrun, hscript, hwritable, seesInjections {} ⟨d, "", "ci.yml"⟩ hdialect⟩

/-- A step whose commands use an untrusted input, and one that hands a long number to an action as
its script. -/
def numberTree : Value :=
  .ofFields [("on", .str "pull_request"), ("jobs", .ofFields [("a", .ofFields [("steps", .seq [
    .ofFields [("run", .str "echo $\x7b\x7b github.head_ref \x7d\x7d")],
    .ofFields [("uses", .str "actions/github-script@v7"),
      ("with", .ofFields [("script", .int (.ofNat (Nat.pow 16 3600 - 1)))])]])])])]

/-- **An injection may go unseen**: the commands of the first step use an untrusted input, and the
check gives no findings at all, since the script of the second step cannot be written. -/
theorem exists_unseen_injection :
    ∃ d, Document.ofTree numberTree "" "github-actions" "ci.yml" = .ok d ∧
    (∃ q ∈ d.steps, ∃ p, p ∈ Untrusted.inExpressions (q.2.run.getD "")) ∧
    ∀ found, commandInjection.check {} ⟨d, "", "ci.yml"⟩ ≠ .ok found := by
  have hfacts : ∃ d, Document.ofTree numberTree "" "github-actions" "ci.yml" = .ok d ∧
      (∃ q ∈ d.steps, Untrusted.inExpressions (q.2.run.getD "") ≠ []) ∧
      ∃ q ∈ d.steps, (scriptArgument q.2).isWritable = false :=
    exists_ok_of_any (by decide +kernel)
  obtain ⟨d, hd, ⟨q, hq, hrun⟩, r, hr, hlong⟩ := hfacts
  refine ⟨d, hd, ⟨q, hq, List.exists_mem_of_ne_nil _ hrun⟩, fun found hfound => ?_⟩
  have hwritable := handles_commandInjection_iff.mp ⟨found, hfound⟩ _ (List.mem_map_of_mem hr)
  simp [hlong] at hwritable

end Rules

end PipelineAudit
