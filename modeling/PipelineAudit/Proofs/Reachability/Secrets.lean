import PipelineAudit.Proofs.Pattern.Secret
import PipelineAudit.Proofs.Workflow.Document
import PipelineAudit.Reachability
import PipelineAudit.Rule.Credentials
import PipelineAudit.Workflow.Parse

/-!
# Secrets in scope

In the first dialect a document uses secrets if a called workflow is handed them, or if a text in
which steps can see secrets names one between an opening and a closing, without a closing brace in
between. This is all that is looked for (`Context.SeesSecrets.uses_iff`), so every use by name in an
expression without closing braces is found. Annotations state that no secrets are in scope exactly
where none are found.

Uses by a text in brackets and uses of the context as a whole are not looked for. A document that
pastes the whole context into a script is said to have no secrets in scope, in the annotation of the
very finding that reports it (`Context.exists_unseen_secrets`).
-/

namespace PipelineAudit

namespace Reachability

/-- An annotation states that no secrets are in scope exactly where none were found. -/
lemma mem_mitigatingFactors_iff {context : Context} {guard : Guard} {conditions : List String} :
    "no secrets in scope" ∈ mitigatingFactors context guard conditions ↔
      context.hasSecrets = false := by
  have hcondition (c : String) : "condition: " ++ c ≠ "no secrets in scope" := fun h => by
    have := congrArg (fun s => s.toList.head?) h
    simp at this
  simp only [mitigatingFactors, List.mem_append]
  constructor
  · rintro ((h | h) | h)
    · split_ifs at h
      · cases h
      · obtain ⟨c, -, hc⟩ := List.mem_map.mp h
        exact absurd hc (hcondition c)
    · split_ifs at h
      · cases h
      · simp at h
    · split_ifs at h with hsecrets
      · cases h
      · simpa using hsecrets
  · intro h
    simp [h]

end Reachability

namespace Context

open Expression

/-- What a document in the first dialect is known to use of the secrets. -/
structure SeesSecrets (d : Document) : Prop where
  /-- A document uses secrets exactly if a called workflow is handed them, or a text names one
  between an opening and a closing, without a closing brace in between. -/
  uses_iff : usesSecrets d = true ↔ (∃ j ∈ d.jobs, j.uses.truthy = true ∧ j.secrets.truthy = true) ∨
    ∃ text ∈ secretTexts d, ∃ inside, Encloses text.toList inside ∧ '\x7d' ∉ inside ∧
      NamesSecret inside
  /-- A use by name is found in every expression without closing braces. -/
  byName : ∀ text ∈ secretTexts d, ∀ inside, IsInside text.toList inside → '\x7d' ∉ inside →
    ∀ c rest, MentionsSecrets inside ('.' :: c :: rest) → isSecretNameChar c = true →
      usesSecrets d = true
  /-- Annotations state that no secrets are in scope exactly where none are found. -/
  stated : ∀ source graph f, "no secrets in scope" ∈
    (Reachability.exposure (ofDocument d source) d graph f).mitigatingFactors ↔
      usesSecrets d = false

/-- **What is found of the secrets that a document uses**, in the first dialect. -/
theorem seesSecrets (d : Document) (h : d.dialect = .github) : SeesSecrets d := by
  have hiff : usesSecrets d = true ↔
      (∃ j ∈ d.jobs, j.uses.truthy = true ∧ j.secrets.truthy = true) ∨
      ∃ text ∈ secretTexts d, ∃ inside, Encloses text.toList inside ∧ '\x7d' ∉ inside ∧
        NamesSecret inside := by
    simp only [usesSecrets, h, secretPattern, isHandedSecrets, Bool.or_eq_true, List.any_eq_true,
      Bool.and_eq_true, Credential.occursIn_secretReference_iff]
    simp [and_comm]
  refine ⟨hiff, ?_, ?_⟩
  · intro text htext inside hinside hbrace c rest hmentions hc
    exact hiff.mpr (.inr ⟨text, htext, inside, hinside.encloses, hbrace, hmentions.namesSecret hc⟩)
  · intro source graph f
    exact Reachability.mem_mitigatingFactors_iff

/-- A job that makes something, in a document whose variables hold a secret. -/
def tokenTree : Value :=
  .ofFields
    [("on", .str "push"), ("env", .ofFields [("TOKEN", .str "$\x7b\x7b secrets.TOKEN \x7d\x7d")]),
    ("jobs", .ofFields [("a", .ofFields [("steps", .seq [.ofFields [("run", .str "make")]])])])]

/-- The secret is found. -/
theorem seesSecrets_token : ∃ d, Document.ofTree tokenTree "" "github-actions" "ci.yml" = .ok d ∧
    d.dialect = .github ∧ usesSecrets d = true ∧ SeesSecrets d := by
  have hfacts : ∃ d, Document.ofTree tokenTree "" "github-actions" "ci.yml" = .ok d ∧
      d.dialect = .github ∧ usesSecrets d = true :=
    exists_ok_of_any (by decide +kernel)
  obtain ⟨d, hd, hdialect, huses⟩ := hfacts
  exact ⟨d, hd, hdialect, huses, seesSecrets d hdialect⟩

/-- A script with all secrets in it. -/
def wholeScript : String := "echo $\x7b\x7b toJSON(secrets) \x7d\x7d"

/-- A document with this script. -/
def wholeSource : String :=
  "on: pull_request_target\njobs:\n  a:\n    steps:\n      - run: " ++ wholeScript ++ "\n"

/-- The expression in this script uses the context of secrets, as a whole. -/
lemma usesSecrets_wholeScript :
    ∃ inside, IsInside wholeScript.toList inside ∧ UsesSecrets inside := by
  have hlast : " toJSON(".toList.getLast? = some '(' := by decide +kernel
  have hhead : ") ".toList.head? = some ')' := by decide +kernel
  refine ⟨" toJSON(secrets) ".toList, ?_, ?_⟩
  · exact .of_notMem ⟨"echo ".toList, [], by decide +kernel⟩
      (by unfold EndsUnquoted; decide +kernel) (by decide +kernel)
  · refine .whole ") ".toList
      ⟨" toJSON(".toList, by decide +kernel, by unfold EndsUnquoted; decide +kernel, ?_, ?_⟩ ?_
    · rw [hlast]
      rintro c ⟨⟩
      decide +kernel
    · rw [hhead]
      rintro c ⟨⟩
      decide +kernel
    · rw [hhead]
      rintro c ⟨⟩
      decide

/-- **Secrets may go unseen**: a step pastes all of them into its script, a finding says so, and the
annotation of this finding states that no secrets are in scope. -/
theorem exists_unseen_secrets : ∃ d, Document.parse wholeSource "ci.yml" none = .ok d ∧
    d.dialect = .github ∧
    (∃ q ∈ d.steps, ∃ text ∈ q.2.texts, ∃ inside, IsInside text.toList inside ∧
      UsesSecrets inside) ∧
    usesSecrets d = false ∧
    ∃ found, Rules.hardcodedCredentials.check {} ⟨d, wholeSource, "ci.yml"⟩ = .ok found ∧
      ∃ f ∈ found, f.description = "toJSON(secrets) exposes every repository secret to the step" ∧
        ∀ graph, "no secrets in scope" ∈
          (Reachability.exposure (ofDocument d wholeSource) d graph f).mitigatingFactors := by
  have hfacts : ∃ d, Document.parse wholeSource "ci.yml" none = .ok d ∧ d.dialect = .github ∧
      (∃ q ∈ d.steps, wholeScript ∈ q.2.texts) ∧ usesSecrets d = false ∧
      ((Rules.hardcodedCredentials.check {} ⟨d, wholeSource, "ci.yml"⟩).toOption.any fun found =>
        decide (∃ f ∈ found, f.description =
          "toJSON(secrets) exposes every repository secret to the step")) = true :=
    exists_ok_of_any (by decide +kernel)
  obtain ⟨d, hd, hdialect, ⟨q, hq, htext⟩, huses, hfound⟩ := hfacts
  obtain ⟨inside, hinside, hsecrets⟩ := usesSecrets_wholeScript
  obtain ⟨found, hcheck, f, hf, hdescription⟩ := exists_ok_of_any hfound
  exact ⟨d, hd, hdialect, ⟨q, hq, wholeScript, htext, inside, hinside, hsecrets⟩, huses,
    found, hcheck, f, hf, hdescription, fun _ => Reachability.mem_mitigatingFactors_iff.mpr huses⟩

end Context

end PipelineAudit
