import PipelineAudit.Proofs.Report.Options
import PipelineAudit.Proofs.Rule.Independence

/-!
# Reports by fewer rules

Rules are independent (`Engine.scan_eq_filter`), annotation and context look at one finding at a
time, and graph and advisories do not look at rules. So what goes into a report when rules are left
out is what goes into it otherwise, without the findings of these rules
(`Analysis.gathered_eq_filter`), and a score can only rise (`Summary.score_le_of_sublist`). Both are
put together in `Analysis.report_ofFewerRules`.
-/

namespace PipelineAudit

/-! ## Scores -/

/-- Of fewer findings, fewer have a severity. -/
lemma Summary.count_le_of_sublist {findings all : List Finding} (h : findings.Sublist all)
    (severity : Severity) : count severity findings ≤ count severity all :=
  (h.filter _).length_le

/-- Fewer findings do not make a score worse. -/
lemma Summary.score_le_of_sublist {findings all : List Finding} (h : findings.Sublist all) :
    (ofFindings all).score ≤ (ofFindings findings).score := by
  have herrors := count_le_of_sublist h .error
  have hwarnings := count_le_of_sublist h .warning
  have htotal := h.length_le
  simp only [ofFindings, scoreOf, errorPenalty, warningPenalty]
  split_ifs <;> omega

/-! ## What stays -/

/-- A finding stays where only the rules with some ids run: it is of one of them, or of no rule. -/
def Finding.StaysUnder (ids : List String) (f : Finding) : Prop := f.ruleId ∈ ids ∨ f.origin ≠ .rule

instance (ids : List String) : DecidablePred (Finding.StaysUnder ids) :=
  fun f => inferInstanceAs (Decidable (f.ruleId ∈ ids ∨ f.origin ≠ .rule))

/-- The findings about a graph are of no rule. -/
lemma JobGraph.origin_of_mem_findings {g : JobGraph} {d : Document} {source : String} {f : Finding}
    (h : f ∈ g.findings d source) : f.origin = .graph := by
  rcases mem_findings h with ⟨cycle, rfl⟩ | ⟨path, rfl⟩ | rfl
  · rfl
  · rfl
  · rfl

/-- Advisories are of no rule. -/
lemma Aggregate.origin_of_mem_advisories {context : Context} {fileName : String} {f : Finding}
    (h : f ∈ advisories context fileName) : f.origin = .context := by
  rcases mem_advisories h with rfl | ⟨jobs, rfl⟩
  · rfl
  · rfl

/-- A choice that does not look at severities can be made before findings are weighed. -/
lemma Aggregate.filter_inContext {context : Context} {p : Finding → Bool}
    (hp : ∀ f, p (escalated context f) = p f) (findings : List Finding) :
    (inContext context findings).filter p = inContext context (findings.filter p) := by
  rw [inContext, inContext, List.filter_map, show p ∘ escalated context = p from funext hp,
    List.filter_filter, List.filter_filter]
  simp only [Bool.and_comm]

namespace Analysis

variable {a : Analysis} {e : Engine}

/-- The same document under analysis by other rules. -/
def withEngine (a : Analysis) (e : Engine) : Analysis := { a with engine := e }

/-- Neither annotation nor context change which rule a finding is of. -/
lemma staysUnder_weighed (ids : List String) (f : Finding) :
    decide ((a.annotate f).StaysUnder ids) = decide (f.StaysUnder ids) ∧
      decide ((Aggregate.escalated a.context f).StaysUnder ids) = decide (f.StaysUnder ids) := by
  constructor
  · rw [annotate, Reachability.annotate_eq]
    rfl
  · rw [Aggregate.escalated_eq]
    rfl

/-- The findings of the rules and of the graph, where rules are left out. -/
lemma found_eq_filter (ha : a.engine.allRules = Rules.catalog) (he : e.allRules = Rules.catalog)
    (hoptions : e.options = a.engine.options) (hsub : e.enabledIds ⊆ a.engine.enabledIds) :
    (a.withEngine e).ruleFindings ++ a.graphFindings =
      (a.ruleFindings ++ a.graphFindings).filter fun f => decide (f.StaysUnder e.enabledIds) := by
  have hrules : ∀ f ∈ a.ruleFindings,
      decide (f.StaysUnder e.enabledIds) = decide (f.ruleId ∈ e.enabledIds) := by
    intro f hf
    obtain ⟨r, hr, found, hfound, hf⟩ := Engine.exists_rule_of_mem_scan hf
    have horigin :=
      (Rules.ruleId_of_mem_catalog (Engine.overCatalog_of_allRules ha r hr) hfound hf).2
    simp [Finding.StaysUnder, horigin]
  have hgraph : ∀ f ∈ a.graphFindings, decide (f.StaysUnder e.enabledIds) = true := by
    intro f hf
    exact decide_eq_true (Or.inr (by simp [JobGraph.origin_of_mem_findings hf]))
  rw [List.filter_append, List.filter_congr hrules, List.filter_eq_self.mpr hgraph]
  exact congrArg (· ++ a.graphFindings) (Engine.scan_eq_filter he ha hoptions hsub)

/-- **What goes into a report by fewer rules** is what goes into one by all of them, without the
findings of the rules that are left out. -/
theorem gathered_eq_filter (ha : a.engine.allRules = Rules.catalog)
    (he : e.allRules = Rules.catalog) (hoptions : e.options = a.engine.options)
    (hsub : e.enabledIds ⊆ a.engine.enabledIds) : (a.withEngine e).gathered =
      a.gathered.filter fun f => decide (f.StaysUnder e.enabledIds) := by
  have hadvisories : ∀ f ∈ a.advisories, decide (f.StaysUnder e.enabledIds) = true := by
    intro f hf
    exact decide_eq_true (Or.inr (by simp [Aggregate.origin_of_mem_advisories hf]))
  have hannotate : (fun f => decide (f.StaysUnder e.enabledIds)) ∘ a.annotate =
      fun f => decide (f.StaysUnder e.enabledIds) := funext fun f => (staysUnder_weighed _ f).1
  rw [gathered, gathered, List.filter_append, List.filter_eq_self.mpr hadvisories,
    Aggregate.filter_inContext fun f => (staysUnder_weighed _ f).2, List.filter_map, hannotate,
    ← found_eq_filter ha he hoptions hsub]
  rfl

/-- **Rules are independent in a report.** Where fewer rules of the catalogue are switched on, it
has the findings that stay, ids aside and in the same order, and its score is no worse. -/
theorem report_ofFewerRules (ha : a.engine.allRules = Rules.catalog)
    (he : e.allRules = Rules.catalog) (hoptions : e.options = a.engine.options)
    (hsub : e.enabledIds ⊆ a.engine.enabledIds) (options : ReportOptions) :
    ((a.withEngine e).report options).findings.map Finding.withoutId =
        ((a.report options).findings.filter fun f => decide (f.StaysUnder e.enabledIds)).map
          Finding.withoutId ∧
      (a.report options).summary.score ≤ ((a.withEngine e).report options).summary.score := by
  have hids : ((a.withEngine e).report options).findings.map Finding.withoutId =
      ((a.report options).findings.filter fun f => decide (f.StaysUnder e.enabledIds)).map
        Finding.withoutId := by
    have hstays : ∀ f : Finding, decide (f.withoutId.StaysUnder e.enabledIds) =
      decide (f.StaysUnder e.enabledIds) := fun _ => rfl
    rw [findings_report_eq (Engine.overCatalog_of_allRules he) options, Aggregate.withIds,
      Aggregate.map_withoutId_withIdsFrom, findings_report_eq (Engine.overCatalog_of_allRules ha),
      Aggregate.filter_withIds hstays, gathered_eq_filter ha he hoptions hsub, List.filter_comm]
  refine ⟨hids, ?_⟩
  have hscore : ((a.withEngine e).report options).summary = .ofFindings
      ((a.report options).findings.filter fun f => decide (f.StaysUnder e.enabledIds)) := by
    change Summary.ofFindings ((a.withEngine e).report options).findings = _
    rw [← Summary.ofFindings_withoutId, hids, Summary.ofFindings_withoutId]
  rw [hscore]
  exact Summary.score_le_of_sublist List.filter_sublist

/-- All rules but that on actions that are not pinned. -/
def laxEngine : Engine := (Engine.ofOptions {}).switch "unpinned_action" false

/-- Without the rule on actions that are not pinned, one of nine findings on the document that ships
is gone, and the score rises by what a warning takes off. -/
theorem report_ofFewerRules_shipping : ∃ d,
    Document.ofTree shippingTree "" "github-actions" "ci.yml" = .ok d ∧
      (((ofDocument d "").report {}).summary = ⟨9, 0, 3, 6, 70⟩ ∧
        (((ofDocument d "").withEngine laxEngine).report {}).summary = ⟨8, 0, 2, 6, 80⟩) ∧
      ((((ofDocument d "").withEngine laxEngine).report {}).findings.map Finding.withoutId =
          (((ofDocument d "").report {}).findings.filter fun f =>
            decide (f.StaysUnder laxEngine.enabledIds)).map Finding.withoutId ∧
        ((ofDocument d "").report {}).summary.score ≤
          (((ofDocument d "").withEngine laxEngine).report {}).summary.score) := by
  have hrules : laxEngine.allRules = Rules.catalog :=
    (Engine.allRules_switch "unpinned_action" false).trans (Engine.allRules_ofOptions {})
  have hsub : laxEngine.enabledIds ⊆ (Engine.ofOptions {}).enabledIds := by decide +kernel
  exact exists_ok_and (fun d _ => report_ofFewerRules (a := ofDocument d "")
    (Engine.allRules_ofOptions {}) hrules rfl hsub {}) (by decide +kernel)

end Analysis

end PipelineAudit
