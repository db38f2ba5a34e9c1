import PipelineAudit.Proofs.Finding.Distinct
import PipelineAudit.Proofs.Rule.Heading
import PipelineAudit.Rule.Engine

/-!
# Engines over the catalogue

Whatever a configuration says, it sets switches and adds no rule, so that the engine it makes has
the rules of the catalogue (`Engine.allRules_of_ofConfig`). The findings of such an engine come from
rules of the catalogue one by one (`Engine.exists_rule_of_mem_scan`), so all of them are as those
rules make them: without an annotation, in a place that can be shown (`Engine.isFresh_of_mem_scan`),
under a heading of the catalogue (`Engine.heading_of_mem_scan`).
-/

namespace PipelineAudit

/-- A finding as a rule makes it: in a place that can be shown, and without an annotation. -/
structure Finding.IsFresh (f : Finding) : Prop where
  isPlaced : f.IsPlaced
  reachability : f.reachability = none

/-- The finding of a draft is fresh. -/
lemma RuleSpec.isFresh_of_finding {spec : RuleSpec} {subject : Subject} {d : Draft} {f : Finding}
    (h : spec.finding subject d = .ok f) : f.IsFresh := by
  -- the line of the finding is the one around which the snippet was cut
  obtain ⟨line, snippet, -, hsnippet, rfl⟩ := finding_eq_ok.mp h
  refine ⟨fun l hl => ?_, rfl⟩
  simp only [Draft.findingWith, Draft.location] at hl
  split_ifs at hl
  cases hl
  exact ⟨subject.source, snippet, hsnippet⟩

/-- The findings of a rule of the catalogue are fresh. -/
lemma Rules.isFresh_of_mem_catalog {rule : Rule} (hrule : rule ∈ catalog) {options : RuleOptions}
    {subject : Subject} {found : List Finding} (hfound : rule.check options subject = .ok found)
    {f : Finding} (hf : f ∈ found) : f.IsFresh := by
  rcases mem_catalog_iff.mp hrule with rfl | ⟨v, hv, rfl⟩
  · obtain ⟨d, -, hd⟩ := makes_missingDependency options subject found hfound f hf
    exact RuleSpec.isFresh_of_finding hd
  · obtain ⟨d, -, hd⟩ := v.makes options subject found hfound f hf
    exact RuleSpec.isFresh_of_finding hd

namespace Engine

variable {e : Engine}

/-- All rules of an engine are rules of the catalogue. -/
def OverCatalog (e : Engine) : Prop := ∀ r ∈ e.rules, r.rule ∈ Rules.catalog

/-! ## Switches -/

/-- Setting a switch keeps the rules. -/
lemma map_rule_setSwitch (id : String) (enabled : Bool) (rules : List EngineRule) :
    (setSwitch id enabled rules).map EngineRule.rule = rules.map EngineRule.rule := by
  unfold setSwitch
  split
  · rw [List.map_map]
    refine List.map_congr_left fun r _ => ?_
    rw [Function.comp_apply]
    split_ifs <;> rfl
  · rfl

/-- The rules of an engine, whatever their switches. -/
def allRules (e : Engine) : List Rule := e.rules.map EngineRule.rule

/-- Switching a rule on or off keeps the rules. -/
lemma allRules_switch (id : String) (enabled : Bool) :
    (e.switch id enabled).allRules = e.allRules :=
  map_rule_setSwitch id enabled e.rules

/-- An analysis option keeps the rules. -/
lemma allRules_of_applyToggle {analysis : Value} {toggle : String × String × Bool} {e' : Engine}
    (h : applyToggle analysis e toggle = .ok e') : e'.allRules = e.allRules := by
  obtain ⟨option, id, off⟩ := toggle
  unfold applyToggle at h
  dsimp only at h
  split_ifs at h
  · split at h <;> cases h
    · split_ifs
      · exact allRules_switch id false
      · rfl
    · rfl
  · obtain ⟨holds, -, h⟩ := bind_eq_ok.mp h
    split_ifs at h
    cases h
    rfl

/-- The analysis options keep the rules. -/
lemma allRules_of_foldlM_applyToggle {analysis : Value} {toggles : List (String × String × Bool)}
    {e' : Engine} (h : toggles.foldlM (applyToggle analysis) e = .ok e') :
    e'.allRules = e.allRules := by
  induction toggles generalizing e with
  | nil =>
      cases h
      rfl
  | cons toggle rest ih =>
      rw [List.foldlM_cons] at h
      obtain ⟨e₁, hfirst, h⟩ := bind_eq_ok.mp h
      exact (ih h).trans (allRules_of_applyToggle hfirst)

/-- The names of rules keep the rules. -/
lemma allRules_foldl_applyRule (entries : List (Value × Value)) :
    (entries.foldl applyRule e).allRules = e.allRules := by
  induction entries generalizing e with
  | nil => rfl
  | cons entry rest ih =>
      refine ih.trans ?_
      unfold applyRule
      split
      · exact allRules_switch _ _
      · rfl

/-- The engine with all rules has those of the catalogue. -/
lemma allRules_ofOptions (options : RuleOptions) :
    (ofOptions options).allRules = Rules.catalog := by
  rw [allRules, ofOptions, List.map_map]
  exact List.map_id Rules.catalog

/-- The sections of a configuration keep the rules. -/
lemma allRules_of_sections {config analysis : Value} {e' : Engine}
    (h : (do
      let e ← analysisToggles.foldlM (applyToggle analysis) e
      e.applyRules (← sectionOf config "rules")) = .ok e') : e'.allRules = e.allRules := by
  obtain ⟨e₁, htoggles, h⟩ := bind_eq_ok.mp h
  obtain ⟨rules, -, h⟩ := bind_eq_ok.mp h
  unfold applyRules at h
  split at h <;> cases h
  exact (allRules_foldl_applyRule _).trans (allRules_of_foldlM_applyToggle htoggles)

/-- **An engine made from a configuration** has the rules of the catalogue, in order. -/
theorem allRules_of_ofConfig {config : Value} {strict : Bool} {known : Option KnownActions}
    (h : ofConfig config strict known = .ok e) : e.allRules = Rules.catalog := by
  unfold ofConfig at h
  obtain ⟨analysis, -, h⟩ := bind_eq_ok.mp h
  dsimp only at h
  -- strict mode only changes the options that the rules get
  split_ifs at h <;> obtain ⟨_, -, h⟩ := bind_eq_ok.mp h
  · cases h
    exact allRules_ofOptions _
  · exact (allRules_of_sections h).trans (allRules_ofOptions _)
  · cases h
    exact allRules_ofOptions _
  · exact (allRules_of_sections h).trans (allRules_ofOptions _)

/-- An engine with the rules of the catalogue is over the catalogue. -/
lemma overCatalog_of_allRules (h : e.allRules = Rules.catalog) : e.OverCatalog :=
  fun _ hr => h ▸ List.mem_map_of_mem hr

/-- The engine with all rules is over the catalogue. -/
lemma overCatalog_ofOptions (options : RuleOptions) : (ofOptions options).OverCatalog :=
  overCatalog_of_allRules (allRules_ofOptions options)

/-! ## Findings -/

/-- A finding of an engine is one that a rule returned which runs on the document. -/
lemma exists_applicable_of_mem_scan {subject : Subject} {f : Finding} (hf : f ∈ e.scan subject) :
    ∃ rule ∈ e.applicable subject.document, ∃ found, rule.check e.options subject = .ok found ∧
      f ∈ found := by
  have hf := (Finding.distinct_sublist _).mem hf
  obtain ⟨⟨rule, result⟩, hresult, hf⟩ := List.mem_flatMap.mp hf
  obtain ⟨rule, hrule, heq⟩ := List.mem_map.mp hresult
  cases heq
  cases hcheck : rule.check e.options subject with
  | error why =>
      rw [hcheck] at hf
      cases hf
  | ok found =>
      rw [hcheck] at hf
      exact ⟨rule, hrule, found, hcheck, hf⟩

/-- A finding of an engine is one that a rule of it returned. -/
lemma exists_rule_of_mem_scan {subject : Subject} {f : Finding} (hf : f ∈ e.scan subject) :
    ∃ r ∈ e.rules, ∃ found, r.rule.check e.options subject = .ok found ∧ f ∈ found := by
  obtain ⟨rule, hrule, found, hfound, hf⟩ := exists_applicable_of_mem_scan hf
  obtain ⟨r, hr, rfl⟩ := List.mem_map.mp hrule
  exact ⟨r, (List.mem_filter.mp hr).1, found, hfound, hf⟩

/-- The findings of an engine over the catalogue are fresh. -/
lemma isFresh_of_mem_scan (h : e.OverCatalog) {subject : Subject} {f : Finding}
    (hf : f ∈ e.scan subject) : f.IsFresh := by
  obtain ⟨r, hr, found, hfound, hf⟩ := exists_rule_of_mem_scan hf
  exact Rules.isFresh_of_mem_catalog (h r hr) hfound hf

/-- The findings of an engine over the catalogue stand under headings of the catalogue. -/
lemma heading_of_mem_scan (h : e.OverCatalog) {subject : Subject} {f : Finding}
    (hf : f ∈ e.scan subject) :
    f.heading ∈ Rules.headings ∨ ∃ name, f.heading = Rules.missingHeading name := by
  obtain ⟨r, hr, found, hfound, hf⟩ := exists_rule_of_mem_scan hf
  exact Rules.heading_of_mem_catalog (h r hr) hfound hf

end Engine

end PipelineAudit
