import PipelineAudit.Proofs.Rule.Engine

/-!
# Rules do not get in each other's way

A finding of a rule carries the id of that rule (`Rules.ruleId_of_mem_catalog`), and no two rules of
the catalogue give the same title (`Rules.ruleId_eq_of_title_eq`): where one takes a title from the
document, it starts with words that no other rule uses. So a finding can only repeat one of its own
rule, and dropping repeats commutes with leaving rules out. An engine with fewer rules switched on
returns what one with more of them returns for the fewer ones (`Engine.scan_eq_filter`).
-/

namespace PipelineAudit

/-! ## Whose finding it is -/

/-- The finding of a draft is one of its rule. -/
lemma RuleSpec.origin_of_finding {spec : RuleSpec} {subject : Subject} {d : Draft} {f : Finding}
    (h : spec.finding subject d = .ok f) : f.ruleId = spec.id ∧ f.origin = .rule := by
  obtain ⟨⟨line, snippet⟩, -, h⟩ := bind_eq_ok.mp h
  cases h
  exact ⟨rfl, rfl⟩

namespace Rules

/-- A finding of a rule of the catalogue carries the id of that rule. -/
lemma ruleId_of_mem_catalog {rule : Rule} (hrule : rule ∈ catalog) {options : RuleOptions}
    {subject : Subject} {found : List Finding} (hfound : rule.check options subject = .ok found)
    {f : Finding} (hf : f ∈ found) : f.ruleId = rule.id ∧ f.origin = .rule := by
  rcases mem_catalog_iff.mp hrule with rfl | ⟨v, hv, rfl⟩
  · obtain ⟨d, -, hd⟩ := makes_missingDependency options subject found hfound f hf
    exact RuleSpec.origin_of_finding hd
  · obtain ⟨d, -, hd⟩ := v.makes options subject found hfound f hf
    have hids : voices.map (fun v => v.spec.id) = voices.map fun v => v.rule.id := rfl
    rw [← List.map_inj_left.mp hids v hv]
    exact RuleSpec.origin_of_finding hd

/-- No two rules of the catalogue have the same id. -/
lemma nodup_map_id : (catalog.map Rule.id).Nodup := by decide +kernel

/-- Titles of the list tell rules apart, and none is that of a missing dependency. -/
lemma title_headings : ∀ heading ∈ headings,
    (∀ other ∈ headings, heading.title = other.title → heading.ruleId = other.ruleId) ∧
      ∀ name, heading.title ≠ missingTitle name := by
  have htitles : ∀ heading ∈ headings, ∀ other ∈ headings,
      heading.title = other.title → heading.ruleId = other.ruleId := by decide +kernel
  have hwords : ∀ heading ∈ headings,
      Text.startsWith heading.title "Missing job dependency '" = false := by decide +kernel
  intro heading hmem
  refine ⟨htitles heading hmem, fun name heq => ?_⟩
  have hstart := startsWith_missingTitle name
  rw [← heq, hwords heading hmem] at hstart
  cases hstart

/-- **Findings of the catalogue with the same title are of the same rule.** -/
theorem ruleId_eq_of_title_eq {f g : Finding}
    (hf : f.heading ∈ headings ∨ ∃ name, f.heading = missingHeading name)
    (hg : g.heading ∈ headings ∨ ∃ name, g.heading = missingHeading name)
    (htitle : f.title = g.title) : f.ruleId = g.ruleId := by
  rcases hf with hf | ⟨name, hf⟩ <;> rcases hg with hg | ⟨name', hg⟩
  · exact (title_headings _ hf).1 _ hg htitle
  · exact absurd (htitle.trans (congrArg Heading.title hg)) ((title_headings _ hf).2 name')
  · exact absurd (htitle.symm.trans (congrArg Heading.title hf)) ((title_headings _ hg).2 name)
  · exact (congrArg Heading.ruleId hf).trans (congrArg Heading.ruleId hg).symm

end Rules

/-- The findings of a rule; none if it fails. -/
def Rule.found (r : Rule) (options : RuleOptions) (subject : Subject) : List Finding :=
  (r.check options subject).toOption.getD []

/-- What is found by a rule is what it returns. -/
lemma Rule.mem_found {r : Rule} {options : RuleOptions} {subject : Subject} {f : Finding}
    (hf : f ∈ r.found options subject) : ∃ found, r.check options subject = .ok found ∧
      f ∈ found := by
  unfold found at hf
  cases hcheck : r.check options subject with
  | error why =>
      rw [hcheck] at hf
      cases hf
  | ok found =>
      rw [hcheck] at hf
      exact ⟨found, rfl, hf⟩

namespace Engine

variable {e e' : Engine} {subject : Subject}

/-- An engine returns what its rules find, without repeats. -/
lemma scan_eq (e : Engine) (subject : Subject) : e.scan subject =
    Finding.distinct
      ((e.applicable subject.document).flatMap fun r => r.found e.options subject) := by
  rw [scan, outcomes, List.flatMap_map]
  rfl

/-! ## Leaving rules out -/

/-- Where ids tell rules apart, a rule is switched on if its id is that of a rule which is. -/
lemma enabled_eq (h : (e.allRules.map Rule.id).Nodup) {r : EngineRule} (hr : r ∈ e.rules) :
    r.enabled = decide (r.rule.id ∈ e.enabledIds) := by
  rw [allRules, List.map_map] at h
  rw [Bool.eq_iff_iff, decide_eq_true_iff, enabledIds, List.mem_map]
  constructor
  · intro henabled
    exact ⟨r, List.mem_filter.mpr ⟨hr, henabled⟩, rfl⟩
  · rintro ⟨r', hr', hid⟩
    obtain ⟨hmem, henabled⟩ := List.mem_filter.mp hr'
    obtain rfl : r' = r := List.inj_on_of_nodup_map h hmem hr hid
    exact henabled

/-- The rules of the catalogue that run on a document. -/
lemma applicable_eq (h : e.allRules = Rules.catalog) (d : Document) :
    e.applicable d = Rules.catalog.filter fun r => decide (r.id ∈ e.enabledIds) && r.covers d := by
  have hnodup : (e.allRules.map Rule.id).Nodup := h ▸ Rules.nodup_map_id
  rw [← h, allRules, List.filter_map, applicable]
  refine congrArg (List.map EngineRule.rule) (List.filter_congr fun r hr => ?_)
  rw [enabled_eq hnodup hr]
  rfl

/-- Where fewer rules are switched on, those of them run. -/
lemma applicable_eq_filter (he : e.allRules = Rules.catalog) (he' : e'.allRules = Rules.catalog)
    (hsub : e.enabledIds ⊆ e'.enabledIds) (d : Document) :
    e.applicable d = (e'.applicable d).filter fun r => decide (r.id ∈ e.enabledIds) := by
  rw [applicable_eq he, applicable_eq he', List.filter_filter]
  refine List.filter_congr fun r _ => ?_
  by_cases hid : r.id ∈ e.enabledIds
  · simp [hid, hsub hid]
  · simp [hid]

/-- A choice of rules is a choice of findings, if these know their rules. -/
lemma flatMap_filter_of_owner {found : Rule → List Finding} {rules : List Rule} {ids : List String}
    (h : ∀ r ∈ rules, ∀ f ∈ found r, f.ruleId = r.id) :
    (rules.filter fun r => decide (r.id ∈ ids)).flatMap found =
      (rules.flatMap found).filter fun f => decide (f.ruleId ∈ ids) := by
  induction rules with
  | nil => rfl
  | cons r rest ih =>
      have hrest := ih fun r' hr' => h r' (List.mem_cons_of_mem r hr')
      have howner : ∀ f ∈ found r, decide (f.ruleId ∈ ids) = decide (r.id ∈ ids) := fun f hf => by
        rw [h r List.mem_cons_self f hf]
      rw [List.flatMap_cons, List.filter_append, ← hrest, List.filter_congr howner]
      by_cases hid : r.id ∈ ids
      · simp [hid]
      · simp [hid]

/-- **Rules are independent.** An engine returns what one with more rules of the catalogue switched
on returns for the rules that both have. -/
theorem scan_eq_filter (he : e.allRules = Rules.catalog) (he' : e'.allRules = Rules.catalog)
    (hoptions : e.options = e'.options) (hsub : e.enabledIds ⊆ e'.enabledIds) :
    e.scan subject = (e'.scan subject).filter fun f => decide (f.ruleId ∈ e.enabledIds) := by
  have hcatalog : ∀ r ∈ e'.applicable subject.document, r ∈ Rules.catalog := fun r hr =>
    (List.mem_filter.mp (applicable_eq he' subject.document ▸ hr)).1
  have howner : ∀ r ∈ e'.applicable subject.document, ∀ f ∈ r.found e'.options subject,
      f.ruleId = r.id := fun r hr f hf => by
    obtain ⟨found, hfound, hf⟩ := Rule.mem_found hf
    exact (Rules.ruleId_of_mem_catalog (hcatalog r hr) hfound hf).1
  have hheading : ∀ f ∈ (e'.applicable subject.document).flatMap fun r =>
      r.found e'.options subject,
      f.heading ∈ Rules.headings ∨ ∃ name, f.heading = Rules.missingHeading name := fun f hf => by
    obtain ⟨r, hr, hf⟩ := List.mem_flatMap.mp hf
    obtain ⟨found, hfound, hf⟩ := Rule.mem_found hf
    exact Rules.heading_of_mem_catalog (hcatalog r hr) hfound hf
  rw [scan_eq, scan_eq, Finding.filter_distinct, ← flatMap_filter_of_owner howner,
    ← applicable_eq_filter he he' hsub, hoptions]
  intro g hg f hf hsame
  rw [Rules.ruleId_eq_of_title_eq (hheading g hg) (hheading f hf) (Finding.title_eq_of_same hsame)]

end Engine

end PipelineAudit
