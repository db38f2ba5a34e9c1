import PipelineAudit.Proofs.Rule.Failure
import PipelineAudit.Proofs.Rule.Independence
import PipelineAudit.Proofs.Rule.Site

/-!
# What becomes of the findings of a rule

An engine drops findings that repeat one before them. Of a finding that a rule returned there
remains the first one of the rule that it repeats, and no other finding of the engine stands for it
(`Engine.represented_of_parse`): it has the same title and the same place. For all rules but two
this is the finding itself. The two that are left look at the variables and lines of a job, of which
several may stand on one line; there the first one stays and the description of the others is lost
(`Engine.exists_unrepresented`).

The argument needs that repeating is transitive on the findings of a rule. It is where repeats are
equal (`Rules.distinguishes_of_mem_catalog`), and where the lines are places (`Finding.same_trans`),
as those are which the two rules look for.
-/

namespace PipelineAudit

/-! ## Findings at places -/

/-- Two places are the same if they have the same number, or none. -/
lemma Value.IsPlace.sameKey_iff {v w : Value} (hv : v.IsPlace) (hw : w.IsPlace) :
    v.sameKey w = true ↔ v.number? = w.number? := by
  cases hv <;> cases hw <;> simp [sameKey, isOne, same, number?]

namespace Finding

/-- A finding stands at a place, if anywhere. -/
def IsSited (f : Finding) : Prop := ∀ l, f.location = some l → l.line.IsPlace

variable {f g k : Finding} {findings : List Finding}

/-- Among findings at places, what repeats a repeat is a repeat. -/
lemma same_trans (hf : f.IsSited) (hg : g.IsSited) (hk : k.IsSited) (hfg : f.same g = true)
    (hgk : g.same k = true) : f.same k = true := by
  simp only [same, Bool.and_eq_true, beq_iff_eq] at hfg hgk ⊢
  obtain ⟨⟨hcategory, htitle⟩, hplace⟩ := hfg
  obtain ⟨⟨hcategory', htitle'⟩, hplace'⟩ := hgk
  refine ⟨⟨hcategory.trans hcategory', htitle.trans htitle'⟩, ?_⟩
  cases hl : f.location with
  | none =>
      cases hm : g.location with
      | some m => simp [hl, hm, sameLocation] at hplace
      | none => simpa [hm] using hplace'
  | some l =>
      cases hm : g.location with
      | none => simp [hl, hm, sameLocation] at hplace
      | some m =>
          cases hn : k.location with
          | none => simp [hm, hn, sameLocation] at hplace'
          | some n =>
              simp only [hl, hm, sameLocation, Location.same, Bool.and_eq_true,
                beq_iff_eq] at hplace
              simp only [hm, hn, sameLocation, Location.same, Bool.and_eq_true,
                beq_iff_eq] at hplace'
              simp only [sameLocation, Location.same, Bool.and_eq_true, beq_iff_eq]
              have hline := ((hf l hl).sameKey_iff (hg m hm)).mp hplace.2
              have hline' := ((hg m hm).sameKey_iff (hk n hn)).mp hplace'.2
              exact ⟨⟨hplace.1.1.trans hplace'.1.1, hplace.1.2.trans hplace'.1.2⟩,
                ((hf l hl).sameKey_iff (hk n hn)).mpr (hline.trans hline')⟩

/-- A finding stays if it is the first one that is about what it is about. -/
lemma mem_distinct_of_find? (h : findings.find? (·.same f) = some f) : f ∈ distinct findings := by
  obtain ⟨-, before, after, rfl, hbefore⟩ := List.find?_eq_some_iff_append.mp h
  apply mem_distinctFrom_of_forall_before
  · intro g hg
    exact absurd hg List.not_mem_nil
  · intro g hg
    simpa using hbefore g hg

/-- The first finding that repeats another one is the first one that repeats itself, where repeating
is transitive: what comes before it does not repeat it, since it would repeat the other one too. -/
lemma find?_same_first {first : Finding}
    (htrans : ∀ {a b c : Finding}, a ∈ findings → b ∈ findings → c ∈ findings → a.same b = true →
      b.same c = true → a.same c = true)
    (hf : f ∈ findings) (hrefl : first.same first = true)
    (h : findings.find? (·.same f) = some first) :
    findings.find? (·.same first) = some first := by
  obtain ⟨hsame, before, after, hsplit, hbefore⟩ := List.find?_eq_some_iff_append.mp h
  refine List.find?_eq_some_iff_append.mpr ⟨hrefl, before, after, hsplit, ?_⟩
  intro g hg
  have hg' : g ∈ findings := hsplit ▸ List.mem_append_left _ hg
  by_contra hrepeat
  have hgf := htrans hg' (List.mem_of_find?_eq_some h) hf (by simpa using hrepeat) hsame
  simpa [hgf] using hbefore g hg

/-- A finding stands for another one: it comes from the same rule and has the same title and
place. -/
structure Represents (g f : Finding) : Prop where
  ruleId : g.ruleId = f.ruleId
  title : g.title = f.title
  location : sameLocation g.location f.location = true

end Finding

/-- The finding of a sited draft stands at a place. -/
lemma RuleSpec.isSited_of_finding {spec : RuleSpec} {subject : Subject} {d : Draft} {f : Finding}
    (hd : d.IsSited) (h : spec.finding subject d = .ok f) : f.IsSited := by
  obtain ⟨line, _, hline, -, rfl⟩ := finding_eq_ok.mp h
  obtain ⟨told, htold, hplace⟩ := hd
  obtain rfl : told = line := Except.ok.inj (htold.symm.trans hline)
  intro l hl
  simp only [Draft.findingWith, Draft.location] at hl
  split_ifs at hl
  cases hl
  exact hplace

/-! ## Rules of the catalogue -/

namespace Rules

variable {rule : Rule} {options : RuleOptions} {subject : Subject} {found : List Finding}

/-- The findings of the two rules on variables stand at places. -/
lemma isSited_of_mem_found (hlined : subject.document.IsLined)
    (hrule : rule = hardcodedCredentials ∨ rule = envShadowing)
    (hfound : rule.check options subject = .ok found) {f : Finding} (hf : f ∈ found) :
    f.IsSited := by
  rcases hrule with rfl | rfl
  · obtain ⟨drafts, hdrafts, hfound⟩ := bind_eq_ok.mp hfound
    cases hdrafts
    obtain ⟨d, hd, hfinding⟩ := exists_of_mem_mapM hfound hf
    exact RuleSpec.isSited_of_finding (isSited_of_mem_credentials hlined hd) hfinding
  · obtain ⟨drafts, hdrafts, hfound⟩ := bind_eq_ok.mp hfound
    cases hdrafts
    obtain ⟨d, hd, hfinding⟩ := exists_of_mem_mapM hfound hf
    obtain ⟨j, hj, hd⟩ := List.mem_flatMap.mp hd
    obtain ⟨name, -, rfl⟩ := List.mem_map.mp hd
    refine RuleSpec.isSited_of_finding ?_ hfinding
    exact isTold_lineHolding (isKnownPlace_orElseValue (hlined j hj) 1) (hlined j hj)
      subject (name ++ ":")

/-- Repeating is transitive on the findings of a rule. -/
lemma same_trans_of_mem_catalog (hrule : rule ∈ catalog) (hnumbered : subject.document.IsNumbered)
    (hlined : subject.document.IsLined) (hfound : rule.check options subject = .ok found)
    {f g k : Finding} (hf : f ∈ found) (hg : g ∈ found) (hk : k ∈ found) (hfg : f.same g = true)
    (hgk : g.same k = true) : f.same k = true := by
  rcases distinguishes_of_mem_catalog hrule with hapart | hrule
  · rw [hapart options subject hnumbered found hfound f hf g hg hfg]
    exact hgk
  · have hsited : ∀ f ∈ found, f.IsSited := fun f => isSited_of_mem_found hlined hrule hfound
    exact Finding.same_trans (hsited f hf) (hsited g hg) (hsited k hk) hfg hgk

/-- The findings of a rule have the category of the rule. -/
lemma category_of_mem_catalog (hrule : rule ∈ catalog)
    (hfound : rule.check options subject = .ok found)
    {f : Finding} (hf : f ∈ found) : f.category.name = rule.category := by
  have hspec : ∀ {spec : RuleSpec} {d : Draft}, spec.finding subject d = .ok f →
      f.category = spec.category := by
    intro spec d hd
    exact congrArg Heading.category (RuleSpec.heading_of_finding hd)
  rcases mem_catalog_iff.mp hrule with rfl | ⟨v, hv, rfl⟩
  · obtain ⟨d, -, hd⟩ := makes_missingDependency options subject found hfound f hf
    rw [hspec hd]
    rfl
  · obtain ⟨d, -, hd⟩ := v.makes options subject found hfound f hf
    have hnames : voices.map (fun v => v.spec.category.name) = voices.map fun v =>
        v.rule.category := rfl
    rw [hspec hd]
    exact List.map_inj_left.mp hnames v hv

/-- Findings of one rule repeat each other if they have the same title and place. -/
lemma same_of_represents (hrule : rule ∈ catalog) (hfound : rule.check options subject = .ok found)
    {f g : Finding} (hf : f ∈ found) (hg : g ∈ found) (h : g.Represents f) : g.same f = true := by
  have hinjective : Function.Injective Category.name := by
    intro c c'
    cases c <;> cases c' <;> simp [Category.name]
  have hcategory : g.category = f.category := by
    apply hinjective
    rw [category_of_mem_catalog hrule hfound hg, category_of_mem_catalog hrule hfound hf]
  simp [Finding.same, hcategory, h.title, h.location]

end Rules

/-! ## Engines -/

namespace Engine

variable {options : RuleOptions} {subject : Subject} {rule : Rule} {found : List Finding}
    {f g : Finding}

/-- The rules that run are those of the catalogue that apply. -/
lemma mem_applicable_ofOptions {d : Document} :
    rule ∈ (ofOptions options).applicable d ↔ rule ∈ Rules.catalog ∧ rule.covers d = true := by
  simp [applicable, ofOptions, and_comm]

/-- A finding of the engine with the id of a rule was returned by that rule. -/
lemma mem_found_of_mem_scan (hrule : rule ∈ Rules.catalog)
    (hfound : rule.check options subject = .ok found) (hg : g ∈ (ofOptions options).scan subject)
    (hid : g.ruleId = rule.id) : g ∈ found := by
  obtain ⟨r, hr, found', hfound', hg⟩ := exists_rule_of_mem_scan hg
  have hmem : r.rule ∈ Rules.catalog := overCatalog_ofOptions options r hr
  have hids : r.rule.id = rule.id := by
    rw [← hid, (Rules.ruleId_of_mem_catalog hmem hfound' hg).1]
  have hsame : r.rule = rule := List.inj_on_of_nodup_map Rules.nodup_map_id hmem hrule hids
  rw [hsame] at hfound'
  obtain rfl : found' = found := Except.ok.inj (hfound'.symm.trans hfound)
  exact hg

/-- The first finding of a rule that is about what it is about stays: the rules that ran before give
other titles. -/
lemma mem_scan_of_find? (hrule : rule ∈ (ofOptions options).applicable subject.document)
    (hfound : rule.check options subject = .ok found) (hfirst : found.find? (·.same f) = some f) :
    f ∈ (ofOptions options).scan subject := by
  rw [scan_eq]
  apply Finding.mem_distinct_of_find?
  obtain ⟨before, after, hsplit⟩ := List.append_of_mem hrule
  have hf : f ∈ found := List.mem_of_find?_eq_some hfirst
  have hmem : ∀ r ∈ (ofOptions options).applicable subject.document, r ∈ Rules.catalog :=
    fun r hr =>
    (mem_applicable_ofOptions.mp hr).1
  have hids : (((ofOptions options).applicable subject.document).map Rule.id).Nodup := by
    rw [applicable_eq (allRules_ofOptions options)]
    exact (List.filter_sublist.map Rule.id).nodup Rules.nodup_map_id
  have hnone : (before.flatMap fun r => r.found options subject).find? (·.same f) = none := by
    rw [List.find?_eq_none]
    intro g hg hsame
    obtain ⟨r, hr, hg⟩ := List.mem_flatMap.mp hg
    obtain ⟨found', hfound', hg⟩ := Rule.mem_found hg
    have hr' : r ∈ (ofOptions options).applicable subject.document :=
      hsplit ▸ List.mem_append_left _ hr
    have hid : g.ruleId = f.ruleId := Rules.ruleId_eq_of_title_eq
      (Rules.heading_of_mem_catalog (hmem r hr') hfound' hg)
      (Rules.heading_of_mem_catalog (hmem rule hrule) hfound hf) (Finding.title_eq_of_same hsame)
    rw [(Rules.ruleId_of_mem_catalog (hmem r hr') hfound' hg).1,
      (Rules.ruleId_of_mem_catalog (hmem rule hrule) hfound hf).1] at hid
    rw [hsplit, List.map_append, List.map_cons] at hids
    exact List.disjoint_of_nodup_append hids (List.mem_map_of_mem hr) (hid ▸ List.mem_cons_self)
  have hown : rule.found options subject = found := by
    rw [Rule.found, hfound]
    rfl
  have hoptions : (ofOptions options).options = options := rfl
  rw [hsplit, hoptions, List.flatMap_append, List.flatMap_cons, hown, List.find?_append, hnone,
    Option.none_or, List.find?_append, hfirst, Option.some_or]

/-- **What becomes of a finding.** For a document that was read from a text, and each finding of a
rule that applies: the first finding of the rule which it repeats stays, stands for it, and is the
only one that does. Unless the rule is one of the two on variables, it is the finding itself. -/
theorem represented_of_parse {source fileName : String} {dialect : Option String} {d : Document}
    (hd : Document.parse source fileName dialect = .ok d) (options : RuleOptions)
    (reported : String) {rule : Rule} (hrule : rule ∈ (ofOptions options).applicable d)
    {found : List Finding} (hfound : rule.check options ⟨d, source, reported⟩ = .ok found)
    {f : Finding} (hf : f ∈ found) : ∃ first, found.find? (·.same f) = some first ∧
      first ∈ (ofOptions options).scan ⟨d, source, reported⟩ ∧ first.Represents f ∧
      (∀ g ∈ (ofOptions options).scan ⟨d, source, reported⟩, g.Represents f → g = first) ∧
      (rule ≠ Rules.hardcodedCredentials → rule ≠ Rules.envShadowing → first = f) := by
  have hcatalog : rule ∈ Rules.catalog := (mem_applicable_ofOptions.mp hrule).1
  have hlined : d.IsLined := Document.isLined_of_parse hd
  have hnumbered : d.IsNumbered := by
    obtain ⟨tree, -, htree⟩ := Document.ofTree_of_parse hd
    exact Document.isNumbered_of_ofTree htree
  have hplaced : ∀ g ∈ found, g.IsPlaced := fun g hg =>
    (Rules.isFresh_of_mem_catalog hcatalog hfound hg).isPlaced
  have htrans : ∀ {a b c : Finding}, a ∈ found → b ∈ found → c ∈ found → a.same b = true →
      b.same c = true → a.same c = true :=
        Rules.same_trans_of_mem_catalog hcatalog hnumbered hlined hfound
  -- a finding repeats itself, so there is a first one that it repeats
  obtain ⟨first, hfirst⟩ : ∃ first, found.find? (·.same f) = some first := by
    rw [← Option.isSome_iff_exists, List.find?_isSome]
    exact ⟨f, hf, Finding.same_refl f⟩
  have hsame : first.same f = true := (List.find?_eq_some_iff_append.mp hfirst).1
  have hmem : first ∈ found := List.mem_of_find?_eq_some hfirst
  have hown : found.find? (·.same first) = some first :=
    Finding.find?_same_first htrans hf (Finding.same_refl first) hfirst
  have hscan : first ∈ (ofOptions options).scan ⟨d, source, reported⟩ :=
    mem_scan_of_find? hrule hfound hown
  have hid : ∀ g ∈ found, g.ruleId = rule.id := fun g hg =>
    (Rules.ruleId_of_mem_catalog hcatalog hfound hg).1
  have hrepresents : first.Represents f := by
    have hparts := hsame
    simp only [Finding.same, Bool.and_eq_true, beq_iff_eq] at hparts
    exact ⟨(hid first hmem).trans (hid f hf).symm, hparts.1.2, hparts.2⟩
  refine ⟨first, hfirst, hscan, hrepresents, ?_, ?_⟩
  · intro g hg hgf
    have hgfound : g ∈ found :=
      mem_found_of_mem_scan hcatalog hfound hg (hgf.ruleId.trans (hid f hf))
    have hgsame : g.same f = true := Rules.same_of_represents hcatalog hfound hf hgfound hgf
    have hback : f.same first = true :=
      Finding.same_comm (hplaced f hf) (hplaced first hmem) ▸ hsame
    apply Finding.eq_of_same _ (Finding.pairwise_distinct _) hscan hg
    · exact htrans hgfound hf hmem hgsame hback
    · intro k hk
      exact (isFresh_of_mem_scan (overCatalog_ofOptions options) hk).isPlaced
  · intro hcredentials hshadowing
    rcases Rules.distinguishes_of_mem_catalog hcatalog with hapart | hcred | hshadow
    · exact hapart options _ hnumbered found hfound first hmem f hf hsame
    · exact absurd hcred hcredentials
    · exact absurd hshadow hshadowing

/-- A document and a job with two variables each, all on one line. -/
def flowSource : String :=
  "on: push\nenv: \x7bA: 1, B: 2\x7d\njobs:\n  a:\n    env: \x7bA: 3, B: 4\x7d\n"

/-- What the rule on variables finds there, and what the engine says of the second one. -/
lemma parse_flowSource : ∃ d, Document.parse flowSource "ci.yml" none = .ok d ∧
    Rules.envShadowing ∈ (ofOptions {}).applicable d ∧
    ∃ found, Rules.envShadowing.check {} ⟨d, flowSource, "ci.yml"⟩ = .ok found ∧
      ∃ f ∈ found, f.description = "Job 'a' redefines global environment variable 'B'" ∧
        ∀ g ∈ (ofOptions {}).scan ⟨d, flowSource, "ci.yml"⟩, g.description ≠ f.description := by
  obtain ⟨d, hd, hcovers, hany⟩ : ∃ d, Document.parse flowSource "ci.yml" none = .ok d ∧
      Rules.envShadowing.covers d = true ∧
      ((Rules.envShadowing.check {} ⟨d, flowSource, "ci.yml"⟩).toOption.any fun found =>
        decide (∃ f ∈ found, f.description = "Job 'a' redefines global environment variable 'B'" ∧
          ∀ g ∈ (ofOptions {}).scan ⟨d, flowSource, "ci.yml"⟩, g.description ≠ f.description)) =
            true :=
    exists_ok_of_any (by decide +kernel)
  have hmem : Rules.envShadowing ∈ Rules.catalog := by simp [Rules.catalog, Rules.practiceRules]
  exact ⟨d, hd, mem_applicable_ofOptions.mpr ⟨hmem, hcovers⟩, exists_ok_of_any hany⟩

/-- The finding on the second variable is represented once. -/
theorem represented_flow : ∃ d found f, Document.parse flowSource "ci.yml" none = .ok d ∧
    Rules.envShadowing.check {} ⟨d, flowSource, "ci.yml"⟩ = .ok found ∧ f ∈ found ∧
    f.description = "Job 'a' redefines global environment variable 'B'" ∧
    ∃ first, found.find? (·.same f) = some first ∧
      first ∈ (ofOptions {}).scan ⟨d, flowSource, "ci.yml"⟩ ∧ first.Represents f ∧
      ∀ g ∈ (ofOptions {}).scan ⟨d, flowSource, "ci.yml"⟩, g.Represents f → g = first := by
  obtain ⟨d, hd, hrule, found, hfound, f, hf, hsays, -⟩ := parse_flowSource
  obtain ⟨first, hfirst, hscan, hrepresents, honly, -⟩ :=
    represented_of_parse hd {} "ci.yml" hrule hfound hf
  exact ⟨d, found, f, hd, hfound, hf, hsays, first, hfirst, hscan, hrepresents, honly⟩

/-- **Descriptions may be lost.** The rule on variables returns a finding on the second variable,
and no finding of the engine that stands for it says what it says. -/
theorem exists_unrepresented : ∃ d, Document.parse flowSource "ci.yml" none = .ok d ∧
    ∃ rule ∈ (ofOptions {}).applicable d, ∃ found,
      rule.check {} ⟨d, flowSource, "ci.yml"⟩ = .ok found ∧ ∃ f ∈ found,
        ¬∃ g ∈ (ofOptions {}).scan ⟨d, flowSource, "ci.yml"⟩,
          g.Represents f ∧ g.description = f.description := by
  obtain ⟨d, hd, hrule, found, hfound, f, hf, -, hlost⟩ := parse_flowSource
  refine ⟨d, hd, Rules.envShadowing, hrule, found, hfound, f, hf, ?_⟩
  rintro ⟨g, hg, -, hsays⟩
  exact hlost g hg hsays

end Engine

end PipelineAudit
