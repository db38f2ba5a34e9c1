import PipelineAudit.Proofs.Report.Provenance

/-!
# Which errors reach a report

No two findings of the rules and of the graph are about the same (`Analysis.eq_of_same`), and none
has the title of an advisory (`Analysis.title_ne_of_mem_advisories`): within the rules no finding
repeats another, and a rule gives no title that the graph or an advisory gives. So nothing is lost
as a repeat. What the options keep reaches the report exactly if the context lets it through
(`Analysis.exists_mem_report`, `Analysis.key_ne_of_mem_report`).

A context suppresses by words in titles. It lets all errors through but those on missing
dependencies, whose titles hold a name that the document chooses
(`Analysis.isSuppressed_error_iff`); so in small automation an error can be lost to its wording
(`Analysis.error_mem_report_iff`), and `Analysis.exists_lost_error` is a document where one is.
-/

namespace PipelineAudit

/-! ## Titles -/

/-- The titles of findings that come from no rule. -/
def Analysis.addedTitles : List String :=
  ["Circular job dependency", "Critical path analysis", "Parallelizable isolated jobs",
    "Production workflow detected", "Consider workflow decomposition"]

/-- The title on a missing dependency is none of them. -/
lemma Rules.missingTitle_notMem (name : String) : missingTitle name ∉ Analysis.addedTitles := by
  have hwords : ∀ title ∈ Analysis.addedTitles,
      Text.startsWith title "Missing job dependency '" = false := by decide
  intro hmem
  have hstart := startsWith_missingTitle name
  rw [hwords _ hmem] at hstart
  cases hstart

/-- No rule of the catalogue gives a title of the graph or of an advisory. -/
lemma Engine.title_notMem_of_mem_scan {e : Engine} (h : e.OverCatalog)
    {subject : Subject} {f : Finding}
    (hf : f ∈ e.scan subject) : f.title ∉ Analysis.addedTitles := by
  rcases heading_of_mem_scan h hf with hheading | ⟨name, hheading⟩
  · have hall : ∀ heading ∈ Rules.headings, heading.title ∉ Analysis.addedTitles := by
      decide +kernel
    exact hall _ hheading
  · have htitle : f.title = Rules.missingTitle name := congrArg Heading.title hheading
    exact htitle ▸ Rules.missingTitle_notMem name

/-- The title of the finding about a cycle. -/
lemma JobGraph.title_cycleFinding (d : Document) (source : String) (blocked cycle : List String) :
    (cycleFinding d source blocked cycle).title = "Circular job dependency" := rfl

/-- No error of the list is advice on readability, or has a title that is about documentation. -/
lemma Rules.heading_error : ∀ heading ∈ headings, heading.severity = .error →
    heading.category ≠ .bestPractice ∧
      Text.contains (Text.lower heading.title) "documentation" = false := by
  decide +kernel

/-- A finding that is no advice on readability is suppressed in small automation only, if its title
has a word. -/
lemma Aggregate.isSuppressed_iff_of_ne {context : Context} {f : Finding}
    (h : f.category ≠ .bestPractice) : isSuppressed context f = true ↔
      context.kind = .automation ∧ context.stepCount ≤ maxAutomationSteps ∧
        isAboutDocumentation f = true := by
  unfold isSuppressed
  cases context.kind <;> simp [h]

namespace Analysis

variable {a : Analysis} {f g : Finding}

/-- The findings of the graph and the advisories have their titles in order, each at most once. -/
lemma map_title_sublist (a : Analysis) :
    ((a.graphFindings ++ a.advisories).map Finding.title).Sublist addedTitles := by
  have hadvisories : (a.advisories.map Finding.title).Sublist
      ["Production workflow detected", "Consider workflow decomposition"] := by
    unfold advisories Aggregate.advisories
    split_ifs <;> simp [Aggregate.productionAdvisory, Aggregate.decompositionAdvisory]
  have hisolated : ((if a.graph.edges.isEmpty || a.graph.isolated.isEmpty then [] else
      [JobGraph.isolatedFinding a.subject.document a.graph.isolated]).map Finding.title).Sublist
        ["Parallelizable isolated jobs"] := by
    split_ifs <;> simp [JobGraph.isolatedFinding]
  have hpath : ((a.graph.criticalPaths.head?.map (JobGraph.pathFinding a.subject.document
      a.subject.source)).toList.map Finding.title).Sublist ["Critical path analysis"] := by
    cases a.graph.criticalPaths.head? <;> simp [JobGraph.pathFinding]
  have hcycle : ((a.graph.cycle?.map (JobGraph.cycleFinding a.subject.document a.subject.source
      a.graph.cyclic)).toList.map Finding.title).Sublist ["Circular job dependency"] := by
    cases a.graph.cycle? <;> simp [JobGraph.cycleFinding]
  rw [graphFindings, JobGraph.findings, List.map_append, List.map_append, List.map_append]
  exact ((hcycle.append hpath).append hisolated).append hadvisories

/-- No two of them have the same title. -/
lemma nodup_title (a : Analysis) : ((a.graphFindings ++ a.advisories).map Finding.title).Nodup :=
  (by decide : addedTitles.Nodup).sublist (map_title_sublist a)

/-- **No two findings of the rules and of the graph are about the same.** -/
theorem eq_of_same (h : a.engine.OverCatalog) (hf : f ∈ a.ruleFindings ++ a.graphFindings)
    (hg : g ∈ a.ruleFindings ++ a.graphFindings) (hsame : g.same f = true) : g = f := by
  have htitle : g.title = f.title := Finding.title_eq_of_same hsame
  have hadded : ∀ x ∈ a.graphFindings, x.title ∈ addedTitles :=
    fun x hx => (map_title_sublist a).mem (List.mem_map_of_mem (List.mem_append_left _ hx))
  rcases List.mem_append.mp hf with hf | hf <;> rcases List.mem_append.mp hg with hg | hg
  · exact Finding.eq_of_same (fun x hx => (Engine.isFresh_of_mem_scan h hx).isPlaced)
      (Finding.pairwise_distinct _) hf hg hsame
  · exact absurd (htitle ▸ hadded g hg) (Engine.title_notMem_of_mem_scan h hf)
  · exact absurd (htitle ▸ hadded f hf) (Engine.title_notMem_of_mem_scan h hg)
  · exact List.inj_on_of_nodup_map (nodup_title a) (List.mem_append_left _ hg)
      (List.mem_append_left _ hf) htitle

/-- No advisory has the title of a finding of the rules or of the graph. -/
lemma title_ne_of_mem_advisories (h : a.engine.OverCatalog)
    (hf : f ∈ a.ruleFindings ++ a.graphFindings) (hg : g ∈ a.advisories) : f.title ≠ g.title := by
  intro heq
  rcases List.mem_append.mp hf with hf | hf
  · have hadded : g.title ∈ addedTitles :=
      (map_title_sublist a).mem (List.mem_map_of_mem (List.mem_append_right _ hg))
    exact Engine.title_notMem_of_mem_scan h hf (heq ▸ hadded)
  · have hnodup := nodup_title a
    rw [List.map_append] at hnodup
    exact List.disjoint_of_nodup_append hnodup (List.mem_map_of_mem hf)
      (heq ▸ List.mem_map_of_mem hg)

/-! ## What reaches a report -/

/-- No other finding that the context lets through, and no advisory, repeats a finding. -/
lemma eq_weighed_of_same (h : a.engine.OverCatalog) (hf : f ∈ a.ruleFindings ++ a.graphFindings)
    (hg : g ∈ Aggregate.inContext a.context ((a.ruleFindings ++ a.graphFindings).map a.annotate) ++
      a.advisories) (hsame : g.same (a.weighed f) = true) : g = a.weighed f := by
  rcases List.mem_append.mp hg with hg | hg
  · obtain ⟨_, hx, -, rfl⟩ := Aggregate.mem_inContext.mp hg
    obtain ⟨f', hf', rfl⟩ := List.mem_map.mp hx
    have heq : f' = f := by
      refine eq_of_same h hf hf' ?_
      rwa [← Finding.same_congr (key_weighed f') (key_weighed f)]
    rw [heq]
    rfl
  · rw [Finding.same_congr rfl (key_weighed f)] at hsame
    exact absurd (Finding.title_eq_of_same hsame).symm (title_ne_of_mem_advisories h hf hg)

/-- **What the context lets through and the options keep** is in the report. -/
theorem exists_mem_report (h : a.engine.OverCatalog) (options : ReportOptions)
    (hf : f ∈ a.ruleFindings ++ a.graphFindings)
    (hopen : Aggregate.isSuppressed a.context f = false)
    (hkept : Aggregate.isKept options (Aggregate.escalated a.context f) = true) :
    ∃ r ∈ (a.report options).findings,
      r.key = f.key ∧ r.severity = (Aggregate.escalated a.context f).severity := by
  have hmem : a.weighed f ∈ Aggregate.restrict options (Aggregate.inContext a.context
      ((a.ruleFindings ++ a.graphFindings).map a.annotate) ++ a.advisories) := by
    rw [Aggregate.restrict, List.mem_filter, List.mem_append, Aggregate.mem_inContext]
    refine ⟨Or.inl ⟨a.annotate f, List.mem_map_of_mem hf, ?_, rfl⟩, ?_⟩
    · rw [Aggregate.isSuppressed_congr (key_annotate f)]
      exact hopen
    · rw [Aggregate.isKept_congr (g := Aggregate.escalated a.context f) ?_ (severity_weighed f)]
      · exact hkept
      · rw [key_weighed, Aggregate.escalated_eq]
        rfl
  obtain ⟨id, hid⟩ := Aggregate.exists_mem_withIds (Finding.mem_distinct_of_unique hmem
    fun g hg hsame => eq_weighed_of_same h hf (List.mem_filter.mp hg).1 hsame)
  rw [← findings_report h options] at hid
  exact ⟨_, hid, (Finding.key_withId _ id).trans (key_weighed f), severity_weighed f⟩

/-- What the context suppresses is not in the report, and neither is anything else about the
same. -/
lemma key_ne_of_mem_report (h : a.engine.OverCatalog) {options : ReportOptions}
    (hf : f ∈ a.ruleFindings ++ a.graphFindings)
    (hsuppressed : Aggregate.isSuppressed a.context f = true) :
    ∀ r ∈ (a.report options).findings, r.key ≠ f.key := by
  intro r hr hkey
  rcases exists_of_mem_report h hr with ⟨f', -, hopen, id, rfl⟩ | ⟨f', hf', id, rfl⟩
  · rw [Finding.key_withId, key_weighed] at hkey
    rw [Aggregate.isSuppressed_congr hkey, hsuppressed] at hopen
    cases hopen
  · simp only [Finding.key, Prod.mk.injEq] at hkey
    exact title_ne_of_mem_advisories h hf hf' hkey.2.1.symm

/-! ## Errors -/

/-- An error is no advice on readability, and if its title is about documentation, it is on a
missing dependency. -/
lemma category_ne_of_error (h : a.engine.OverCatalog) (hf : f ∈ a.ruleFindings ++ a.graphFindings)
    (herror : f.severity = .error) : f.category ≠ .bestPractice ∧
      (Aggregate.isAboutDocumentation f = true → f.ruleId = "missing_dependency") := by
  rcases List.mem_append.mp hf with hf | hf
  · rcases Engine.heading_of_mem_scan h hf with hheading | ⟨name, hheading⟩
    · obtain ⟨hcategory, htitle⟩ := Rules.heading_error _ hheading herror
      refine ⟨hcategory, fun habout => ?_⟩
      rw [show Aggregate.isAboutDocumentation f = false from htitle] at habout
      cases habout
    · have hcategory : f.category = .structural := congrArg Heading.category hheading
      exact ⟨by simp [hcategory], fun _ => congrArg Heading.ruleId hheading⟩
  · rcases JobGraph.mem_findings hf with ⟨cycle, rfl⟩ | ⟨path, rfl⟩ | rfl
    · refine ⟨nofun, fun habout => ?_⟩
      rw [Aggregate.isAboutDocumentation, Aggregate.titleHas, JobGraph.title_cycleFinding,
        (by decide +kernel : Text.contains (Text.lower "Circular job dependency") "documentation" = false)]
        at habout
      cases habout
    · cases herror
    · cases herror

/-- An error is lost to its wording: it is on a missing dependency whose name makes the title one
about documentation, in automation with few steps. -/
structure Loses (a : Analysis) (f : Finding) : Prop where
  kind : a.context.kind = .automation
  steps : a.context.stepCount ≤ Aggregate.maxAutomationSteps
  rule : f.ruleId = "missing_dependency"
  title : Aggregate.isAboutDocumentation f = true

/-- An error is suppressed exactly if it is lost to its wording. -/
lemma isSuppressed_error_iff (h : a.engine.OverCatalog) (hf : f ∈ a.ruleFindings ++ a.graphFindings)
    (herror : f.severity = .error) : Aggregate.isSuppressed a.context f = true ↔ a.Loses f := by
  obtain ⟨hcategory, hrule⟩ := category_ne_of_error h hf herror
  rw [Aggregate.isSuppressed_iff_of_ne hcategory]
  exact ⟨fun ⟨hkind, hsteps, htitle⟩ => ⟨hkind, hsteps, hrule htitle, htitle⟩,
    fun hloses => ⟨hloses.kind, hloses.steps, hloses.title⟩⟩

/-- **An error reaches the report exactly if it is not lost to its wording**, with no options
set. -/
theorem error_mem_report_iff (h : a.engine.OverCatalog) :
    ∀ f ∈ a.ruleFindings ++ a.graphFindings, f.severity = .error →
      ((∃ r ∈ (a.report {}).findings, r.key = f.key ∧ r.severity = .error) ↔ ¬a.Loses f) := by
  intro f hf herror
  rw [← isSuppressed_error_iff h hf herror]
  constructor
  · rintro ⟨r, hr, hkey, -⟩ hsuppressed
    exact key_ne_of_mem_report h hf hsuppressed r hr hkey
  · intro hopen
    have hweighed : (Aggregate.escalated a.context f).severity = .error := by
      rcases Aggregate.severity_escalated a.context f with heq | ⟨hinfo, -⟩
      · exact heq.trans herror
      · rw [herror] at hinfo
        cases hinfo
    obtain ⟨r, hr, hkey, hseverity⟩ := exists_mem_report h {} hf (by simpa using hopen) rfl
    exact ⟨r, hr, hkey, hseverity.trans hweighed⟩

/-- Automation without steps, where two jobs wait for each other and one of them for a job that does
not exist. -/
def waitingTree : Value :=
  .ofFields [("on", .str "workflow_dispatch"), ("jobs", .ofFields [
    ("left", .ofFields [("needs", .ofStrings ["right", "setup"])]),
    ("right", .ofFields [("needs", .str "left")])])]

/-- Both errors are in the report. -/
theorem error_mem_report_waiting : ∃ d,
    Document.ofTree waitingTree "" "github-actions" "ci.yml" = .ok d ∧
      ((ofDocument d "").context.kind = .automation ∧
        (((ofDocument d "").report {}).findings.filter (·.severity == .error)).map Finding.title =
          ["Missing job dependency 'setup'", "Circular job dependency"]) ∧
      ∀ f ∈ (ofDocument d "").ruleFindings ++ (ofDocument d "").graphFindings, f.severity = .error →
        ((∃ r ∈ ((ofDocument d "").report {}).findings, r.key = f.key ∧ r.severity = .error) ↔
          ¬(ofDocument d "").Loses f) := by
  exact exists_ok_and (fun d _ => error_mem_report_iff (Engine.overCatalog_ofOptions {}))
    (by decide +kernel)

/-- Automation without steps, where a job waits for one that does not exist. -/
def notifyingTree : Value :=
  .ofFields [("on", .str "workflow_dispatch"), ("jobs", .ofFields [
    ("notify", .ofFields [("needs", .str "documentation")])])]

/-- **An error may be lost.** The rules report the missing job as an error, and no error is in the
report, since the name of the job is the word that marks advice on documentation. -/
theorem exists_lost_error : ∃ d,
    Document.ofTree notifyingTree "" "github-actions" "ci.yml" = .ok d ∧
      (∃ f ∈ (ofDocument d "").ruleFindings, f.severity = .error ∧
        f.title = "Missing job dependency 'documentation'") ∧
      ∀ r ∈ ((ofDocument d "").report {}).findings, r.severity ≠ .error := by
  exact exists_ok_of_any (by decide +kernel)

end Analysis

end PipelineAudit
