import PipelineAudit.Analysis
import PipelineAudit.Proofs.Rule.Engine

/-!
# Where the findings of a report come from

Annotations are looked up by what a finding is about, in a list where others stand too. Since the
rules repeat nothing, what is found for a finding is its own annotation
(`Aggregate.annotatedAs_eq_annotate`), and the report is the same as if every finding had been
annotated where it stood (`Analysis.findings_report`). From there the findings are followed back
stage by stage: numbering changes an id, dropping repeats and restricting remove, and the context
removes or raises.
-/

namespace PipelineAudit

/-! ## Annotations -/

namespace Reachability

variable {context : Context} {d : Document} {graph : Option JobGraph} {f : Finding}

/-- The annotation of a security finding. -/
lemma annotate_of_security (h : f.category = .security) :
    annotate context d graph f = { f with reachability := some (exposure context d graph f) } := by
  simp [annotate, h]

/-- Other findings get no annotation. -/
lemma annotate_of_ne_security (h : f.category ≠ .security) : annotate context d graph f = f := by
  simp [annotate, h]

/-- An annotation changes nothing else. -/
lemma annotate_eq : annotate context d graph f =
    { f with reachability := (annotate context d graph f).reachability } := by
  by_cases h : f.category = .security
  · rw [annotate_of_security h]
  · rw [annotate_of_ne_security h]

/-- An annotation does not change what a finding is about. -/
lemma key_annotate : (annotate context d graph f).key = f.key := by
  rw [annotate_eq]
  rfl

end Reachability

namespace Aggregate

/-- **A finding gets its own annotation back**, if it is one of findings that are placed and do not
repeat each other. -/
theorem annotatedAs_eq_annotate {findings : List Finding} (hplaced : ∀ f ∈ findings, f.IsPlaced)
    (hpair : findings.Pairwise fun a b => a.same b = false) (context : Context) (d : Document)
    (graph : Option JobGraph) {f : Finding} (hf : f ∈ findings) :
    annotatedAs (ExposureOverview.ofFindings context d graph findings).insights f =
      Reachability.annotate context d graph f := by
  by_cases hsec : f.category = .security
  · let insights := (ExposureOverview.ofFindings context d graph findings).insights
    have hmem : ∀ g, g ∈ insights.reverse ↔
        ∃ f ∈ findings, f.category = .security ∧ Reachability.annotate context d graph f = g := by
      simp [insights, ExposureOverview.ofFindings, and_assoc]
    have hown : Reachability.annotate context d graph f ∈ insights.reverse :=
      (hmem _).mpr ⟨f, hf, hsec, rfl⟩
    have hfound : (insights.reverse.find? (·.same f)).isSome = true :=
      List.find?_isSome.mpr ⟨_, hown,
        (Finding.same_congr Reachability.key_annotate rfl).trans (Finding.same_refl f)⟩
    obtain ⟨g, hg⟩ := Option.isSome_iff_exists.mp hfound
    obtain ⟨f', hf', -, rfl⟩ := (hmem g).mp (List.mem_of_find?_eq_some hg)
    -- what was found is about the same as `f`, and nothing else is
    have hsame : f'.same f = true := by
      have hfound := List.find?_some hg
      rwa [Finding.same_congr Reachability.key_annotate rfl] at hfound
    obtain rfl : f' = f := Finding.eq_of_same hplaced hpair hf hf' hsame
    rw [annotatedAs, if_pos (beq_iff_eq.mpr hsec), hg, Option.getD_some]
  · rw [annotatedAs, if_neg (by simpa using hsec), Reachability.annotate_of_ne_security hsec]

end Aggregate

/-! ## The findings of a graph -/

/-- The findings about a graph are about a cycle, the longest path and the isolated jobs. -/
lemma JobGraph.mem_findings {g : JobGraph} {d : Document} {source : String} {f : Finding}
    (h : f ∈ g.findings d source) :
    (∃ cycle, f = cycleFinding d source g.cyclic cycle) ∨ (∃ path, f = pathFinding d source path) ∨
      f = isolatedFinding d g.isolated := by
  simp only [findings, List.mem_append, Option.mem_toList, Option.map_eq_some_iff] at h
  rcases h with (⟨cycle, -, rfl⟩ | ⟨path, -, rfl⟩) | h
  · exact Or.inl ⟨cycle, rfl⟩
  · exact Or.inr (Or.inl ⟨path, rfl⟩)
  · split_ifs at h
    · cases h
    · exact Or.inr (Or.inr (List.mem_singleton.mp h))

/-- They are not about security, and have no annotation. -/
lemma JobGraph.not_security_of_mem_findings {g : JobGraph} {d : Document} {source : String}
    {f : Finding} (h : f ∈ g.findings d source) :
    f.category ≠ .security ∧ f.reachability = none := by
  rcases mem_findings h with ⟨cycle, rfl⟩ | ⟨path, rfl⟩ | rfl
  · exact ⟨nofun, rfl⟩
  · exact ⟨nofun, rfl⟩
  · exact ⟨nofun, rfl⟩

/-! ## Stages -/

namespace Aggregate

/-- Numbering changes the ids of findings and nothing else. -/
lemma exists_of_mem_withIdsFrom {index : Nat} {used : List String} {findings : List Finding}
    {r : Finding} (h : r ∈ withIdsFrom index used findings) :
    ∃ f ∈ findings, ∃ id, r = { f with id := id } := by
  induction findings generalizing index used with
  | nil => cases h
  | cons f rest ih =>
      rcases List.mem_cons.mp h with rfl | h
      · exact ⟨f, List.mem_cons_self, _, rfl⟩
      · obtain ⟨f', hf', heq⟩ := ih h
        exact ⟨f', List.mem_cons_of_mem f hf', heq⟩

/-- Every finding is among those that are numbered from a position on. -/
lemma exists_mem_withIdsFrom {index : Nat} {used : List String} {findings : List Finding}
    {f : Finding} (h : f ∈ findings) :
    ∃ id, { f with id := id } ∈ withIdsFrom index used findings := by
  induction findings generalizing index used with
  | nil => cases h
  | cons g rest ih =>
      rcases List.mem_cons.mp h with rfl | h
      · exact ⟨_, List.mem_cons_self⟩
      · obtain ⟨id, hid⟩ := ih h
        exact ⟨id, List.mem_cons_of_mem _ hid⟩

/-- Every finding is among those that are numbered. -/
lemma exists_mem_withIds {findings : List Finding} {f : Finding} (h : f ∈ findings) :
    ∃ id, { f with id := id } ∈ withIds findings := exists_mem_withIdsFrom h

/-- A context lets through what it does not suppress, and raises what matters more in it. -/
lemma mem_inContext {context : Context} {findings : List Finding} {g : Finding} :
    g ∈ inContext context findings ↔
      ∃ f ∈ findings, isSuppressed context f = false ∧ escalated context f = g := by
  simp [inContext, and_assoc]

/-- Whether a context suppresses a finding depends on what it is about. -/
lemma isSuppressed_congr {context : Context} {f g : Finding} (h : f.key = g.key) :
    isSuppressed context f = isSuppressed context g := by
  simp only [Finding.key, Prod.mk.injEq] at h
  rw [isSuppressed, isSuppressed, isAboutDocumentation, isAboutDocumentation, titleHas, titleHas,
    h.1, h.2.1]

/-- Whether options keep a finding depends on what it is about and how bad it is. -/
lemma isKept_congr {options : ReportOptions} {f g : Finding} (hkey : f.key = g.key)
    (hseverity : f.severity = g.severity) : isKept options f = isKept options g := by
  simp only [Finding.key, Prod.mk.injEq] at hkey
  rw [isKept, isKept, hseverity, hkey.1]

/-- A context changes severities and nothing else. -/
lemma escalated_eq (context : Context) (f : Finding) :
    escalated context f = { f with severity := (escalated context f).severity } := by
  unfold escalated
  split_ifs <;> rfl

/-- A severity stays, or rises from information to warning in production. -/
lemma severity_escalated (context : Context) (f : Finding) :
    (escalated context f).severity = f.severity ∨
      (f.severity = .info ∧ (escalated context f).severity = .warning ∧
        context.hasProductionIndicators = true ∧ mattersInProduction f = true) := by
  unfold escalated
  split_ifs with hraise
  · simp only [Bool.and_eq_true, beq_iff_eq] at hraise
    exact Or.inr ⟨hraise.1.2, rfl, hraise.1.1, hraise.2⟩
  · exact Or.inl rfl

/-- The advisories are about production and about splitting a document with many jobs. -/
lemma mem_advisories {context : Context} {fileName : String} {f : Finding}
    (h : f ∈ advisories context fileName) :
    f = productionAdvisory fileName ∨ ∃ jobs, f = decompositionAdvisory fileName jobs := by
  rw [advisories, List.mem_append] at h
  rcases h with h | h <;> split_ifs at h
  · exact Or.inl (List.mem_singleton.mp h)
  · cases h
  · exact Or.inr ⟨_, List.mem_singleton.mp h⟩
  · cases h

/-- Advisories are not about security, and have no annotation. -/
lemma not_security_of_mem_advisories {context : Context} {fileName : String} {f : Finding}
    (h : f ∈ advisories context fileName) : f.category ≠ .security ∧ f.reachability = none := by
  rcases mem_advisories h with rfl | ⟨jobs, rfl⟩
  · exact ⟨nofun, rfl⟩
  · exact ⟨nofun, rfl⟩

end Aggregate

/-! ## Reports -/

namespace Analysis

/-- The findings about the graph. -/
def graphFindings (a : Analysis) : List Finding :=
  a.graph.findings a.subject.document a.subject.source

/-- The advisories for the context. -/
def advisories (a : Analysis) : List Finding := Aggregate.advisories a.context a.subject.fileName

/-- The annotation of a finding. -/
def exposure (a : Analysis) (f : Finding) : Exposure :=
  Reachability.exposure a.context a.subject.document (some a.graph) f

/-- A finding with its annotation, if it is about security. -/
def annotate (a : Analysis) (f : Finding) : Finding :=
  Reachability.annotate a.context a.subject.document (some a.graph) f

/-- A finding with its annotation, weighed by the context. -/
def weighed (a : Analysis) (f : Finding) : Finding := Aggregate.escalated a.context (a.annotate f)

variable {a : Analysis}

/-- An annotation does not change what a finding is about. -/
lemma key_annotate (f : Finding) : (a.annotate f).key = f.key := Reachability.key_annotate

/-- An annotation does not change how a finding is weighed. -/
lemma weighed_eq (f : Finding) : a.weighed f =
    { Aggregate.escalated a.context f with reachability := (a.annotate f).reachability } := by
  have hmatters : Aggregate.mattersInProduction (a.annotate f) =
      Aggregate.mattersInProduction f := by
    rw [annotate, Reachability.annotate_eq]
    rfl
  have hseverity : (a.annotate f).severity = f.severity := by
    rw [annotate, Reachability.annotate_eq]
  rw [weighed, Aggregate.escalated, Aggregate.escalated, hmatters, hseverity]
  split_ifs
  · rw [annotate, Reachability.annotate_eq]
  · exact Reachability.annotate_eq

/-- The severity of a finding is weighed by the context alone. -/
lemma severity_weighed (f : Finding) :
    (a.weighed f).severity = (Aggregate.escalated a.context f).severity := by
  rw [weighed_eq]

/-- Neither annotation nor context change what a finding is about. -/
lemma key_weighed (f : Finding) : (a.weighed f).key = f.key := by
  rw [weighed_eq, Aggregate.escalated_eq]
  rfl

/-- The findings of the rules and of the graph, each with its own annotation. -/
lemma merge_eq (h : a.engine.OverCatalog) (options : ReportOptions) :
    Aggregate.merge a.ruleFindings a.graphFindings (a.parts options).annotated =
      (a.ruleFindings ++ a.graphFindings).map a.annotate := by
  refine List.map_congr_left fun f hf => ?_
  rcases List.mem_append.mp hf with hf | hf
  · exact Aggregate.annotatedAs_eq_annotate
      (fun g hg => (Engine.isFresh_of_mem_scan h hg).isPlaced)
        (Finding.pairwise_distinct _) _ _ _ hf
  · have hsec := (JobGraph.not_security_of_mem_findings hf).1
    rw [annotate, Reachability.annotate_of_ne_security hsec, Aggregate.annotatedAs,
      if_neg (by simpa using hsec)]

/-- **The findings of a report**: annotated, weighed by the context, extended by advisories,
restricted, without repeats and numbered. -/
theorem findings_report (h : a.engine.OverCatalog) (options : ReportOptions) :
    (a.report options).findings = Aggregate.withIds (Finding.distinct (Aggregate.restrict options
      (Aggregate.inContext a.context ((a.ruleFindings ++ a.graphFindings).map a.annotate) ++
        a.advisories))) := by
  rw [← merge_eq h options]
  rfl

/-- A finding of a report shows another one: it is the same except for its id, its annotation, and a
severity that may have been raised. -/
structure Shows (a : Analysis) (f r : Finding) : Prop where
  /-- Nothing else differs. -/
  eq : r = { f with id := r.id, severity := r.severity, reachability := r.reachability }
  /-- An information becomes a warning in production, if it is about security or error handling. -/
  severity : r.severity = f.severity ∨
    (f.severity = .info ∧ r.severity = .warning ∧ a.context.hasProductionIndicators = true ∧
      (f.category = .security ∨ Aggregate.titleHas f "error handling" = true))
  /-- A security finding is one of the rules and carries the annotation of that very finding. -/
  security : f.category = .security →
    f ∈ a.ruleFindings ∧ r.reachability = some (a.exposure f)
  /-- No other finding carries one. -/
  other : f.category ≠ .security → r.reachability = none

/-- A finding that was annotated and weighed shows the one it was made from. -/
lemma shows_weighed {f : Finding} (hsec : f.category = .security → f ∈ a.ruleFindings)
    (hnone : f.reachability = none) (id : String) :
    a.Shows f { a.weighed f with id := id } := by
  rw [weighed_eq, Aggregate.escalated_eq]
  refine ⟨rfl, ?_, fun h => ⟨hsec h, ?_⟩, fun h => ?_⟩
  · simpa [Aggregate.mattersInProduction] using Aggregate.severity_escalated a.context f
  · exact congrArg Finding.reachability (Reachability.annotate_of_security h)
  · exact (congrArg Finding.reachability (Reachability.annotate_of_ne_security h)).trans hnone

/-- A finding of a report is one that the context lets through, or an advisory. -/
lemma exists_of_mem_report (h : a.engine.OverCatalog) {options : ReportOptions} {r : Finding}
    (hr : r ∈ (a.report options).findings) :
    (∃ f ∈ a.ruleFindings ++ a.graphFindings, Aggregate.isSuppressed a.context f = false ∧
      ∃ id, r = { a.weighed f with id := id }) ∨
    ∃ f ∈ a.advisories, ∃ id, r = { f with id := id } := by
  rw [findings_report h options] at hr
  obtain ⟨g, hg, id, rfl⟩ := Aggregate.exists_of_mem_withIdsFrom hr
  have hg := (List.mem_filter.mp ((Finding.distinct_sublist _).mem hg)).1
  rcases List.mem_append.mp hg with hg | hg
  · obtain ⟨f', hf', hopen, rfl⟩ := Aggregate.mem_inContext.mp hg
    obtain ⟨f, hf, rfl⟩ := List.mem_map.mp hf'
    rw [Aggregate.isSuppressed_congr (key_annotate f)] at hopen
    exact Or.inl ⟨f, hf, hopen, id, rfl⟩
  · exact Or.inr ⟨g, hg, id, rfl⟩

/-- **Every finding of a report shows a finding** of the rules, of the graph or of the advisories,
and carries its own annotation. -/
theorem exists_source_of_mem_report (h : a.engine.OverCatalog) (options : ReportOptions) :
    ∀ r ∈ (a.report options).findings,
      ∃ f ∈ a.ruleFindings ++ a.graphFindings ++ a.advisories, a.Shows f r := by
  intro r hr
  rcases exists_of_mem_report h hr with ⟨f, hf, -, id, rfl⟩ | ⟨f, hf, id, rfl⟩
  · refine ⟨f, List.mem_append_left _ hf, ?_⟩
    rcases List.mem_append.mp hf with hf | hf
    · exact shows_weighed (fun _ => hf) (Engine.isFresh_of_mem_scan h hf).reachability id
    · obtain ⟨hsec, hnone⟩ := JobGraph.not_security_of_mem_findings hf
      exact shows_weighed (fun h => absurd h hsec) hnone id
  · obtain ⟨hsec, hnone⟩ := Aggregate.not_security_of_mem_advisories hf
    exact ⟨f, List.mem_append_right _ hf, rfl, Or.inl rfl, fun h => absurd h hsec, fun _ => hnone⟩

/-- A document under analysis by all rules. -/
def ofDocument (d : Document) (source : String) : Analysis :=
  ⟨.ofOptions {}, ⟨d, source, d.fileName⟩, d.fileName⟩

/-- A job that never runs, and one behind it that deploys with an action of a third party. -/
def shippingTree : Value :=
  .ofFields [("name", .str "ship"), ("on", .str "push"), ("jobs", .ofFields [
    ("gate", .ofFields [("if", .bool false)]),
    ("ship", .ofFields [("needs", .str "gate"),
      ("steps", .seq [.ofFields [("uses", .str "acme/deploy@v1")]])])])]

/-- Two findings are about security and carry the verdict on their place; the second of them is
raised, like the one on error handling, since the document deploys. The last two come from the graph
and from the advisories. -/
theorem exists_source_shipping : ∃ d,
    Document.ofTree shippingTree "" "github-actions" "ci.yml" = .ok d ∧
      ((ofDocument d "").report {}).findings.map
          (fun f => (f.id, f.severity, f.reachability.map Exposure.verdict)) =
        [("unpinned_action-ship-0", .warning, some .mitigated),
          ("third_party_action-ship-0", .warning, some .mitigated),
          ("job_name-gate", .info, none), ("job_name-ship", .info, none),
          ("step_name-ship-0", .info, none), ("error_handling-ship-0", .warning, none),
          ("documentation", .info, none), ("critical-path", .info, none),
          ("production-workflow", .info, none)] ∧
      ∀ r ∈ ((ofDocument d "").report {}).findings,
        ∃ f ∈ (ofDocument d "").ruleFindings ++ (ofDocument d "").graphFindings ++
          (ofDocument d "").advisories, (ofDocument d "").Shows f r := by
  exact exists_ok_and
    (fun d _ => exists_source_of_mem_report (Engine.overCatalog_ofOptions {}) {})
      (by decide +kernel)

end Analysis

end PipelineAudit
