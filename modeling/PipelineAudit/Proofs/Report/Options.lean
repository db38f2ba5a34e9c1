import PipelineAudit.Proofs.Report.Errors

/-!
# What the options of a report remove

The findings that go into a report, annotated and weighed, and the advisories after them
(`Analysis.gathered`) are all about different things (`Analysis.pairwise_gathered`). So dropping
repeats drops nothing, with options set or not, and a report holds exactly what the options admit
(`Analysis.findings_report_eq`). Ids are given last, by position, and nothing that is counted
depends on them (`Summary.ofFindings_withoutId`, `ExposureCounts.ofFindings_withoutId`). Hence a
report with options set is the one without them, restricted (`Analysis.report_isRestricted`).
-/

namespace PipelineAudit

/-! ## Ids aside -/

/-- A finding without its id. -/
def Finding.withoutId (f : Finding) : Finding := { f with id := "" }

/-- Numbering changes ids only. -/
lemma Aggregate.map_withoutId_withIdsFrom (index : Nat) (used : List String)
    (findings : List Finding) :
    (withIdsFrom index used findings).map Finding.withoutId = findings.map Finding.withoutId := by
  induction findings generalizing index used with
  | nil => rfl
  | cons f rest ih =>
      rw [withIdsFrom, List.map_cons, List.map_cons, ih]
      rfl

/-- A choice that does not look at ids can be made before findings are numbered. -/
lemma Aggregate.filter_withIds {p : Finding → Bool} (hp : ∀ f, p f.withoutId = p f)
    (findings : List Finding) :
    ((withIds findings).filter p).map Finding.withoutId =
      (findings.filter p).map Finding.withoutId := by
  have hfilter : ∀ l : List Finding,
      (l.filter p).map Finding.withoutId = (l.map Finding.withoutId).filter p := by
    intro l
    rw [List.filter_map, show p ∘ Finding.withoutId = p from funext hp]
  rw [hfilter, hfilter, withIds, map_withoutId_withIdsFrom]

/-- The numbers of a report do not depend on ids. -/
lemma Summary.ofFindings_withoutId (findings : List Finding) :
    ofFindings (findings.map Finding.withoutId) = ofFindings findings := by
  have hcount : ∀ severity, count severity (findings.map Finding.withoutId) =
      count severity findings := by
    intro severity
    rw [count, count, List.filter_map, List.length_map]
    rfl
  rw [ofFindings, ofFindings, hcount, hcount, hcount, List.length_map]

/-- The numbers of security findings do not depend on ids. -/
lemma ExposureCounts.ofFindings_withoutId (findings : List Finding) :
    ofFindings (findings.map Finding.withoutId) = ofFindings findings := by
  simp only [ofFindings, List.filter_map, List.length_map]
  rfl

/-- Security findings are counted among themselves. -/
lemma ExposureCounts.ofFindings_security (findings : List Finding) :
    ofFindings (findings.filter (·.category == .security)) = ofFindings findings := by
  simp only [ofFindings, List.filter_filter, Bool.and_self]

namespace ReportOptions

/-- The options admit a finding: it is no information if these are ignored, and about security or
dependencies if only these are looked at. -/
def Admits (options : ReportOptions) (f : Finding) : Prop :=
  (options.ignoreInfo = true → f.severity ≠ .info) ∧
    (options.focusOnSecurity = true → f.category = .security ∨ f.category = .dependency)

instance (options : ReportOptions) : DecidablePred options.Admits :=
  fun f => inferInstanceAs (Decidable ((options.ignoreInfo = true → f.severity ≠ .info) ∧
    (options.focusOnSecurity = true → f.category = .security ∨ f.category = .dependency)))

/-- A report is restricted to what its options admit. -/
lemma restrict_eq (options : ReportOptions) (findings : List Finding) :
    Aggregate.restrict options findings = findings.filter fun f => decide (options.Admits f) := by
  refine List.filter_congr fun f _ => ?_
  rw [Bool.eq_iff_iff, decide_eq_true_iff, Aggregate.isKept, Admits]
  cases options.ignoreInfo <;> cases options.focusOnSecurity <;> simp

/-- Options that are not set admit everything. -/
lemma restrict_default (findings : List Finding) : Aggregate.restrict {} findings = findings := by
  rw [restrict_eq, List.filter_eq_self]
  intro f _
  exact decide_eq_true ⟨nofun, nofun⟩

end ReportOptions

/-- A report is another one, restricted by options: it has the findings that they admit, ids aside
and in the same order, and its numbers are those of these findings. -/
structure Report.IsRestricted (r whole : Report) (options : ReportOptions) : Prop where
  findings : r.findings.map Finding.withoutId =
    (whole.findings.filter fun f => decide (options.Admits f)).map Finding.withoutId
  summary : r.summary = .ofFindings (whole.findings.filter fun f => decide (options.Admits f))
  stats : r.reachability.map ExposureOverview.stats =
    some (.ofFindings (whole.findings.filter fun f => decide (options.Admits f)))

/-! ## No repeats -/

/-- Changes that leave what findings are about make no repeats. -/
lemma Finding.pairwise_map {change : Finding → Finding} (hkey : ∀ f, (change f).key = f.key)
    {findings : List Finding} (h : findings.Pairwise fun f g => f.same g = false) :
    (findings.map change).Pairwise fun f g => f.same g = false := by
  rw [List.pairwise_map]
  exact h.imp fun {f g} hfg => (same_congr (hkey f) (hkey g)).trans hfg

namespace Analysis

variable {a : Analysis}

/-- What goes into a report: the findings of the rules and of the graph that matter in the context,
annotated and weighed, and the advisories. -/
def gathered (a : Analysis) : List Finding :=
  Aggregate.inContext a.context ((a.ruleFindings ++ a.graphFindings).map a.annotate) ++ a.advisories

/-- **No finding that goes into a report repeats another one.** -/
theorem pairwise_gathered (h : a.engine.OverCatalog) :
    a.gathered.Pairwise fun f g => f.same g = false := by
  have hne : ∀ {f g : Finding}, f.title ≠ g.title → f.same g = false := fun {f g} htitle => by
    simpa using fun hsame => htitle (Finding.title_eq_of_same hsame)
  have hadded : (a.graphFindings ++ a.advisories).Pairwise fun f g => f.same g = false :=
    (List.pairwise_map.mp (nodup_title a)).imp hne
  obtain ⟨hgraph, hadvisories, -⟩ := List.pairwise_append.mp hadded
  have hfound : (a.ruleFindings ++ a.graphFindings).Pairwise fun f g => f.same g = false := by
    refine List.pairwise_append.mpr ⟨Finding.pairwise_distinct _, hgraph, fun f hf g hg => hne ?_⟩
    intro heq
    exact Engine.title_notMem_of_mem_scan h hf
      (heq ▸ (map_title_sublist a).mem (List.mem_map_of_mem (List.mem_append_left _ hg)))
  refine List.pairwise_append.mpr ⟨?_, hadvisories, fun f hf g hg => hne ?_⟩
  · refine Finding.pairwise_map (fun f => ?_) ((Finding.pairwise_map key_annotate hfound).filter _)
    rw [Aggregate.escalated_eq]
    rfl
  · obtain ⟨_, hx, -, rfl⟩ := Aggregate.mem_inContext.mp hf
    obtain ⟨f', hf', rfl⟩ := List.mem_map.mp hx
    have htitle : (a.weighed f').title = f'.title := by rw [weighed_eq, Aggregate.escalated_eq]
    exact htitle ▸ title_ne_of_mem_advisories h hf' hg

/-- The findings of a report are those that its options admit, numbered. -/
lemma findings_report_eq (h : a.engine.OverCatalog) (options : ReportOptions) :
    (a.report options).findings =
      Aggregate.withIds (a.gathered.filter fun f => decide (options.Admits f)) := by
  rw [findings_report h, ← gathered, options.restrict_eq,
    Finding.distinct_eq_self ((pairwise_gathered h).filter _)]

/-- The findings of a report without options. -/
lemma findings_report_default (h : a.engine.OverCatalog) :
    (a.report {}).findings = Aggregate.withIds a.gathered := by
  rw [findings_report_eq h, ← ReportOptions.restrict_eq, ReportOptions.restrict_default]

/-- The numbers of security findings in a report. -/
lemma stats_report (a : Analysis) (options : ReportOptions) :
    (a.report options).reachability.map ExposureOverview.stats =
      some (.ofFindings (a.report options).findings) :=
  congrArg some (ExposureCounts.ofFindings_security (a.report options).findings)

/-- **Options only remove findings.** A report with options set is the one without them,
restricted. -/
theorem report_isRestricted (h : a.engine.OverCatalog) (options : ReportOptions) :
    (a.report options).IsRestricted (a.report {}) options := by
  have hids : (a.report options).findings.map Finding.withoutId =
      ((a.report {}).findings.filter fun f => decide (options.Admits f)).map Finding.withoutId := by
    have hadmits : ∀ f : Finding, decide (options.Admits f.withoutId) = decide (options.Admits f) :=
      fun _ => rfl
    rw [findings_report_eq h options, Aggregate.withIds, Aggregate.map_withoutId_withIdsFrom,
      findings_report_default h, Aggregate.filter_withIds hadmits]
  refine ⟨hids, ?_, ?_⟩
  · change Summary.ofFindings (a.report options).findings = _
    rw [← Summary.ofFindings_withoutId, hids, Summary.ofFindings_withoutId]
  · rw [stats_report, ← ExposureCounts.ofFindings_withoutId, hids,
      ExposureCounts.ofFindings_withoutId]

/-- Of nine findings of the document that ships, three are no information, and two of these are
about security; one of the two is raised by the context before the options are looked at. -/
theorem report_isRestricted_shipping : ∃ d,
    Document.ofTree shippingTree "" "github-actions" "ci.yml" = .ok d ∧
      (((ofDocument d "").report {}).findings.length = 9 ∧
        ((ofDocument d "").report ⟨true, true⟩).findings.map Finding.id =
          ["unpinned_action-ship-0", "third_party_action-ship-0"]) ∧
      ((ofDocument d "").report ⟨true, true⟩).IsRestricted ((ofDocument d "").report {})
        ⟨true, true⟩ := by
  exact exists_ok_and
    (fun d _ => report_isRestricted (Engine.overCatalog_ofOptions {}) ⟨true, true⟩)
    (by decide +kernel)

end Analysis

end PipelineAudit
