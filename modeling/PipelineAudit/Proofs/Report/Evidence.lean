import PipelineAudit.Proofs.Report.Provenance
import PipelineAudit.Proofs.Rule.Within

/-!
# The evidence in a report

What a report shows of the source is right: a finding that has a line stands on a line of the
source, and quotes the lines around it, with the line itself marked (`Analysis.showsSource`). This
holds for the findings of all rules, for those about the graph, which stand at jobs, and for the
advisories, which stand nowhere. It takes that the lines of the jobs and steps are lines of this
source, as they are in a document that was read from it (`Document.liesWithin_of_parse`), and that
the source has a line at all: a missing name of the workflow is reported on the first line.
-/

namespace PipelineAudit

/-- The findings of an engine over the catalogue show their lines. -/
lemma Engine.isShown_of_mem_scan {e : Engine} (h : e.OverCatalog) {subject : Subject}
    (hcount : 1 ≤ (Text.lines subject.source).length)
    (hlines : subject.document.LiesWithin (Text.lines subject.source).length) {f : Finding}
    (hf : f ∈ e.scan subject) : f.IsShown subject.source := by
  obtain ⟨r, hr, found, hfound, hf⟩ := exists_rule_of_mem_scan hf
  exact Rules.shows_of_mem_catalog (h r hr) e.options subject hcount hlines found hfound f hf

namespace JobGraph

variable {d : Document} {source job : String}

/-- The line of a job, if there is such a job, is within the source. -/
lemma isWithin_lineOf {count : Nat} (h : d.LiesWithin count) (job : String) :
    (lineOf d job).IsWithin count := by
  rw [lineOf]
  cases hjob : d.job? job with
  | none => exact Value.isWithin_null
  | some j => exact h.jobs j (List.mem_of_find?_eq_some hjob)

/-- A finding at the place of a job shows the line of the job. -/
lemma isShown_of_place (hcount : 1 ≤ (Text.lines source).length)
    (hlines : d.LiesWithin (Text.lines source).length) {f : Finding}
    (hlocation : f.location = (place d source job).1)
    (hsnippet : f.snippet = (place d source job).2) : f.IsShown source := by
  have hline := isWithin_lineOf hlines job
  have hsource : ¬source.isEmpty = true := by
    intro hempty
    rw [String.isEmpty_iff.mp hempty] at hcount
    cases hcount
  have hplace : (lineOf d job).IsPlace := by
    rcases hline.cases with hnull | ⟨hplace, -⟩
    · rw [hnull]
      exact .null
    · exact hplace
  obtain ⟨shown, hshown⟩ := hplace.exists_around source
  refine Finding.isShown_of_around hline (fun l hl => ?_) ?_
  · simp only [hlocation, place] at hl
    split_ifs at hl
    cases hl
    rfl
  · rw [hsnippet, place, snippetOf, if_neg hsource, hshown]
    rfl

/-- The findings about a graph show their lines. -/
lemma isShown_of_mem_findings (hcount : 1 ≤ (Text.lines source).length)
    (hlines : d.LiesWithin (Text.lines source).length) {g : JobGraph} {f : Finding}
    (hf : f ∈ g.findings d source) : f.IsShown source := by
  rcases mem_findings hf with ⟨cycle, rfl⟩ | ⟨path, rfl⟩ | rfl
  · exact isShown_of_place hcount hlines rfl rfl
  · exact isShown_of_place hcount hlines rfl rfl
  · exact fun l hl => absurd hl nofun

end JobGraph

/-- Advisories are about the whole document. -/
lemma Aggregate.location_of_mem_advisories {context : Context} {fileName : String} {f : Finding}
    (h : f ∈ advisories context fileName) : f.location = none := by
  rcases mem_advisories h with rfl | ⟨jobs, rfl⟩
  · rfl
  · rfl

namespace Analysis

variable {a : Analysis}

/-- What a report shows of the source is right. The lines of the jobs and steps are lines of the
source, if the document was read from it. If they are, then every finding of a report that has a
line shows it, whatever the options. -/
structure ShowsSource (a : Analysis) : Prop where
  read {fileName : String} {dialect : Option String} :
    Document.parse a.subject.source fileName dialect = .ok a.subject.document →
      a.subject.document.LiesWithin (Text.lines a.subject.source).length
  shown : a.subject.document.LiesWithin (Text.lines a.subject.source).length →
    ∀ options, ∀ r ∈ (a.report options).findings, r.IsShown a.subject.source

/-- **Every finding of a report that has a line shows it**, and a document that was read lies within
its source. -/
theorem showsSource (h : a.engine.OverCatalog) (hcount : 1 ≤ (Text.lines a.subject.source).length) :
    a.ShowsSource := by
  refine ⟨Document.liesWithin_of_parse, fun hlines options r hr => ?_⟩
  obtain ⟨f, hf, hshows⟩ := exists_source_of_mem_report h options r hr
  have hshown : f.IsShown a.subject.source := by
    rw [List.mem_append, List.mem_append] at hf
    rcases hf with (hf | hf) | hf
    · exact Engine.isShown_of_mem_scan h hcount hlines hf
    · exact JobGraph.isShown_of_mem_findings hcount hlines hf
    · intro l hl
      rw [Aggregate.location_of_mem_advisories hf] at hl
      cases hl
  -- a report changes neither the place nor the snippet of a finding
  rw [hshows.eq]
  exact hshown

/-- A workflow without a name, whose only job has neither a name nor a time limit. -/
def unnamedSource : String := "on: push\njobs:\n  a:\n    steps:\n      - run: make"

/-- Its document was read from it, so the document lies within its five lines, and the report shows
them. -/
theorem showsSource_unnamed : ∃ d, Document.parse unnamedSource "ci.yml" none = .ok d ∧
    d.LiesWithin (Text.lines unnamedSource).length ∧
    ∀ r ∈ ((ofDocument d unnamedSource).report {}).findings, r.IsShown unnamedSource := by
  obtain ⟨d, hd, -⟩ : ∃ d, Document.parse unnamedSource "ci.yml" none = .ok d ∧ d.jobs.length = 1 :=
    exists_ok_of_any (by decide +kernel)
  have hcount : 1 ≤ (Text.lines unnamedSource).length := by decide +kernel
  have hshows : (ofDocument d unnamedSource).ShowsSource :=
    showsSource (Engine.overCatalog_ofOptions {}) hcount
  exact ⟨d, hd, hshows.read hd, hshows.shown (hshows.read hd) {}⟩

end Analysis

end PipelineAudit
