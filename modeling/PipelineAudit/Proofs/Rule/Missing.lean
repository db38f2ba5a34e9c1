import PipelineAudit.Proofs.Graph.Edge
import PipelineAudit.Proofs.Reachability.Guard
import PipelineAudit.Proofs.Rule.Failure
import PipelineAudit.Proofs.Rule.Independence
import PipelineAudit.Proofs.Rule.Site

/-!
# Dependencies are edges or findings

What a job depends on is written as names of other jobs. The graph takes the names that are jobs and
leaves the others to a rule, so that every name is an edge or a finding and never both
(`Engine.Splits`).

The findings of the rule are told by title and job (`Engine.ReportsMissing`). No other rule gives
such a title, and where a finding is dropped as a repeat, one with the same title in the same job
has been kept; so an engine reports exactly the names that are no jobs
(`Engine.reportsMissing_iff`), if only the rule deals with the document. It does unless the recorded
line of a job with such a name is no place (`Rules.exists_of_not_handles_missingDependency`), which
is never so for a document from a text. Where it is so, the engine skips the rule, and the names are
in neither list (`Engine.exists_lost_dependency`).
-/

namespace PipelineAudit

/-! ## What is kept of repeats -/

namespace Finding

variable {f g : Finding} {findings seen : List Finding}

/-- Of each finding there stays one that it repeats, unless such a one was seen. -/
lemma exists_same_of_mem_distinctFrom (hf : f ∈ findings) :
    (∃ g ∈ seen, g.same f = true) ∨ ∃ g ∈ distinctFrom seen findings, g.same f = true := by
  induction findings generalizing seen with
  | nil => cases hf
  | cons a rest ih =>
      rw [distinctFrom]
      rcases List.mem_cons.mp hf with rfl | hf
      · split_ifs with hseen
        · exact Or.inl (List.any_eq_true.mp hseen)
        · exact Or.inr ⟨f, List.mem_cons_self, same_refl f⟩
      · split_ifs with hseen
        · exact ih hf
        · have hrest : (∃ g ∈ a :: seen, g.same f = true) ∨
              ∃ g ∈ distinctFrom (a :: seen) rest, g.same f = true := ih hf
          rcases hrest with ⟨g, hg, hsame⟩ | ⟨g, hg, hsame⟩
          · rcases List.mem_cons.mp hg with rfl | hg
            · exact Or.inr ⟨g, List.mem_cons_self, hsame⟩
            · exact Or.inl ⟨g, hg, hsame⟩
          · exact Or.inr ⟨g, List.mem_cons_of_mem a hg, hsame⟩

/-- Of each finding there stays one that it repeats. -/
lemma exists_same_of_mem (hf : f ∈ findings) : ∃ g ∈ distinct findings, g.same f = true :=
  (exists_same_of_mem_distinctFrom hf).resolve_left fun ⟨_, hg, _⟩ => List.not_mem_nil hg

/-- Findings that repeat each other are in the same job. -/
lemma jobName_eq_of_same (h : g.same f = true) : g.jobName = f.jobName := by
  simp only [same, Bool.and_eq_true] at h
  unfold jobName
  cases hg : g.location with
  | none => cases hf : f.location <;> simp_all [sameLocation]
  | some l => cases hf : f.location <;> simp_all [sameLocation, Location.same]

end Finding

/-! ## The rule -/

namespace Rules

variable {subject : Subject} {options : RuleOptions} {f : Finding}

/-- The finding on a name tells it, and the job where it is written. -/
lemma told_of_missingDraft {j : Job} {name : String}
    (h : missingDependencySpec.finding subject (missingDependencyDraft subject j name) = .ok f) :
    f.title = missingTitle name ∧ f.jobName = some j.id := by
  refine ⟨?_, ?_⟩
  · exact (congrArg Heading.title (RuleSpec.heading_of_finding h)).trans
      (congrArg Heading.title (heading_missing name))
  · obtain ⟨_, _, -, -, rfl⟩ := RuleSpec.finding_eq_ok.mp h
    simp [Finding.jobName, Draft.findingWith, Draft.location, missingDependencyDraft, Job.draft]

/-- A job depends on a name that is no job. -/
def Lacks (d : Document) (j : Job) (name : String) : Prop :=
  name ∈ j.needs ++ j.artifactDependencies ∧ name ∉ d.jobIds

/-- The drafts of the rule are those on the names that are no jobs. -/
lemma mem_drafts_missing {draft : Draft} {jobs : List Job} :
    draft ∈ (jobs.flatMap fun j => ((j.needs ++ j.artifactDependencies).filter fun n =>
        !subject.document.hasJob n).map (missingDependencyDraft subject j)) ↔
      ∃ j ∈ jobs, ∃ name, Lacks subject.document j name ∧
        missingDependencyDraft subject j name = draft := by
  simp only [List.mem_flatMap, List.mem_map, List.mem_filter, Lacks, ← Document.hasJob_iff,
    Bool.not_eq_true', Bool.not_eq_true]

/-- **What the rule finds**: for every name that is no job a finding that tells it, and nothing
else. -/
theorem missingDependency_tells {found : List Finding}
    (h : missingDependency.check options subject = .ok found) {job name : String} :
    (∃ f ∈ found, f.title = missingTitle name ∧ f.jobName = some job) ↔
      ∃ j ∈ subject.document.jobs, j.id = job ∧ Lacks subject.document j name := by
  obtain ⟨drafts, hdrafts, hfound⟩ := bind_eq_ok.mp h
  cases hdrafts
  constructor
  · rintro ⟨f, hf, htitle, hjob⟩
    obtain ⟨draft, hdraft, hfinding⟩ := exists_of_mem_mapM hfound hf
    obtain ⟨j, hj, name', hlacks, rfl⟩ := mem_drafts_missing.mp hdraft
    obtain ⟨htitle', hjob'⟩ := told_of_missingDraft hfinding
    obtain rfl := missingTitle_injective (htitle'.symm.trans htitle)
    exact ⟨j, hj, Option.some.inj (hjob'.symm.trans hjob), hlacks⟩
  · rintro ⟨j, hj, rfl, hlacks⟩
    have hdraft := mem_drafts_missing.mpr ⟨j, hj, name, hlacks, rfl⟩
    obtain ⟨f, hf, hfinding⟩ := exists_mem_of_mapM hfound hdraft
    exact ⟨f, hf, told_of_missingDraft hfinding⟩

/-- The rule applies to every document. -/
lemma covers_missingDependency (d : Document) : missingDependency.covers d = true := by
  unfold Rule.covers
  cases d.dialect <;> decide

/-- Where the rule fails, the recorded line of a job with such a name is no place. -/
theorem exists_of_not_handles_missingDependency (h : ¬missingDependency.Handles options subject) :
    ∃ j ∈ subject.document.jobs, (∃ name, Lacks subject.document j name) ∧ ¬j.line.IsPlace := by
  by_contra hnone
  push Not at hnone
  refine h (RuleSpec.handles_pureRule fun draft hdraft => ?_)
  obtain ⟨j, hj, name, hlacks, rfl⟩ := mem_drafts_missing.mp hdraft
  have hplace := hnone j hj ⟨name, hlacks⟩
  exact isTold_search (isKnownPlace_orElseValue hplace 0) hplace _ _ _

end Rules

/-! ## Engines -/

namespace Engine

variable {e : Engine} {subject : Subject}

/-- An engine reports that a job depends on a name which is no job. -/
def ReportsMissing (e : Engine) (subject : Subject) (job name : String) : Prop :=
  ∃ f ∈ e.scan subject, f.title = Rules.missingTitle name ∧ f.jobName = some job

/-- Every name on which a job depends is an edge or is reported, and never both; a job does not wait
for artifacts of its own. -/
structure Splits (e : Engine) (subject : Subject) : Prop where
  needs : ∀ j ∈ subject.document.jobs, ∀ name ∈ j.needs,
    Xor (Edge.Joins (JobGraph.ofDocument subject.document).edges .needs name j.id)
      (e.ReportsMissing subject j.id name)
  artifacts : ∀ j ∈ subject.document.jobs, ∀ name ∈ j.artifactDependencies, name ≠ j.id →
    Xor (Edge.Joins (JobGraph.ofDocument subject.document).edges .artifact name j.id)
      (e.ReportsMissing subject j.id name)

/-- An engine with the rule on missing dependencies runs it. -/
lemma missingDependency_mem_applicable (he : e.OverCatalog)
    (hon : Rules.missingDependency.id ∈ e.enabledIds) (d : Document) :
    Rules.missingDependency ∈ e.applicable d := by
  obtain ⟨r, hr, hid⟩ := List.mem_map.mp hon
  obtain ⟨hr, henabled⟩ := List.mem_filter.mp hr
  have hrule : r.rule = Rules.missingDependency :=
    List.inj_on_of_nodup_map Rules.nodup_map_id (he r hr)
      (Rules.mem_catalog_iff.mpr (Or.inl rfl)) hid
  have hcovers := Rules.covers_missingDependency d
  exact List.mem_map.mpr ⟨r, List.mem_filter.mpr ⟨hr, by simp [henabled, hrule, hcovers]⟩, hrule⟩

/-- **An engine reports exactly the names that are no jobs**, where its rule deals with the
document. -/
theorem reportsMissing_iff (he : e.OverCatalog) (hon : Rules.missingDependency.id ∈ e.enabledIds)
    (hhandles : Rules.missingDependency.Handles e.options subject) {job name : String} :
    e.ReportsMissing subject job name ↔
      ∃ j ∈ subject.document.jobs, j.id = job ∧ Rules.Lacks subject.document j name := by
  obtain ⟨found, hfound⟩ := hhandles
  rw [← Rules.missingDependency_tells hfound]
  constructor
  · rintro ⟨f, hf, htitle, hjob⟩
    obtain ⟨r, hr, found', hfound', hf⟩ := exists_rule_of_mem_scan hf
    -- only the rule on missing dependencies gives such a title
    rcases Rules.mem_catalog_iff.mp (he r hr) with hrule | ⟨v, hv, hrule⟩
    · rw [hrule] at hfound'
      obtain rfl : found' = found := Except.ok.inj (hfound'.symm.trans hfound)
      exact ⟨f, hf, htitle, hjob⟩
    · rw [← hrule] at hfound'
      obtain ⟨draft, hset, hfinding⟩ := v.makes _ _ _ hfound' f hf
      have hheading : f.heading ∈ Rules.headings := by
        rw [RuleSpec.heading_of_finding hfinding]
        exact List.mem_flatMap.mpr ⟨v, hv, List.mem_map_of_mem hset⟩
      exact absurd htitle ((Rules.title_headings _ hheading).2 name)
  · rintro ⟨f, hf, htitle, hjob⟩
    have hmem : f ∈ (e.applicable subject.document).flatMap fun r => r.found e.options subject := by
      refine List.mem_flatMap.mpr ⟨_, missingDependency_mem_applicable he hon _, ?_⟩
      rw [Rule.found, hfound]
      exact hf
    obtain ⟨g, hg, hsame⟩ := Finding.exists_same_of_mem hmem
    rw [← scan_eq] at hg
    exact ⟨g, hg, (Finding.title_eq_of_same hsame).trans htitle,
      (Finding.jobName_eq_of_same hsame).trans hjob⟩

end Engine

/-! ## Documents that were read -/

/-- Only the second dialect has jobs that wait for artifacts of others. -/
lemma Document.artifactDependencies_of_ofTree {tree : Value} {source dialect fileName : String}
    {d : Document} (h : ofTree tree source dialect fileName = .ok d) {j : Job} (hj : j ∈ d.jobs)
    {name : String} (hname : name ∈ j.artifactDependencies) : d.dialect = .gitlab := by
  rcases document_of_ofTree h with h | h
  · obtain ⟨entry, -, rfl⟩ := Github.exists_entry_of_mem h hj
    cases hname
  · exact (Gitlab.foldl_putJob_of_document h).1

namespace Engine

variable {e : Engine}

/-- **Dependencies are edges or findings**, for every document that was read and on which the rule
on missing dependencies does not fail. Where it fails, the recorded line of a job that depends on a
name which is no job is no place. -/
theorem splits_of_ofTree {tree : Value} {source dialect fileName : String} {d : Document}
    (h : Document.ofTree tree source dialect fileName = .ok d) (he : e.OverCatalog)
    (hon : Rules.missingDependency.id ∈ e.enabledIds) (text reported : String) :
    (Rules.missingDependency.Handles e.options ⟨d, text, reported⟩ → e.Splits ⟨d, text, reported⟩) ∧
      (¬Rules.missingDependency.Handles e.options ⟨d, text, reported⟩ →
        ∃ j ∈ d.jobs, (∃ name, Rules.Lacks d j name) ∧ ¬j.line.IsPlace) := by
  refine ⟨fun hhandles => ?_, Rules.exists_of_not_handles_missingDependency⟩
  have hd : d.jobIds.Nodup := Document.nodup_jobIds_of_ofTree h
  -- in a job of its own, a name is reported if it is no job
  have hreports : ∀ j ∈ d.jobs, ∀ name ∈ j.needs ++ j.artifactDependencies,
      (e.ReportsMissing ⟨d, text, reported⟩ j.id name ↔ name ∉ d.jobIds) := by
    intro j hj name hname
    rw [reportsMissing_iff he hon hhandles, Edge.exists_job_iff hd hj]
    exact and_iff_right hname
  constructor
  · intro j hj name hname
    rw [hreports j hj name (List.mem_append_left _ hname), xor_not_right]
    rw [show (JobGraph.ofDocument d).edges = Edge.ofDocument d from rfl, Edge.joins_ofDocument,
      Edge.ofKind, Edge.joins_needsEdges, Edge.exists_job_iff hd hj]
    simp [hname]
  · intro j hj name hname hne
    have hdialect := Document.artifactDependencies_of_ofTree h hj hname
    rw [hreports j hj name (List.mem_append_right _ hname), xor_not_right]
    rw [show (JobGraph.ofDocument d).edges = Edge.ofDocument d from rfl, Edge.joins_ofDocument,
      Edge.ofKind, Edge.artifactEdges, hdialect, Edge.joins_namedArtifactEdges,
      Edge.exists_job_iff hd hj]
    simp [hname, hne]

/-- Two jobs in the second dialect. The second one needs the first one, itself and a job that does
not exist, twice, and takes artifacts of these and of another job that does not exist. -/
def tellingTree : Value :=
  .ofFields [("build", .ofFields [("script", .str "make")]),
    ("test", .ofFields [("script", .str "make check"),
      ("needs", .seq [.ofFields [("job", .str "build")], .str "ghost", .str "test", .str "ghost"]),
      ("dependencies", .ofStrings ["build", "gone", "ghost", "test"])])]

/-- What is in this document, and what the rules make of it. -/
lemma ofTree_tellingTree : ∃ d,
    Document.ofTree tellingTree "" "gitlab-ci" ".gitlab-ci.yml" = .ok d ∧
      (Edge.ofDocument d).map Edge.key =
        [("build", "test", .needs), ("test", "test", .needs), ("build", "test", .artifact)] ∧
      ((ofOptions {}).scan ⟨d, "", ".gitlab-ci.yml"⟩).map (fun f => (f.title, f.jobName)) =
        [("No inline documentation", none), ("Missing job dependency 'ghost'", some "test"),
          ("Missing job dependency 'gone'", some "test")] ∧
      (Rules.missingDependency.check {} ⟨d, "", ".gitlab-ci.yml"⟩).toOption.isSome = true :=
  exists_ok_of_any (by decide +kernel)

/-- Of the names that are written in the second job, two are reported, once each, and the others are
edges. -/
theorem splits_tellingTree : ∃ d,
    Document.ofTree tellingTree "" "gitlab-ci" ".gitlab-ci.yml" = .ok d ∧
      (Edge.ofDocument d).map Edge.key =
        [("build", "test", .needs), ("test", "test", .needs), ("build", "test", .artifact)] ∧
      ((ofOptions {}).scan ⟨d, "", ".gitlab-ci.yml"⟩).map (fun f => (f.title, f.jobName)) =
        [("No inline documentation", none), ("Missing job dependency 'ghost'", some "test"),
          ("Missing job dependency 'gone'", some "test")] ∧
      (ofOptions {}).Splits ⟨d, "", ".gitlab-ci.yml"⟩ := by
  obtain ⟨d, hd, hedges, hfindings, hsome⟩ := ofTree_tellingTree
  have hon : Rules.missingDependency.id ∈ (ofOptions {}).enabledIds := by decide +kernel
  have hhandles : Rules.missingDependency.Handles {} ⟨d, "", ".gitlab-ci.yml"⟩ := by
    unfold Rule.Handles
    cases hcheck : Rules.missingDependency.check {} ⟨d, "", ".gitlab-ci.yml"⟩ with
    | error why =>
        rw [hcheck] at hsome
        cases hsome
    | ok found => exact ⟨found, rfl⟩
  exact ⟨d, hd, hedges, hfindings,
    (splits_of_ofTree hd (overCatalog_ofOptions {}) hon "" ".gitlab-ci.yml").1 hhandles⟩

/-- A job that needs another one which does not exist, with a text for the line of the job. -/
def strayTree : Value :=
  .ofFields [("name", .str "Stray"), ("on", .str "push"),
    ("jobs", .ofFields [("a", .ofFields [("name", .str "First"), ("needs", .str "ghost")]),
      ("__key_lines__", .ofFields [("a", .str "top")])])]

/-- **A dependency may be lost**, where a tree records what is no line: the rule fails, the engine
goes on without it, and the name is neither an edge nor reported. -/
theorem exists_lost_dependency :
    ∃ d, Document.ofTree strayTree "" "github-actions" "ci.yml" = .ok d ∧
    Rules.missingDependency.id ∈ (ofOptions {}).enabledIds ∧
    (ofOptions {}).failures ⟨d, "", "ci.yml"⟩ = [("missing_dependency", .line)] ∧
    ¬(ofOptions {}).Splits ⟨d, "", "ci.yml"⟩ := by
  have hfacts : ∃ d, Document.ofTree strayTree "" "github-actions" "ci.yml" = .ok d ∧
      (∃ j ∈ d.jobs, j.id = "a" ∧ "ghost" ∈ j.needs) ∧ Edge.ofDocument d = [] ∧
      (ofOptions {}).failures ⟨d, "", "ci.yml"⟩ = [("missing_dependency", .line)] ∧
      ∀ f ∈ (ofOptions {}).scan ⟨d, "", "ci.yml"⟩, f.title ≠ Rules.missingTitle "ghost" :=
    exists_ok_of_any (by decide +kernel)
  obtain ⟨d, hd, ⟨j, hj, hid, hneed⟩, hedges, hfailures, htitles⟩ := hfacts
  refine ⟨d, hd, by decide +kernel, hfailures, fun hsplits => ?_⟩
  rcases hsplits.needs j hj "ghost" hneed with ⟨⟨edge, hedge, -⟩, -⟩ | ⟨⟨f, hf, htitle, -⟩, -⟩
  · exact absurd (hedges ▸ hedge : edge ∈ []) List.not_mem_nil
  · exact htitles f hf htitle

end Engine

end PipelineAudit
