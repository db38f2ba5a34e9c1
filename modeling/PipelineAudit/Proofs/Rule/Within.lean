import PipelineAudit.Proofs.Finding.Snippet
import PipelineAudit.Proofs.Rule.Site
import PipelineAudit.Proofs.Workflow.Within

/-!
# Lines within the source

The line of a draft is a constant, the line of a job or a step, or what a search finds in the
source, with another line to fall back on. If the lines of the jobs and steps of a document are
lines of its source (`Document.LiesWithin`), then all of these are (`Draft.StaysWithin`), for every
rule of the catalogue (`Rules.shows_of_mem_catalog`). So a finding of a rule that has a line shows
this line of the source, marked among the lines around it (`Finding.IsShown`).
-/

namespace PipelineAudit

/-! ## Lines and searches -/

/-- A line that can be told is within so many lines. -/
def Source.StaysWithin (count : Nat) (line : Except LineFault Value) : Prop :=
  ∀ v, line = .ok v → v.IsWithin count

section lines

variable {count : Nat} {v w : Value}

/-- A line that is there stays where it is. -/
lemma Source.staysWithin_ok (h : v.IsWithin count) : StaysWithin count (.ok v) := by
  intro _ hv
  cases hv
  exact h

/-- Without a line there is nothing to leave the source. -/
lemma Source.staysWithin_null : StaysWithin count (.ok .null) := staysWithin_ok Value.isWithin_null

/-- The first line, where there is one. -/
lemma Source.staysWithin_first (h : 1 ≤ count) : StaysWithin count (.ok (.int 1)) :=
  staysWithin_ok (Value.isWithin_int (Nat.le_refl 1) h)

/-- Of two lines within the source, either one is. -/
lemma isWithin_orElseValue (hv : v.IsWithin count) (hw : w.IsWithin count) :
    (orElseValue v w).IsWithin count := by
  unfold orElseValue
  split_ifs
  · exact hw
  · exact hv

/-- What a search finds is a line of the source, wherever it starts. -/
lemma isWithin_findLine (source text : String) (start : Int) :
    (foundLine (Source.findLine source text start)).IsWithin (Text.lines source).length :=
  isWithin_found fun _ hn => Source.findLine_bounds hn

/-- A line that is looked up for a job is one of the source. -/
lemma isWithin_findJobLine (source job : String) :
    (foundLine (Source.findJobLine source job)).IsWithin (Text.lines source).length :=
  isWithin_found fun _ hn => Source.findJobLine_bounds hn

/-- A search with a line to fall back on. -/
lemma staysWithin_search {source : String} (hw : w.IsWithin (Text.lines source).length)
    (text : String) (start : Value) (moved : Int) : Source.StaysWithin (Text.lines source).length
      ((Source.findLineFrom source text start moved).map fun n => orElseValue (foundLine n) w) := by
  intro v hv
  unfold Source.findLineFrom at hv
  split_ifs at hv
  · cases hv
    exact isWithin_orElseValue Value.isWithin_null hw
  · cases hstart : Source.searchStart start moved with
    | error fault =>
        rw [hstart] at hv
        cases hv
    | ok first =>
        rw [hstart] at hv
        cases hv
        exact isWithin_orElseValue (isWithin_findLine source text first) hw

/-- A line that holds a text is one of the source, and so is what stands in for it. -/
lemma staysWithin_lineHolding {subject : Subject}
    (hw : w.IsWithin (Text.lines subject.source).length) (text : String) (start : Value) :
    Source.StaysWithin (Text.lines subject.source).length (lineHolding subject text start w) :=
  staysWithin_search hw text start 0

end lines

/-! ## Documents and drafts -/

/-- The line of a step is one of the source. -/
lemma Document.LiesWithin.stepOf {count : Nat} {d : Document} (h : d.LiesWithin count) {j : Job}
    (hj : j ∈ d.jobs) {s : Step} (hs : s ∈ j.steps) : Source.StaysWithin count (.ok s.lineValue) :=
  Source.staysWithin_ok (h.steps j hj s hs)

/-- The same for a step that is taken with its job. -/
lemma Document.LiesWithin.step {count : Nat} {d : Document} (h : d.LiesWithin count) {j : Job}
    {s : Step} (hs : (j, s) ∈ d.steps) : Source.StaysWithin count (.ok s.lineValue) :=
  h.stepOf (mem_steps.mp hs).1 (mem_steps.mp hs).2

/-- The line of a job is one of the source. -/
lemma Document.LiesWithin.job {count : Nat} {d : Document} (h : d.LiesWithin count) {j : Job}
    (hj : j ∈ d.jobs) : Source.StaysWithin count (.ok j.line) :=
  Source.staysWithin_ok (h.jobs j hj)

/-- The line of a draft, if it can be told, is one of the source. -/
def Draft.StaysWithin (source : String) (d : Draft) : Prop :=
  Source.StaysWithin (Text.lines source).length d.line

/-- A finding that has a line shows it: the line is one of the source, and the finding quotes the
lines around it. -/
def Finding.IsShown (source : String) (f : Finding) : Prop :=
  ∀ l, f.location = some l → l.line ≠ .null → ∃ (n : Nat) (s : Snippet) (first last : Nat),
    l.line.number? = some (n : Int) ∧ f.snippet = some s ∧ Snippet.Quotes source n first last s

/-- A finding at a line within the source shows it, with the lines around it. -/
lemma Finding.isShown_of_around {source : String} {f : Finding} {line : Value}
    (hline : line.IsWithin (Text.lines source).length)
    (hplace : ∀ l, f.location = some l → l.line = line)
    (hsnippet : Snippet.around source line = .ok f.snippet) : f.IsShown source := by
  intro l hl hnull
  obtain rfl := hplace l hl
  rcases hline.cases with hunknown | ⟨hplace, n, hnumber, hn, hcount⟩
  · exact absurd hunknown hnull
  · obtain ⟨s, first, last, hs, hquotes⟩ := Snippet.exists_around hplace hnumber hn hcount
    exact ⟨n, s, first, last, hnumber, Except.ok.inj (hsnippet.symm.trans hs), hquotes⟩

/-- The finding of a draft shows the line that the draft tells. -/
lemma RuleSpec.isShown_of_finding {spec : RuleSpec} {subject : Subject} {d : Draft} {f : Finding}
    (hd : d.StaysWithin subject.source) (h : spec.finding subject d = .ok f) :
    f.IsShown subject.source := by
  obtain ⟨line, snippet, hline, haround, rfl⟩ := finding_eq_ok.mp h
  refine Finding.isShown_of_around (hd line hline) (fun l hl => ?_) haround
  simp only [Draft.findingWith, Draft.location] at hl
  split_ifs at hl
  cases hl
  rfl

/-! ## The catalogue -/

namespace Rules

variable {options : RuleOptions} {subject : Subject}

/-- The findings of a rule show their lines, if the lines of the document are lines of its
source. -/
def Shows (rule : Rule) : Prop :=
  ∀ options subject, 1 ≤ (Text.lines subject.source).length →
    subject.document.LiesWithin (Text.lines subject.source).length →
    ∀ found, rule.check options subject = .ok found → ∀ f ∈ found, f.IsShown subject.source

/-- A rule shows the lines of drafts that stay within the source. -/
lemma shows_of_makesOn {spec : RuleSpec} {rule : Rule}
    (h : ∀ options subject, 1 ≤ (Text.lines subject.source).length →
      subject.document.LiesWithin (Text.lines subject.source).length →
      spec.MakesOn rule options subject fun d => d.StaysWithin subject.source) : Shows rule := by
  intro options subject hcount hlines found hfound f hf
  obtain ⟨d, hd, hfinding⟩ := h options subject hcount hlines found hfound f hf
  exact RuleSpec.isShown_of_finding hd hfinding

/-- A line of the source, counted from one, is within it. -/
lemma staysWithin_placeInSource {d : Document} {source text : String} {i : Nat}
    (h : (text, i) ∈ (Text.lines source).zipIdx) :
    (placeInSource d (i + 1)).StaysWithin source := by
  have hi : i < (Text.lines source).length :=
    (List.getElem?_eq_some_iff.mp (List.mk_mem_zipIdx_iff_getElem?.mp h)).1
  intro v hv
  simp only [placeInSource, Except.map] at hv
  split at hv
  · cases hv
  · cases hv
    exact Value.isWithin_int (by omega) (by omega)

/-- The step that installs without a cache is one of those that are looked at. -/
lemma mem_of_uncachedInstall {steps : List Step} {s : Step} {ecosystem : String}
    (h : uncachedInstall steps = some (s, ecosystem)) : s ∈ steps := by
  induction steps with
  | nil => cases h
  | cons first rest ih =>
      rw [uncachedInstall] at h
      split_ifs at h
      split at h
      · cases h
        exact List.mem_cons_self
      · exact List.mem_cons_of_mem first (ih h)

/-! ### Rules that search -/

/-- Credentials are shown where they are written. -/
lemma shows_hardcodedCredentials : Shows hardcodedCredentials := by
  refine shows_of_makesOn fun options subject _ hlines => RuleSpec.makesOn_pureRule fun d hd => ?_
  simp only [List.mem_append] at hd
  rcases hd with (hd | hd) | hd
  · obtain ⟨⟨text, i⟩, hi, hd⟩ := List.mem_flatMap.mp hd
    have hplace := staysWithin_placeInSource (d := subject.document) hi
    grind [credentialsInLine, Draft.StaysWithin]
  · rcases List.mem_append.mp hd with hd | hd
    · obtain ⟨key, -, rfl⟩ := List.mem_map.mp hd
      exact staysWithin_lineHolding Value.isWithin_null _ _
    · obtain ⟨j, hj, hd⟩ := List.mem_flatMap.mp hd
      rcases List.mem_append.mp hd with hd | hd
      · obtain ⟨key, -, rfl⟩ := List.mem_map.mp hd
        exact staysWithin_lineHolding Value.isWithin_null _ _
      · obtain ⟨s, hs, hd⟩ := List.mem_flatMap.mp hd
        obtain ⟨key, -, rfl⟩ := List.mem_map.mp hd
        exact staysWithin_lineHolding (hlines.steps j hj s hs) _ _
  · obtain ⟨⟨j, s⟩, hs, hd⟩ := List.mem_flatMap.mp hd
    obtain ⟨hj, hs⟩ := Document.mem_steps.mp hs
    unfold credentialsSent at hd
    dsimp only at hd
    split at hd
    · obtain rfl := List.mem_singleton.mp hd
      exact staysWithin_lineHolding (hlines.steps j hj s hs) _ _
    · cases hd

/-- Permissions are shown at the workflow or at a job. -/
lemma shows_permissions : Shows permissions := by
  refine shows_of_makesOn fun options subject _ hlines =>
    RuleSpec.makesOn_writingRule fun d hd => ?_
  dsimp only at hd
  rcases List.mem_append.mp hd with hd | hd
  · split at hd
    · obtain rfl := List.mem_singleton.mp hd
      dsimp only [Draft.StaysWithin]
      exact staysWithin_lineHolding Value.isWithin_null _ _
    · cases hd
  · obtain ⟨j, hj, rfl⟩ := List.mem_map.mp hd
    exact staysWithin_lineHolding Value.isWithin_null _ _

/-- Variables that hide others are shown where they are set. -/
lemma shows_envShadowing : Shows envShadowing := by
  refine shows_of_makesOn fun options subject _ hlines =>
    RuleSpec.makesOn_jobRule fun j hj d hd => ?_
  obtain ⟨name, -, rfl⟩ := List.mem_map.mp hd
  exact staysWithin_lineHolding (hlines.jobs j hj) _ _

/-- A missing job is shown at the one that needs it. -/
lemma shows_missingDependency : Shows missingDependency := by
  refine shows_of_makesOn fun options subject _ hlines =>
    RuleSpec.makesOn_jobRule fun j hj d hd => ?_
  obtain ⟨name, -, rfl⟩ := List.mem_map.mp hd
  exact staysWithin_search (hlines.jobs j hj) _ _ _

/-! ### Rules on jobs, steps and uses of actions -/

/-- The findings about security are on lines of the source. -/
lemma shows_security : ∀ rule ∈ securityRules, Shows rule := by
  simp only [securityRules, List.forall_mem_cons]
  refine ⟨shows_hardcodedCredentials,
    shows_of_makesOn fun _ _ _ hlines => RuleSpec.makesOn_stepRule fun j s hs d hd => ?_,
    shows_permissions,
    shows_of_makesOn fun _ _ _ hlines => RuleSpec.makesOn_stepRule fun j s hs d hd => ?_,
    shows_of_makesOn fun _ _ _ hlines => RuleSpec.makesOn_writingRule fun d hd => ?_,
    shows_of_makesOn fun _ _ _ hlines => RuleSpec.makesOn_writingRule fun d hd => ?_,
    shows_of_makesOn fun _ _ _ hlines => makesOn_selfHostedRunner fun j hj text => ?_,
    shows_of_makesOn fun _ _ _ hlines => RuleSpec.makesOn_stepRule fun j s hs d hd =>
      ?_, List.forall_mem_nil _⟩
  · grind [Draft.StaysWithin, Step.draft, hlines.step hs]
  · grind [Draft.StaysWithin, Step.draft, hlines.step hs]
  · obtain ⟨⟨j, s⟩, hs, hd⟩ := List.mem_flatMap.mp hd
    grind [injectionDrafts, Draft.StaysWithin, Step.draft, hlines.step hs]
  · grind [privilegedCheckouts, Draft.StaysWithin, Step.draft, Document.LiesWithin.step]
  · exact hlines.job hj
  · grind [Draft.StaysWithin, Step.draft, hlines.step hs]

/-- So are those about performance. -/
lemma shows_performance : ∀ rule ∈ performanceRules, Shows rule := by
  simp only [performanceRules, List.forall_mem_cons]
  refine ⟨shows_of_makesOn fun _ _ _ hlines => RuleSpec.makesOn_jobRule fun j hj d hd => ?_,
    shows_of_makesOn fun _ _ _ hlines => RuleSpec.makesOn_jobRule fun j hj d hd => ?_,
    shows_of_makesOn fun _ _ _ hlines => RuleSpec.makesOn_jobRule fun j hj d hd => ?_,
    shows_of_makesOn fun _ _ _ hlines => RuleSpec.makesOn_writingRule fun d hd => ?_,
    shows_of_makesOn fun _ _ _ hlines => RuleSpec.makesOn_pureRule fun d hd =>
      ?_, List.forall_mem_nil _⟩
  · grind [Draft.StaysWithin, Step.draft, hlines.stepOf hj, mem_of_uncachedInstall]
  · split at hd
    · rename_i first second rest hself
      obtain rfl := List.mem_singleton.mp hd
      have hmem : second ∈ j.steps.filter checksOutSelf := by simp [hself]
      exact hlines.stepOf hj (List.mem_of_mem_filter hmem)
    · cases hd
  · grind [Draft.StaysWithin, Job.draft, hlines.job hj]
  · grind [Draft.StaysWithin, Step.draft, Document.LiesWithin.step]
  · obtain ⟨u, hu, rfl⟩ := List.mem_map.mp hd
    obtain ⟨a, ha⟩ := ActionUse.exists_of_mem_moreThan hu
    exact hlines.step (ActionUse.of_mem_uses ha).1

/-- So are those about practice. -/
lemma shows_practice : ∀ rule ∈ practiceRules, Shows rule := by
  simp only [practiceRules, List.forall_mem_cons]
  refine ⟨shows_of_makesOn fun _ _ hcount _ => RuleSpec.makesOn_pureRule fun d hd => ?_,
    shows_of_makesOn fun _ _ _ hlines => RuleSpec.makesOn_jobRule fun j hj d hd => ?_,
    shows_of_makesOn fun _ _ _ hlines => RuleSpec.makesOn_stepRule fun j s hs d hd => ?_,
    shows_of_makesOn fun _ _ _ hlines => RuleSpec.makesOn_jobRule fun j hj d hd => ?_,
    shows_of_makesOn fun _ _ _ hlines => RuleSpec.makesOn_jobRule fun j hj d hd => ?_,
    shows_of_makesOn fun _ _ _ _ => RuleSpec.makesOn_pureRule fun d hd => ?_,
    shows_envShadowing, List.forall_mem_nil _⟩
  · grind [Draft.StaysWithin, Source.staysWithin_first hcount]
  · grind [Draft.StaysWithin, Job.draft, hlines.job hj]
  · grind [Draft.StaysWithin, Step.draft, hlines.step hs]
  · grind [Draft.StaysWithin, Job.draft, hlines.job hj]
  · grind [Draft.StaysWithin, Job.draft, Step.draft, hlines.job hj, hlines.stepOf hj]
  · grind [Draft.StaysWithin, Source.staysWithin_null]

/-- So are those about actions. -/
lemma shows_dependency : ∀ rule ∈ dependencyRules, Shows rule := by
  simp only [dependencyRules, List.forall_mem_cons]
  refine ⟨shows_of_makesOn fun _ _ _ hlines => makesOn_deprecatedAction fun j s hs a why => ?_,
    shows_of_makesOn fun _ _ _ hlines => makesOn_outdatedAction fun j s hs text advice => ?_,
    shows_of_makesOn fun _ _ _ hlines => RuleSpec.makesOn_pureRule fun d hd =>
      ?_, List.forall_mem_nil _⟩
  · cases why <;> exact hlines.step hs
  · exact hlines.step hs
  · obtain ⟨u, hu, rfl⟩ := List.mem_map.mp hd
    obtain ⟨a, ha⟩ := ActionUse.exists_of_mem_moreThan hu
    exact hlines.step (ActionUse.of_mem_uses (List.mem_of_mem_filter ha)).1

/-- So are those about structure. -/
lemma shows_structure : ∀ rule ∈ structureRules, Shows rule := by
  simp only [structureRules, List.forall_mem_cons]
  refine ⟨shows_missingDependency,
    shows_of_makesOn fun _ subject _ _ => RuleSpec.makesOn_pureRule fun d hd => ?_,
    shows_of_makesOn fun _ subject _ _ => RuleSpec.makesOn_pureRule fun d hd => ?_,
    shows_of_makesOn fun _ subject _ _ => RuleSpec.makesOn_pureRule fun d hd =>
      ?_, List.forall_mem_nil _⟩
  · grind [Draft.StaysWithin, jobsLine, Source.staysWithin_ok, isWithin_findLine]
  · grind [Draft.StaysWithin, Source.staysWithin_ok, isWithin_findJobLine]
  · grind [Draft.StaysWithin, jobsLine, Source.staysWithin_ok, isWithin_findLine]

/-- **The findings of every rule show their lines**, if the lines of the document are lines of its
source. -/
theorem shows_of_mem_catalog {rule : Rule} (h : rule ∈ catalog) : Shows rule := by
  simp only [catalog, List.mem_append] at h
  rcases h with (((h | h) | h) | h) | h
  · exact shows_security rule h
  · exact shows_performance rule h
  · exact shows_practice rule h
  · exact shows_dependency rule h
  · exact shows_structure rule h

end Rules

end PipelineAudit
