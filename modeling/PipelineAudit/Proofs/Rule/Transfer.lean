import PipelineAudit.Proofs.Graph.Edge
import PipelineAudit.Proofs.Rule.Failure
import PipelineAudit.Proofs.Rule.Site
import PipelineAudit.Proofs.Reachability.Guard

/-!
# Artifacts that are not taken

The rule on artifacts and the graph of jobs decide apart from each other which download takes which
upload. For the rule, an upload is taken if a step anywhere asks for its name (`Document.Requests`),
and the others are reported (`Rules.mem_unusedDrafts_iff`). For the graph, an edge leads from a job
that uploads a name to every other job that asks for it. So the two agree
(`Rules.agreesOnArtifacts`): an upload that is not reported has an edge to every other job that asks
for it, and every edge starts at a job with such an upload. A download in the uploading job takes
the upload for the rule, and makes no edge.

The check does not come to an end where the name of an artifact is a number too long to be written,
and then reports none of the uploads of the document (`Rules.exists_unseen_artifact`).
-/

namespace PipelineAudit

/-- Some step of a document downloads artifacts and asks for the one with a name. -/
def Document.Requests (d : Document) (name : String) : Prop := ∃ j ∈ d.jobs, j.Requests name

namespace Rules

variable {options : RuleOptions} {subject : Subject} {d : Document} {p : Job × Step} {name : String}

/-! ## The check -/

/-- What the downloads of a document ask for. -/
def requests (d : Document) : List (Option String) :=
  (d.steps.filter fun (_, s) => Artifact.isDownload s).map fun (_, s) => Artifact.requested? s

/-- What is drafted for an upload that nobody takes. -/
def unusedDraft (p : Job × Step) : Draft :=
  p.2.draft p.1 ("Artifact '" ++ Artifact.name p.2 ++ "' is uploaded but never downloaded")

/-- What the rule drafts for a document. -/
def unusedDrafts (d : Document) : List Draft :=
  if (requests d).contains none then []
  else (d.steps.filter fun (_, s) => Artifact.isUpload s &&
    !(requests d).contains (some (Artifact.name s))).map unusedDraft

/-- A name is asked for if one download asks for it, or for everything. -/
lemma requests_iff : d.Requests name ↔ none ∈ requests d ∨ some name ∈ requests d := by
  have hstep : ∀ s : Step, Artifact.Requests s name ↔
      Artifact.requested? s = none ∨ Artifact.requested? s = some name := by
    intro s
    unfold Artifact.Requests Artifact.requested?
    by_cases hgiven : (s.arg "name").truthy = true <;> simp [hgiven]
  simp only [Document.Requests, Job.Requests, hstep, requests, List.mem_map, List.mem_filter,
    Document.mem_steps, Prod.exists]
  constructor
  · rintro ⟨j, hj, s, hs, hdown, hnone | hsome⟩
    · exact .inl ⟨j, s, ⟨⟨hj, hs⟩, hdown⟩, hnone⟩
    · exact .inr ⟨j, s, ⟨⟨hj, hs⟩, hdown⟩, hsome⟩
  · rintro (⟨j, s, ⟨⟨hj, hs⟩, hdown⟩, hnone⟩ | ⟨j, s, ⟨⟨hj, hs⟩, hdown⟩, hsome⟩)
    · exact ⟨j, hj, s, hs, hdown, .inl hnone⟩
    · exact ⟨j, hj, s, hs, hdown, .inr hsome⟩

/-- One finding is drafted for every upload whose name nobody asks for. -/
lemma mem_unusedDrafts_iff {draft : Draft} : draft ∈ unusedDrafts d ↔
    ∃ p ∈ d.steps, Artifact.isUpload p.2 = true ∧ ¬d.Requests (Artifact.name p.2) ∧
      draft = unusedDraft p := by
  unfold unusedDrafts
  split_ifs with hall
  · simp [requests_iff, List.contains_iff_mem.mp hall]
  · have hnone : none ∉ requests d := fun h => hall (List.contains_iff_mem.mpr h)
    have hunused : ∀ p : Job × Step,
        (Artifact.isUpload p.2 && !(requests d).contains (some (Artifact.name p.2))) = true ↔
          Artifact.isUpload p.2 = true ∧ ¬d.Requests (Artifact.name p.2) := fun p => by
      simp [requests_iff, hnone]
    simp only [List.mem_map, List.mem_filter, hunused, and_assoc, eq_comm (a := draft)]

/-- The rule reports its drafts, if it comes to an end. -/
lemma mapM_unusedDrafts {found : List Finding}
    (h : unusedArtifact.check options subject = .ok found) :
    (unusedDrafts subject.document).mapM (unusedArtifactSpec.finding subject) = .ok found := by
  obtain ⟨drafts, hdrafts, hfound⟩ := bind_eq_ok.mp h
  change (if (writtenNames subject.document).all Value.isWritable then
    Except.ok (unusedDrafts subject.document) else .error (RuleFault.number .tooLongToWrite)) =
      .ok drafts at hdrafts
  split_ifs at hdrafts
  cases hdrafts
  exact hfound

/-! ## Reports and edges -/

/-- A finding reports an upload: it is at the step, and names the artifact. -/
structure ReportsUnused (f : Finding) (p : Job × Step) : Prop where
  rule : f.ruleId = "unused_artifact"
  location : f.location = some ⟨some p.1.id, some (.ofNat p.2.index), p.2.lineValue⟩
  description : f.description = "Artifact '" ++ Artifact.name p.2
    ++ "' is uploaded but never downloaded"

/-- The finding of the draft for an upload reports it. -/
lemma reportsUnused_of_finding {f : Finding}
    (h : unusedArtifactSpec.finding subject (unusedDraft p) = .ok f) : ReportsUnused f p := by
  obtain ⟨line, _, hline, -, rfl⟩ := RuleSpec.finding_eq_ok.mp h
  obtain rfl : p.2.lineValue = line := Except.ok.inj hline
  refine ⟨rfl, rfl, ?_⟩
  have hne : "Artifact '" ++ Artifact.name p.2
      ++ "' is uploaded but never downloaded" ≠ "" := by simp
  simp [Draft.findingWith, orElseText, unusedDraft, Step.draft, nonEmpty?, hne]

/-- A finding reports at most one step of a numbered document. -/
lemma ReportsUnused.unique {f : Finding} {q : Job × Step} (hd : d.IsNumbered) (hp : p ∈ d.steps)
    (hq : q ∈ d.steps) (hfp : ReportsUnused f p) (hfq : ReportsUnused f q) : p = q := by
  have hplace := Option.some.inj (hfp.location.symm.trans hfq.location)
  simp only [Location.mk.injEq, Option.some.injEq] at hplace
  refine hd.step_ext hp hq hplace.1 ?_
  have hindex : (p.2.index : Int) = q.2.index := congrArg Numeral.number hplace.2.1
  exact Int.ofNat_inj.mp hindex

/-- Every finding of the check reports an upload. -/
lemma exists_upload {found : List Finding}
    (hfound : unusedArtifact.check options subject = .ok found) {f : Finding} (hf : f ∈ found) :
    ∃ p ∈ subject.document.steps, Artifact.isUpload p.2 = true ∧
      ¬subject.document.Requests (Artifact.name p.2) ∧ ReportsUnused f p := by
  obtain ⟨draft, hdraft, hfinding⟩ := exists_of_mem_mapM (mapM_unusedDrafts hfound) hf
  obtain ⟨p, hp, hup, hnone, rfl⟩ := mem_unusedDrafts_iff.mp hdraft
  exact ⟨p, hp, hup, hnone, reportsUnused_of_finding hfinding⟩

/-- An upload is reported exactly if nobody asks for its name. -/
lemma exists_reportsUnused_iff (hd : subject.document.IsNumbered) {found : List Finding}
    (hfound : unusedArtifact.check options subject = .ok found) (hp : p ∈ subject.document.steps)
    (hup : Artifact.isUpload p.2 = true) :
    (∃ f ∈ found, ReportsUnused f p) ↔ ¬subject.document.Requests (Artifact.name p.2) := by
  constructor
  · rintro ⟨f, hf, hreports⟩
    obtain ⟨q, hq, -, hnone, hreportsq⟩ := exists_upload hfound hf
    rwa [hreports.unique hd hp hq hreportsq]
  · intro hnone
    obtain ⟨f, hf, hfinding⟩ := exists_mem_of_mapM (mapM_unusedDrafts hfound)
      (mem_unusedDrafts_iff.mpr ⟨p, hp, hup, hnone, rfl⟩)
    exact ⟨f, hf, reportsUnused_of_finding hfinding⟩

/-- What the rule on artifacts reports, and how that goes with the edges of the graph. -/
structure AgreesOnArtifacts (options : RuleOptions) (subject : Subject) : Prop where
  /-- The check comes to an end if the names of artifacts can be written. -/
  ends : unusedArtifact.Handles options subject ↔
    ∀ v ∈ writtenNames subject.document, v.isWritable = true
  /-- If it does, an upload is reported exactly if no step of the document asks for its name. -/
  reported_iff : ∀ found, unusedArtifact.check options subject = .ok found →
    ∀ p ∈ subject.document.steps, Artifact.isUpload p.2 = true →
      ((∃ f ∈ found, ReportsUnused f p) ↔ ¬subject.document.Requests (Artifact.name p.2))
  /-- Nothing is reported but such uploads. -/
  told : ∀ found, unusedArtifact.check options subject = .ok found → ∀ f ∈ found,
    ∃ p ∈ subject.document.steps, Artifact.isUpload p.2 = true ∧
      ¬subject.document.Requests (Artifact.name p.2) ∧ ReportsUnused f p
  /-- If an upload is not reported, some step asks for its name, and an edge leads to every other
  job that does. -/
  carried : ∀ found, unusedArtifact.check options subject = .ok found →
    ∀ p ∈ subject.document.steps, Artifact.isUpload p.2 = true → (¬∃ f ∈ found, ReportsUnused f p) →
      subject.document.Requests (Artifact.name p.2) ∧
        ∀ j ∈ subject.document.jobs, j.id ≠ p.1.id → j.Requests (Artifact.name p.2) →
          Edge.Joins (JobGraph.ofDocument subject.document).edges .artifact p.1.id j.id
  /-- Every edge starts at a job with an upload that is not reported. -/
  started : ∀ found, unusedArtifact.check options subject = .ok found →
    ∀ e ∈ (JobGraph.ofDocument subject.document).edges, e.kind = .artifact →
      ∃ p ∈ subject.document.steps, p.1.id = e.source ∧ Artifact.isUpload p.2 = true ∧
        ¬∃ f ∈ found, ReportsUnused f p

/-- **The rule on artifacts agrees with the graph** on which uploads are taken, in every document of
the first dialect on which its check comes to an end. -/
theorem agreesOnArtifacts {tree : Value} {source dialect fileName : String} {subject : Subject}
    (h : Document.ofTree tree source dialect fileName = .ok subject.document)
    (hdialect : subject.document.dialect = .github) (options : RuleOptions) :
    AgreesOnArtifacts options subject := by
  have hd : subject.document.IsNumbered := Document.isNumbered_of_ofTree h
  have hreported : ∀ found, unusedArtifact.check options subject = .ok found →
      ∀ p ∈ subject.document.steps, Artifact.isUpload p.2 = true →
        ((∃ f ∈ found, ReportsUnused f p) ↔ ¬subject.document.Requests (Artifact.name p.2)) :=
    fun found hfound p hp hup => exists_reportsUnused_iff hd hfound hp hup
  refine ⟨handles_unusedArtifact_iff, hreported, fun found hfound f hf => exists_upload hfound hf,
    ?_, ?_⟩
  · intro found hfound p hp hup hsilent
    rw [hreported found hfound p hp hup, not_not] at hsilent
    refine ⟨hsilent, fun j hj hne hasks => ?_⟩
    obtain ⟨hpj, hps⟩ := Document.mem_steps.mp hp
    exact (Edge.joins_artifact_iff_of_github hd.jobs hpj hj hdialect).mpr
      ⟨hne.symm, _, ⟨p.2, hps, hup, rfl⟩, hasks⟩
  · intro found hfound e he hkind
    obtain ⟨hsource, htarget⟩ := Edge.ends_mem_jobIds he
    obtain ⟨i, hi, hiid⟩ := Document.mem_jobIds.mp hsource
    obtain ⟨j, hj, hjid⟩ := Document.mem_jobIds.mp htarget
    have hjoins : Edge.Joins (Edge.ofDocument subject.document) .artifact i.id j.id :=
      ⟨e, he, by rw [Edge.key, hkind, hiid, hjid]⟩
    obtain ⟨-, name, ⟨s, hs, hup, rfl⟩, hasks⟩ :=
      (Edge.joins_artifact_iff_of_github hd.jobs hi hj hdialect).mp hjoins
    have hp : (i, s) ∈ subject.document.steps := Document.mem_steps.mpr ⟨hi, hs⟩
    exact ⟨(i, s), hp, hiid, hup, fun hreports =>
      (hreported found hfound (i, s) hp hup).mp hreports ⟨j, hj, hasks⟩⟩

/-- The definition of a step that uses an action, perhaps with a name. -/
def artifactStep (action : String) (name : Option Value) : Value :=
  .ofFields [("uses", .str action), ("with", .ofFields (name.toList.map fun v => ("name", v)))]

/-- Uploads of one job that another job, the job itself and nobody downloads, and one without a name
that another job downloads under the default one. -/
def artifactsTree : Value :=
  .ofFields [("on", .str "push"), ("jobs", .ofFields [
    ("build",
      .ofFields [("steps", .seq [artifactStep "actions/upload-artifact@v4" (some (.str "app")),
      artifactStep "actions/upload-artifact@v4" (some (.str "own")),
      artifactStep "actions/upload-artifact@v4" (some (.str "lost")),
      artifactStep "actions/upload-artifact@v4" none,
      artifactStep "actions/download-artifact@v4" (some (.str "own"))])]),
    ("test", .ofFields [("steps", .seq [
      artifactStep "actions/download-artifact@v4" (some (.str "app"))])]),
    ("ship", .ofFields [("steps", .seq [
      artifactStep "actions/download-artifact@v4" (some (.str "artifact"))])])])]

/-- One of these uploads is reported, and two jobs wait for the one that uploads. -/
theorem agreesOnArtifacts_build :
    ∃ d, Document.ofTree artifactsTree "" "github-actions" "ci.yml" = .ok d ∧ d.dialect = .github ∧
    (unusedArtifact.check {} ⟨d, "", "ci.yml"⟩).toOption.map (List.map Finding.stepIndex) =
      some [some 2] ∧
    (JobGraph.ofDocument d).edges.map Edge.key =
      [("build", "test", .artifact), ("build", "ship", .artifact)] ∧
    AgreesOnArtifacts {} ⟨d, "", "ci.yml"⟩ := by
  have hfacts : ∃ d, Document.ofTree artifactsTree "" "github-actions" "ci.yml" = .ok d ∧
      d.dialect = .github ∧
      (unusedArtifact.check {} ⟨d, "", "ci.yml"⟩).toOption.map (List.map Finding.stepIndex) =
        some [some 2] ∧
      (JobGraph.ofDocument d).edges.map Edge.key =
        [("build", "test", .artifact), ("build", "ship", .artifact)] :=
    exists_ok_of_any (by decide +kernel)
  obtain ⟨d, hd, hdialect, hfound, hedges⟩ := hfacts
  exact ⟨d, hd, hdialect, hfound, hedges, agreesOnArtifacts hd hdialect {}⟩

/-- An upload, and a download that is given a long number as the name. -/
def numberedTree : Value :=
  .ofFields [("on", .str "push"), ("jobs", .ofFields [("a", .ofFields [("steps", .seq [
    artifactStep "actions/upload-artifact@v4" (some (.str "app")),
    artifactStep "actions/download-artifact@v4" (some (.int (.ofNat (Nat.pow 16 3600 - 1))))])])])]

/-- A number that is too long to be written has another text than a word. -/
lemma display_ne_of_number? {v : Value} {n : Nat} {c : Char} {word : String}
    (hv : v.number? = some (n : Int))
    (hlong : v.isWritable = false) (hc : c ∈ word.toList) (hletter : c.isDigit = false) :
    v.display ≠ word := by
  cases v with
  | int m =>
      obtain rfl : m = n := Option.some.inj hv
      rintro rfl
      change c ∈ (Nat.repr n).toList at hc
      rw [Nat.toList_repr] at hc
      rw [Nat.isDigit_of_mem_toDigits (by decide) (by decide) hc] at hletter
      cases hletter
  | bool b => cases hlong
  | float x => cases hlong
  | _ => cases hv

/-- **An upload that nobody takes may go unseen**: no step asks for the name of the first one, and
the check gives no findings at all, since the name that the second one asks for cannot be
written. -/
theorem exists_unseen_artifact :
    ∃ d, Document.ofTree numberedTree "" "github-actions" "ci.yml" = .ok d ∧
    (∃ p ∈ d.steps, Artifact.isUpload p.2 = true ∧ ¬d.Requests (Artifact.name p.2)) ∧
    ∀ found, unusedArtifact.check {} ⟨d, "", "ci.yml"⟩ ≠ .ok found := by
  have hfacts : ∃ d, Document.ofTree numberedTree "" "github-actions" "ci.yml" = .ok d ∧
      (∃ p ∈ d.steps, Artifact.isUpload p.2 = true ∧ Artifact.name p.2 = "app") ∧
      (∀ q ∈ d.steps, Artifact.isDownload q.2 = true → (q.2.arg "name").truthy = true ∧
        (q.2.arg "name").number? = some ((Nat.pow 16 3600 - 1 : Nat) : Int) ∧
        (q.2.arg "name").isWritable = false) ∧
      ∃ v ∈ writtenNames d, v.isWritable = false := exists_ok_of_any (by decide +kernel)
  obtain ⟨d, hd, ⟨p, hp, hup, hname⟩, hdown, v, hv, hlong⟩ := hfacts
  refine ⟨d, hd, ⟨p, hp, hup, ?_⟩, fun found hfound => ?_⟩
  · rintro ⟨j, hj, s, hs, hdownload, hasks⟩
    obtain ⟨htruthy, hnumber, hunwritable⟩ :=
      hdown (j, s) (Document.mem_steps.mpr ⟨hj, hs⟩) hdownload
    rw [hname] at hasks
    exact display_ne_of_number? (c := 'a') hnumber hunwritable (by decide) (by decide)
      (hasks htruthy)
  · have hwritable := handles_unusedArtifact_iff.mp ⟨found, hfound⟩ v hv
    simp [hlong] at hwritable

end Rules

end PipelineAudit
