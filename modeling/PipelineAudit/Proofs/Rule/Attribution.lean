import PipelineAudit.Proofs.Reachability.Guard
import PipelineAudit.Proofs.Rule.Failure
import PipelineAudit.Proofs.Rule.Site

/-!
# Jobs to which lines are given

A credential in a line of the source is placed in the job around the line, which is the one that
starts last at or before it (`Rules.startsLast_jobAround`). Only where jobs start is known, and not
where they end. So a line behind the start of a job is given to it up to the line where another job
starts, and if there is none, to the end of the source (`Rules.jobAround_congr`), also when the
section of jobs has ended before.

The finding then shares the guard of the job (`Rules.attributes_of_parse`):
`Rules.exists_mitigated_behind` is a credential behind the jobs that is told to be mitigated by the
condition of the last one.
-/

namespace PipelineAudit

namespace Rules

/-- A finding reports a line: it is placed in the job around it, and is mitigated if no run gets to
that job. -/
structure ReportsLine (d : Document) (line : Int) (f : Finding) : Prop where
  location : ∃ owner, jobAround d line = .ok owner ∧ f.location = some ⟨owner, none, .int line⟩
  mitigated_iff : ∀ (context : Context) (graph : Option JobGraph),
    (Reachability.exposure context d graph f).verdict = .mitigated ↔
      ∃ j ∈ d.jobs, jobAround d line = .ok (some j.id) ∧ j.id ≠ "" ∧ d.IsShut j none

/-- What is drafted for a line stands at it and in the job around it. -/
lemma place_of_mem_credentialsInLine {subject : Subject} {number : Nat} {text : String}
    {draft : Draft} (h : draft ∈ credentialsInLine subject number text) :
    draft.job = (jobAround subject.document number).toOption.join ∧ draft.step = none ∧
      draft.line = (jobAround subject.document number).map fun _ => .int number := by
  rcases List.mem_append.mp h with h | h
  · split at h
    · obtain rfl := List.mem_singleton.mp h
      exact ⟨rfl, rfl, rfl⟩
    · cases h
  · split_ifs at h
    · obtain rfl := List.mem_singleton.mp h
      exact ⟨rfl, rfl, rfl⟩
    · cases h

/-- The guard of a finding in the job around a line lets nothing through if the job is shut. -/
lemma guardAt_jobAround (hd : d.IsNumbered) {id? : Option String}
    (hid : ∀ id, id? = some id → id ∈ d.jobIds) :
    (Reachability.guardAt d id? none).1 = .alwaysFalse ↔
      ∃ j ∈ d.jobs, id? = some j.id ∧ j.id ≠ "" ∧ d.IsShut j none := by
  cases id? with
  | none => simp [Reachability.guardAt_of_notMem]
  | some id =>
      obtain ⟨j, hj, rfl⟩ := Document.mem_jobIds.mp (hid id rfl)
      by_cases hempty : j.id = ""
      · rw [hempty, Reachability.guardAt_unnamed]
        refine iff_of_false nofun ?_
        rintro ⟨k, -, hk, hne, -⟩
        exact hne (Option.some.inj hk).symm
      · rw [Reachability.guardAt_of_mem hd.jobs hj hempty,
          Reachability.jobGuard_eq_alwaysFalse_iff_isShut hd.jobs (hd.steps j hj)]
        constructor
        · exact fun hshut => ⟨j, hj, rfl, hempty, hshut⟩
        · rintro ⟨k, hk, hsame, -, hshut⟩
          rwa [Document.job_ext hd.jobs hj hk (Option.some.inj hsame)]

/-- The finding of such a draft reports the line. -/
lemma exists_reportsLine {subject : Subject} (hlined : subject.document.IsLined)
    (hd : subject.document.IsNumbered) {number : Nat} {text : String} {draft : Draft}
    (h : draft ∈ credentialsInLine subject number text) :
    ∃ f, hardcodedCredentialsSpec.finding subject draft = .ok f ∧
      ReportsLine subject.document number f := by
  obtain ⟨owner, howner, hlast⟩ := startsLast_jobAround hlined number
  obtain ⟨hjob, hstep, hline⟩ := place_of_mem_credentialsInLine h
  rw [howner] at hjob hline
  obtain ⟨f, hf⟩ :=
    hardcodedCredentialsSpec.exists_finding subject (d := draft) ⟨.int number, hline, .int _⟩
  have hlocation : f.location = some ⟨owner.map Job.id, none, .int number⟩ := by
    obtain ⟨line, _, hsame, -, rfl⟩ := RuleSpec.finding_eq_ok.mp hf
    cases hline.symm.trans hsame
    change draft.location (.int number) = _
    simp [Draft.location, hjob, hstep, Except.toOption, Value.isNull]
  refine ⟨f, hf, ⟨owner.map Job.id, howner, hlocation⟩, fun context graph => ?_⟩
  have hname : f.jobName = owner.map Job.id := by simp [Finding.jobName, hlocation]
  have hindex : f.stepIndex = none := by simp [Finding.stepIndex, hlocation]
  have hknown : ∀ id, owner.map Job.id = some id → id ∈ subject.document.jobIds := by
    rintro id hid
    obtain ⟨j, rfl, rfl⟩ := Option.map_eq_some_iff.mp hid
    exact Document.id_mem_jobIds hlast.mem
  rw [Reachability.exposure_verdict_eq_mitigated_iff, hname, hindex,
    guardAt_jobAround hd hknown, howner]
  simp only [Except.ok.injEq]

/-- The check reports every line in which something is found. -/
lemma exists_reported (subject : Subject) (hlined : subject.document.IsLined)
    (hd : subject.document.IsNumbered) (options : RuleOptions) :
    ∃ found, hardcodedCredentials.check options subject = .ok found ∧
      ∀ p ∈ (Text.lines subject.source).zipIdx, ∀ draft ∈ credentialsInLine subject (p.2 + 1) p.1,
        ∃ f ∈ found, hardcodedCredentialsSpec.finding subject draft = .ok f ∧
          ReportsLine subject.document (p.2 + 1) f := by
  obtain ⟨found, hfound⟩ : hardcodedCredentials.Handles options subject :=
    handles_hardcodedCredentials hlined
  refine ⟨found, hfound, fun p hp draft hdraft => ?_⟩
  obtain ⟨f, hf, hreports⟩ := exists_reportsLine hlined hd hdraft
  have hmem : draft ∈ credentialsInSource subject := List.mem_flatMap.mpr ⟨p, hp, hdraft⟩
  obtain ⟨g, hg, hsame⟩ := exists_mem_of_mapM hfound
    (List.mem_append_left _ (List.mem_append_left _ hmem))
  cases hf.symm.trans hsame
  exact ⟨f, hg, hf, hreports⟩

/-- How the lines of a source are given to the jobs of its document. -/
structure Attributes (source : String) (d : Document) : Prop where
  /-- In the first dialect, a job starts at the line that is recorded for its key, or that a search
  finds. -/
  start : d.dialect = .github → ∃ tree, Yaml.load .pipeline source = .ok tree ∧
    ∀ j ∈ d.jobs, j.line = jobLine ((tree.get "jobs").keyLine j.id) (Source.findJobLine source j.id)
  /-- A line is given to the job that starts last at or before it. -/
  owner : ∀ line, ∃ owner, jobAround d line = .ok (owner.map Job.id) ∧ StartsLast line d.jobs owner
  /-- So the job starts at or before the line, and every job that starts later starts behind the
  line. -/
  between : ∀ line id, jobAround d line = .ok (some id) → ∃ j ∈ d.jobs, j.id = id ∧
  ∃ n, j.start? = some n ∧ n ≤ line ∧ ∀ k ∈ d.jobs, ∀ m, k.start? = some m → n < m → line < m
  /-- A job ends where another one starts, and nowhere else. -/
  endless : ∀ line line', line ≤ line' →
    (∀ j ∈ d.jobs, ∀ n, j.start? = some n → line < n → line' < n) →
      jobAround d line' = jobAround d line
  /-- What is found in a line is reported for the job around it, and mitigated if no run gets to
  that job. -/
  reported : ∀ options fileName, ∃ found,
    hardcodedCredentials.check options ⟨d, source, fileName⟩ = .ok found ∧
      ∀ p ∈ (Text.lines source).zipIdx,
        ∀ draft ∈ credentialsInLine ⟨d, source, fileName⟩ (p.2 + 1) p.1,
        ∃ f ∈ found, hardcodedCredentialsSpec.finding ⟨d, source, fileName⟩ draft = .ok f ∧
          ReportsLine d (p.2 + 1) f

/-- **Lines are given to the jobs that start before them**, in every document that was read from a
text. -/
theorem attributes_of_parse {source fileName : String} {dialect : Option String} {d : Document}
    (h : Document.parse source fileName dialect = .ok d) : Attributes source d := by
  have hlined : d.IsLined := Document.isLined_of_parse h
  obtain ⟨tree, htree, hread⟩ := Document.ofTree_of_parse h
  refine ⟨fun hdialect => ⟨tree, htree, fun j hj => ?_⟩, startsLast_jobAround hlined,
    fun line id hid => ?_, fun line line' hline hnone => jobAround_congr hlined hline hnone,
    fun options fileName => exists_reported ⟨d, source, fileName⟩ hlined
      (Document.isNumbered_of_ofTree hread) options⟩
  · obtain ⟨entry, -, rfl⟩ :=
      Github.exists_entry_of_mem (Document.github_of_ofTree hread hdialect) hj
    rfl
  · obtain ⟨owner, howner, hlast⟩ := startsLast_jobAround hlined line
    rw [hid, Except.ok.injEq, eq_comm, Option.map_eq_some_iff] at howner
    obtain ⟨j, rfl, rfl⟩ := howner
    obtain ⟨n, hn, hle⟩ := hlast.exists_start
    refine ⟨j, hlast.mem, rfl, n, hn, hle, fun k hk m hm hlt => ?_⟩
    by_contra hlater
    exact absurd (hlast.le hn hk hm (Int.not_lt.mp hlater)) (Int.not_le.mpr hlt)

/-- A job that never runs, and variables of the whole definition behind the jobs. -/
def behindSource : String :=
  "on: push\njobs:\n  a:\n    if: false\n    steps:\n      - run: make\nenv:\n  PASSWORD: \"hunter2hunter2\"\n"

/-- What is in this document, and which job is around which line. -/
lemma parse_behindSource : ∃ d, Document.parse behindSource "ci.yml" none = .ok d ∧
    (([1, 2, 3, 6, 7, 8, 9].map fun line => (jobAround d line).toOption.join) =
      [none, none, some "a", some "a", some "a", some "a", some "a"]) ∧
    (∃ j ∈ d.jobs, j.id = "a" ∧ Intent.neverHolds j.condition = true) ∧
    ∃ p ∈ (Text.lines behindSource).zipIdx, p.2 = 7 ∧
      (credentialsInLine ⟨d, behindSource, "ci.yml"⟩ (p.2 + 1) p.1).isEmpty = false :=
  exists_ok_of_any (by decide +kernel)

/-- The lines up to the key of the job are given to none, and all others to the job. -/
theorem attributes_behind : ∃ d, Document.parse behindSource "ci.yml" none = .ok d ∧
    (([1, 2, 3, 6, 7, 8, 9].map fun line => (jobAround d line).toOption.join) =
      [none, none, some "a", some "a", some "a", some "a", some "a"]) ∧
    Attributes behindSource d := by
  obtain ⟨d, hd, haround, -⟩ := parse_behindSource
  exact ⟨d, hd, haround, attributes_of_parse hd⟩

/-- **A credential behind the jobs may be told to be mitigated**: it stands in the variables of the
whole definition, whose key is behind the jobs, and is placed in the last job and guarded by its
condition. -/
theorem exists_mitigated_behind : (Text.lines behindSource)[6]? = some "env:" ∧
    ∃ d, Document.parse behindSource "ci.yml" none = .ok d ∧
      ∃ found, hardcodedCredentials.check {} ⟨d, behindSource, "ci.yml"⟩ = .ok found ∧
        ∃ f ∈ found, f.location = some ⟨some "a", none, .int 8⟩ ∧
          (Reachability.exposure {} d none f).verdict = .mitigated := by
  obtain ⟨d, hd, haround, ⟨j, hj, hid, hnever⟩, p, hp, hline, hdraft⟩ := parse_behindSource
  obtain ⟨_, -, hread⟩ := Document.ofTree_of_parse hd
  obtain ⟨found, hfound, hall⟩ := exists_reported ⟨d, behindSource, "ci.yml"⟩
    (Document.isLined_of_parse hd) (Document.isNumbered_of_ofTree hread) {}
  obtain ⟨draft, hmem⟩ := List.exists_mem_of_ne_nil _ (List.isEmpty_eq_false_iff.mp hdraft)
  obtain ⟨f, hf, -, ⟨owner, howner, hlocation⟩, hmitigated⟩ := hall p hp draft hmem
  have hnumber : ((p.2 : Int) + 1) = 8 := by omega
  rw [hnumber] at howner hlocation hmitigated
  rw [howner] at hmitigated
  have hlast : (jobAround d 8).toOption.join = some "a" := by
    simp only [List.map_cons, List.cons.injEq] at haround
    exact haround.2.2.2.2.2.1
  obtain rfl : owner = some "a" := by simpa [howner, Except.toOption] using hlast
  refine ⟨by decide +kernel, d, hd, found, hfound, f, hf, hlocation, ?_⟩
  exact (hmitigated {} none).mpr ⟨j, hj, by rw [hid], by rw [hid]; decide, .inl hnever⟩

end Rules

end PipelineAudit
