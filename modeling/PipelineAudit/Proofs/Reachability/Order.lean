import PipelineAudit.Proofs.Graph.Order
import PipelineAudit.Proofs.Reachability.Needs
import PipelineAudit.Proofs.Reachability.Path
import PipelineAudit.Proofs.Report.Outcome

/-!
# The order of jobs and annotations

How a finding is reached is told from its job, the jobs that this one needs and the jobs that lead
to it. The walks that look for these keep a list of the jobs that they may still visit, in the order
of the document or of the edges, and ask it for members only (`Reachability.neededFrom_perm`,
`Reachability.chainFrom_perm`); where they go next is decided by what is written in a job, or by
names in order. Of the context an annotation uses the triggers and whether secrets are used, which
is a question about all jobs together.

So annotations do not depend on the order of the jobs, and neither does the graph on which they rest
(`Document.isUnordered_of_ofTree`). Nor does it matter for whether there are any: what stops the
graph or the context is a value without a text, wherever its job stands.
-/

namespace PipelineAudit

/-! ## Walks -/

namespace Reachability

variable {needs predecessors : String → List String}
    {unvisited unvisited' queue later : List String}
  {job previous : String}

/-- Jobs are asked for members only. -/
lemma contains_perm (h : unvisited.Perm unvisited') : unvisited.contains = unvisited'.contains :=
  funext fun _ => h.contains_eq

/-- The order of the jobs that may be visited does not matter to a walk along needs. -/
lemma neededFrom_perm (h : unvisited.Perm unvisited') :
    neededFrom needs unvisited queue = neededFrom needs unvisited' queue := by
  fun_induction neededFrom needs unvisited queue generalizing unvisited' with
  | case1 unvisited queue hqueue =>
      rw [fromUnvisited, contains_perm h] at hqueue
      exact (neededFrom_of_nil hqueue).symm
  | case2 unvisited queue job later hqueue ih =>
      rw [fromUnvisited, contains_perm h] at hqueue
      rw [ih (h.erase job)]
      exact (neededFrom_of_cons hqueue).symm

/-- The order of the jobs that may be visited does not matter to a walk against edges. -/
lemma chainFrom_perm (h : unvisited.Perm unvisited') :
    chainFrom predecessors unvisited job = chainFrom predecessors unvisited' job := by
  fun_induction chainFrom predecessors unvisited job generalizing unvisited' with
  | case1 unvisited job previous hprevious ih =>
      rw [contains_perm h] at hprevious
      rw [ih (h.erase previous)]
      exact (chainFrom_of_some hprevious).symm
  | case2 unvisited job hnone =>
      rw [contains_perm h] at hnone
      exact (chainFrom_of_none hnone).symm

end Reachability

/-! ## Documents -/

section documents

variable {d : Document} {jobs : List Job}

namespace Reachability

/-- A job needs the same jobs, nearest first. -/
lemma neededJobs_withJobs (hd : d.jobIds.Nodup) (h : jobs.Perm d.jobs) :
    neededJobs (d.withJobs jobs) = neededJobs d := by
  have hneeds : needsOf (d.withJobs jobs) = needsOf d := by
    funext id
    rw [needsOf, needsOf, Document.job?_withJobs hd h]
  funext id
  rw [neededJobs, neededJobs, hneeds]
  exact neededFrom_perm ((Document.perm_jobIds h).filter _)

/-- A place is guarded in the same way. -/
lemma guardAt_withJobs (hd : d.jobIds.Nodup) (h : jobs.Perm d.jobs) :
    guardAt (d.withJobs jobs) = guardAt d := by
  have hjob : (d.withJobs jobs).job? = d.job? := funext (Document.job?_withJobs hd h)
  have hcondition : conditionOf (d.withJobs jobs) = conditionOf d := by
    funext id
    rw [conditionOf, conditionOf, hjob]
  have hskipped : skippedNeed? (d.withJobs jobs) = skippedNeed? d := by
    funext j
    rw [skippedNeed?, skippedNeed?, neededJobs_withJobs hd h, hcondition]
  have hguard : jobGuard (d.withJobs jobs) = jobGuard d := by
    funext j step
    rw [jobGuard, jobGuard, hskipped]
  funext job step
  rw [guardAt, guardAt, namedJob?, namedJob?, hjob, hguard]

/-- The same jobs stand on the way to a job. -/
lemma leadingJobs_withJobs (h : jobs.Perm d.jobs) :
    leadingJobs (some (JobGraph.ofDocument (d.withJobs jobs))) =
      leadingJobs (some (JobGraph.ofDocument d)) := by
  have hsources : ((Edge.ofDocument (d.withJobs jobs)).map Edge.source).eraseDups.Perm
      ((Edge.ofDocument d).map Edge.source).eraseDups := by
    have hmem : ∀ (edges : List Edge) u, u ∈ edges.map Edge.source ↔ ∃ v, Edge.Leads edges u v := by
      intro edges u
      simp only [List.mem_map, Edge.Leads]
      grind
    refine perm_eraseDups fun u => ?_
    simp only [hmem, Edge.leads_withJobs h]
  funext job
  rw [leadingJobs, leadingJobs, JobGraph.predecessors_withJobs h]
  exact congrArg List.reverse (chainFrom_perm (hsources.filter _))

/-- The same path leads to a finding. -/
lemma pathTo_withJobs (hd : d.jobIds.Nodup) (h : jobs.Perm d.jobs) (location : Option Location) :
    pathTo (d.withJobs jobs) location (some (JobGraph.ofDocument (d.withJobs jobs))) =
      pathTo d location (some (JobGraph.ofDocument d)) := by
  rw [pathTo, pathTo, leadingJobs_withJobs h, funext (Document.job?_withJobs hd h)]

end Reachability

namespace Context

/-- Secrets are used by some job, or by none. -/
lemma usesSecrets_withJobs (h : jobs.Perm d.jobs) :
    usesSecrets (d.withJobs jobs) = usesSecrets d := by
  have htexts : (secretTexts (d.withJobs jobs)).Perm (secretTexts d) :=
    (h.flatMap_right _).append_left _
  have hdialect : (d.withJobs jobs).dialect = d.dialect := rfl
  rw [usesSecrets, usesSecrets, htexts.any_eq, hdialect]
  exact congrArg (· || _) h.any_eq

/-- Where all texts in which expressions may stand can be written, the texts that are looked through
for secrets can be exactly if those of the document itself can, or if there is no need to look. -/
lemma areTextsWritable_eq (h : Edge.areTextsWritable d = true) :
    areTextsWritable d =
      (d.dialect == .gitlab && d.jobs.any (fun j => j.secrets.truthy) || d.env.isWritable) := by
  have hvalues : (secretValues d.dialect d.jobs).all Value.isWritable = true := by
    refine List.all_eq_true.mpr fun v hv => ?_
    obtain ⟨j, hj, hv⟩ := exists_job_of_mem_secretValues hv
    exact List.all_eq_true.mp (List.all_eq_true.mp h j hj) v hv
  rw [areTextsWritable, hvalues, Bool.and_true]

end Context

/-- **Annotations do not depend on the order of the jobs.** -/
theorem Reachability.exposure_withJobs (hd : d.jobIds.Nodup) (h : jobs.Perm d.jobs)
    (source : String) (f : Finding) :
    exposure (.ofDocument (d.withJobs jobs) source) (d.withJobs jobs)
        (some (JobGraph.ofDocument (d.withJobs jobs))) f =
      exposure (.ofDocument d source) d (some (JobGraph.ofDocument d)) f := by
  have hsecrets : (Context.ofDocument (d.withJobs jobs) source).hasSecrets =
      (Context.ofDocument d source).hasSecrets := Context.usesSecrets_withJobs h
  have hprivileged : (Context.ofDocument (d.withJobs jobs) source).hasPrivilegedTriggers =
      (Context.ofDocument d source).hasPrivilegedTriggers := rfl
  have htriggers : (Context.ofDocument (d.withJobs jobs) source).triggers =
      (Context.ofDocument d source).triggers := rfl
  simp only [exposure, sourceText, mitigatingFactors, hsecrets, hprivileged, htriggers,
    guardAt_withJobs hd h, pathTo_withJobs hd h]

namespace JobGraph

/-- Without a source no lines are shown. -/
lemma checkLines_of_isEmpty {source : String} (h : source.isEmpty = true) (g : JobGraph)
    (d : Document) : g.checkLines d source = .ok () := by
  refine checkLines_of_forall fun job => ?_
  rw [snippetOf, if_pos h]
  rfl

end JobGraph

namespace Document

/-- What is said of the jobs of a document does not depend on their order. -/
structure IsUnordered (d : Document) : Prop where
  /-- The graph says the same. -/
  graph : ∀ jobs, jobs.Perm d.jobs →
    (JobGraph.ofDocument (d.withJobs jobs)).IsReordered (JobGraph.ofDocument d)
  /-- Findings have the same annotation. -/
  exposure : ∀ jobs, jobs.Perm d.jobs → ∀ source f,
    Reachability.exposure (.ofDocument (d.withJobs jobs) source) (d.withJobs jobs)
        (some (JobGraph.ofDocument (d.withJobs jobs))) f =
      Reachability.exposure (.ofDocument d source) d (some (JobGraph.ofDocument d)) f
  /-- A value without a text stops the graph wherever its job stands. -/
  edgeTexts : ∀ jobs, jobs.Perm d.jobs →
    Edge.areTextsWritable (d.withJobs jobs) = Edge.areTextsWritable d
  /-- Where the graph is not stopped, one stops the context wherever its job stands. -/
  secretTexts : ∀ jobs, jobs.Perm d.jobs → Edge.areTextsWritable d = true →
    Context.areTextsWritable (d.withJobs jobs) = Context.areTextsWritable d
  /-- Lines stop the graph neither where none are shown nor where jobs have places. -/
  lines : ∀ jobs, jobs.Perm d.jobs → ∀ source : String, source.isEmpty = true ∨ d.IsLined →
    (JobGraph.ofDocument (d.withJobs jobs)).checkLines (d.withJobs jobs) source = .ok () ∧
      (JobGraph.ofDocument d).checkLines d source = .ok ()

/-- **The order of the jobs does not matter**, for every document that was read. -/
theorem isUnordered_of_ofTree {tree : Value} {source dialect fileName : String} {d : Document}
    (h : ofTree tree source dialect fileName = .ok d) : d.IsUnordered where
  graph _ hjobs := JobGraph.isReordered_withJobs hjobs
  exposure _ hjobs := Reachability.exposure_withJobs (nodup_jobIds_of_ofTree h) hjobs
  edgeTexts _ hjobs := hjobs.all_eq
  secretTexts jobs hjobs hwritable := by
    have hwritable' : Edge.areTextsWritable (d.withJobs jobs) = true := hjobs.all_eq.trans hwritable
    rw [Context.areTextsWritable_eq hwritable', Context.areTextsWritable_eq hwritable]
    exact congrArg (fun b => d.dialect == .gitlab && b || d.env.isWritable) hjobs.any_eq
  lines jobs hjobs source hsource := by
    rcases hsource with hempty | hlined
    · exact ⟨JobGraph.checkLines_of_isEmpty hempty _ _, JobGraph.checkLines_of_isEmpty hempty _ _⟩
    · have hlined' : (d.withJobs jobs).IsLined := fun j hj => hlined j (hjobs.mem_iff.mp hj)
      exact ⟨JobGraph.checkLines_eq_ok hlined' _ _, JobGraph.checkLines_eq_ok hlined _ _⟩

/-- Read backwards, the sample has its jobs in another order in the levels and among the cyclic
ones, and the same critical path and the same path to a finding. -/
theorem isUnordered_sample : ∃ d, ofTree sampleTree "" "github-actions" "ci.yml" = .ok d ∧
    ((JobGraph.ofDocument (d.withJobs d.jobs.reverse)).levels =
        [["docs", "build"], ["lint", "test"], ["deploy"]] ∧
      (JobGraph.ofDocument (d.withJobs d.jobs.reverse)).cyclic = ["behind", "right", "left"] ∧
      (JobGraph.ofDocument (d.withJobs d.jobs.reverse)).criticalPaths =
        [["build", "lint", "deploy"]] ∧
      Reachability.pathTo (d.withJobs d.jobs.reverse) (some { job := some "test" })
        (some (JobGraph.ofDocument (d.withJobs d.jobs.reverse))) = ["build", "test"]) ∧
    d.IsUnordered :=
  exists_ok_and (fun _ hd => isUnordered_of_ofTree hd) (by decide +kernel)

end Document

end documents

end PipelineAudit
