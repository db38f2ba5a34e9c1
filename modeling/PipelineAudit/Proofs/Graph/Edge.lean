import Mathlib.Data.List.Nodup
import Mathlib.Logic.Basic
import PipelineAudit.Graph.Basic
import PipelineAudit.Proofs.Workflow.Document

/-!
# Which dependencies a document has

The three collectors of edges (`needsEdges`, `artifactEdges`, `outputEdges`) write into one list,
from which `Edge.distinct` removes repeats. Removing repeats changes no answer to the question
whether an edge of a kind joins two jobs (`joins_distinct`), so each collector is described on its
own (`joins_needsEdges`, `joins_namedArtifactEdges`, `joins_transferEdges`, `joins_outputEdges`) and
`joins_ofDocument` says that the edges of one kind are those of one collector.

The right-hand sides are about the jobs and not about the collectors: what a job uploads
(`Job.Uploads`), which artifacts it asks for (`Job.Requests`), and which jobs its texts name as
producers of outputs (`Job.RefersTo`).
-/

namespace PipelineAudit

/-! ## What jobs exchange -/

/-- A download asks for an artifact: the one whose name it is given, or any if it is given none. -/
def Artifact.Requests (s : Step) (name : String) : Prop :=
  (s.arg "name").truthy = true → (s.arg "name").display = name

namespace Job

/-- A step of the job uploads an artifact under a name. -/
def Uploads (j : Job) (name : String) : Prop :=
  ∃ s ∈ j.steps, Artifact.isUpload s = true ∧ Artifact.name s = name

/-- A step of the job downloads artifacts and asks for the one with a name. -/
def Requests (j : Job) (name : String) : Prop :=
  ∃ s ∈ j.steps, Artifact.isDownload s = true ∧ Artifact.Requests s name

/-- A text stands in a job where expressions may: in its condition, in a value of its environment,
of its arguments or of its outputs that is not null, or in one of its steps. -/
def HoldsText (j : Job) (text : String) : Prop :=
  j.condition = some text ∨
    (∃ fields ∈ [j.env, j.withArgs, j.outputs], ∃ v ∈ fields.values,
      v.isNull = false ∧ v.display = text) ∨
    ∃ s ∈ j.steps, text ∈ s.texts

/-- A reference in a text of the job names a producer of outputs. -/
def RefersTo (j : Job) (producer : String) : Prop :=
  ∃ text, j.HoldsText text ∧ ∃ m ∈ Edge.outputReference.findAll text, m.group? 1 = some producer

end Job

namespace Edge

variable {d : Document} {edges : List Edge} {kind : EdgeKind} {u v : String}

/-! ## Repeats -/

/-- What tells edges apart: the jobs they join and their kind. -/
def key (e : Edge) : String × String × EdgeKind := (e.source, e.target, e.kind)

/-- An edge of a kind leads from one job to another. -/
def Joins (edges : List Edge) (kind : EdgeKind) (u v : String) : Prop :=
  ∃ e ∈ edges, e.key = (u, v, kind)

/-- Edges are the same if nothing tells them apart. -/
lemma same_iff {a b : Edge} : a.same b = true ↔ a.key = b.key := by
  simp [same, key, and_assoc]

/-- Removing repeats adds no edge. -/
lemma mem_of_mem_distinctFrom {seen : List Edge} {e : Edge} (h : e ∈ distinctFrom seen edges) :
    e ∈ edges := by
  induction edges generalizing seen with
  | nil => exact h
  | cons a rest ih =>
      rw [distinctFrom] at h
      split_ifs at h with hseen
      · exact List.mem_cons_of_mem a (ih h)
      · rcases List.mem_cons.mp h with rfl | h
        · exact List.mem_cons_self
        · exact List.mem_cons_of_mem a (ih h)

/-- The edges that stay differ from those that were seen. -/
lemma key_ne_of_mem_distinctFrom {seen : List Edge} {e s : Edge} (h : e ∈ distinctFrom seen edges)
    (hs : s ∈ seen) : s.key ≠ e.key := by
  induction edges generalizing seen with
  | nil => cases h
  | cons a rest ih =>
      rw [distinctFrom] at h
      split_ifs at h with hseen
      · exact ih h hs
      · rcases List.mem_cons.mp h with rfl | h
        · intro heq
          exact hseen (List.any_eq_true.mpr ⟨s, hs, same_iff.mpr heq⟩)
        · exact ih h (List.mem_cons_of_mem a hs)

/-- Of the edges that stay, no two join the same jobs in the same way. -/
lemma nodup_key_distinctFrom (seen edges : List Edge) :
    ((distinctFrom seen edges).map key).Nodup := by
  induction edges generalizing seen with
  | nil => exact List.nodup_nil
  | cons a rest ih =>
      rw [distinctFrom]
      split_ifs with hseen
      · exact ih seen
      · refine List.nodup_cons.mpr ⟨?_, ih (a :: seen)⟩
        intro hmem
        obtain ⟨e, he, hkey⟩ := List.mem_map.mp hmem
        exact key_ne_of_mem_distinctFrom he List.mem_cons_self hkey.symm

/-- Of every edge, one like it was seen or stays. -/
lemma exists_key_eq_of_mem {e : Edge} (seen : List Edge) (he : e ∈ edges) :
    ∃ a ∈ seen ++ distinctFrom seen edges, a.key = e.key := by
  induction edges generalizing seen with
  | nil => cases he
  | cons b rest ih =>
      rw [distinctFrom]
      split_ifs with hseen
      · rcases List.mem_cons.mp he with rfl | he
        · obtain ⟨a, ha, hsame⟩ := List.any_eq_true.mp hseen
          exact ⟨a, List.mem_append_left _ ha, same_iff.mp hsame⟩
        · exact ih seen he
      · rcases List.mem_cons.mp he with rfl | he
        · exact ⟨e, List.mem_append_right seen List.mem_cons_self, rfl⟩
        · obtain ⟨a, ha, hkey⟩ := ih (b :: seen) he
          exact ⟨a, (List.perm_middle.mem_iff).mpr ha, hkey⟩

/-- Removing repeats keeps which jobs are joined, and how. -/
lemma joins_distinct : Joins (distinct edges) kind u v ↔ Joins edges kind u v := by
  constructor
  · rintro ⟨e, he, hkey⟩
    exact ⟨e, mem_of_mem_distinctFrom he, hkey⟩
  · rintro ⟨e, he, hkey⟩
    obtain ⟨a, ha, hae⟩ := exists_key_eq_of_mem [] he
    exact ⟨a, ha, hae.trans hkey⟩

/-- Edges of two lists. -/
lemma joins_append {a b : List Edge} :
    Joins (a ++ b) kind u v ↔ Joins a kind u v ∨ Joins b kind u v := by
  simp only [Joins, List.mem_append, or_and_right, exists_or]

/-! ## The collectors -/

/-- Needs join a job that exists to the jobs that need it. -/
lemma joins_needsEdges : Joins (needsEdges d) kind u v ↔
    kind = .needs ∧ u ∈ d.jobIds ∧ ∃ j ∈ d.jobs, j.id = v ∧ u ∈ j.needs := by
  simp only [Joins, needsEdges, key, List.mem_flatMap, List.mem_map, List.mem_filter,
    Document.hasJob_iff]
  constructor
  · rintro ⟨e, ⟨j, hj, n, ⟨hn, hjob⟩, rfl⟩, hkey⟩
    obtain ⟨rfl, rfl, rfl⟩ := by simpa only [Prod.mk.injEq] using hkey
    exact ⟨rfl, hjob, j, hj, rfl, hn⟩
  · rintro ⟨rfl, hjob, j, hj, rfl, hn⟩
    exact ⟨_, ⟨j, hj, u, ⟨hn, hjob⟩, rfl⟩, rfl⟩

/-- Named artifacts join a job that exists to the other jobs that name it. -/
lemma joins_namedArtifactEdges : Joins (namedArtifactEdges d) kind u v ↔
    kind = .artifact ∧ u ∈ d.jobIds ∧ u ≠ v ∧
      ∃ j ∈ d.jobs, j.id = v ∧ u ∈ j.artifactDependencies := by
  simp only [Joins, namedArtifactEdges, key, List.mem_flatMap, List.mem_map, List.mem_filter,
    Bool.and_eq_true, Document.hasJob_iff, bne_iff_ne]
  constructor
  · rintro ⟨e, ⟨j, hj, n, ⟨hn, hjob, hne⟩, rfl⟩, hkey⟩
    obtain ⟨rfl, rfl, rfl⟩ := by simpa only [Prod.mk.injEq] using hkey
    exact ⟨rfl, hjob, hne, j, hj, rfl, hn⟩
  · rintro ⟨rfl, hjob, hne, j, hj, rfl, hn⟩
    exact ⟨_, ⟨j, hj, u, ⟨hn, hjob, hne⟩, rfl⟩, rfl⟩

/-- The uploads of a document are those of its jobs. -/
lemma mem_uploads {name : String} :
    (name, u) ∈ uploads d ↔ ∃ j ∈ d.jobs, j.id = u ∧ j.Uploads name := by
  simp only [uploads, List.mem_map, List.mem_filter, Document.mem_steps, Prod.mk.injEq, Job.Uploads]
  constructor
  · rintro ⟨⟨j, s⟩, ⟨⟨hj, hs⟩, hup⟩, rfl, rfl⟩
    exact ⟨j, hj, rfl, s, hs, hup, rfl⟩
  · rintro ⟨j, hj, rfl, s, hs, hup, rfl⟩
    exact ⟨(j, s), ⟨⟨hj, hs⟩, hup⟩, rfl, rfl⟩

/-- The producers of an artifact are those that upload it. -/
lemma mem_producers {all : List (String × String)} {name : String} :
    u ∈ producers all name ↔ (name, u) ∈ all := by
  simp only [producers, List.mem_map, List.mem_filter, beq_iff_eq]
  constructor
  · rintro ⟨⟨n, p⟩, ⟨hmem, rfl⟩, rfl⟩
    exact hmem
  · intro hmem
    exact ⟨(name, u), ⟨hmem, rfl⟩, rfl⟩

/-- Of the artifacts that are uploaded, a download takes those it asks for. -/
lemma mem_requestedNames {all : List (String × String)} {s : Step} {name : String}
    (h : (name, u) ∈ all) : name ∈ requestedNames all s ↔ Artifact.Requests s name := by
  have hname : name ∈ all.map Prod.fst := List.mem_map.mpr ⟨(name, u), h, rfl⟩
  unfold requestedNames Artifact.requested? Artifact.Requests
  by_cases hgiven : (s.arg "name").truthy = true
  · simp [hgiven, eq_comm]
  · simpa [hgiven, List.mem_eraseDups] using hname

/-- Transfers join the jobs that upload an artifact to the other jobs that ask for it. -/
lemma joins_transferEdges : Joins (transferEdges d) kind u v ↔
    kind = .artifact ∧ u ≠ v ∧ ∃ name, (∃ i ∈ d.jobs, i.id = u ∧ i.Uploads name) ∧
      ∃ j ∈ d.jobs, j.id = v ∧ j.Requests name := by
  simp only [Joins, transferEdges, key, List.mem_flatMap, List.mem_map, List.mem_filter,
    Document.mem_steps, mem_producers, bne_iff_ne]
  constructor
  · rintro ⟨e, ⟨⟨j, s⟩, ⟨⟨hj, hs⟩, hdown⟩, name, hname, p, ⟨hp, hne⟩, rfl⟩, hkey⟩
    obtain ⟨rfl, rfl, rfl⟩ := by simpa only [Prod.mk.injEq] using hkey
    have hreq : Artifact.Requests s name := (mem_requestedNames hp).mp hname
    exact ⟨rfl, hne, name, mem_uploads.mp hp, j, hj, rfl, s, hs, hdown, hreq⟩
  · rintro ⟨rfl, hne, name, hup, j, hj, rfl, s, hs, hdown, hreq⟩
    have hp : (name, u) ∈ uploads d := mem_uploads.mpr hup
    have hname : name ∈ requestedNames (uploads d) s := (mem_requestedNames hp).mpr hreq
    exact ⟨_, ⟨(j, s), ⟨⟨hj, hs⟩, hdown⟩, name, hname, u, ⟨hp, hne⟩, rfl⟩, rfl⟩

/-- The texts of fields are those of the values that are not null. -/
lemma mem_texts {fields : Fields} {text : String} :
    text ∈ fields.texts ↔ ∃ v ∈ fields.values, v.isNull = false ∧ v.display = text := by
  simp [Fields.texts, and_assoc]

/-- A condition is searched unless it is empty. -/
lemma bind_nonEmpty?_eq_some {condition : Option String} {text : String} (hne : text ≠ "") :
    condition.bind nonEmpty? = some text ↔ condition = some text := by
  cases condition with
  | none => simp
  | some t =>
      by_cases ht : t.isEmpty = true
      · have : t ≠ text := by
          rintro rfl
          exact hne (String.isEmpty_iff.mp ht)
        simp [nonEmpty?, ht, this]
      · simp [nonEmpty?, ht]

/-- The texts that are searched are those that stand in the job, an empty one aside. -/
lemma mem_jobTexts {j : Job} {text : String} (hne : text ≠ "") :
    text ∈ jobTexts j ↔ j.HoldsText text := by
  simp only [jobTexts, Job.HoldsText, List.mem_append, Option.mem_toList, List.mem_flatMap,
    mem_texts, bind_nonEmpty?_eq_some hne, List.exists_mem_cons_iff, List.not_mem_nil, false_and,
    exists_false, or_false, or_assoc]

/-- The references of a job are those in the texts that are searched: nothing is found in an empty
text. -/
lemma refersTo_iff {j : Job} : j.RefersTo u ↔
    ∃ text ∈ jobTexts j, ∃ m ∈ outputReference.findAll text, m.group? 1 = some u := by
  have hnone : outputReference.findAll "" = [] := by decide
  have hne : ∀ {text : String} {m : Regex.Match}, m ∈ outputReference.findAll text → text ≠ "" := by
    rintro text m hm rfl
    rw [hnone] at hm
    cases hm
  unfold Job.RefersTo
  constructor
  · rintro ⟨text, htext, m, hm, hgroup⟩
    exact ⟨text, (mem_jobTexts (hne hm)).mpr htext, m, hm, hgroup⟩
  · rintro ⟨text, htext, m, hm, hgroup⟩
    exact ⟨text, (mem_jobTexts (hne hm)).mp htext, m, hm, hgroup⟩

/-- References join a job that exists to the other jobs that refer to it. -/
lemma joins_outputEdges : Joins (outputEdges d) kind u v ↔
    kind = .output ∧ u ∈ d.jobIds ∧ u ≠ v ∧ ∃ j ∈ d.jobs, j.id = v ∧ j.RefersTo u := by
  simp only [Joins, outputEdges, key, refersTo_iff, List.mem_flatMap, List.mem_filterMap]
  constructor
  · rintro ⟨e, ⟨j, hj, text, htext, m, hm, he⟩, hkey⟩
    split at he
    · rename_i p hp
      split_ifs at he with hjob
      cases he
      obtain ⟨rfl, rfl, rfl⟩ := by simpa only [Prod.mk.injEq] using hkey
      rw [Bool.and_eq_true, Document.hasJob_iff, bne_iff_ne] at hjob
      exact ⟨rfl, hjob.1, hjob.2, j, hj, rfl, text, htext, m, hm, hp⟩
    · cases he
  · rintro ⟨rfl, hjob, hne, j, hj, rfl, text, htext, m, hm, hp⟩
    refine ⟨⟨u, j.id, .output, some m.whole⟩, ⟨j, hj, text, htext, m, hm, ?_⟩, rfl⟩
    simp [hp, Document.hasJob_iff.mpr hjob, hne]

/-! ## All edges -/

/-- The edges that are collected of one kind. -/
def ofKind (d : Document) : EdgeKind → List Edge
  | .needs => needsEdges d
  | .artifact => artifactEdges d
  | .output => outputEdges d

/-- A collector makes edges of its kind, and between jobs of the document. -/
lemma kind_and_ends_of_joins {k : EdgeKind} (h : Joins (ofKind d k) kind u v) :
    kind = k ∧ u ∈ d.jobIds ∧ v ∈ d.jobIds := by
  cases k with
  | needs =>
      obtain ⟨hkind, hu, j, hj, rfl, -⟩ := joins_needsEdges.mp h
      exact ⟨hkind, hu, Document.id_mem_jobIds hj⟩
  | artifact =>
      rw [ofKind, artifactEdges] at h
      split at h
      · obtain ⟨hkind, hu, -, j, hj, rfl, -⟩ := joins_namedArtifactEdges.mp h
        exact ⟨hkind, hu, Document.id_mem_jobIds hj⟩
      · obtain ⟨hkind, -, name, ⟨i, hi, rfl, -⟩, j, hj, rfl, -⟩ := joins_transferEdges.mp h
        exact ⟨hkind, Document.id_mem_jobIds hi, Document.id_mem_jobIds hj⟩
  | output =>
      obtain ⟨hkind, hu, -, j, hj, rfl, -⟩ := joins_outputEdges.mp h
      exact ⟨hkind, hu, Document.id_mem_jobIds hj⟩

/-- **The edges of a document of one kind** are those that the collector of this kind makes. -/
theorem joins_ofDocument : Joins (ofDocument d) kind u v ↔ Joins (ofKind d kind) kind u v := by
  have hall : Joins (ofDocument d) kind u v ↔ ∃ k, Joins (ofKind d k) kind u v := by
    rw [ofDocument, joins_distinct, joins_append, joins_append]
    constructor
    · rintro ((h | h) | h)
      · exact ⟨.needs, h⟩
      · exact ⟨.artifact, h⟩
      · exact ⟨.output, h⟩
    · rintro ⟨k, h⟩
      cases k with
      | needs => exact Or.inl (Or.inl h)
      | artifact => exact Or.inl (Or.inr h)
      | output => exact Or.inr h
  rw [hall]
  constructor
  · rintro ⟨k, h⟩
    obtain ⟨rfl, -⟩ := kind_and_ends_of_joins h
    exact h
  · intro h
    exact ⟨kind, h⟩

/-- The ends of the edges of a document are jobs of it. -/
lemma ends_mem_jobIds {e : Edge} (he : e ∈ ofDocument d) :
    e.source ∈ d.jobIds ∧ e.target ∈ d.jobIds := by
  have hjoins : Joins (ofDocument d) e.kind e.source e.target := ⟨e, he, rfl⟩
  exact (kind_and_ends_of_joins (joins_ofDocument.mp hjoins)).2

/-! ## Edges between jobs

Under distinct ids the statements above are about two jobs instead of two ids. -/

section jobs

variable {i j : Job}

/-- What holds of some job with the id of `j` holds of `j`. -/
lemma exists_job_iff (hd : d.jobIds.Nodup) (hj : j ∈ d.jobs) {p : Job → Prop} :
    (∃ k ∈ d.jobs, k.id = j.id ∧ p k) ↔ p j := by
  constructor
  · rintro ⟨k, hk, hid, hp⟩
    exact Document.job_ext hd hk hj hid ▸ hp
  · exact fun hp => ⟨j, hj, rfl, hp⟩

/-- A job needs another one. -/
lemma joins_needs_iff (hd : d.jobIds.Nodup) (hi : i ∈ d.jobs) (hj : j ∈ d.jobs) :
    Joins (ofDocument d) .needs i.id j.id ↔ i.id ∈ j.needs := by
  rw [joins_ofDocument, ofKind, joins_needsEdges, exists_job_iff hd hj]
  simp [Document.id_mem_jobIds hi]

/-- A job refers to an output of another one. -/
lemma joins_output_iff (hd : d.jobIds.Nodup) (hi : i ∈ d.jobs) (hj : j ∈ d.jobs) :
    Joins (ofDocument d) .output i.id j.id ↔ i.id ≠ j.id ∧ j.RefersTo i.id := by
  rw [joins_ofDocument, ofKind, joins_outputEdges, exists_job_iff hd hj]
  simp [Document.id_mem_jobIds hi]

/-- In the first dialect, a job asks for an artifact that another one uploads. -/
lemma joins_artifact_iff_of_github (hd : d.jobIds.Nodup) (hi : i ∈ d.jobs) (hj : j ∈ d.jobs)
    (h : d.dialect = .github) :
    Joins (ofDocument d) .artifact i.id j.id ↔
      i.id ≠ j.id ∧ ∃ name, i.Uploads name ∧ j.Requests name := by
  rw [joins_ofDocument, ofKind, artifactEdges, h, joins_transferEdges]
  simp only [exists_job_iff hd hi, exists_job_iff hd hj, true_and]

/-- In the second dialect, a job names another one whose artifacts it takes. -/
lemma joins_artifact_iff_of_gitlab (hd : d.jobIds.Nodup) (hi : i ∈ d.jobs) (hj : j ∈ d.jobs)
    (h : d.dialect = .gitlab) :
    Joins (ofDocument d) .artifact i.id j.id ↔ i.id ≠ j.id ∧ i.id ∈ j.artifactDependencies := by
  rw [joins_ofDocument, ofKind, artifactEdges, h, joins_namedArtifactEdges, exists_job_iff hd hj]
  simp [Document.id_mem_jobIds hi]

end jobs

end Edge

namespace JobGraph

/-- A job is isolated if it is no end of an edge. -/
lemma mem_isolatedJobs {jobs : List String} {edges : List Edge} {id : String} :
    id ∈ isolatedJobs jobs edges ↔ id ∈ jobs ∧ ¬∃ e ∈ edges, e.source = id ∨ e.target = id := by
  simp [isolatedJobs]

/-- The edges of a graph are those for which the jobs of a document give reason. -/
structure Reflects (g : JobGraph) (d : Document) : Prop where
  /-- No two edges of one kind join the same jobs. -/
  nodup : (g.edges.map Edge.key).Nodup
  /-- Edges join jobs of the document. -/
  ends : ∀ e ∈ g.edges, e.source ∈ d.jobIds ∧ e.target ∈ d.jobIds
  /-- A job needs what it says, itself included. -/
  needs_iff : ∀ u ∈ d.jobs, ∀ v ∈ d.jobs,
    (Edge.Joins g.edges .needs u.id v.id ↔ u.id ∈ v.needs)
  /-- A job uses the outputs of the other jobs to which its texts refer. -/
  output_iff : ∀ u ∈ d.jobs, ∀ v ∈ d.jobs,
    (Edge.Joins g.edges .output u.id v.id ↔ u.id ≠ v.id ∧ v.RefersTo u.id)
  /-- In the first dialect, a job takes the artifacts that it asks for and another job uploads. -/
  transfer_iff : d.dialect = .github → ∀ u ∈ d.jobs, ∀ v ∈ d.jobs,
    (Edge.Joins g.edges .artifact u.id v.id ↔
      u.id ≠ v.id ∧ ∃ name, u.Uploads name ∧ v.Requests name)
  /-- In the second dialect, a job takes the artifacts of the other jobs that it names. -/
  named_iff : d.dialect = .gitlab → ∀ u ∈ d.jobs, ∀ v ∈ d.jobs,
    (Edge.Joins g.edges .artifact u.id v.id ↔ u.id ≠ v.id ∧ u.id ∈ v.artifactDependencies)
  /-- Every job is isolated or an end of an edge, and not both. -/
  isolated_xor : ∀ id ∈ d.jobIds,
    Xor (id ∈ g.isolated) (∃ e ∈ g.edges, e.source = id ∨ e.target = id)

/-- **The dependencies of a document that was read** are exactly those for which its jobs give
reason. -/
theorem reflects_of_ofTree {tree : Value} {source dialect fileName : String} {d : Document}
    (h : Document.ofTree tree source dialect fileName = .ok d) : (ofDocument d).Reflects d := by
  have hd : d.jobIds.Nodup := Document.nodup_jobIds_of_ofTree h
  refine
    { nodup := Edge.nodup_key_distinctFrom [] _
      ends := fun e he => Edge.ends_mem_jobIds he
      needs_iff := fun u hu v hv => Edge.joins_needs_iff hd hu hv
      output_iff := fun u hu v hv => Edge.joins_output_iff hd hu hv
      transfer_iff := fun hg u hu v hv => Edge.joins_artifact_iff_of_github hd hu hv hg
      named_iff := fun hg u hu v hv => Edge.joins_artifact_iff_of_gitlab hd hu hv hg
      isolated_xor := ?_ }
  intro id hid
  have hiso : id ∈ (ofDocument d).isolated ↔
      id ∈ d.jobIds ∧ ¬∃ e ∈ (ofDocument d).edges, e.source = id ∨ e.target = id :=
    mem_isolatedJobs
  rw [xor_iff_not_iff, hiso, and_iff_right hid]
  exact not_iff_self

/-- The sample has edges of all three kinds: the artifact without a name goes to the download
without one, the repeated need counts once, and the need of a job that does not exist makes no
edge. -/
theorem reflects_sample : ∃ d,
    Document.ofTree Document.sampleTree "" "github-actions" "ci.yml" = .ok d ∧
      ((ofDocument d).edges.map Edge.key =
        [("test", "deploy", .needs), ("lint", "deploy", .needs), ("build", "test", .needs),
          ("build", "lint", .needs), ("right", "left", .needs), ("left", "right", .needs),
          ("left", "behind", .needs), ("build", "test", .artifact), ("build", "deploy", .output)] ∧
        (ofDocument d).isolated = ["docs"]) ∧
      (ofDocument d).Reflects d := by
  exact exists_ok_and (fun d hd => reflects_of_ofTree hd) (by decide +kernel)

end JobGraph

end PipelineAudit
