import Mathlib.Data.List.Perm.Basic
import PipelineAudit.Proofs.Graph.CriticalPath

/-!
# The order of jobs and the graph

The jobs of a document stand in some order, and the graph is made by going through them: edges are
collected, repeats dropped and levels filled in that order. What the graph says does not depend on
it (`JobGraph.isReordered_withJobs`). Which jobs are joined is a statement about the members of the
document (`Edge.joins_withJobs`), and from there on two graphs are compared that lead from the same
jobs to the same jobs: levels and blocked jobs hold the same jobs (`Layering.forall₂_perm_place`),
and the critical paths are the same list, since which paths are best depends on members only and the
list is sorted by an order in which no two paths tie (`CriticalPath.all_congr`).
-/

namespace PipelineAudit

/-! ## Documents -/

namespace Document

variable {d : Document} {jobs : List Job}

/-- A document with other jobs. -/
def withJobs (d : Document) (jobs : List Job) : Document := { d with jobs := jobs }

/-- Jobs in another order have their ids in another order. -/
lemma perm_jobIds (h : jobs.Perm d.jobs) : (d.withJobs jobs).jobIds.Perm d.jobIds := h.map Job.id

/-- Under distinct ids, a job is found by its id in whatever order. -/
lemma job?_withJobs (hd : d.jobIds.Nodup) (h : jobs.Perm d.jobs) (id : String) :
    (d.withJobs jobs).job? id = d.job? id := by
  have hd' : (d.withJobs jobs).jobIds.Nodup := (perm_jobIds h).nodup_iff.mpr hd
  ext j
  rw [job?_eq_some_iff hd', job?_eq_some_iff hd]
  exact and_congr_left fun _ => h.mem_iff

end Document

/-! ## Edges -/

namespace Edge

variable {d : Document} {jobs : List Job} {edges edges' : List Edge}
    {kind : EdgeKind} {u v : String}

/-- Which jobs are joined, and how, does not depend on their order. -/
lemma joins_withJobs (h : jobs.Perm d.jobs) :
    Joins (ofDocument (d.withJobs jobs)) kind u v ↔ Joins (ofDocument d) kind u v := by
  have hjobs : ∀ j, j ∈ (d.withJobs jobs).jobs ↔ j ∈ d.jobs := fun _ => h.mem_iff
  have hids : ∀ id, id ∈ (d.withJobs jobs).jobIds ↔ id ∈ d.jobIds := fun _ =>
    (Document.perm_jobIds h).mem_iff
  rw [joins_ofDocument, joins_ofDocument]
  cases kind with
  | needs => simp only [ofKind, joins_needsEdges, hjobs, hids]
  | output => simp only [ofKind, joins_outputEdges, hjobs, hids]
  | artifact =>
      unfold ofKind artifactEdges
      rw [show (d.withJobs jobs).dialect = d.dialect from rfl]
      cases d.dialect with
      | github => simp only [joins_transferEdges, hjobs]
      | gitlab => simp only [joins_namedArtifactEdges, hjobs, hids]

/-- A job leads to another one if they are joined in some way. -/
lemma leads_iff_exists_joins : Leads edges u v ↔ ∃ kind, Joins edges kind u v := by
  constructor
  · rintro ⟨e, he, rfl, rfl⟩
    exact ⟨e.kind, e, he, rfl⟩
  · rintro ⟨kind, e, he, hkey⟩
    obtain ⟨hsource, htarget, -⟩ := by simpa only [key, Prod.mk.injEq] using hkey
    exact ⟨e, he, hsource, htarget⟩

/-- Which jobs lead to which does not depend on their order. -/
lemma leads_withJobs (h : jobs.Perm d.jobs) :
    Leads (ofDocument (d.withJobs jobs)) u v ↔ Leads (ofDocument d) u v := by
  simp only [leads_iff_exists_joins, joins_withJobs h]

/-- Whether a job is an end of an edge depends on which jobs lead to which. -/
lemma any_end_congr (h : ∀ u v, Leads edges u v ↔ Leads edges' u v) (id : String) :
    (edges.any fun e => e.source == id || e.target == id) =
      edges'.any fun e => e.source == id || e.target == id := by
  have hany : ∀ es : List Edge, (es.any fun e => e.source == id || e.target == id) = true ↔
      (∃ v, Leads es id v) ∨ ∃ u, Leads es u id := fun es => by
    simp only [List.any_eq_true, Bool.or_eq_true, beq_iff_eq, Leads]
    grind
  rw [Bool.eq_iff_iff, hany, hany]
  simp only [h]

/-- The edges of a document are the same in whatever order of the jobs, what made them aside. -/
lemma perm_map_key_withJobs (h : jobs.Perm d.jobs) :
    ((ofDocument (d.withJobs jobs)).map key).Perm ((ofDocument d).map key) := by
  refine (List.perm_ext_iff_of_nodup (nodup_key_distinctFrom [] _)
    (nodup_key_distinctFrom [] _)).mpr ?_
  rintro ⟨u, v, kind⟩
  rw [List.mem_map, List.mem_map]
  exact joins_withJobs h

end Edge

/-! ## Levels -/

namespace Layering

variable {sources sources' : String → List String} {placed placed' unplaced unplaced' : List String}
  {job : String}

/-- Whether a job is ready depends on which jobs it waits for, and on which are placed. -/
lemma isReady_congr (hsources : ∀ v s, s ∈ sources v ↔ s ∈ sources' v)
    (hplaced : ∀ s, s ∈ placed ↔ s ∈ placed') :
    isReady sources placed job = isReady sources' placed' job := by
  rw [Bool.eq_iff_iff, isReady_iff, isReady_iff]
  simp only [hsources, hplaced]

/-- The same jobs are ready, and the same ones are not. -/
lemma perm_readyJobs (hsources : ∀ v s, s ∈ sources v ↔ s ∈ sources' v)
    (hplaced : ∀ s, s ∈ placed ↔ s ∈ placed') (h : unplaced.Perm unplaced') :
    (readyJobs sources placed unplaced).Perm (readyJobs sources' placed' unplaced') ∧
      (waitingJobs sources placed unplaced).Perm (waitingJobs sources' placed' unplaced') := by
  have hready : isReady sources placed = isReady sources' placed' :=
    funext fun _ => isReady_congr hsources hplaced
  unfold readyJobs waitingJobs
  rw [hready]
  exact ⟨h.filter _, h.filter _⟩

/-- **Levels hold the same jobs** where the same jobs are waited for, and so do the blocked ones. -/
theorem forall₂_perm_place (hsources : ∀ v s, s ∈ sources v ↔ s ∈ sources' v)
    (hplaced : ∀ s, s ∈ placed ↔ s ∈ placed') (h : unplaced.Perm unplaced') :
    List.Forall₂ List.Perm (place sources placed unplaced).levels
        (place sources' placed' unplaced').levels ∧
      (place sources placed unplaced).blocked.Perm (place sources' placed' unplaced').blocked := by
  fun_induction place sources placed unplaced generalizing placed' unplaced' with
  | case1 placed unplaced hnone =>
      have hready := (perm_readyJobs hsources hplaced h).1
      rw [List.isEmpty_iff] at hnone
      have hnone' : (readyJobs sources' placed' unplaced').isEmpty = true := by
        rw [List.isEmpty_iff]
        exact List.Perm.eq_nil (hnone ▸ hready.symm)
      rw [place, dif_pos hnone']
      exact ⟨List.Forall₂.nil, h⟩
  | case2 placed unplaced hsome ready =>
      rename_i later ih
      obtain ⟨hready, hwaiting⟩ := perm_readyJobs hsources hplaced h
      have hsome' : ¬(readyJobs sources' placed' unplaced').isEmpty = true := by
        rw [List.isEmpty_iff] at hsome ⊢
        intro hnil
        exact hsome (List.Perm.eq_nil (hnil ▸ hready))
      have hplaced' : ∀ s, s ∈ placed ++ ready ↔
          s ∈ placed' ++ readyJobs sources' placed' unplaced' := by
        intro s
        rw [List.mem_append, List.mem_append, hplaced s, hready.mem_iff]
      obtain ⟨hlevels, hblocked⟩ := ih hplaced' hwaiting
      rw [place, dif_neg hsome']
      exact ⟨List.Forall₂.cons hready hlevels, hblocked⟩

end Layering

/-! ## Critical paths -/

namespace CriticalPath

variable {edges edges' : List Edge} {jobs jobs' : List String} {p : Path} {s : String}

/-- Paths depend on which jobs lead to which, and on which are given. -/
lemma PathFrom.congr (hleads : ∀ u v, Edge.Leads edges u v ↔ Edge.Leads edges' u v)
    (hjobs : ∀ x, x ∈ jobs ↔ x ∈ jobs') (h : PathFrom edges jobs s p) :
    PathFrom edges' jobs' s p where
  head := h.head
  chain := h.chain.imp fun u v => (hleads u v).mp
  within x hx := (hjobs x).mp (h.within x hx)

/-- So do the best ones. -/
lemma IsBest.congr (hleads : ∀ u v, Edge.Leads edges u v ↔ Edge.Leads edges' u v)
    (hjobs : ∀ x, x ∈ jobs ↔ x ∈ jobs') (h : IsBest edges jobs s p) : IsBest edges' jobs' s p :=
  ⟨h.1.congr hleads hjobs, fun q hq =>
    h.2 q (hq.congr (fun u v => (hleads u v).symm) fun x => (hjobs x).symm)⟩

/-- So do the jobs from which they start. -/
lemma IsStart.congr (hleads : ∀ u v, Edge.Leads edges u v ↔ Edge.Leads edges' u v)
    (hjobs : ∀ x, x ∈ jobs ↔ x ∈ jobs') (h : IsStart edges jobs s) : IsStart edges' jobs' s := by
  obtain ⟨hfree, t, ht, hlead⟩ := h
  exact ⟨fun u hu => hfree u ((hleads u s).mpr hu), t, (hjobs t).mp ht, (hleads s t).mp hlead⟩

/-- Lists in the order of paths with the same members are the same. -/
lemma eq_of_mem_iff {paths paths' : List Path} (h : paths.Pairwise Before)
    (h' : paths'.Pairwise Before) (hmem : ∀ p, p ∈ paths ↔ p ∈ paths') : paths = paths' := by
  have hne : ∀ {p q : Path}, Before p q → p ≠ q := by
    rintro p q hpq rfl
    exact Before.irrefl p hpq
  have hperm : paths.Perm paths' := (List.perm_ext_iff_of_nodup (h.imp hne) (h'.imp hne)).mpr hmem
  exact List.Perm.eq_of_pairwise
    (fun p q _ _ hpq hqp => absurd (hpq.trans hqp) (Before.irrefl p)) h h' hperm

/-- **The critical paths are the same list** where the same jobs lead to the same jobs. -/
theorem all_congr (hleads : ∀ u v, Edge.Leads edges u v ↔ Edge.Leads edges' u v)
    (hjobs : ∀ x, x ∈ (Layering.byReadiness jobs edges).levels.flatten ↔
      x ∈ (Layering.byReadiness jobs' edges').levels.flatten) :
    all (Layering.byReadiness jobs edges).levels edges = all
    (Layering.byReadiness jobs' edges').levels edges' := by
  refine eq_of_mem_iff (pairwise_all _ _) (pairwise_all _ _) fun p => ?_
  rw [mem_all_byReadiness_iff, mem_all_byReadiness_iff]
  refine exists_congr fun s => and_congr ⟨fun h => h.congr hleads hjobs, fun h => ?_⟩
    ⟨fun h => h.congr hleads hjobs, fun h => ?_⟩
  · exact h.congr (fun u v => (hleads u v).symm) fun x => (hjobs x).symm
  · exact h.congr (fun u v => (hleads u v).symm) fun x => (hjobs x).symm

end CriticalPath

/-! ## Graphs -/

namespace JobGraph

variable {d : Document} {jobs : List Job}

/-- Texts in order are known from their members. -/
lemma sortedSet_congr {xs ys : List String} (h : ∀ x, x ∈ xs ↔ x ∈ ys) :
    sortedSet xs = sortedSet ys := by
  have hsorted : ∀ zs, (sortedSet zs).Pairwise fun a b => decide (a ≤ b) = true := fun zs => by
    refine List.pairwise_mergeSort ?_ ?_ _
    · simpa using fun a b c : String => le_trans
    · simpa using fun a b : String => le_total a b
  have hperm : xs.eraseDups.Perm ys.eraseDups := perm_eraseDups h
  refine List.Perm.eq_of_pairwise ?_ (hsorted xs) (hsorted ys) ?_
  · intro a b _ _ hab hba
    exact le_antisymm (of_decide_eq_true hab) (of_decide_eq_true hba)
  · exact ((List.mergeSort_perm _ _).trans hperm).trans (List.mergeSort_perm _ _).symm

/-- The jobs that a job waits for stand in order, in whatever order the jobs of the document are. -/
lemma predecessors_withJobs (h : jobs.Perm d.jobs) :
    (ofDocument (d.withJobs jobs)).predecessors = (ofDocument d).predecessors := by
  funext job
  refine sortedSet_congr fun s => ?_
  rw [Edge.mem_sourcesOf, Edge.mem_sourcesOf]
  exact Edge.leads_withJobs h

/-- A graph says the same as another one: it has the same edges, what made them aside, the same jobs
in every level, the same cyclic and the same isolated jobs, and the same critical paths. -/
structure IsReordered (g g' : JobGraph) : Prop where
  edges : (g.edges.map Edge.key).Perm (g'.edges.map Edge.key)
  levels : List.Forall₂ List.Perm g.levels g'.levels
  cyclic : g.cyclic.Perm g'.cyclic
  isolated : g.isolated.Perm g'.isolated
  criticalPaths : g.criticalPaths = g'.criticalPaths

/-- **The graph of a document says the same in whatever order of the jobs.** -/
theorem isReordered_withJobs (h : jobs.Perm d.jobs) :
    (ofDocument (d.withJobs jobs)).IsReordered (ofDocument d) := by
  have hids := Document.perm_jobIds h
  have hleads : ∀ u v, Edge.Leads (Edge.ofDocument (d.withJobs jobs)) u v ↔
      Edge.Leads (Edge.ofDocument d) u v := fun _ _ => Edge.leads_withJobs h
  have hsources : ∀ v s, s ∈ Edge.sourcesOf (Edge.ofDocument (d.withJobs jobs)) v ↔
      s ∈ Edge.sourcesOf (Edge.ofDocument d) v := fun v s => by
    rw [Edge.mem_sourcesOf, Edge.mem_sourcesOf, hleads]
  obtain ⟨hlevels, hblocked⟩ := Layering.forall₂_perm_place hsources (fun s => Iff.refl (s ∈ []))
    (perm_eraseDups fun _ => hids.mem_iff)
  refine ⟨Edge.perm_map_key_withJobs h, ?_, ?_, ?_, ?_⟩
  · rw [levels_ofDocument, levels_ofDocument]
    exact hlevels
  · rw [cyclic_ofDocument, cyclic_ofDocument]
    exact hblocked
  · have hends : (fun id => !(Edge.ofDocument (d.withJobs jobs)).any fun e => e.source ==
        id || e.target == id) =
        fun id => !(Edge.ofDocument d).any fun e => e.source == id || e.target == id := by
      funext id
      rw [Edge.any_end_congr hleads]
    change (List.filter _ _).Perm (List.filter _ _)
    rw [hends]
    exact hids.filter _
  · rw [criticalPaths_ofDocument, criticalPaths_ofDocument]
    exact CriticalPath.all_congr hleads fun x => (List.Perm.flatten_congr hlevels).mem_iff

end JobGraph

end PipelineAudit
