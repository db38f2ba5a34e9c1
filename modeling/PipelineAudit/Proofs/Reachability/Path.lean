import Mathlib.Data.List.Chain
import Mathlib.Data.List.Find
import PipelineAudit.Proofs.Graph.CriticalPath
import PipelineAudit.Proofs.Graph.Cycle
import PipelineAudit.Proofs.Reachability.Guard

/-!
# The path to a finding

The path to a finding in a job grows from the job backwards: the first job, in order of names, that
leads to the head of the path and is not on it is put in front (`JobGraph.extend?`). One such step
keeps what makes it a path (`JobGraph.IsPathTo.extend?`), so every number of them does
(`JobGraph.IsPathTo.of_reflTransGen`). `Reachability.chainFrom` takes these steps until there is
none (`Reachability.reflTransGen_chainFrom`), which must come because jobs do not repeat: every job
that leads to the head is then on the path. Without cycles there is no such job at all, since one
that is on the path lies behind the head (`JobGraph.IsPathTo.not_leads_head`).
-/

namespace PipelineAudit

open Relation (TransGen ReflTransGen)

namespace JobGraph

variable {g : JobGraph} {u v job : String} {path longer : List String}

/-- The predecessors of a job are the jobs that lead to it. -/
lemma mem_predecessors : u ∈ g.predecessors v ↔ Edge.Leads g.edges u v := by
  rw [predecessors, sortedSet, List.mem_mergeSort, List.mem_eraseDups, Edge.mem_sourcesOf]

/-- A path is extended by the first job in order of names that leads to its head and is not on
it. -/
def extend? (g : JobGraph) : List String → Option (List String)
  | [] => none
  | job :: rest =>
    ((g.predecessors job).find? fun p => !(job :: rest).contains p).map fun p => p :: job :: rest

/-- A path that leads to a job: jobs that do not repeat, joined by edges, the job last. -/
structure IsPathTo (g : JobGraph) (job : String) (path : List String) : Prop where
  nodup : path.Nodup
  isChain : path.IsChain (Edge.Leads g.edges)
  getLast? : path.getLast? = some job

namespace IsPathTo

/-- A job alone is a path. -/
lemma single (g : JobGraph) (job : String) : g.IsPathTo job [job] :=
  ⟨List.nodup_singleton job, List.isChain_singleton job, rfl⟩

/-- A path that is extended stays one. -/
lemma extend? (h : g.IsPathTo job path) (hlonger : g.extend? path = some longer) :
    g.IsPathTo job longer := by
  cases path with
  | nil => cases hlonger
  | cons head rest =>
      obtain ⟨p, hp, rfl⟩ := Option.map_eq_some_iff.mp hlonger
      have hnew : p ∉ head :: rest := by simpa using List.find?_some hp
      have hleads : Edge.Leads g.edges p head := mem_predecessors.mp (List.mem_of_find?_eq_some hp)
      exact ⟨List.nodup_cons.mpr ⟨hnew, h.nodup⟩, List.isChain_cons_cons.mpr ⟨hleads, h.isChain⟩,
        h.getLast?⟩

/-- A path that is extended many times stays one. -/
lemma of_reflTransGen (hsteps : ReflTransGen (fun p q => g.extend? p = some q) [job] path) :
    g.IsPathTo job path := by
  induction hsteps with
  | refl => exact single g job
  | tail _ hstep ih => exact ih.extend? hstep

/-- Along a path the head leads to the jobs behind it. -/
lemma transGen_head (h : g.IsPathTo job (u :: path)) (hv : v ∈ path) :
    TransGen (Edge.Leads g.edges) u v := by
  have : IsTrans String (TransGen (Edge.Leads g.edges)) := ⟨fun _ _ _ huv hvw => huv.trans hvw⟩
  have hchain : (u :: path).IsChain (TransGen (Edge.Leads g.edges)) :=
    h.isChain.imp fun _ _ => .single
  exact List.rel_of_pairwise_cons (List.isChain_iff_pairwise.mp hchain) hv

/-- Without cycles, no job on a path leads to its head. -/
lemma not_leads_head (h : g.IsPathTo job (u :: path)) (hcycle : ∀ c, ¬Edge.OnCycle g.edges c)
    (hv : v ∈ u :: path) : ¬Edge.Leads g.edges v u := by
  intro hleads
  rcases List.mem_cons.mp hv with rfl | hv
  · exact hcycle v (.single hleads)
  · exact hcycle u ((h.transGen_head hv).tail hleads)

end IsPathTo

/-- A path that is not extended holds all jobs that lead to its head. -/
lemma mem_of_extend?_eq_none (h : g.extend? (u :: path) = none) (hleads : Edge.Leads g.edges v u) :
    v ∈ u :: path := by
  have hall := List.find?_eq_none.mp (Option.map_eq_none_iff.mp h) v (mem_predecessors.mpr hleads)
  by_contra hnew
  exact hall (by simpa using hnew)

end JobGraph

namespace Reachability

variable {predecessors : String → List String} {unvisited : List String} {job previous : String}

/-- A walk against edges ends where no predecessor may be visited. -/
lemma chainFrom_of_none (h : (predecessors job).find? unvisited.contains = none) :
    chainFrom predecessors unvisited job = [] := by
  rw [chainFrom]
  split
  · rename_i hsome
    rw [h] at hsome
    cases hsome
  · rfl

/-- It goes on with the first one that may. -/
lemma chainFrom_of_some (h : (predecessors job).find? unvisited.contains = some previous) :
    chainFrom predecessors unvisited job =
      previous :: chainFrom predecessors (unvisited.erase previous) previous := by
  rw [chainFrom]
  split
  · rename_i hsome
    obtain rfl := Option.some.inj (h.symm.trans hsome)
    rfl
  · rename_i hnone
    rw [h] at hnone
    cases hnone

/-- **The walk against edges extends the path until it cannot be extended.** -/
lemma reflTransGen_chainFrom (g : JobGraph) (unvisited : List String) (job : String)
    (rest : List String) (hnodup : unvisited.Nodup)
    (hleft : ∀ p v, Edge.Leads g.edges p v → (p ∈ unvisited ↔ p ∉ job :: rest)) :
    ReflTransGen (fun p q => g.extend? p = some q) (job :: rest)
        ((chainFrom g.predecessors unvisited job).reverse ++ job :: rest) ∧
      g.extend? ((chainFrom g.predecessors unvisited job).reverse ++ job :: rest) = none := by
  -- the walk asks what is left, and the path what is on it
  have hfind : ∀ {unvisited rest : List String} {job : String},
      (∀ p v, Edge.Leads g.edges p v → (p ∈ unvisited ↔ p ∉ job :: rest)) →
      (g.predecessors job).find? unvisited.contains =
        (g.predecessors job).find? fun p => !(job :: rest).contains p := by
    intro unvisited rest job hleft
    refine List.find?_congr fun p hp => ?_
    have := hleft p job (JobGraph.mem_predecessors.mp hp)
    by_cases hmem : p ∈ unvisited <;> simp_all
  fun_induction chainFrom g.predecessors unvisited job generalizing rest with
  | case1 unvisited job previous hprevious ih =>
      have hstep : g.extend? (job :: rest) = some (previous :: job :: rest) := by
        rw [JobGraph.extend?, ← hfind hleft, hprevious, Option.map_some]
      have h := ih (job :: rest) (hnodup.erase previous) fun p v hp => by
        rw [hnodup.mem_erase_iff, hleft p v hp, List.mem_cons (a := p) (b := previous), not_or]
      rw [List.reverse_cons, List.append_assoc]
      exact ⟨.head hstep h.1, h.2⟩
  | case2 unvisited job hnone =>
      refine ⟨.refl, ?_⟩
      rw [List.reverse_nil, List.nil_append, JobGraph.extend?, ← hfind hleft, hnone,
        Option.map_none]

end Reachability

/-! ## The path as a whole -/

/-- What the jobs on the path to a finding in a job come to. -/
structure JobGraph.ClimbsTo (g : JobGraph) (job : String) (path : List String) : Prop extends
    g.IsPathTo job path where
  /-- The path grows from the job, one job at a time, until it cannot be extended. -/
  ends : ReflTransGen (fun p q => g.extend? p = some q) [job] path ∧ g.extend? path = none
  /-- Every job that leads to its first job is on the path. -/
  mem_of_leads : ∀ first ∈ path.head?, ∀ p, Edge.Leads g.edges p first → p ∈ path
  /-- Without cycles no job leads to its first job. -/
  not_leads : (∀ c, ¬Edge.OnCycle g.edges c) →
    ∀ first ∈ path.head?, ∀ p, ¬Edge.Leads g.edges p first

namespace Reachability

/-- The jobs before a job, with the job itself, are such a path. -/
lemma climbsTo_leadingJobs (g : JobGraph) (job : String) :
    g.ClimbsTo job (leadingJobs (some g) job ++ [job]) := by
  have hsources : ∀ p v, Edge.Leads g.edges p v →
      (p ∈ ((g.edges.map Edge.source).eraseDups).filter (· != job) ↔ p ∉ [job]) := by
    rintro p v ⟨e, he, rfl, -⟩
    have hmem : e.source ∈ (g.edges.map Edge.source).eraseDups :=
      List.mem_eraseDups.mpr (List.mem_map_of_mem he)
    simp [hmem]
  have hends := reflTransGen_chainFrom g _ job [] ((nodup_eraseDups _).filter (· != job)) hsources
  have hpath : g.IsPathTo job (leadingJobs (some g) job ++ [job]) := .of_reflTransGen hends.1
  have hstop : g.extend? (leadingJobs (some g) job ++ [job]) = none := hends.2
  cases hshape : leadingJobs (some g) job ++ [job] with
  | nil => simp at hshape
  | cons first rest =>
      rw [hshape] at hpath hstop
      refine ⟨hpath, hshape ▸ hends, ?_, ?_⟩
      · rintro _ ⟨⟩ p hleads
        exact JobGraph.mem_of_extend?_eq_none hstop hleads
      · rintro hcycle _ ⟨⟩ p hleads
        exact hpath.not_leads_head hcycle (JobGraph.mem_of_extend?_eq_none hstop hleads) hleads

end Reachability

/-- **The path to a finding in a job** consists of the jobs of such a path, and the step where the
finding is, if it is in one. -/
theorem Reachability.exists_climbsTo {d : Document} {f : Finding} {j : Job} (g : JobGraph)
    (hj : f.jobName.bind d.job? = some j) :
    ∃ path, g.ClimbsTo j.id path ∧
      pathTo d f.location (some g) = path ++ ((f.stepIndex.bind j.step?).map stepTitle).toList := by
  refine ⟨_, climbsTo_leadingJobs g j.id, ?_⟩
  obtain ⟨id, hid, hj⟩ := Option.bind_eq_some_iff.mp hj
  obtain ⟨l, hl, hid⟩ := Option.bind_eq_some_iff.mp hid
  have hplace : (f.location.bind fun l => (l.job.bind d.job?).map fun j => (l, j)) =
      some (l, j) := by
    simp [hl, hid, hj]
  have hstep : f.stepIndex.bind j.step? = l.step.bind fun s => j.step? s.number := by
    rw [Finding.stepIndex, hl, Option.bind_some, Option.bind_map]
    rfl
  rw [pathTo, hplace, hstep]

/-- A document with one job of one step. -/
def Document.shipping : Document :=
  { fileName := "ci.yml",
    jobs := [{ id := "ship", steps := [{ index := 0, run := some "make" }] }] }

/-- A graph in which two other jobs lead to that job, one after the other, and the job leads back to
the first of them. -/
def JobGraph.winding : JobGraph :=
  { edges := [⟨"build", "ship", .output, none⟩, ⟨"pack", "build", .needs, none⟩,
      ⟨"ship", "pack", .artifact, none⟩] }

/-- A finding in the step. -/
def Finding.shipping : Finding :=
  { category := .security, severity := .error, title := "", description := "", file := "ci.yml"
    location := some { job := some "ship", step := some ⟨0, false⟩ } }

/-- The path stops where it would close the cycle. -/
theorem Reachability.exists_climbsTo_winding : ∃ j,
    Finding.shipping.jobName.bind Document.shipping.job? = some j ∧
      pathTo .shipping Finding.shipping.location (some .winding) =
        ["pack", "build", "ship", "step 1"] ∧
      ∃ path, JobGraph.winding.ClimbsTo j.id path ∧
        pathTo .shipping Finding.shipping.location (some .winding) =
          path ++ ((Finding.shipping.stepIndex.bind j.step?).map stepTitle).toList :=
  ⟨_, rfl, by decide +kernel, exists_climbsTo (d := .shipping) (f := .shipping) .winding rfl⟩

end PipelineAudit
