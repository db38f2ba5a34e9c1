import Mathlib.Data.List.Chain
import Mathlib.Order.Bounds.Basic
import PipelineAudit.Proofs.Graph.Edge
import PipelineAudit.Proofs.Graph.InDegree

/-!
# What the levels of a graph say

`Layering.place` takes all jobs whose predecessors are placed as the next level, until none is left
that could be taken. The section on runs says what one such run does, whatever the jobs that were
placed before it: it splits the jobs without losing their order, the predecessors of a job stand in
earlier levels, at least one of them in the level just before, and a job stays blocked only because
a predecessor does.

From there on the levels are those of a graph (`Layering.byReadiness`), and the level of a job is
the number of edges of the longest chain that ends at it (`Layering.isGreatest_chainLengths`): a
chain climbs at least one level with every edge, and a predecessor in the level just before lets a
chain be found that climbs exactly one.
-/

namespace PipelineAudit

namespace Edge

variable {edges : List Edge} {u v : String}

/-! ## Chains of dependencies -/

/-- The numbers of edges of the chains of dependencies that end at a job. -/
def chainLengths (edges : List Edge) (job : String) : Set Nat :=
  {n | ∃ chain : List String,
    chain.IsChain (Leads edges) ∧ chain.getLast? = some job ∧ chain.length = n + 1}

/-- A job alone is a chain. -/
lemma zero_mem_chainLengths (edges : List Edge) (job : String) : 0 ∈ chainLengths edges job :=
  ⟨[job], List.isChain_singleton job, rfl, rfl⟩

/-- A chain goes on along an edge. -/
lemma succ_mem_chainLengths {n : Nat} (h : Leads edges u v) (hn : n ∈ chainLengths edges u) :
    n + 1 ∈ chainLengths edges v := by
  obtain ⟨chain, hchain, hlast, hlen⟩ := hn
  refine ⟨chain ++ [v], ?_, by simp, by simp [hlen]⟩
  refine List.isChain_append.mpr ⟨hchain, List.isChain_singleton v, ?_⟩
  intro x hx y hy
  obtain rfl : u = x := by simpa [hlast] using hx
  obtain rfl : v = y := by simpa using hy
  exact h

/-- A chain with edges has a last one. -/
lemma exists_leads_of_succ_mem {n : Nat} (h : n + 1 ∈ chainLengths edges v) :
    ∃ u, Leads edges u v ∧ n ∈ chainLengths edges u := by
  obtain ⟨chain, hchain, hlast, hlen⟩ := h
  obtain ⟨front, rfl⟩ := List.getLast?_eq_some_iff.mp hlast
  obtain ⟨hfront, -, hlink⟩ := List.isChain_append.mp hchain
  have hfrontLen : front.length = n + 1 := by simpa using hlen
  have hne : front ≠ [] := by
    rintro rfl
    simp at hfrontLen
  have hu : front.getLast? = some (front.getLast hne) := List.getLast?_eq_some_getLast hne
  exact ⟨front.getLast hne, hlink _ hu v rfl, front, hfront, hu, hfrontLen⟩

end Edge

namespace Layering

/-! ## Runs -/

section runs

variable {sources : String → List String} {placed unplaced : List String} {job : String}

/-- The levels and the blocked jobs of a run are the jobs that were not placed before. -/
lemma perm_place (sources : String → List String) (placed unplaced : List String) :
    ((place sources placed unplaced).levels.flatten ++
      (place sources placed unplaced).blocked).Perm unplaced := by
  fun_induction place sources placed unplaced with
  | case1 placed unplaced hnone => simp
  | case2 placed unplaced hsome ready later ih =>
      rw [List.flatten_cons, List.append_assoc]
      exact (ih.append_left ready).trans (perm_ready_waiting sources placed unplaced)

/-- No level is empty. -/
lemma nil_notMem_place (sources : String → List String) (placed unplaced : List String) :
    [] ∉ (place sources placed unplaced).levels := by
  fun_induction place sources placed unplaced with
  | case1 placed unplaced hnone => simp
  | case2 placed unplaced hsome ready later ih =>
      intro hmem
      rcases List.mem_cons.mp hmem with hnil | hmem
      · exact hsome (by simp [ready, ← hnil])
      · exact ih hmem

/-- Levels keep the order of the jobs. -/
lemma sublist_of_mem_place {level : List String}
    (h : level ∈ (place sources placed unplaced).levels) : level.Sublist unplaced := by
  fun_induction place sources placed unplaced with
  | case1 placed unplaced hnone => cases h
  | case2 placed unplaced hsome ready later ih =>
      rcases List.mem_cons.mp h with rfl | h
      · exact List.filter_sublist
      · exact (ih h).trans List.filter_sublist

/-- The predecessors of a job in a level are placed before it. -/
lemma mem_of_source {s : String} (hs : s ∈ sources job) :
    ∀ (i : Nat) (level : List String), (place sources placed unplaced).levels[i]? = some level →
      job ∈ level → s ∈ placed ++ ((place sources placed unplaced).levels.take i).flatten := by
  fun_induction place sources placed unplaced with
  | case1 placed unplaced hnone =>
      intro i level hlevel
      simp at hlevel
  | case2 placed unplaced hsome ready later ih =>
      intro i level hlevel hjob
      cases i with
      | zero =>
          obtain rfl : ready = level := by simpa using hlevel
          have hready := (List.mem_filter.mp hjob).2
          exact List.mem_append_left _ (isReady_iff.mp hready s hs)
      | succ i =>
          have hlater : later.levels[i]? = some level := by simpa using hlevel
          simpa using ih i level hlater hjob

/-- Some predecessor of a job in a level other than the first is not placed before the level just
before it. -/
lemma exists_source_notMem :
    ∀ (i : Nat) (level : List String), (place sources placed unplaced).levels[i + 1]? = some level →
      job ∈ level → ∃ s ∈ sources job,
        s ∉ placed ++ ((place sources placed unplaced).levels.take i).flatten := by
  fun_induction place sources placed unplaced with
  | case1 placed unplaced hnone =>
      intro i level hlevel
      simp at hlevel
  | case2 placed unplaced hsome ready later ih =>
      intro i level hlevel hjob
      have hlater : later.levels[i]? = some level := by simpa using hlevel
      cases i with
      | zero =>
          -- the job was left over when the level before it was taken
          have hwait := (sublist_of_mem_place (List.mem_of_getElem? hlater)).mem hjob
          have hnot := (List.mem_filter.mp hwait).2
          simpa using not_isReady_iff.mp (by simpa using hnot)
      | succ i => simpa using ih i level hlater hjob

/-- A job is blocked because one of its predecessors is never placed. -/
lemma exists_source_of_mem_blocked (h : job ∈ (place sources placed unplaced).blocked) :
    ∃ s ∈ sources job, s ∉ placed ++ (place sources placed unplaced).levels.flatten := by
  fun_induction place sources placed unplaced with
  | case1 placed unplaced hnone =>
      have hnot : isReady sources placed job = false := by
        rw [List.isEmpty_iff, readyJobs, List.filter_eq_nil_iff] at hnone
        simpa using hnone job h
      simpa using not_isReady_iff.mp hnot
  | case2 placed unplaced hsome ready later ih =>
      simpa using ih h

end runs

/-! ## Levels of a graph -/

section graph

variable {jobs : List String} {edges : List Edge} {u v job : String} {i : Nat}

/-- A job stands in a level. -/
def AtLevel (levels : List (List String)) (i : Nat) (job : String) : Prop :=
  ∃ level, levels[i]? = some level ∧ job ∈ level

/-- A job is placed if it stands in some level. -/
lemma mem_flatten_iff {levels : List (List String)} :
    job ∈ levels.flatten ↔ ∃ i, AtLevel levels i job := by
  rw [List.mem_flatten]
  constructor
  · rintro ⟨level, hlevel, hjob⟩
    obtain ⟨i, hi⟩ := List.mem_iff_getElem?.mp hlevel
    exact ⟨i, level, hi, hjob⟩
  · rintro ⟨i, level, hi, hjob⟩
    exact ⟨level, List.mem_of_getElem? hi, hjob⟩

/-- A job in a level is placed. -/
lemma AtLevel.mem_flatten {levels : List (List String)} (h : AtLevel levels i job) :
    job ∈ levels.flatten :=
  mem_flatten_iff.mpr ⟨i, h⟩

/-- The level of a job is one of the levels. -/
lemma AtLevel.lt_length {levels : List (List String)} (h : AtLevel levels i job) :
    i < levels.length := by
  obtain ⟨level, hlevel, -⟩ := h
  exact (List.getElem?_eq_some_iff.mp hlevel).1

/-- The jobs of the first levels. -/
lemma mem_flatten_take_iff {levels : List (List String)} :
    job ∈ (levels.take i).flatten ↔ ∃ k < i, AtLevel levels k job := by
  rw [mem_flatten_iff]
  constructor
  · rintro ⟨k, level, hlevel, hjob⟩
    obtain ⟨hk, hlevel⟩ : k < i ∧ levels[k]? = some level := by
      simpa [List.getElem?_take] using hlevel
    exact ⟨k, hk, level, hlevel, hjob⟩
  · rintro ⟨k, hk, level, hlevel, hjob⟩
    exact ⟨k, level, by rw [List.getElem?_take_of_lt hk, hlevel], hjob⟩

/-- An edge leads to a placed job from a job in an earlier level. -/
lemma exists_atLevel_of_leads (hv : AtLevel (byReadiness jobs edges).levels i v)
    (h : Edge.Leads edges u v) : ∃ k < i, AtLevel (byReadiness jobs edges).levels k u := by
  obtain ⟨level, hlevel, hmem⟩ := hv
  have hu := mem_of_source (Edge.mem_sourcesOf.mpr h) i level hlevel hmem
  exact mem_flatten_take_iff.mp hu

/-- To a job in a level other than the first, an edge leads from the level just before. -/
lemma exists_leads_of_atLevel_succ (hv : AtLevel (byReadiness jobs edges).levels (i + 1) v) :
    ∃ u, Edge.Leads edges u v ∧ AtLevel (byReadiness jobs edges).levels i u := by
  obtain ⟨level, hlevel, hmem⟩ := id hv
  obtain ⟨u, hu, hnot⟩ := exists_source_notMem i level hlevel hmem
  have hlead : Edge.Leads edges u v := Edge.mem_sourcesOf.mp hu
  obtain ⟨k, hk, hat⟩ := exists_atLevel_of_leads hv hlead
  -- `u` stands in no level before `i`, so `k` is `i`
  have hki : ¬k < i := fun hlt => hnot (mem_flatten_take_iff.mpr ⟨k, hlt, hat⟩)
  obtain rfl : k = i := by omega
  exact ⟨u, hlead, hat⟩

/-- The level of a job is a number of edges of a chain that ends at it. -/
lemma mem_chainLengths (h : AtLevel (byReadiness jobs edges).levels i job) :
    i ∈ Edge.chainLengths edges job := by
  induction i generalizing job with
  | zero => exact Edge.zero_mem_chainLengths edges job
  | succ i ih =>
      obtain ⟨u, hlead, hu⟩ := exists_leads_of_atLevel_succ h
      exact Edge.succ_mem_chainLengths hlead (ih hu)

/-- A chain that ends at a job has at most as many edges as there are levels before the job. -/
lemma le_of_mem_chainLengths {n : Nat} (h : AtLevel (byReadiness jobs edges).levels i job)
    (hn : n ∈ Edge.chainLengths edges job) : n ≤ i := by
  induction n generalizing i job with
  | zero => exact Nat.zero_le i
  | succ n ih =>
      obtain ⟨u, hlead, hu⟩ := Edge.exists_leads_of_succ_mem hn
      obtain ⟨k, hk, hat⟩ := exists_atLevel_of_leads h hlead
      have := ih hat hu
      omega

/-- **The level of a job is the number of edges of the longest chain that ends at it.** -/
theorem isGreatest_chainLengths (h : AtLevel (byReadiness jobs edges).levels i job) :
    IsGreatest (Edge.chainLengths edges job) i :=
  ⟨mem_chainLengths h, fun _ hn => le_of_mem_chainLengths h hn⟩

end graph

end Layering

namespace JobGraph

/-- A graph is built of a document if its values can be written and the lines of the jobs to show
can be told; then it is the graph of the document, with its findings. So what holds of the graph of
every document holds of every graph that is built. -/
theorem build_eq_ok_iff {d : Document} {source : String} {g : JobGraph} {findings : List Finding} :
    build d source = .ok (g, findings) ↔ Edge.areTextsWritable d = true ∧
      (ofDocument d).checkLines d source = .ok () ∧ g = ofDocument d ∧
      findings = (ofDocument d).findings d source := by
  unfold build
  split_ifs with hwritable
  · simp only [map_eq_ok, mapError_eq_ok, Prod.mk.injEq, true_and, hwritable]
    constructor
    · rintro ⟨⟨⟩, hlines, hg, hfindings⟩
      exact ⟨hlines, hg.symm, hfindings.symm⟩
    · rintro ⟨hlines, hg, hfindings⟩
      exact ⟨(), hlines, hg.symm, hfindings.symm⟩
  · exact ⟨nofun, fun h => absurd h.1 hwritable⟩

/-- The edges of a document lie between its jobs, each of these taken once. -/
lemma ends_mem_eraseDups {d : Document} {e : Edge} (he : e ∈ (ofDocument d).edges) :
    e.source ∈ d.jobIds.eraseDups ∧ e.target ∈ d.jobIds.eraseDups := by
  rw [List.mem_eraseDups, List.mem_eraseDups]
  exact Edge.ends_mem_jobIds he

/-- The levels of a document are those by readiness. -/
lemma levels_ofDocument (d : Document) : (ofDocument d).levels =
    (Layering.byReadiness d.jobIds.eraseDups (ofDocument d).edges).levels :=
  congrArg Layering.levels (Layering.ofEdges_eq_byReadiness fun _ he => Edge.ends_mem_jobIds he)

/-- The cyclic jobs of a document are those that stay blocked. -/
lemma cyclic_ofDocument (d : Document) : (ofDocument d).cyclic =
    (Layering.byReadiness d.jobIds.eraseDups (ofDocument d).edges).blocked :=
  congrArg Layering.blocked (Layering.ofEdges_eq_byReadiness fun _ he => Edge.ends_mem_jobIds he)

/-- The levels of a graph and its cyclic jobs divide the jobs of a document, by the longest chains
that end at them. -/
structure Layered (g : JobGraph) (d : Document) : Prop where
  /-- Each job of the document stands once in a level or once among the cyclic jobs, and nothing
  else stands there. -/
  count_eq : ∀ id, (g.levels.flatten ++ g.cyclic).count id = if id ∈ d.jobIds then 1 else 0
  /-- No level is empty. -/
  nil_notMem : [] ∉ g.levels
  /-- The number of a level is that of the edges of the longest chain that ends at a job of it. -/
  isGreatest : ∀ i level, g.levels[i]? = some level → ∀ id ∈ level,
    IsGreatest (Edge.chainLengths g.edges id) i
  /-- Levels keep the order of the document. -/
  sublist : ∀ level ∈ g.levels, level.Sublist d.jobIds

/-- **The levels of the graph that is built of a document** divide its jobs, those that stay cyclic
aside, by the longest chains that end at them. -/
theorem layered_of_build {d : Document} {source : String} {g : JobGraph} {findings : List Finding}
    (h : build d source = .ok (g, findings)) : g.Layered d := by
  obtain ⟨-, -, rfl, -⟩ := build_eq_ok_iff.mp h
  exact
    { count_eq := fun id => by
        rw [levels_ofDocument, cyclic_ofDocument]
        have hperm :=
          Layering.perm_place (Edge.sourcesOf (ofDocument d).edges) [] d.jobIds.eraseDups
        refine (hperm.count_eq id).trans ?_
        rw [(nodup_eraseDups d.jobIds).count]
        simp only [List.mem_eraseDups]
      nil_notMem := by
        rw [levels_ofDocument]
        exact Layering.nil_notMem_place _ _ _
      isGreatest := fun i level hlevel id hid => by
        rw [levels_ofDocument] at hlevel
        exact Layering.isGreatest_chainLengths ⟨level, hlevel, hid⟩
      sublist := fun level hlevel => by
        rw [levels_ofDocument] at hlevel
        exact (Layering.sublist_of_mem_place hlevel).trans (eraseDups_sublist d.jobIds) }

/-- In the sample, the jobs side by side keep the order in which they are written, and the job that
waits for one on a cycle stands in no level. -/
theorem layered_sample : ∃ d g findings,
    Document.ofTree Document.sampleTree "" "github-actions" "ci.yml" = .ok d ∧
      build d "" = .ok (g, findings) ∧
      (g.levels = [["build", "docs"], ["test", "lint"], ["deploy"]] ∧
        g.cyclic = ["left", "right", "behind"]) ∧
      g.Layered d := by
  obtain ⟨d, hd, hwritable, hlines, hlevels⟩ : ∃ d,
      Document.ofTree Document.sampleTree "" "github-actions" "ci.yml" = .ok d ∧
        Edge.areTextsWritable d = true ∧ (ofDocument d).checkLines d "" = .ok () ∧
        (ofDocument d).levels = [["build", "docs"], ["test", "lint"], ["deploy"]] ∧
        (ofDocument d).cyclic = ["left", "right", "behind"] :=
    exists_ok_of_any (by decide +kernel)
  have hbuild : build d "" = .ok (ofDocument d, (ofDocument d).findings d "") :=
    build_eq_ok_iff.mpr ⟨hwritable, hlines, rfl, rfl⟩
  exact ⟨d, ofDocument d, _, hd, hbuild, hlevels, layered_of_build hbuild⟩

end JobGraph

end PipelineAudit
