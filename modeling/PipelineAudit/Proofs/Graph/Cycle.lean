import Mathlib.Data.Set.Finite.List
import Mathlib.Data.Fintype.EquivFin
import Mathlib.Logic.Relation
import Mathlib.Order.WellFounded
import PipelineAudit.Graph.Basic
import PipelineAudit.Proofs.Graph.Level

/-!
# The jobs on and behind cycles

A job stays without a level exactly if it lies on a cycle or behind one
(`Layering.mem_blocked_iff`). In one direction levels fall along every edge that is followed back,
so a job on a cycle would stand in a level below its own. In the other direction every blocked job
waits for a blocked one, and among finitely many jobs that cannot go on without coming back.

For the same reason the walk that looks for a cycle to report finds one whenever some job is blocked
(`Cycle.find?_isSome_iff`), so the findings about a graph report a cycle once if there is one, and
never otherwise.
-/

namespace PipelineAudit

open Relation (TransGen ReflTransGen)

/-- A job lies on a cycle of dependencies, which may be a single edge. -/
def Edge.OnCycle (edges : List Edge) (job : String) : Prop := TransGen (Edge.Leads edges) job job

namespace Layering

variable {jobs : List String} {edges : List Edge} {u v job : String} {i : Nat}

/-! ## Placed jobs lie behind no cycle -/

/-- Levels fall along dependencies that are followed back. -/
lemma exists_atLevel_of_transGen (h : TransGen (Edge.Leads edges) u v)
    (hv : AtLevel (byReadiness jobs edges).levels i v) :
    ∃ k < i, AtLevel (byReadiness jobs edges).levels k u := by
  induction h generalizing i with
  | single hlead => exact exists_atLevel_of_leads hv hlead
  | tail _ hlead ih =>
      obtain ⟨k, hk, hat⟩ := exists_atLevel_of_leads hv hlead
      obtain ⟨m, hm, hat⟩ := ih hat
      exact ⟨m, hm.trans hk, hat⟩

/-- A job on a cycle stands in no level: it would stand in a lower one too. -/
lemma not_atLevel_of_onCycle (h : Edge.OnCycle edges job) (i : Nat) :
    ¬AtLevel (byReadiness jobs edges).levels i job := by
  induction i using Nat.strong_induction_on with
  | _ i ih =>
      intro hat
      obtain ⟨k, hk, hat⟩ := exists_atLevel_of_transGen h hat
      exact ih k hk hat

/-- A job behind a cycle is not placed. -/
lemma notMem_flatten_of_onCycle {c : String} (hc : Edge.OnCycle edges c)
    (h : ReflTransGen (Edge.Leads edges) c job) :
    job ∉ (byReadiness jobs edges).levels.flatten := by
  intro hmem
  obtain ⟨i, hat⟩ := mem_flatten_iff.mp hmem
  rcases Relation.reflTransGen_iff_eq_or_transGen.mp h with rfl | h
  · exact not_atLevel_of_onCycle hc i hat
  · obtain ⟨k, -, hat⟩ := exists_atLevel_of_transGen h hat
    exact not_atLevel_of_onCycle hc k hat

/-! ## Blocked jobs lie behind a cycle -/

/-- The jobs are those in levels and those that are blocked. -/
lemma mem_flatten_or_mem_blocked (jobs : List String) (edges : List Edge) (job : String) :
    job ∈ (byReadiness jobs edges).levels.flatten ∨ job ∈ (byReadiness jobs edges).blocked ↔
      job ∈ jobs := by
  rw [← List.mem_append]
  exact (perm_place (Edge.sourcesOf edges) [] jobs).mem_iff

/-- A blocked job waits for a blocked job. -/
lemma exists_blocked_source (hends : ∀ e ∈ edges, e.source ∈ jobs ∧ e.target ∈ jobs)
    (h : job ∈ (byReadiness jobs edges).blocked) :
    ∃ s ∈ (byReadiness jobs edges).blocked, Edge.Leads edges s job := by
  obtain ⟨s, hs, hnot⟩ := exists_source_of_mem_blocked h
  have hlead : Edge.Leads edges s job := Edge.mem_sourcesOf.mp hs
  obtain ⟨e, he, rfl, -⟩ := id hlead
  have hjob := (mem_flatten_or_mem_blocked jobs edges e.source).mpr (hends e he).1
  exact ⟨e.source, hjob.resolve_left hnot, hlead⟩

/-- A blocked job lies on a cycle or behind one. -/
lemma exists_onCycle_of_mem_blocked (hends : ∀ e ∈ edges, e.source ∈ jobs ∧ e.target ∈ jobs)
    (h : job ∈ (byReadiness jobs edges).blocked) :
    ∃ c, Edge.OnCycle edges c ∧ ReflTransGen (Edge.Leads edges) c job := by
  by_contra hnone
  -- the blocked jobs for which `job` waits, itself included, ordered by dependency
  let Ahead := {x // x ∈ (byReadiness jobs edges).blocked ∧ ReflTransGen (Edge.Leads edges) x job}
  let before : Ahead → Ahead → Prop := fun a b => TransGen (Edge.Leads edges) a.1 b.1
  have : Finite Ahead :=
    Set.Finite.subset (List.finite_toSet (byReadiness jobs edges).blocked) fun _ hx => hx.1
  have : IsTrans Ahead before := ⟨fun _ _ _ hab hbc => hab.trans hbc⟩
  have : Std.Irrefl before := ⟨fun a hcycle => hnone ⟨a.1, hcycle, a.2.2⟩⟩
  have hwf : WellFounded before := Finite.wellFounded_of_trans_of_irrefl before
  obtain ⟨first, -, hmin⟩ := hwf.has_min Set.univ ⟨⟨job, h, .refl⟩, trivial⟩
  obtain ⟨s, hs, hlead⟩ := exists_blocked_source hends first.2.1
  exact hmin ⟨s, hs, .head hlead first.2.2⟩ trivial (.single hlead)

/-- **A job is blocked exactly if it lies on a cycle or behind one.** -/
theorem mem_blocked_iff (hends : ∀ e ∈ edges, e.source ∈ jobs ∧ e.target ∈ jobs) :
    job ∈ (byReadiness jobs edges).blocked ↔
      ∃ c, Edge.OnCycle edges c ∧ ReflTransGen (Edge.Leads edges) c job := by
  constructor
  · exact exists_onCycle_of_mem_blocked hends
  · rintro ⟨c, hc, hreach⟩
    have hjob : job ∈ jobs := by
      -- the last edge of the way to `job`, or of the cycle, ends there
      have hlast : TransGen (Edge.Leads edges) c job := hc.trans_left hreach
      obtain ⟨s, -, e, he, -, rfl⟩ := Relation.TransGen.tail'_iff.mp hlast
      exact (hends e he).2
    exact ((mem_flatten_or_mem_blocked jobs edges job).mpr hjob).resolve_left
      (notMem_flatten_of_onCycle hc hreach)

end Layering

/-! ## The walk finds a cycle -/

namespace Cycle

/-- If every job has a predecessor among the jobs, the walk comes back to a job it has met: the jobs
that it has not met run out. -/
lemma walk_isSome {source? : String → Option String} {jobs : List String}
    (hsource : ∀ x ∈ jobs, ∃ y ∈ jobs, source? x = some y) (unvisited trail : List String)
    (job : String) (hjob : job ∈ jobs) (hmet : ∀ x ∈ jobs, x ∈ trail ∨ x ∈ unvisited) :
    (walk source? unvisited trail job).isSome = true := by
  fun_induction walk source? unvisited trail job with
  | case1 unvisited trail job hback => rfl
  | case2 unvisited trail job hnew hleft previous hprevious ih =>
      obtain ⟨y, hy, hsome⟩ := hsource job hjob
      obtain rfl : previous = y := Option.some.inj (hprevious.symm.trans hsome)
      refine ih hy fun x hx => ?_
      by_cases hxj : x = job
      · exact Or.inl (hxj ▸ List.mem_cons_self)
      · rcases hmet x hx with htrail | hun
        · exact Or.inl (List.mem_cons_of_mem job htrail)
        · exact Or.inr ((List.mem_erase_of_ne hxj).mpr hun)
  | case3 unvisited trail job hnew hleft hnone =>
      obtain ⟨y, -, hsome⟩ := hsource job hjob
      rw [hnone] at hsome
      cases hsome
  | case4 unvisited trail job hnew hgone => exact absurd (hmet job hjob) (by simp [hnew, hgone])

/-- The first predecessor among blocked jobs exists if there is any. -/
lemma exists_blockedSource {blocked : List String} {edges : List Edge} {s job : String}
    (hs : s ∈ blocked) (h : Edge.Leads edges s job) :
    ∃ y ∈ blocked, blockedSource? blocked edges job = some y := by
  obtain ⟨e, he, rfl, rfl⟩ := h
  have hfound : (edges.find? fun a => a.target == e.target && blocked.contains a.source).isSome :=
    List.find?_isSome.mpr ⟨e, he, by simpa using hs⟩
  obtain ⟨a, ha⟩ := Option.isSome_iff_exists.mp hfound
  have hblocked := List.find?_some ha
  refine ⟨a.source, by simpa using (Bool.and_eq_true_iff.mp hblocked).2, ?_⟩
  rw [blockedSource?, ha]
  rfl

/-- A cycle is found if there are blocked jobs, each one waiting for another. -/
lemma find?_isSome_iff {blocked : List String} {edges : List Edge}
    (h : ∀ job ∈ blocked, ∃ s ∈ blocked, Edge.Leads edges s job) :
    (find? blocked edges).isSome = true ↔ blocked ≠ [] := by
  have hsource : ∀ x ∈ blocked, ∃ y ∈ blocked, blockedSource? blocked edges x = some y := by
    intro x hx
    obtain ⟨s, hs, hlead⟩ := h x hx
    exact exists_blockedSource hs hlead
  unfold find?
  split
  · simp
  · rename_i first rest
    have hwalk := walk_isSome hsource (first :: rest) [] first List.mem_cons_self fun x hx =>
      Or.inr hx
    simp [hwalk]

end Cycle

namespace JobGraph

/-- How many findings are about a cycle. -/
def cycleReports (findings : List Finding) : Nat :=
  findings.countP fun f => f.title == "Circular job dependency"

/-- The findings about a graph report a cycle once if one is found. -/
lemma cycleReports_findings (g : JobGraph) (d : Document) (text : String) :
    cycleReports (g.findings d text) = if g.cycle?.isSome then 1 else 0 := by
  unfold cycleReports findings
  rw [List.countP_append, List.countP_append]
  have hpath : (g.criticalPaths.head?.map (pathFinding d text)).toList.countP
      (fun f => f.title == "Circular job dependency") = 0 := by
    cases g.criticalPaths.head? <;> rfl
  have hisolated : (if g.edges.isEmpty || g.isolated.isEmpty then [] else
      [isolatedFinding d g.isolated]).countP (fun f => f.title == "Circular job dependency") =
        0 := by
    split <;> rfl
  rw [hpath, hisolated]
  cases g.cycle? <;> rfl

/-- The cyclic jobs of a graph are those on and behind its cycles, and the findings of a document
report a cycle once if there is one. -/
structure ReportsCycles (g : JobGraph) (d : Document) (text : String) : Prop where
  /-- A job is cyclic if it lies on a cycle, or if dependencies lead to it from a job on a cycle. -/
  cyclic_iff : ∀ id, id ∈ g.cyclic ↔ Edge.OnCycle g.edges id ∨
    ∃ c, Edge.OnCycle g.edges c ∧ TransGen (Edge.Leads g.edges) c id
  /-- A graph with cycles is reported once, however many there are. -/
  reports_of_cycle : (∃ c, Edge.OnCycle g.edges c) → cycleReports (g.findings d text) = 1
  /-- A graph without cycles is not reported. -/
  reports_of_acyclic : (∀ c, ¬Edge.OnCycle g.edges c) → cycleReports (g.findings d text) = 0

/-- The cyclic jobs of a document are those on and behind cycles. -/
lemma mem_cyclic_iff (d : Document) (id : String) : id ∈ (ofDocument d).cyclic ↔
    ∃ c, Edge.OnCycle (ofDocument d).edges c ∧
      ReflTransGen (Edge.Leads (ofDocument d).edges) c id := by
  rw [cyclic_ofDocument]
  exact Layering.mem_blocked_iff fun _ he => ends_mem_eraseDups he

/-- A cyclic job of a document waits for a cyclic job. -/
lemma exists_cyclic_source {d : Document} {job : String} (h : job ∈ (ofDocument d).cyclic) :
    ∃ s ∈ (ofDocument d).cyclic, Edge.Leads (ofDocument d).edges s job := by
  rw [cyclic_ofDocument] at h ⊢
  exact Layering.exists_blocked_source (fun _ he => ends_mem_eraseDups he) h

/-- A cycle is found in the graph of a document if there is one. -/
lemma cycle?_isSome_iff (d : Document) :
    (ofDocument d).cycle?.isSome = true ↔ ∃ c, Edge.OnCycle (ofDocument d).edges c := by
  rw [cycle?, Cycle.find?_isSome_iff fun _ hjob => exists_cyclic_source hjob]
  constructor
  · intro hne
    obtain ⟨job, hjob⟩ := List.exists_mem_of_ne_nil _ hne
    obtain ⟨c, hc, -⟩ := (mem_cyclic_iff d job).mp hjob
    exact ⟨c, hc⟩
  · rintro ⟨c, hc⟩
    exact List.ne_nil_of_mem ((mem_cyclic_iff d c).mpr ⟨c, hc, .refl⟩)

/-- **The cycles of a document**: its cyclic jobs are those on and behind them, and its findings,
with any source text to show, report a cycle once or not at all. -/
theorem reportsCycles (d : Document) (text : String) : (ofDocument d).ReportsCycles d text where
  cyclic_iff id := by
    rw [mem_cyclic_iff]
    constructor
    · rintro ⟨c, hc, hreach⟩
      rcases Relation.reflTransGen_iff_eq_or_transGen.mp hreach with rfl | hreach
      · exact Or.inl hc
      · exact Or.inr ⟨c, hc, hreach⟩
    · rintro (hid | ⟨c, hc, hreach⟩)
      · exact ⟨id, hid, .refl⟩
      · exact ⟨c, hc, hreach.to_reflTransGen⟩
  reports_of_cycle hcycle := by
    rw [cycleReports_findings, if_pos ((cycle?_isSome_iff d).mpr hcycle)]
  reports_of_acyclic hnone := by
    rw [cycleReports_findings, if_neg]
    intro hsome
    obtain ⟨c, hc⟩ := (cycle?_isSome_iff d).mp hsome
    exact hnone c hc

end JobGraph

end PipelineAudit
