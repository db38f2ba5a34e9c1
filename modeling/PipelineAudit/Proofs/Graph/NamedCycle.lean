import PipelineAudit.Proofs.Graph.Cycle

/-!
# The cycle that is named

The report on a cycle names one cycle, and lists the other cyclic jobs beside it as blocked by it.

The cycle is found by walking back from the first cyclic job, each time to the first source that is
cyclic too (`Cycle.Walked`). No job of the walk is met twice before it ends, so it has at most as
many steps as there are cyclic jobs, and what is named is a cycle (`Cycle.Walked.isLoop`). The jobs
beside it lie on cycles or behind some, and these need not be the one that is named
(`JobGraph.exists_unblocked`).
-/

namespace PipelineAudit

open Relation (TransGen ReflTransGen)

namespace Cycle

/-- Jobs in the order of dependencies: each one leads to the next, and the last one to the first. -/
structure IsLoop (edges : List Edge) (jobs : List String) : Prop where
  ne_nil : jobs ≠ []
  /-- No job stands in it twice. -/
  nodup : jobs.Nodup
  /-- The jobs, and the first one again after them, are a chain of dependencies. -/
  isChain : (jobs ++ [jobs.headD ""]).IsChain (Edge.Leads edges)

/-- A walk from a job along the sources that are found. It ends at the first step that leads to a
job it has met. -/
structure Walked (source? : String → Option String) (first : String) (path : List String)
    (back : String) : Prop where
  head : path.head? = some first
  /-- For each job a source is found, and the walk goes on there. -/
  steps : path.IsChain fun a b => source? a = some b
  /-- For the last job too a source is found, to which the walk comes back. -/
  returns : path.getLast?.bind source? = some back
  met : back ∈ path
  nodup : path.Nodup

variable {source? : String → Option String} {blocked trail path cycle : List String}
    {edges : List Edge}
  {first job back : String}

/-! ## The walk -/

/-- What is left of a list from a job on, backwards, is what comes before the job in the reversed
list, and the job. -/
lemma reverse_dropWhile_reverse (hmem : job ∈ trail) (hnodup : trail.Nodup) :
    (trail.reverse.dropWhile (· ≠ job)).reverse = trail.takeWhile (· ≠ job) ++ [job] := by
  obtain ⟨later, earlier, rfl⟩ := List.append_of_mem hmem
  obtain ⟨-, hearlier, hapart⟩ := List.nodup_append.mp hnodup
  have hlater : ∀ x ∈ later, decide (x ≠ job) = true := fun x hx => by
    simpa using hapart x hx job List.mem_cons_self
  have hbefore : ∀ x ∈ earlier.reverse, decide (x ≠ job) = true := fun x hx => by
    have hne : x ≠ job := fun heq => (List.nodup_cons.mp hearlier).1 (heq ▸ List.mem_reverse.mp hx)
    simpa using hne
  rw [List.reverse_append, List.reverse_cons, List.append_assoc,
    List.dropWhile_append_of_pos hbefore, List.takeWhile_append_of_pos hlater]
  simp

/-- A walk that finds a cycle has come back, and the cycle is the part since then, in the order of
dependencies. -/
lemma exists_walked {unvisited : List String} (h : walk source? unvisited trail job = some cycle)
    (hnodup : trail.Nodup) (hsteps : (job :: trail).IsChain fun b a => source? a = some b) :
    ∃ path back, Walked source? (trail.getLast?.getD job) path back ∧
      cycle = (path.dropWhile (· ≠ back)).reverse := by
  fun_induction walk source? unvisited trail job with
  | case1 unvisited trail job hback =>
      cases h
      obtain ⟨latest, rest, rfl⟩ := List.exists_cons_of_ne_nil (List.ne_nil_of_mem hback)
      obtain ⟨hreturns, hchain⟩ := List.isChain_cons_cons.mp hsteps
      refine ⟨(latest :: rest).reverse, job, ?_, (reverse_dropWhile_reverse hback hnodup).symm⟩
      exact
        { head := by
            rw [List.head?_reverse, List.getLast?_eq_some_getLast (List.cons_ne_nil latest rest)]
            rfl
          steps := List.isChain_reverse.mpr hchain
          returns := by
            rw [List.getLast?_reverse]
            exact hreturns
          met := List.mem_reverse.mpr hback
          nodup := List.nodup_reverse.mpr hnodup }
  | case2 unvisited trail job hnew hleft previous hprevious ih =>
      have hwalked := ih h (List.nodup_cons.mpr ⟨hnew, hnodup⟩)
        (List.isChain_cons_cons.mpr ⟨hprevious, hsteps⟩)
      rwa [List.getLast?_cons, Option.getD_some] at hwalked
  | case3 | case4 => cases h

/-- All jobs of a walk are blocked, if the first one is and all sources are. -/
lemma Walked.subset (h : Walked source? first path back) (hfirst : first ∈ blocked)
    (hsource : ∀ a b, source? a = some b → b ∈ blocked) : path ⊆ blocked := by
  obtain ⟨rest, rfl⟩ := List.head?_eq_some_iff.mp h.head
  have hrest : ∀ (a : String) (jobs : List String),
      (a :: jobs).IsChain (fun a b => source? a = some b) → jobs ⊆ blocked := by
    intro a jobs hsteps
    induction jobs generalizing a with
    | nil => exact List.nil_subset blocked
    | cons b jobs ih =>
        obtain ⟨hstep, hsteps⟩ := List.isChain_cons_cons.mp hsteps
        exact List.cons_subset.mpr ⟨hsource a b hstep, ih b hsteps⟩
  exact List.cons_subset.mpr ⟨hfirst, hrest first rest h.steps⟩

/-- **What a walk names is a cycle**: the part of it from the job to which it comes back,
backwards. -/
theorem Walked.isLoop (h : Walked source? first path back)
    (hsource : ∀ a b, source? a = some b → Edge.Leads edges b a) :
    IsLoop edges (path.dropWhile (· ≠ back)).reverse := by
  obtain ⟨before, after, hsplit⟩ := List.append_of_mem h.met
  obtain rfl := hsplit
  obtain ⟨-, hafter, hapart⟩ := List.nodup_append.mp h.nodup
  have hpart : (before ++ back :: after).dropWhile (· ≠ back) = back :: after := by
    rw [List.dropWhile_append_of_pos fun x hx => by simpa using hapart x hx back List.mem_cons_self]
    simp
  have hsteps : (back :: after).IsChain fun a b => Edge.Leads edges b a :=
    (List.isChain_append.mp h.steps).2.1.imp hsource
  have hlast : ∀ x ∈ (back :: after).getLast?, Edge.Leads edges back x := fun x hx => by
    have hreturns := h.returns
    rw [List.getLast?_append_of_ne_nil before (List.cons_ne_nil back after),
      Option.mem_def.mp hx] at hreturns
    exact hsource x back hreturns
  rw [hpart]
  refine ⟨by simp, List.nodup_reverse.mpr hafter, ?_⟩
  refine List.isChain_append.mpr ⟨List.isChain_reverse.mpr hsteps, List.isChain_singleton _, ?_⟩
  -- the part ends, backwards, with the job to which the walk came back
  intro x hx y hy
  obtain rfl : x = back := by simpa using hx.symm
  obtain rfl := Option.mem_some.mp hy
  obtain ⟨last, hlastEq⟩ := Option.isSome_iff_exists.mp
    (List.getLast?_isSome.mpr (List.cons_ne_nil x after))
  rw [List.headD_eq_head?_getD, List.head?_reverse, hlastEq]
  exact hlast last hlastEq

/-! ## Cycles among blocked jobs -/

/-- The source that is found for a job is blocked, and leads to the job. -/
lemma of_blockedSource? {s : String} (h : blockedSource? blocked edges job = some s) :
    s ∈ blocked ∧ Edge.Leads edges s job := by
  obtain ⟨e, he, rfl⟩ := Option.map_eq_some_iff.mp h
  have hfound := List.find?_some he
  rw [Bool.and_eq_true, beq_iff_eq, List.contains_iff_mem] at hfound
  exact ⟨hfound.2, e, List.mem_of_find?_eq_some he, rfl, hfound.1⟩

/-- A cycle that is found comes from a walk back from the first blocked job. -/
lemma exists_walked_of_find? (h : find? blocked edges = some cycle) :
    ∃ path back, Walked (blockedSource? blocked edges) (blocked.headD "") path back ∧
      cycle = (path.dropWhile (· ≠ back)).reverse := by
  unfold find? at h
  split at h
  · cases h
  · exact exists_walked h List.nodup_nil (List.isChain_singleton _)

end Cycle

namespace JobGraph

/-! ## The report -/

/-- The sentence that names a cycle: its jobs with arrows between them, and the first one again. -/
def namingSentence (cycle : List String) : String :=
  "Jobs form a dependency cycle: " ++ arrows (cycle ++ [cycle.headD ""])

/-- A cycle is named by the report on the cyclic jobs of a graph. -/
structure NamesCycle (g : JobGraph) (cycle : List String) : Prop where
  /-- For every cyclic job a source is found, and it is cyclic itself. -/
  exists_source : ∀ job ∈ g.cyclic, ∃ s ∈ g.cyclic,
    Cycle.blockedSource? g.cyclic g.edges job = some s
  /-- The walk starts at the first cyclic job and has at most as many steps as there are cyclic
  jobs; the cycle is the part of it from the job to which it comes back, in the order of
  dependencies. -/
  exists_walk : ∃ path back,
    Cycle.Walked (Cycle.blockedSource? g.cyclic g.edges) (g.cyclic.headD "") path back ∧
      path.length ≤ g.cyclic.length ∧ cycle = (path.dropWhile (· ≠ back)).reverse
  isLoop : Cycle.IsLoop g.edges cycle
  subset : cycle ⊆ g.cyclic

/-- The findings about a graph with a cycle start with the one that names it. -/
lemma cycleFinding_mem_findings {g : JobGraph} {cycle : List String} (h : g.cycle? = some cycle)
    (d : Document) (text : String) : cycleFinding d text g.cyclic cycle ∈ g.findings d text := by
  rw [findings, h]
  exact List.mem_append_left _ (List.mem_append_left _ List.mem_cons_self)

/-- A cycle that is found in the graph of a document is named. -/
lemma namesCycle_of_cycle? {d : Document} {cycle : List String}
    (h : (ofDocument d).cycle? = some cycle) : (ofDocument d).NamesCycle cycle := by
  have hsource : ∀ a b, Cycle.blockedSource? (ofDocument d).cyclic (ofDocument d).edges a = some b →
      b ∈ (ofDocument d).cyclic ∧ Edge.Leads (ofDocument d).edges b a := fun a b =>
    Cycle.of_blockedSource?
  obtain ⟨path, back, hwalked, hcycle⟩ := Cycle.exists_walked_of_find? h
  have hfirst : (ofDocument d).cyclic.headD "" ∈ (ofDocument d).cyclic := by
    have hne : (ofDocument d).cyclic ≠ [] := by
      intro hnil
      rw [cycle?, hnil] at h
      cases h
    obtain ⟨first, rest, heq⟩ := List.exists_cons_of_ne_nil hne
    rw [heq]
    exact List.mem_cons_self
  have hsubset := hwalked.subset hfirst fun a b hab => (hsource a b hab).1
  exact
    { exists_source := fun job hjob => by
        obtain ⟨s, hs, hlead⟩ := exists_cyclic_source hjob
        exact Cycle.exists_blockedSource hs hlead
      exists_walk := ⟨path, back, hwalked, (hwalked.nodup.subperm hsubset).length_le, hcycle⟩
      isLoop := hcycle ▸ hwalked.isLoop fun a b hab => (hsource a b hab).2
      subset := fun job hjob => by
        rw [hcycle, List.mem_reverse] at hjob
        exact hsubset ((List.dropWhile_sublist _).subset hjob) }

/-- **A cycle is named whenever some job is cyclic.** The report on it, with any source text to
show, starts with its jobs in the order of dependencies. -/
theorem exists_namesCycle (d : Document) (text : String) (h : (ofDocument d).cyclic ≠ []) :
    ∃ cycle, (ofDocument d).cycle? = some cycle ∧ (ofDocument d).NamesCycle cycle ∧
      ∃ f ∈ (ofDocument d).findings d text, f.title = "Circular job dependency" ∧
        ∃ rest, f.description = namingSentence cycle ++ rest := by
  have hfound : (ofDocument d).cycle?.isSome = true := by
    obtain ⟨job, hjob⟩ := List.exists_mem_of_ne_nil _ h
    obtain ⟨c, hc, -⟩ := (mem_cyclic_iff d job).mp hjob
    exact (cycle?_isSome_iff d).mpr ⟨c, hc⟩
  obtain ⟨cycle, hcycle⟩ := Option.isSome_iff_exists.mp hfound
  refine ⟨cycle, hcycle, namesCycle_of_cycle? hcycle, _, cycleFinding_mem_findings hcycle d text,
    rfl, ?_⟩
  dsimp only [cycleFinding]
  split_ifs
  · exact ⟨"", (String.append_empty).symm⟩
  · exact ⟨_, by rw [String.append_assoc]; rfl⟩

/-- In the sample, the job behind the two that wait for each other is cyclic, and not named. -/
theorem exists_namesCycle_sample : ∃ d,
    Document.ofTree Document.sampleTree "" "github-actions" "ci.yml" = .ok d ∧
      ((ofDocument d).cyclic = ["left", "right", "behind"] ∧
        (ofDocument d).cycle? = some ["right", "left"]) ∧
      ∃ cycle, (ofDocument d).cycle? = some cycle ∧ (ofDocument d).NamesCycle cycle ∧
        ∃ f ∈ (ofDocument d).findings d "", f.title = "Circular job dependency" ∧
          ∃ rest, f.description = namingSentence cycle ++ rest := by
  obtain ⟨d, hd, hcyclic, hcycle⟩ : ∃ d,
      Document.ofTree Document.sampleTree "" "github-actions" "ci.yml" = .ok d ∧
        (ofDocument d).cyclic = ["left", "right", "behind"] ∧
        (ofDocument d).cycle? = some ["right", "left"] := exists_ok_of_any (by decide +kernel)
  exact ⟨d, hd, ⟨hcyclic, hcycle⟩, exists_namesCycle d "" (by rw [hcyclic]; decide)⟩

/-! ## The jobs beside the cycle -/

/-- The cyclic jobs that are not on a cycle. -/
def jobsBeside (g : JobGraph) (cycle : List String) : List String :=
  g.cyclic.filter fun job => !cycle.contains job

/-- The sentence about the jobs beside a cycle that is named; there is none if there are no such
jobs. -/
def blockedSentence (jobs : List String) : String :=
  if jobs.isEmpty then "" else ". Jobs blocked by the cycle: " ++ Text.join ", " jobs

/-- The report on a cycle that is named lists the jobs beside it. -/
structure ListsBeside (g : JobGraph) (cycle : List String) (f : Finding) : Prop where
  description : f.description = namingSentence cycle ++ blockedSentence (g.jobsBeside cycle)
  /-- The jobs beside the cycle are not on it, and they lie on a cycle or behind one. -/
  mem_iff : ∀ job, job ∈ g.jobsBeside cycle ↔
    job ∉ cycle ∧ ∃ c, Edge.OnCycle g.edges c ∧ ReflTransGen (Edge.Leads g.edges) c job
  /-- All of them are blocked by the cycle that is named exactly if every other cycle is. -/
  forall_blocked_iff :
    (∀ job ∈ g.jobsBeside cycle, ∃ b ∈ cycle, TransGen (Edge.Leads g.edges) b job) ↔
    ∀ c, Edge.OnCycle g.edges c → ∃ b ∈ cycle, ReflTransGen (Edge.Leads g.edges) b c

/-- The jobs beside a cycle are the others that are cyclic. -/
lemma mem_jobsBeside {g : JobGraph} {cycle : List String} {job : String} :
    job ∈ g.jobsBeside cycle ↔ job ∈ g.cyclic ∧ job ∉ cycle := by
  simp [jobsBeside]

/-- **The report on a cycle** lists beside it what is left of the cyclic jobs. -/
theorem listsBeside {d : Document} {cycle : List String} (h : (ofDocument d).cycle? = some cycle)
    (text : String) : ∃ f ∈ (ofDocument d).findings d text, f.title = "Circular job dependency" ∧
      (ofDocument d).ListsBeside cycle f := by
  refine ⟨_, cycleFinding_mem_findings h d text, rfl, ?_⟩
  exact
    { description := by
        dsimp only [cycleFinding, blockedSentence, jobsBeside]
        split_ifs
        · exact (String.append_empty).symm
        · rw [String.append_assoc]
          rfl
      mem_iff := fun job => by rw [mem_jobsBeside, mem_cyclic_iff, and_comm]
      forall_blocked_iff := by
        constructor
        · intro hall c hc
          by_cases hmem : c ∈ cycle
          · exact ⟨c, hmem, .refl⟩
          · have hcyclic : c ∈ (ofDocument d).cyclic := (mem_cyclic_iff d c).mpr ⟨c, hc, .refl⟩
            obtain ⟨b, hb, hreach⟩ := hall c (mem_jobsBeside.mpr ⟨hcyclic, hmem⟩)
            exact ⟨b, hb, hreach.to_reflTransGen⟩
        · intro hall job hjob
          obtain ⟨hcyclic, hnot⟩ := mem_jobsBeside.mp hjob
          obtain ⟨c, hc, hbehind⟩ := (mem_cyclic_iff d job).mp hcyclic
          obtain ⟨b, hb, hreach⟩ := hall c hc
          rcases Relation.reflTransGen_iff_eq_or_transGen.mp (hreach.trans hbehind)
              with rfl | hreach
          · exact absurd hb hnot
          · exact ⟨b, hb, hreach⟩ }

/-- Two jobs that wait for each other, two others that do so as well, and one behind the first
two. -/
def apartTree : Value :=
  .ofFields [("on", .str "push"), ("jobs", .ofFields [
    ("a", .ofFields [("needs", .str "b")]), ("b", .ofFields [("needs", .str "a")]),
    ("c", .ofFields [("needs", .str "d")]), ("d", .ofFields [("needs", .str "c")]),
    ("e", .ofFields [("needs", .str "a")])])]

/-- Of two cycles apart from each other the one with the first job is named, and the jobs of the
other one are beside it, like the job that waits for it. -/
theorem listsBeside_apart : ∃ d, Document.ofTree apartTree "" "github-actions" "ci.yml" = .ok d ∧
    ((ofDocument d).cycle? = some ["b", "a"] ∧
      (ofDocument d).jobsBeside ["b", "a"] = ["c", "d", "e"]) ∧
    ∃ f ∈ (ofDocument d).findings d "", f.title = "Circular job dependency" ∧
      (ofDocument d).ListsBeside ["b", "a"] f := by
  obtain ⟨d, hd, hcycle, hbeside⟩ : ∃ d,
      Document.ofTree apartTree "" "github-actions" "ci.yml" = .ok d ∧
      (ofDocument d).cycle? = some ["b", "a"] ∧
      (ofDocument d).jobsBeside ["b", "a"] = ["c", "d", "e"] := exists_ok_of_any (by decide +kernel)
  exact ⟨d, hd, ⟨hcycle, hbeside⟩, listsBeside hcycle ""⟩

/-- Jobs from which no edge leads out are not left along edges. -/
lemma mem_of_reflTransGen {edges : List Edge} {jobs : List String} {u v : String}
    (hclosed : ∀ e ∈ edges, e.source ∈ jobs → e.target ∈ jobs) (hu : u ∈ jobs)
    (h : ReflTransGen (Edge.Leads edges) u v) : v ∈ jobs := by
  induction h with
  | refl => exact hu
  | tail _ hlead ih =>
      obtain ⟨e, he, rfl, rfl⟩ := hlead
      exact hclosed e he ih

/-- **A job may be listed as blocked by a cycle that does not block it**: it is on a cycle of its
own. -/
theorem exists_unblocked :
    ∃ d cycle, Document.ofTree apartTree "" "github-actions" "ci.yml" = .ok d ∧
    (ofDocument d).cycle? = some cycle ∧
    (∃ f ∈ (ofDocument d).findings d "", f.title = "Circular job dependency" ∧ f.description =
      "Jobs form a dependency cycle: b → a → b. Jobs blocked by the cycle: c, d, e") ∧
    ∃ job ∈ (ofDocument d).jobsBeside cycle,
      ∀ b ∈ cycle, ¬ReflTransGen (Edge.Leads (ofDocument d).edges) b job := by
  obtain ⟨d, hd, hcycle, hbeside, hreport, hclosed⟩ : ∃ d,
      Document.ofTree apartTree "" "github-actions" "ci.yml" = .ok d ∧
      (ofDocument d).cycle? = some ["b", "a"] ∧ "c" ∈ (ofDocument d).jobsBeside ["b", "a"] ∧
      (∃ f ∈ (ofDocument d).findings d "", f.title = "Circular job dependency" ∧ f.description =
        "Jobs form a dependency cycle: b → a → b. Jobs blocked by the cycle: c, d, e") ∧
      ∀ e ∈ (ofDocument d).edges, e.source ∈ ["a", "b", "e"] → e.target ∈ ["a", "b", "e"] :=
    exists_ok_of_any (by decide +kernel)
  refine ⟨d, ["b", "a"], hd, hcycle, hreport, "c", hbeside, fun b hb hreach => ?_⟩
  have hfrom : b ∈ ["a", "b", "e"] := by
    simp only [List.mem_cons, List.not_mem_nil, or_false] at hb ⊢
    tauto
  exact absurd (mem_of_reflTransGen hclosed hfrom hreach) (by decide)

end JobGraph

end PipelineAudit
