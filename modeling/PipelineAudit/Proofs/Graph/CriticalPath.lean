import Mathlib.Data.List.Chain
import Mathlib.Data.String.Basic
import PipelineAudit.Graph.Basic
import PipelineAudit.Proofs.Assoc
import PipelineAudit.Proofs.Graph.Level

/-!
# Which paths are critical

`CriticalPath.bestPaths` goes through the levels from the last to the first and gives every job the
best path from it: the longest one, and of several longest ones the lexicographically least
(`Precedes`). An edge never leads back to the same level or an earlier one (`Forward`), so the paths
from a job of a level go on through later levels only, where the best paths are known. The best path
from the job is then its own name in front of the best of those (`knows_bestPaths`), since putting
one job in front of two paths keeps their order (`Precedes.cons`).

What is shown for a document are the best paths from the jobs that wait for nothing and lead to
something. The first of them has a job in every level, because the longest chain that ends in the
last level starts at such a job.
-/

namespace PipelineAudit

namespace CriticalPath

variable {p q r : Path} {edges : List Edge} {jobs : List String} {s t : String}

/-! ## The order of paths -/

/-- A path comes before another one if it is longer, or as long and lexicographically less. -/
def Before (p q : Path) : Prop := q.length < p.length ∨ (p.length = q.length ∧ p < q)

/-- A path comes before another one or is the same. -/
def Precedes (p q : Path) : Prop := p = q ∨ Before p q

/-- The test for a better path. -/
lemma better_iff : better p q = true ↔ Before p q := by
  simp only [better, Before, Bool.or_eq_true, decide_eq_true_eq, Bool.and_eq_true, beq_iff_eq]

/-- The order of paths is strict. -/
lemma Before.irrefl (p : Path) : ¬Before p p := by
  rintro (h | ⟨-, h⟩)
  · exact Nat.lt_irrefl _ h
  · exact lt_irrefl p h

/-- The order of paths is transitive. -/
lemma Before.trans (hpq : Before p q) (hqr : Before q r) : Before p r := by
  rcases hpq with hlen | ⟨hlen, hlt⟩
  · rcases hqr with hlen' | ⟨hlen', -⟩
    · exact Or.inl (hlen'.trans hlen)
    · exact Or.inl (by omega)
  · rcases hqr with hlen' | ⟨hlen', hlt'⟩
    · exact Or.inl (by omega)
    · exact Or.inr ⟨hlen.trans hlen', lt_trans hlt hlt'⟩

/-- Of two paths, one precedes the other. -/
lemma precedes_or_before (p q : Path) : Precedes p q ∨ Before q p := by
  rcases lt_trichotomy p.length q.length with hlen | hlen | hlen
  · exact Or.inr (Or.inl hlen)
  · rcases lt_trichotomy p q with hlt | heq | hlt
    · exact Or.inl (Or.inr (Or.inr ⟨hlen, hlt⟩))
    · exact Or.inl (Or.inl heq)
    · exact Or.inr (Or.inr ⟨hlen.symm, hlt⟩)
  · exact Or.inl (Or.inr (Or.inl hlen))

/-- A path precedes those that are not better. -/
lemma precedes_of_not_before (h : ¬Before q p) : Precedes p q :=
  (precedes_or_before p q).resolve_right h

/-- Preceding is transitive. -/
lemma Precedes.trans (hpq : Precedes p q) (hqr : Precedes q r) : Precedes p r := by
  rcases hpq with rfl | hpq
  · exact hqr
  · rcases hqr with rfl | hqr
    · exact Or.inr hpq
    · exact Or.inr (hpq.trans hqr)

/-- One job in front of two paths keeps their order. -/
lemma Precedes.cons (x : String) (h : Precedes p q) : Precedes (x :: p) (x :: q) := by
  rcases h with rfl | hlen | ⟨hlen, hlt⟩
  · exact Or.inl rfl
  · exact Or.inr (Or.inl (Nat.succ_lt_succ hlen))
  · exact Or.inr (Or.inr ⟨congrArg Nat.succ hlen, List.cons_lt_cons_iff.mpr (Or.inr ⟨rfl, hlt⟩)⟩)

/-- A path that precedes another one is at least as long. -/
lemma Precedes.length_le (h : Precedes p q) : q.length ≤ p.length := by
  rcases h with rfl | hlen | ⟨hlen, -⟩
  · exact le_rfl
  · exact hlen.le
  · exact hlen.ge

/-- The test by which paths are compared job by job. -/
lemma atMost_iff : atMost p q = true ↔ p = q ∨ p < q := by
  fun_induction atMost p q with
  | case1 q => cases q <;> simp
  | case2 x xs => simp
  | case3 x xs y ys ih =>
      simp only [Bool.or_eq_true, decide_eq_true_eq, Bool.and_eq_true, beq_iff_eq, ih,
        List.cons_lt_cons_iff, List.cons.injEq]
      tauto

/-- The test by which paths are sorted. -/
lemma inOrder_iff : inOrder p q = true ↔ Precedes p q := by
  simp only [inOrder, Precedes, Before, Bool.or_eq_true, decide_eq_true_eq, Bool.and_eq_true,
    beq_iff_eq, atMost_iff]
  constructor
  · rintro (hlen | ⟨hlen, rfl | hlt⟩)
    · exact Or.inr (Or.inl hlen)
    · exact Or.inl rfl
    · exact Or.inr (Or.inr ⟨hlen, hlt⟩)
  · rintro (rfl | hlen | ⟨hlen, hlt⟩)
    · exact Or.inr ⟨rfl, Or.inl rfl⟩
    · exact Or.inl hlen
    · exact Or.inr ⟨hlen, Or.inr hlt⟩

/-! ## Paths -/

/-- A path along dependencies that starts at a job and visits only the given ones. -/
structure PathFrom (edges : List Edge) (jobs : List String) (start : String) (p : Path) : Prop where
  /-- It starts there. -/
  head : p.head? = some start
  /-- Each job leads to the next one. -/
  chain : p.IsChain (Edge.Leads edges)
  /-- It stays among the given jobs. -/
  within : ∀ x ∈ p, x ∈ jobs

/-- A path that precedes all others from a job. -/
def IsBest (edges : List Edge) (jobs : List String) (start : String) (p : Path) : Prop :=
  PathFrom edges jobs start p ∧ ∀ q, PathFrom edges jobs start q → Precedes p q

/-- A job alone is a path. -/
lemma PathFrom.single (hs : s ∈ jobs) : PathFrom edges jobs s [s] where
  head := rfl
  chain := List.isChain_singleton s
  within := by simpa using hs

/-- A path goes back along an edge. -/
lemma PathFrom.cons (hs : s ∈ jobs) (hlead : Edge.Leads edges s t) (hp : PathFrom edges jobs t p) :
    PathFrom edges jobs s (s :: p) where
  head := rfl
  chain := by
    refine List.isChain_cons.mpr ⟨fun y hy => ?_, hp.chain⟩
    obtain rfl : t = y := by simpa [hp.head] using hy
    exact hlead
  within := by
    intro x hx
    rcases List.mem_cons.mp hx with rfl | hx
    · exact hs
    · exact hp.within x hx

/-- A path is a job alone, or goes on along an edge. -/
lemma PathFrom.eq_single_or_cons (hp : PathFrom edges jobs s p) :
    p = [s] ∨ ∃ t q, p = s :: q ∧ Edge.Leads edges s t ∧ PathFrom edges jobs t q := by
  obtain ⟨hhead, hchain, hwithin⟩ := hp
  cases p with
  | nil => cases hhead
  | cons x q =>
      obtain rfl : x = s := Option.some.inj hhead
      cases q with
      | nil => exact Or.inl rfl
      | cons t rest =>
          obtain ⟨hlead, hrest⟩ := List.isChain_cons_cons.mp hchain
          exact Or.inr ⟨t, t :: rest, rfl, hlead, rfl, hrest,
            fun x hx => hwithin x (List.mem_cons_of_mem _ hx)⟩

/-- More jobs allow the same paths. -/
lemma PathFrom.mono {more : List String} (hp : PathFrom edges jobs s p)
    (h : ∀ x ∈ jobs, x ∈ more) : PathFrom edges more s p where
  head := hp.head
  chain := hp.chain
  within x hx := h x (hp.within x hx)

/-- A path that starts among jobs which no edge leaves towards the others stays among them. -/
lemma PathFrom.of_closed {fewer : List String} (hp : PathFrom edges jobs s p) (hs : s ∈ fewer)
    (h : ∀ x y, Edge.Leads edges x y → x ∈ fewer → y ∈ jobs → y ∈ fewer) :
    PathFrom edges fewer s p := by
  induction p generalizing s with
  | nil => cases hp.head
  | cons x q ih =>
      rcases hp.eq_single_or_cons with heq | ⟨t, r, heq, hlead, hr⟩
      · rw [heq]
        exact PathFrom.single hs
      · obtain ⟨rfl, rfl⟩ := List.cons.inj heq
        have ht : t ∈ jobs := hr.within t (List.mem_of_head? hr.head)
        exact PathFrom.cons hs hlead (ih hr (h _ t hlead hs ht))

/-! ## Best paths -/

/-- No edge leads to a job of a level from that level or a later one. -/
def Forward (edges : List Edge) : List (List String) → Prop
  | [] => True
  | level :: later =>
    (∀ u v, Edge.Leads edges u v → v ∈ level → u ∉ level ∧ u ∉ later.flatten) ∧ Forward edges later

/-- The choice among paths from a job takes one of them, and the one that precedes all. -/
lemma foldl_better (job : String) (tails : List Path) (chosen : Path) :
    let result := tails.foldl
      (fun chosen tail => if better (job :: tail) chosen then job :: tail else chosen) chosen
    (result = chosen ∨ ∃ tail ∈ tails, result = job :: tail) ∧ Precedes result chosen ∧
      ∀ tail ∈ tails, Precedes result (job :: tail) := by
  induction tails generalizing chosen with
  | nil => simp [Precedes]
  | cons tail rest ih =>
      rw [List.foldl_cons]
      by_cases hbetter : better (job :: tail) chosen = true
      · rw [if_pos hbetter]
        obtain ⟨hone, hle, hall⟩ := ih (job :: tail)
        refine ⟨Or.inr ?_, hle.trans (Or.inr (better_iff.mp hbetter)), ?_⟩
        · rcases hone with heq | ⟨a, ha, heq⟩
          · exact ⟨tail, List.mem_cons_self, heq⟩
          · exact ⟨a, List.mem_cons_of_mem tail ha, heq⟩
        · intro a ha
          rcases List.mem_cons.mp ha with rfl | ha
          · exact hle
          · exact hall a ha
      · rw [if_neg hbetter]
        obtain ⟨hone, hle, hall⟩ := ih chosen
        have hkeep : Precedes chosen (job :: tail) :=
          precedes_of_not_before fun h => hbetter (better_iff.mpr h)
        refine ⟨hone.imp_right ?_, hle, ?_⟩
        · rintro ⟨a, ha, heq⟩
          exact ⟨a, List.mem_cons_of_mem tail ha, heq⟩
        · intro a ha
          rcases List.mem_cons.mp ha with rfl | ha
          · exact hle.trans hkeep
          · exact hall a ha

/-- The best paths from given jobs are known, and no others. -/
structure Knows (edges : List Edge) (jobs : List String) (known : Assoc String Path) : Prop where
  /-- What is known of a job is the best path from it. -/
  isBest : ∀ s p, known.get? s = some p → s ∈ jobs ∧ IsBest edges jobs s p
  /-- Something is known of every job. -/
  total : ∀ s ∈ jobs, ∃ p, known.get? s = some p

/-- A job before the others, given the best paths from these: the best path from it goes on with one
of them. -/
lemma best_isBest {known : Assoc String Path} {later : List String} (hs : s ∈ jobs)
    (hsub : ∀ x ∈ later, x ∈ jobs) (hknown : Knows edges later known)
    (hclosed : ∀ x y, Edge.Leads edges x y → x = s ∨ x ∈ later → y ∈ jobs → y ∈ later) :
    IsBest edges jobs s (best (Edge.targetsOf edges) known s) := by
  obtain ⟨hone, hsingle, hall⟩ :=
    foldl_better s ((Edge.targetsOf edges s).filterMap known.get?) [s]
  constructor
  · rcases hone with heq | ⟨tail, htail, heq⟩
    · rw [best, heq]
      exact PathFrom.single hs
    · obtain ⟨t, ht, hget⟩ := List.mem_filterMap.mp htail
      obtain ⟨-, hbest⟩ := hknown.isBest t tail hget
      rw [best, heq]
      exact PathFrom.cons hs (Edge.mem_targetsOf.mp ht) (hbest.1.mono hsub)
  · intro q hq
    rcases hq.eq_single_or_cons with rfl | ⟨t, r, rfl, hlead, hr⟩
    · exact hsingle
    · -- the rest of the path runs through the later jobs, where the best path is known
      have ht : t ∈ later :=
        hclosed s t hlead (Or.inl rfl) (hr.within t (List.mem_of_head? hr.head))
      obtain ⟨p, hget⟩ := hknown.total t ht
      have hrest : PathFrom edges later t r :=
        hr.of_closed ht fun x y hxy hx => hclosed x y hxy (Or.inr hx)
      have hmem : p ∈ (Edge.targetsOf edges s).filterMap known.get? :=
        List.mem_filterMap.mpr ⟨t, Edge.mem_targetsOf.mpr hlead, hget⟩
      exact (hall p hmem).trans (((hknown.isBest t p hget).2.2 r hrest).cons s)

/-- From a job of some levels, edges lead to later levels only. -/
lemma Forward.mem_later {level : List String} {later : List (List String)}
    (hfwd : Forward edges (level :: later))
    {x y : String} (hxy : Edge.Leads edges x y) (hx : x ∈ level ∨ x ∈ later.flatten)
    (hy : y ∈ (level :: later).flatten) : y ∈ later.flatten := by
  rcases List.mem_append.mp hy with hy | hy
  · obtain ⟨hnot, hnot'⟩ := hfwd.1 x y hxy hy
    exact absurd hx (not_or.mpr ⟨hnot, hnot'⟩)
  · exact hy

/-- The paths from the jobs of a level are made from those of the later ones. -/
lemma get?_bestPaths_cons (targets : String → List String) (level : List String)
    (later : List (List String)) (s : String) : (bestPaths targets (level :: later)).get? s =
      if s ∈ level then some (best targets (bestPaths targets later) s)
        else (bestPaths targets later).get? s := by
  rw [bestPaths, Assoc.get?_append, Assoc.get?_map]
  split_ifs <;> simp

/-- **Going through levels from the last to the first** finds the best paths from all their jobs. -/
theorem knows_bestPaths {levels : List (List String)} (hfwd : Forward edges levels) :
    Knows edges levels.flatten (bestPaths (Edge.targetsOf edges) levels) := by
  induction levels with
  | nil =>
      constructor
      · intro s p h
        cases h
      · intro s h
        cases h
  | cons level later ih =>
      have hknown := ih hfwd.2
      have hsub : ∀ x ∈ later.flatten, x ∈ (level :: later).flatten := fun x hx =>
        List.mem_append_right level hx
      constructor
      · intro s p hp
        rw [get?_bestPaths_cons] at hp
        split_ifs at hp with hs
        · cases hp
          have hmem : s ∈ (level :: later).flatten := List.mem_append_left _ hs
          refine ⟨hmem, best_isBest hmem hsub hknown ?_⟩
          rintro x y hxy (rfl | hx)
          · exact hfwd.mem_later hxy (Or.inl hs)
          · exact hfwd.mem_later hxy (Or.inr hx)
        · obtain ⟨hmem, hpath, hbest⟩ := hknown.isBest s p hp
          refine ⟨hsub s hmem, hpath.mono hsub, fun q hq => hbest q ?_⟩
          exact hq.of_closed hmem fun x y hxy hx => hfwd.mem_later hxy (Or.inr hx)
      · intro s hs
        rw [get?_bestPaths_cons]
        split_ifs with hlev
        · exact ⟨_, rfl⟩
        · exact hknown.total s ((List.mem_append.mp hs).resolve_left hlev)

/-- The levels of a run go forward: what leads to a job that is ready has been placed before. -/
lemma forward_place (placed unplaced : List String) (hnew : ∀ x ∈ placed, x ∉ unplaced) :
    Forward edges (Layering.place (Edge.sourcesOf edges) placed unplaced).levels := by
  fun_induction Layering.place (Edge.sourcesOf edges) placed unplaced with
  | case1 placed unplaced hnone => trivial
  | case2 placed unplaced hsome ready later ih =>
      have hready : ∀ x ∈ ready, x ∈ unplaced := fun x hx => (List.mem_filter.mp hx).1
      have hlater : ∀ x ∈ later.levels.flatten, x ∈ unplaced := by
        intro x hx
        have hperm := Layering.perm_place (Edge.sourcesOf edges) (placed ++ ready)
          (Layering.waitingJobs (Edge.sourcesOf edges) placed unplaced)
        exact (List.mem_filter.mp (hperm.mem_iff.mp (List.mem_append_left _ hx))).1
      refine ⟨?_, ih ?_⟩
      · intro u v huv hv
        have hu : u ∈ placed :=
          Layering.isReady_iff.mp (List.mem_filter.mp hv).2 u (Edge.mem_sourcesOf.mpr huv)
        exact ⟨fun h => hnew u hu (hready u h), fun h => hnew u hu (hlater u h)⟩
      · intro x hx hwait
        obtain ⟨hun, hnot⟩ := List.mem_filter.mp hwait
        rcases List.mem_append.mp hx with hx | hx
        · exact hnew x hx hun
        · simp [(List.mem_filter.mp hx).2] at hnot

/-! ## The paths that are shown -/

/-- A critical path from a job: of the longest paths that visit only the given jobs, the
lexicographically least. -/
structure IsCritical (edges : List Edge) (jobs : List String) (start : String) (p : Path) :
    Prop where
  /-- It is a path from the job. -/
  path : PathFrom edges jobs start p
  /-- No path from the job is longer. -/
  longest : ∀ q, PathFrom edges jobs start q → q.length ≤ p.length
  /-- Of those as long, all others come later in lexicographic order. -/
  least : ∀ q, PathFrom edges jobs start q → q.length = p.length → q = p ∨ p < q

/-- A job from which a critical path starts: nothing leads to it, and it leads to a given job. -/
def IsStart (edges : List Edge) (jobs : List String) (s : String) : Prop :=
  (∀ u, ¬Edge.Leads edges u s) ∧ ∃ t ∈ jobs, Edge.Leads edges s t

/-- The best path is critical. -/
lemma IsBest.isCritical (h : IsBest edges jobs s p) : IsCritical edges jobs s p where
  path := h.1
  longest q hq := (h.2 q hq).length_le
  least q hq hlen := by
    rcases h.2 q hq with rfl | hlt | ⟨-, hlt⟩
    · exact Or.inl rfl
    · exact absurd hlt (by omega)
    · exact Or.inr hlt

/-- The best path from a job goes on if the job leads to one of the given jobs. -/
lemma IsBest.one_lt_length_iff (h : IsBest edges jobs s p) :
    1 < p.length ↔ ∃ t ∈ jobs, Edge.Leads edges s t := by
  have hs : s ∈ jobs := h.1.within s (List.mem_of_head? h.1.head)
  constructor
  · intro hlen
    rcases h.1.eq_single_or_cons with rfl | ⟨t, q, rfl, hlead, hq⟩
    · exact absurd hlen (by simp)
    · exact ⟨t, hq.within t (List.mem_of_head? hq.head), hlead⟩
  · rintro ⟨t, ht, hlead⟩
    exact (h.2 [s, t] (PathFrom.cons hs hlead (PathFrom.single ht))).length_le

/-- The paths that are shown are what is known of the jobs to which nothing leads, single jobs
aside. -/
lemma mem_all_iff {levels : List (List String)} : p ∈ all levels edges ↔
    ∃ s ∈ levels.flatten, (∀ u, ¬Edge.Leads edges u s) ∧
      (bestPaths (Edge.targetsOf edges) levels).get? s = some p ∧ 1 < p.length := by
  have hfree : ∀ s, (!(edges.map Edge.target).contains s) = true ↔ ∀ u, ¬Edge.Leads edges u s := by
    intro s
    rw [Bool.not_eq_true', List.contains_eq_mem, decide_eq_false_iff_not, Edge.mem_map_target,
      not_exists]
  simp only [all, List.mem_mergeSort, List.mem_eraseDups, List.mem_filter, List.mem_filterMap,
    hfree, decide_eq_true_eq]
  constructor
  · rintro ⟨⟨s, ⟨hs, hno⟩, hget⟩, hlen⟩
    exact ⟨s, hs, hno, hget, hlen⟩
  · rintro ⟨s, hs, hno, hget, hlen⟩
    exact ⟨⟨s, ⟨hs, hno⟩, hget⟩, hlen⟩

/-- The paths that are shown stand in their order, each one once. -/
lemma pairwise_all (levels : List (List String)) (edges : List Edge) :
    (all levels edges).Pairwise Before := by
  have hsorted : (all levels edges).Pairwise (fun p q => inOrder p q = true) := by
    refine List.pairwise_mergeSort ?_ ?_ _
    · intro p q r hpq hqr
      exact inOrder_iff.mpr ((inOrder_iff.mp hpq).trans (inOrder_iff.mp hqr))
    · intro p q
      rw [Bool.or_eq_true, inOrder_iff, inOrder_iff]
      exact (precedes_or_before p q).imp_right Or.inr
  have hnodup : (all levels edges).Nodup :=
    (List.mergeSort_perm _ _).nodup_iff.mpr (nodup_eraseDups _)
  refine (hsorted.and hnodup).imp ?_
  rintro p q ⟨hin, hne⟩
  exact (inOrder_iff.mp hin).resolve_left hne

/-- The first of paths in their order precedes them all. -/
lemma precedes_of_mem {first : Path} {rest : List Path} (h : (first :: rest).Pairwise Before)
    (hp : p ∈ first :: rest) : Precedes first p := by
  rcases List.mem_cons.mp hp with rfl | hp
  · exact Or.inl rfl
  · exact Or.inr ((List.pairwise_cons.mp h).1 p hp)

/-- There is one best path. -/
lemma IsBest.unique (hp : IsBest edges jobs s p) (hq : IsBest edges jobs s q) : p = q := by
  rcases hp.2 q hq.1 with heq | hpq
  · exact heq
  · rcases hq.2 p hp.1 with heq | hqp
    · exact heq.symm
    · exact absurd (hpq.trans hqp) (Before.irrefl p)

/-! ## Critical paths and levels -/

section levels

variable {x : String}

/-- Nothing but placed jobs leads to a placed job. -/
lemma mem_flatten_of_leads (h : Edge.Leads edges s t)
    (ht : t ∈ (Layering.byReadiness jobs edges).levels.flatten) :
    s ∈ (Layering.byReadiness jobs edges).levels.flatten := by
  obtain ⟨i, hat⟩ := Layering.mem_flatten_iff.mp ht
  obtain ⟨k, -, hk⟩ := Layering.exists_atLevel_of_leads hat h
  exact hk.mem_flatten

/-- A chain that ends at a placed job consists of placed jobs. -/
lemma mem_flatten_of_isChain {chain : List String} (hchain : chain.IsChain (Edge.Leads edges))
    (hlast : chain.getLast? = some x) (hx : x ∈ (Layering.byReadiness jobs edges).levels.flatten) :
    ∀ y ∈ chain, y ∈ (Layering.byReadiness jobs edges).levels.flatten := by
  induction chain with
  | nil =>
      intro y hy
      cases hy
  | cons a rest ih =>
      cases rest with
      | nil =>
          obtain rfl : a = x := by simpa using hlast
          intro y hy
          obtain rfl := List.mem_singleton.mp hy
          exact hx
      | cons b more =>
          obtain ⟨hab, hrest⟩ := List.isChain_cons_cons.mp hchain
          have hplaced := ih hrest (by simpa using hlast)
          intro y hy
          rcases List.mem_cons.mp hy with rfl | hy
          · exact mem_flatten_of_leads hab (hplaced b List.mem_cons_self)
          · exact hplaced y hy

/-- The best paths from all placed jobs are found. -/
lemma knows_byReadiness (jobs : List String) (edges : List Edge) :
    Knows edges (Layering.byReadiness jobs edges).levels.flatten
      (bestPaths (Edge.targetsOf edges) (Layering.byReadiness jobs edges).levels) :=
  knows_bestPaths (forward_place [] jobs (by simp))

/-- From a start there is a best path. -/
lemma IsStart.exists_isBest (h : IsStart edges (Layering.byReadiness jobs edges).levels.flatten s) :
    ∃ p, IsBest edges (Layering.byReadiness jobs edges).levels.flatten s p := by
  obtain ⟨-, t, ht, hlead⟩ := h
  obtain ⟨p, hget⟩ := (knows_byReadiness jobs edges).total s (mem_flatten_of_leads hlead ht)
  exact ⟨p, ((knows_byReadiness jobs edges).isBest s p hget).2⟩

/-- The paths that are shown are the best paths from the starts. -/
lemma mem_all_byReadiness_iff : p ∈ all (Layering.byReadiness jobs edges).levels edges ↔
    ∃ s, IsStart edges (Layering.byReadiness jobs edges).levels.flatten s ∧
      IsBest edges (Layering.byReadiness jobs edges).levels.flatten s p := by
  have hknown := knows_byReadiness jobs edges
  rw [mem_all_iff]
  constructor
  · rintro ⟨s, hs, hno, hget, hlen⟩
    obtain ⟨-, hbest⟩ := hknown.isBest s p hget
    exact ⟨s, ⟨hno, hbest.one_lt_length_iff.mp hlen⟩, hbest⟩
  · rintro ⟨s, ⟨hno, t, ht, hlead⟩, hbest⟩
    have hs := mem_flatten_of_leads hlead ht
    obtain ⟨q, hget⟩ := hknown.total s hs
    obtain rfl := hbest.unique (hknown.isBest s q hget).2
    exact ⟨s, hs, hno, hget, hbest.one_lt_length_iff.mpr ⟨t, ht, hlead⟩⟩

/-- A path of placed jobs has at most one job in every level. -/
lemma PathFrom.length_le
    (hp : PathFrom edges (Layering.byReadiness jobs edges).levels.flatten s p) :
    p.length ≤ (Layering.byReadiness jobs edges).levels.length := by
  have hne : p ≠ [] := by
    rintro rfl
    cases hp.head
  obtain ⟨i, hat⟩ := Layering.mem_flatten_iff.mp (hp.within _ (List.getLast_mem hne))
  have hpos := List.length_pos_iff.mpr hne
  have hchain : p.length - 1 ∈ Edge.chainLengths edges (p.getLast hne) :=
    ⟨p, hp.chain, List.getLast?_eq_some_getLast hne, by omega⟩
  have hle := Layering.le_of_mem_chainLengths hat hchain
  have hlt := hat.lt_length
  omega

/-- If there are two levels, a path of placed jobs from a start has a job in every level. -/
lemma exists_path_through_levels (h : 2 ≤ (Layering.byReadiness jobs edges).levels.length) :
    ∃ s p, IsStart edges (Layering.byReadiness jobs edges).levels.flatten s ∧
      PathFrom edges (Layering.byReadiness jobs edges).levels.flatten s p ∧
      p.length = (Layering.byReadiness jobs edges).levels.length := by
  -- the longest chain that ends at some job `x` of the last level
  let last := (Layering.byReadiness jobs edges).levels.length - 1
  have hlt : last < (Layering.byReadiness jobs edges).levels.length := by omega
  obtain ⟨x, hx⟩ : ∃ x, x ∈ (Layering.byReadiness jobs edges).levels[last] := by
    refine List.exists_mem_of_ne_nil _ fun hnil => ?_
    exact Layering.nil_notMem_place _ _ _ (hnil ▸ List.getElem_mem hlt)
  have hat : Layering.AtLevel (Layering.byReadiness jobs edges).levels last x :=
    ⟨_, List.getElem?_eq_getElem hlt, hx⟩
  obtain ⟨chain, hchain, hlast, hlen⟩ := Layering.mem_chainLengths hat
  have hplaced := mem_flatten_of_isChain hchain hlast hat.mem_flatten
  rcases chain with _ | ⟨s, _ | ⟨t, rest⟩⟩
  · cases hlast
  · simp only [List.length_singleton] at hlen
    omega
  · obtain ⟨hst, -⟩ := List.isChain_cons_cons.mp hchain
    refine ⟨s, s :: t :: rest, ⟨fun u hu => ?_, t, hplaced t (by simp), hst⟩,
      ⟨rfl, hchain, hplaced⟩, by omega⟩
    -- an edge to its first job would make the chain longer
    have hlonger : last + 1 ∈ Edge.chainLengths edges x := by
      refine ⟨u :: s :: t :: rest, List.isChain_cons_cons.mpr ⟨hu, hchain⟩, ?_, by simp_all⟩
      rw [List.getLast?_cons_cons]
      exact hlast
    have := Layering.le_of_mem_chainLengths hat hlonger
    omega

end levels

end CriticalPath

namespace JobGraph

/-- The critical paths of a graph are what they should be. -/
structure ShowsCriticalPaths (g : JobGraph) : Prop where
  /-- From each start one path is shown, the critical one. -/
  one : ∀ s, CriticalPath.IsStart g.edges g.levels.flatten s →
    ∃ p, CriticalPath.IsCritical g.edges g.levels.flatten s p ∧
      ∀ q, q ∈ g.criticalPaths ∧ q.head? = some s ↔ q = p
  /-- No other paths are shown. -/
  only : ∀ p ∈ g.criticalPaths, ∃ s, p.head? = some s ∧
    CriticalPath.IsStart g.edges g.levels.flatten s
  /-- Longer paths come first, and paths of one length in lexicographic order. -/
  sorted : g.criticalPaths.Pairwise fun p q =>
    q.length < p.length ∨ (p.length = q.length ∧ p < q)
  /-- With fewer than two levels there is no path to show. -/
  eq_nil : g.levels.length < 2 → g.criticalPaths = []
  /-- Otherwise the first path has as many jobs as there are levels. -/
  length_head : 2 ≤ g.levels.length →
    ∃ p, g.criticalPaths.head? = some p ∧ p.length = g.levels.length

/-- The critical paths of a document are found over its levels by readiness. -/
lemma criticalPaths_ofDocument (d : Document) : (ofDocument d).criticalPaths =
    CriticalPath.all (Layering.byReadiness d.jobIds.eraseDups (ofDocument d).edges).levels
      (ofDocument d).edges := by
  rw [← levels_ofDocument]
  rfl

/-- The critical paths of a document are the best paths from its starts. -/
lemma mem_criticalPaths_iff (d : Document) (p : CriticalPath.Path) :
    p ∈ (ofDocument d).criticalPaths ↔
      ∃ s, CriticalPath.IsStart (ofDocument d).edges (ofDocument d).levels.flatten s ∧
        CriticalPath.IsBest (ofDocument d).edges (ofDocument d).levels.flatten s p := by
  rw [criticalPaths_ofDocument, levels_ofDocument]
  exact CriticalPath.mem_all_byReadiness_iff

/-- From every start of a document there is a best path. -/
lemma exists_isBest_of_isStart {d : Document} {s : String}
    (hs : CriticalPath.IsStart (ofDocument d).edges (ofDocument d).levels.flatten s) :
    ∃ p, CriticalPath.IsBest (ofDocument d).edges (ofDocument d).levels.flatten s p := by
  rw [levels_ofDocument] at hs ⊢
  exact hs.exists_isBest

/-- A path over the levels of a document has at most one job in every level. -/
lemma length_le_of_pathFrom {d : Document} {s : String} {p : CriticalPath.Path}
    (hp : CriticalPath.PathFrom (ofDocument d).edges (ofDocument d).levels.flatten s p) :
    p.length ≤ (ofDocument d).levels.length := by
  rw [levels_ofDocument] at hp ⊢
  exact hp.length_le

/-- A critical path has at least two jobs, and at most one in every level. -/
lemma length_of_mem_criticalPaths {d : Document} {p : CriticalPath.Path}
    (hp : p ∈ (ofDocument d).criticalPaths) :
    1 < p.length ∧ p.length ≤ (ofDocument d).levels.length := by
  obtain ⟨s, hs, hbest⟩ := (mem_criticalPaths_iff d p).mp hp
  exact ⟨hbest.one_lt_length_iff.mpr hs.2, length_le_of_pathFrom hbest.1⟩

/-- **The critical paths of a document**: one for each job to which nothing leads and which leads to
a placed job, the lexicographically least of the longest paths from there; the longest path first,
which has a job in every level. -/
theorem showsCriticalPaths (d : Document) : (ofDocument d).ShowsCriticalPaths where
  one s hs := by
    obtain ⟨p, hbest⟩ := exists_isBest_of_isStart hs
    refine ⟨p, hbest.isCritical, fun q => ⟨?_, ?_⟩⟩
    · rintro ⟨hq, hhead⟩
      obtain ⟨s', -, hq⟩ := (mem_criticalPaths_iff d q).mp hq
      obtain rfl : s' = s := Option.some.inj (hq.1.head.symm.trans hhead)
      exact hq.unique hbest
    · rintro rfl
      exact ⟨(mem_criticalPaths_iff d q).mpr ⟨s, hs, hbest⟩, hbest.1.head⟩
  only p hp := by
    obtain ⟨s, hs, hbest⟩ := (mem_criticalPaths_iff d p).mp hp
    exact ⟨s, hbest.1.head, hs⟩
  sorted := CriticalPath.pairwise_all _ _
  eq_nil hlevels := by
    refine List.eq_nil_iff_forall_not_mem.mpr fun p hp => ?_
    have := length_of_mem_criticalPaths hp
    omega
  length_head hlevels := by
    rw [levels_ofDocument] at hlevels
    obtain ⟨s, q, hs, hq, hlen⟩ := CriticalPath.exists_path_through_levels hlevels
    rw [← levels_ofDocument] at hs hq hlen
    obtain ⟨p, hbest⟩ := exists_isBest_of_isStart hs
    have hp : p ∈ (ofDocument d).criticalPaths := (mem_criticalPaths_iff d p).mpr ⟨s, hs, hbest⟩
    obtain ⟨first, rest, heq⟩ := List.exists_cons_of_ne_nil (List.ne_nil_of_mem hp)
    have hfirst : CriticalPath.Precedes first p :=
      CriticalPath.precedes_of_mem (heq ▸ CriticalPath.pairwise_all _ _) (heq ▸ hp)
    have hlong := (hbest.2 q hq).length_le.trans hfirst.length_le
    have hshort := (length_of_mem_criticalPaths (heq ▸ List.mem_cons_self : first ∈ _)).2
    exact ⟨first, by rw [heq]; rfl, le_antisymm hshort (hlen ▸ hlong)⟩

-- of the two longest paths of the sample, the one through `lint` is lexicographically less
example : ((Document.ofTree Document.sampleTree "" "github-actions" "ci.yml").toOption.map
    fun d => (ofDocument d).criticalPaths) = some [["build", "lint", "deploy"]] := by
  decide +kernel

end JobGraph

end PipelineAudit
