import Mathlib.Data.List.Nodup
import Mathlib.Data.List.Sort
import Mathlib.Tactic.Lemma
import PipelineAudit.Graph.Level
import PipelineAudit.Proofs.Assoc

/-!
# Levels by counts and by readiness

Levels are placed by counts: of each job it is counted how many edges are not taken off yet, and a
job whose count comes down to zero is ready. What this amounts to is said without counts by
`Layering.place`: a level holds the jobs all of whose predecessors are placed, in the order of the
document.

The two are the same (`Layering.ofEdges_eq_byReadiness`). The invariant is `Layering.Counts`: the
count of a job is the number of its predecessors that are not placed, and no placed job waits for
one of those. One round keeps it (`Layering.Counts.next`), and the jobs that a round makes ready are
those that `place` takes next (`Layering.Counts.inOrder_ready`). The number of rounds is no bound,
since every round places a job.
-/

namespace PipelineAudit

namespace Edge

variable {edges : List Edge} {u v : String}

/-- An edge of some kind leads from one job to another. -/
def Leads (edges : List Edge) (u v : String) : Prop := ∃ e ∈ edges, e.source = u ∧ e.target = v

/-- The sources of a job are the jobs that lead to it. -/
lemma mem_sourcesOf : u ∈ sourcesOf edges v ↔ Leads edges u v := by
  simp only [sourcesOf, List.mem_eraseDups, List.mem_map, List.mem_filter, beq_iff_eq, Leads]
  constructor
  · rintro ⟨e, ⟨he, htarget⟩, hsource⟩
    exact ⟨e, he, hsource, htarget⟩
  · rintro ⟨e, he, hsource, htarget⟩
    exact ⟨e, ⟨he, htarget⟩, hsource⟩

/-- The targets of a job are the jobs that it leads to. -/
lemma mem_targetsOf : v ∈ targetsOf edges u ↔ Leads edges u v := by
  simp only [targetsOf, List.mem_eraseDups, List.mem_map, List.mem_filter, beq_iff_eq, Leads]
  constructor
  · rintro ⟨e, ⟨he, hsource⟩, htarget⟩
    exact ⟨e, he, hsource, htarget⟩
  · rintro ⟨e, he, hsource, htarget⟩
    exact ⟨e, ⟨he, hsource⟩, htarget⟩

/-- The targets of edges are the jobs that something leads to. -/
lemma mem_map_target : v ∈ edges.map Edge.target ↔ ∃ u, Leads edges u v := by
  rw [List.mem_map]
  constructor
  · rintro ⟨e, he, rfl⟩
    exact ⟨e.source, e, he, rfl, rfl⟩
  · rintro ⟨u, e, he, -, rfl⟩
    exact ⟨e, he, rfl⟩

/-- Each job is named once for each of its predecessors, also where several edges lead from
there. -/
lemma count_flatMap_targetsOf (us : List String) (v : String) :
    (us.flatMap (targetsOf edges)).count v = us.countP fun u => (targetsOf edges u).contains v := by
  induction us with
  | nil => rfl
  | cons u us ih =>
      have hnodup : (targetsOf edges u).Nodup := nodup_eraseDups _
      rw [List.flatMap_cons, List.count_append, List.countP_cons, hnodup.count, ih, Nat.add_comm]
      simp only [List.contains_iff_mem]

end Edge

namespace Layering

/-! ## Levels by readiness -/

/-- Whether all predecessors of a job are placed. -/
def isReady (sources : String → List String) (placed : List String) (job : String) : Bool :=
  (sources job).all placed.contains

/-- The jobs that are ready. -/
def readyJobs (sources : String → List String) (placed unplaced : List String) : List String :=
  unplaced.filter (isReady sources placed)

/-- The jobs that are not ready. -/
def waitingJobs (sources : String → List String) (placed unplaced : List String) : List String :=
  unplaced.filter fun job => !isReady sources placed job

/-- If some job is ready, fewer are not. -/
theorem length_waitingJobs_lt {sources : String → List String} {placed unplaced : List String}
    (h : ¬(readyJobs sources placed unplaced).isEmpty) :
    (waitingJobs sources placed unplaced).length < unplaced.length := by
  obtain ⟨x, hx⟩ := List.exists_mem_of_ne_nil (readyJobs sources placed unplaced) (by simpa using h)
  obtain ⟨hmem, hp⟩ := List.mem_filter.1 hx
  exact List.length_filter_lt_length_iff_exists.2 ⟨x, hmem, by simp [hp]⟩

/-- Places the jobs that are not placed yet: the ready ones are the next level. -/
def place (sources : String → List String) (placed unplaced : List String) : Layering :=
  if _h : (readyJobs sources placed unplaced).isEmpty then ⟨[], unplaced⟩
  else
    let ready := readyJobs sources placed unplaced
    let later := place sources (placed ++ ready) (waitingJobs sources placed unplaced)
    ⟨ready :: later.levels, later.blocked⟩
termination_by unplaced.length
decreasing_by exact length_waitingJobs_lt _h

/-- The layering of jobs by readiness. -/
def byReadiness (jobs : List String) (edges : List Edge) : Layering :=
  place (Edge.sourcesOf edges) [] jobs

section readiness

variable {sources : String → List String} {placed unplaced : List String} {job : String}

/-- A job is ready if all its predecessors are placed. -/
lemma isReady_iff : isReady sources placed job = true ↔ ∀ s ∈ sources job, s ∈ placed := by
  simp [isReady]

/-- A job that is not ready has a predecessor that is not placed. -/
lemma not_isReady_iff : isReady sources placed job = false ↔ ∃ s ∈ sources job, s ∉ placed := by
  simp [isReady]

/-- The jobs that are ready and those that are not are all jobs. -/
lemma perm_ready_waiting (sources : String → List String) (placed unplaced : List String) :
    (readyJobs sources placed unplaced ++ waitingJobs sources placed unplaced).Perm unplaced :=
  List.filter_append_perm _ unplaced

/-- What stays blocked is what stands in no level. -/
lemma blocked_place (sources : String → List String) (placed unplaced : List String) :
    (place sources placed unplaced).blocked =
      unplaced.filter fun job => !(place sources placed unplaced).levels.flatten.contains job := by
  fun_induction place sources placed unplaced with
  | case1 placed unplaced hnone => exact (List.filter_true unplaced).symm
  | case2 placed unplaced hsome ready later ih =>
      have hlater : later.blocked = (unplaced.filter fun job => !isReady sources placed job).filter
          fun job => !later.levels.flatten.contains job := ih
      rw [hlater, List.filter_filter]
      refine List.filter_congr fun job hjob => ?_
      have hready : ready.contains job = isReady sources placed job := by
        rw [Bool.eq_iff_iff, List.contains_iff_mem]
        exact List.mem_filter.trans (and_iff_right hjob)
      rw [List.flatten_cons, List.contains_append, hready, Bool.not_or, Bool.and_comm]

end readiness

/-! ## Counts -/

section counts

variable {degrees : InDegrees} {job : String}

/-- A count that is written changes no other. -/
lemma of_insert (degrees : InDegrees) (target job : String) (n : Int) :
    InDegrees.of (degrees.insert target n) job = if target = job then n else degrees.of job := by
  unfold InDegrees.of
  rw [Assoc.get?_insert]
  by_cases h : target = job
  · rw [if_pos h, if_pos (beq_iff_eq.mpr h)]
    rfl
  · rw [if_neg h, if_neg fun hb => h (beq_iff_eq.mp hb)]

/-- At first each job counts how often it is a successor. -/
lemma of_inDegrees (jobs : List String) (successors : String → List String) (job : String) :
    (inDegrees jobs successors).of job = (jobs.flatMap successors).count job := by
  have hzero : InDegrees.of (jobs.map fun job => (job, 0)) job = 0 := by
    unfold InDegrees.of
    rw [Assoc.get?_map (fun _ => (0 : Int))]
    split_ifs <;> rfl
  have hfold : ∀ (targets : List String) (degrees : InDegrees),
      InDegrees.of (targets.foldl
        (fun degrees target => degrees.insert target (degrees.of target + 1)) degrees) job =
          degrees.of job + targets.count job := by
    intro targets
    induction targets with
    | nil => exact fun degrees => (Int.add_zero _).symm
    | cons target targets ih =>
        intro degrees
        rw [List.foldl_cons, ih, of_insert, List.count_cons]
        by_cases h : target = job
        · simp only [h, if_true, beq_self_eq_true]
          omega
        · simp [h]
  rw [inDegrees, hfold, hzero, Int.zero_add]

/-- Taking off edges takes them off the counts. -/
lemma of_releaseAll (c : Countdown) (targets : List String) (job : String) :
    (c.releaseAll targets).degrees.of job = c.degrees.of job - targets.count job := by
  induction targets generalizing c with
  | nil => exact (Int.sub_zero _).symm
  | cons target targets ih =>
      change ((c.release target).releaseAll targets).degrees.of job = _
      rw [ih, List.count_cons]
      change InDegrees.of (c.degrees.insert target _) job - _ = _
      rw [of_insert]
      by_cases h : target = job
      · simp only [h, if_true, beq_self_eq_true]
        omega
      · simp [h]

/-- The jobs that taking off edges makes ready: those whose edges are all taken off, each of them
once. No count may be less than what is taken off. -/
lemma exists_ready_releaseAll (c : Countdown) (targets : List String)
    (hcount : ∀ job, (targets.count job : Int) ≤ c.degrees.of job) :
    ∃ new, (c.releaseAll targets).ready = c.ready ++ new ∧ new.Nodup ∧
      ∀ job, job ∈ new ↔ job ∈ targets ∧ c.degrees.of job = targets.count job := by
  induction targets generalizing c with
  | nil => exact ⟨[], (List.append_nil _).symm, List.nodup_nil, by simp⟩
  | cons target targets ih =>
      have hof : ∀ job, (c.release target).degrees.of job =
          if target = job then c.degrees.of target - 1 else c.degrees.of job := fun job =>
        of_insert c.degrees target job _
      have hcons : ∀ job, ((target :: targets).count job : Int) =
          targets.count job + if target = job then 1 else 0 := fun job => by
        rw [List.count_cons]
        by_cases h : target = job <;> simp [h]
      have hrest : ∀ job, (targets.count job : Int) ≤ (c.release target).degrees.of job :=
        fun job => by
        have hle := hcount job
        rw [hcons] at hle
        rw [hof]
        split_ifs at hle ⊢ with h
        · subst h
          omega
        · omega
      obtain ⟨new, hready, hnodup, hmem⟩ := ih (c.release target) hrest
      have htarget := hrest target
      rw [hof, if_pos rfl] at htarget
      -- the target is ready now if this was its last edge, and then no other edge to it follows
      by_cases hlast : c.degrees.of target - 1 = 0
      · have hnone : target ∉ targets := fun h => by
          have := List.count_pos_iff.mpr h
          omega
        refine ⟨target :: new, ?_,
          List.nodup_cons.mpr ⟨fun h => hnone ((hmem target).mp h).1, hnodup⟩, fun job => ?_⟩
        · change ((c.release target).releaseAll targets).ready = _
          rw [hready]
          simp [Countdown.release, hlast]
        · rw [List.mem_cons, List.mem_cons, hmem, hof, hcons]
          by_cases h : target = job
          · subst h
            have := List.count_eq_zero.mpr hnone
            simp only [true_or, true_and, if_true, true_iff]
            omega
          · simp [h, Ne.symm h]
      · refine ⟨new, ?_, hnodup, fun job => ?_⟩
        · change ((c.release target).releaseAll targets).ready = _
          rw [hready]
          simp [Countdown.release, hlast]
        · rw [List.mem_cons, hmem, hof, hcons]
          by_cases h : target = job
          · subst h
            simp only [if_true, true_or, true_and]
            refine ⟨fun h => by omega, fun h => ⟨List.count_pos_iff.mp (by omega), by omega⟩⟩
          · simp [h, Ne.symm h]

end counts

/-! ## Jobs in order -/

/-- The order of the document is that of the places of its jobs. -/
lemma pairwise_idxOf {jobs : List String} (hjobs : jobs.Nodup) :
    jobs.Pairwise fun a b => jobs.idxOf a ≤ jobs.idxOf b := by
  rw [List.pairwise_iff_getElem]
  intro i j hi hj hij
  rw [hjobs.idxOf_getElem i hi, hjobs.idxOf_getElem j hj]
  exact Nat.le_of_lt hij

/-- Jobs are put in order by insertion. -/
lemma inOrder_eq_insertionSort (jobs ready : List String) :
    inOrder jobs ready = ready.insertionSort (Order.Preimage jobs.idxOf (· ≤ ·)) := by
  have hinsert : ∀ job rest, insertInOrder jobs job rest =
      rest.orderedInsert (Order.Preimage jobs.idxOf (· ≤ ·)) job := by
    intro job rest
    induction rest with
    | nil => rfl
    | cons next rest ih =>
        rw [insertInOrder, List.orderedInsert, ih]
        rfl
  unfold inOrder
  induction ready with
  | nil => rfl
  | cons job ready ih => rw [List.foldr_cons, ih, hinsert, List.insertionSort_cons]

/-- Jobs that are put in order are those of a part of the document with the same jobs. -/
lemma inOrder_eq {jobs ready part : List String} (hjobs : jobs.Nodup) (hpart : part.Sublist jobs)
    (hperm : ready.Perm part) : inOrder jobs ready = part := by
  rw [inOrder_eq_insertionSort]
  refine List.Perm.eq_of_pairwise (fun a b ha _ hab hba => ?_) (List.pairwise_insertionSort _ _)
    ((pairwise_idxOf hjobs).sublist hpart) ((List.perm_insertionSort _ _).trans hperm)
  have hmem : a ∈ jobs :=
    hpart.subset (hperm.subset ((List.mem_insertionSort _).mp ha))
  exact (List.idxOf_inj hmem).mp (Nat.le_antisymm hab hba)

/-! ## Rounds -/

section rounds

variable {jobs placed unplaced : List String} {edges : List Edge} {degrees : InDegrees}

/-- What holds before a round: the jobs that are not placed stand in the order of the document, the
count of a job is the number of its predecessors among them, and none of these leads to a job that
is placed. -/
structure Counts (jobs : List String) (edges : List Edge) (placed unplaced : List String)
    (degrees : InDegrees) : Prop where
  sublist : unplaced.Sublist jobs
  perm : (placed ++ unplaced).Perm jobs
  of_eq : ∀ job, degrees.of job =
    unplaced.countP fun u => (Edge.targetsOf edges u).contains job
  closed : ∀ job ∈ placed, ∀ s, Edge.Leads edges s job → s ∈ placed

/-- The count of a job is zero if nothing that is not placed leads to it. -/
lemma Counts.of_eq_zero_iff (h : Counts jobs edges placed unplaced degrees) {job : String} :
    degrees.of job = 0 ↔ ∀ u ∈ unplaced, ¬Edge.Leads edges u job := by
  rw [h.of_eq, Int.natCast_eq_zero, List.countP_eq_zero]
  simp only [List.contains_iff_mem, Edge.mem_targetsOf]

/-- A job is ready exactly if its count is zero. -/
lemma Counts.isReady_iff_of_eq_zero (hjobs : jobs.Nodup)
    (hends : ∀ u v, Edge.Leads edges u v → u ∈ jobs) (h : Counts jobs edges placed unplaced degrees)
    {job : String} : isReady (Edge.sourcesOf edges) placed job = true ↔ degrees.of job = 0 := by
  rw [isReady_iff, h.of_eq_zero_iff]
  have hdisjoint := (List.nodup_append.mp (h.perm.nodup_iff.mpr hjobs)).2.2
  constructor
  · intro hready u hu hlead
    exact hdisjoint u (hready u (Edge.mem_sourcesOf.mpr hlead)) u hu rfl
  · intro hnone s hs
    have hlead := Edge.mem_sourcesOf.mp hs
    rcases List.mem_append.mp (h.perm.mem_iff.mpr (hends s job hlead)) with hs | hs
    · exact hs
    · exact absurd hlead (hnone s hs)

/-- A round takes the edges that lead out of the ready jobs off the counts. -/
lemma Counts.next (h : Counts jobs edges placed unplaced degrees) :
    Counts jobs edges (placed ++ readyJobs (Edge.sourcesOf edges) placed unplaced)
      (waitingJobs (Edge.sourcesOf edges) placed unplaced)
      (Countdown.releaseAll ⟨degrees, []⟩
        ((readyJobs (Edge.sourcesOf edges) placed unplaced).flatMap
          (Edge.targetsOf edges))).degrees where
  sublist := List.filter_sublist.trans h.sublist
  perm := by
    rw [List.append_assoc]
    exact ((perm_ready_waiting _ placed unplaced).append_left placed).trans h.perm
  of_eq job := by
    have hsplit := (perm_ready_waiting (Edge.sourcesOf edges) placed unplaced).countP_eq
      fun u => (Edge.targetsOf edges u).contains job
    rw [List.countP_append] at hsplit
    rw [of_releaseAll, Edge.count_flatMap_targetsOf]
    change degrees.of job - _ = _
    rw [h.of_eq]
    omega
  closed job hjob s hlead := by
    rcases List.mem_append.mp hjob with hjob | hjob
    · exact List.mem_append_left _ (h.closed job hjob s hlead)
    · have hready := isReady_iff.mp (List.mem_filter.mp hjob).2
      exact List.mem_append_left _ (hready s (Edge.mem_sourcesOf.mpr hlead))

/-- **The jobs that a round makes ready** are, in the order of the document, those whose
predecessors are placed after it. -/
lemma Counts.inOrder_ready (hjobs : jobs.Nodup)
    (hends : ∀ u v, Edge.Leads edges u v → u ∈ jobs ∧ v ∈ jobs)
    (h : Counts jobs edges placed unplaced degrees) :
    inOrder jobs (Countdown.releaseAll ⟨degrees, []⟩
        ((readyJobs (Edge.sourcesOf edges) placed unplaced).flatMap (Edge.targetsOf edges))).ready =
      readyJobs (Edge.sourcesOf edges) (placed ++ readyJobs (Edge.sourcesOf edges) placed unplaced)
        (waitingJobs (Edge.sourcesOf edges) placed unplaced) := by
  let ready := readyJobs (Edge.sourcesOf edges) placed unplaced
  let waiting := waitingJobs (Edge.sourcesOf edges) placed unplaced
  let targets := ready.flatMap (Edge.targetsOf edges)
  have hsources : ∀ u v, Edge.Leads edges u v → u ∈ jobs := fun u v huv => (hends u v huv).1
  have hsplit : ∀ job, degrees.of job =
      targets.count job + waiting.countP fun u => (Edge.targetsOf edges u).contains job := by
    intro job
    rw [h.of_eq, ← (perm_ready_waiting (Edge.sourcesOf edges) placed unplaced).countP_eq,
      List.countP_append, Edge.count_flatMap_targetsOf]
    rfl
  have hzero : ∀ job, isReady (Edge.sourcesOf edges) (placed ++ ready) job = true ↔
      (degrees.of job = targets.count job) := by
    intro job
    rw [h.next.isReady_iff_of_eq_zero hjobs hsources, of_releaseAll]
    change degrees.of job - (targets.count job : Int) = 0 ↔ _
    omega
  obtain ⟨new, hnew, hnodup, hmem⟩ := exists_ready_releaseAll ⟨degrees, []⟩ targets fun job => by
    change _ ≤ degrees.of job
    rw [hsplit]
    omega
  have hpart : (readyJobs (Edge.sourcesOf edges) (placed ++ ready) waiting).Sublist jobs :=
    List.filter_sublist.trans h.next.sublist
  rw [hnew, List.nil_append]
  refine inOrder_eq hjobs hpart ?_
  rw [List.perm_ext_iff_of_nodup hnodup (hjobs.sublist hpart)]
  intro job
  rw [hmem, readyJobs, List.mem_filter, hzero]
  refine and_congr_left fun hcount => ⟨fun htarget => ?_, fun hwaiting => ?_⟩
  · -- a ready job leads there, so the job is neither placed nor ready itself
    obtain ⟨u, hu, hlead⟩ := List.mem_flatMap.mp htarget
    have hlead := Edge.mem_targetsOf.mp hlead
    have hnew : u ∉ placed := fun hplaced =>
      (List.nodup_append.mp (h.perm.nodup_iff.mpr hjobs)).2.2 u hplaced u
        (List.mem_filter.mp hu).1 rfl
    rcases List.mem_append.mp (h.next.perm.mem_iff.mpr (hends u job hlead).2)
        with hplaced | hwaiting
    · refine absurd ?_ hnew
      rcases List.mem_append.mp hplaced with hplaced | hready
      · exact h.closed job hplaced u hlead
      · exact isReady_iff.mp (List.mem_filter.mp hready).2 u (Edge.mem_sourcesOf.mpr hlead)
    · exact hwaiting
  · -- the job was not ready, so some edge to it has been taken off
    have hnot : ¬isReady (Edge.sourcesOf edges) placed job = true := by
      simpa using (List.mem_filter.mp hwaiting).2
    rw [h.isReady_iff_of_eq_zero hjobs hsources] at hnot
    have hcount : degrees.of job = targets.count job := hcount
    exact List.count_pos_iff.mp (by omega)

/-- **Rounds by counts are rounds by readiness**, if there may be as many of them as jobs are
left. -/
theorem levelsFrom_eq (hjobs : jobs.Nodup)
    (hends : ∀ u v, Edge.Leads edges u v → u ∈ jobs ∧ v ∈ jobs) {rounds : Nat}
    (h : Counts jobs edges placed unplaced degrees) (hrounds : unplaced.length ≤ rounds) :
    levelsFrom jobs (Edge.targetsOf edges) rounds degrees
      (readyJobs (Edge.sourcesOf edges) placed unplaced) =
        (place (Edge.sourcesOf edges) placed unplaced).levels := by
  induction rounds generalizing placed unplaced degrees with
  | zero =>
      obtain rfl := List.eq_nil_of_length_eq_zero (Nat.le_zero.mp hrounds)
      have hnone : (readyJobs (Edge.sourcesOf edges) placed []).isEmpty = true := rfl
      rw [place, dif_pos hnone]
      rfl
  | succ rounds ih =>
      rw [levelsFrom, place]
      by_cases hnone : (readyJobs (Edge.sourcesOf edges) placed unplaced).isEmpty = true
      · rw [if_pos hnone, dif_pos hnone]
      · rw [if_neg hnone, dif_neg hnone]
        have hfewer := length_waitingJobs_lt hnone
        dsimp only
        rw [h.inOrder_ready hjobs hends, ih h.next (by omega)]

end rounds

/-- **The layering by counts is the layering by readiness**, for edges between the jobs. -/
theorem ofEdges_eq_byReadiness {jobs : List String} {edges : List Edge}
    (hends : ∀ e ∈ edges, e.source ∈ jobs ∧ e.target ∈ jobs) :
    ofEdges jobs edges = byReadiness jobs.eraseDups edges := by
  have hjobs : jobs.eraseDups.Nodup := nodup_eraseDups jobs
  have hleads : ∀ u v, Edge.Leads edges u v → u ∈ jobs.eraseDups ∧ v ∈ jobs.eraseDups := by
    rintro u v ⟨e, he, rfl, rfl⟩
    exact ⟨List.mem_eraseDups.mpr (hends e he).1, List.mem_eraseDups.mpr (hends e he).2⟩
  have hcounts : Counts jobs.eraseDups edges [] jobs.eraseDups
      (inDegrees jobs.eraseDups (Edge.targetsOf edges)) :=
    { sublist := List.Sublist.refl _
      perm := List.Perm.refl _
      of_eq := fun job => by rw [of_inDegrees, Edge.count_flatMap_targetsOf]
      closed := nofun }
  have hfirst : (jobs.eraseDups.filter fun job =>
      (inDegrees jobs.eraseDups (Edge.targetsOf edges)).of job == 0) =
        readyJobs (Edge.sourcesOf edges) [] jobs.eraseDups := by
    refine List.filter_congr fun job _ => ?_
    rw [Bool.eq_iff_iff, beq_iff_eq, hcounts.isReady_iff_of_eq_zero hjobs fun u v huv =>
      (hleads u v huv).1]
  have hlevels := levelsFrom_eq hjobs hleads hcounts (Nat.le_refl _)
  unfold ofEdges
  dsimp only
  rw [hfirst, hlevels, ← blocked_place]
  rfl

end Layering

end PipelineAudit
