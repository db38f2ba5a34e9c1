import PipelineAudit.Proofs.Workflow.Cleaning.Fields

/-!
# The first dialect on a clean tree

Most fields of jobs and steps are cleaned when they are read. `taken` lists the values that are not:
they are taken over, or written as texts, as they are. Reading a clean tree follows reading the
tree, and the two documents are the same apart from lines exactly if there is nothing to clean in
these values (`follows_document`).
-/

namespace PipelineAudit.Github

variable {source jobId : String} {raw : Value}

/-! ## What is taken over as it is -/

/-- The values of a step that are taken over, or written as texts, as they are. -/
def takenByStep (raw : Value) : List Value :=
  ["name", "uses", "run", "if", "id", "shell", "continue-on-error"].map raw.get

/-- The values of a job that are taken over, or written as texts, as they are. -/
def takenByJob (raw : Value) : List Value :=
  ["name", "if", "timeout-minutes", "continue-on-error", "uses"].map raw.get
    ++ ((raw.get "steps").itemsOrSelf.filter Value.isMap).flatMap takenByStep

/-- Jobs and their values, under the texts of their keys. -/
def namedJobs (entries : List (Value × Value)) : List (String × Value) :=
  (Value.properEntries entries).map fun e => (e.1.display, e.2)

/-- The jobs of a tree; of several whose keys have one text, the last one counts. -/
def jobsOf (tree : Value) : Assoc String Value := Assoc.ofList (namedJobs (tree.get "jobs").entries)

/-- The values of a tree that are taken over, or written as texts, as they are. -/
def taken (tree : Value) : List Value :=
  tree.get "name" :: (jobsOf tree).flatMap fun p => takenByJob p.2

/-! ## Steps and jobs -/

/-- A step is the same on a clean tree, apart from its line, exactly if there is nothing to clean in
what it takes over. -/
lemma step_clean_eq_iff (index : Nat) :
    (step source jobId index raw.clean).withoutLine = (step source jobId index raw).withoutLine ↔
      ∀ v ∈ takenByStep raw, v.clean = v := by
  unfold step Step.withoutLine takenByStep
  simp (disch := decide) only [Step.mk.injEq, Value.get_clean, Value.text?_clean_eq_iff,
    Value.condition?_clean_eq_iff, Value.asFields_clean, true_and, and_true, List.forall_mem_map,
    List.forall_mem_cons, List.not_mem_nil, false_implies, implies_true]
  constructor
  · rintro ⟨hname, huses, hrun, hif, hid, hshell, hcontinue, -⟩
    exact ⟨hname, huses, hrun, hif, hid, hshell, hcontinue⟩
  · rintro ⟨hname, huses, hrun, hif, hid, hshell, hcontinue⟩
    refine ⟨hname, huses, hrun, hif, hid, hshell, hcontinue, ?_⟩
    rw [huses]

/-- The steps of a job, by the items that are mappings and their places. -/
lemma steps_eq : steps source jobId raw =
    (raw.itemsOrSelf.zipIdx.filter fun p => p.1.isMap).map fun p => step source jobId p.2 p.1 := rfl

/-- The steps of a job on a clean tree. -/
lemma steps_clean_eq_iff :
    (steps source jobId raw.clean).map Step.withoutLine =
      (steps source jobId raw).map Step.withoutLine ↔
      ∀ v ∈ (raw.itemsOrSelf.filter Value.isMap).flatMap takenByStep, v.clean = v := by
  -- cleaning keeps the items that are mappings, and their places
  have hclean : (raw.clean.itemsOrSelf.zipIdx.filter fun p => p.1.isMap) =
      (raw.itemsOrSelf.zipIdx.filter fun p => p.1.isMap).map (Prod.map Value.clean id) := by
    rw [Value.itemsOrSelf_clean, List.zipIdx_map, List.filter_map]
    refine congrArg _ (List.filter_congr fun p _ => ?_)
    exact p.1.isMap_clean
  have hitems : raw.itemsOrSelf.filter Value.isMap =
      (raw.itemsOrSelf.zipIdx.filter fun p => p.1.isMap).map Prod.fst := by
    nth_rewrite 1 [← List.zipIdx_map_fst 0 raw.itemsOrSelf]
    rw [List.filter_map]
    rfl
  rw [steps_eq, steps_eq, hclean, List.map_map, List.map_map, List.map_map,
    List.map_inj_left, hitems]
  simp only [List.forall_mem_flatMap, List.forall_mem_map]
  exact forall₂_congr fun p _ => step_clean_eq_iff p.2

/-- A job is the same on a clean tree, apart from lines, exactly if there is nothing to clean in
what it takes over. -/
lemma job_clean_eq_iff (id : String) :
    (job source id raw.clean .null).withoutLines = (job source id raw .null).withoutLines ↔
      ∀ v ∈ takenByJob raw, v.clean = v := by
  unfold job Job.withoutLines takenByJob
  simp (disch := decide) only [Job.mk.injEq, Value.get_clean, Value.text?_clean_eq_iff,
    Value.condition?_clean_eq_iff, Value.asFields_clean, Value.clean_clean, true_and, and_true,
    List.forall_mem_append, List.forall_mem_map, List.forall_mem_cons, List.not_mem_nil,
    false_implies, implies_true, steps_clean_eq_iff]
  constructor
  · rintro ⟨hname, hsteps, hif, htimeout, hcontinue, huses⟩
    exact ⟨⟨hname, hif, htimeout, hcontinue, huses⟩, hsteps⟩
  · rintro ⟨⟨hname, hif, htimeout, hcontinue, huses⟩, hsteps⟩
    exact ⟨hname, hsteps, hif, htimeout, hcontinue, huses⟩

/-! ## Reading a tree -/

/-- What a step writes can be written on a clean tree. -/
lemma isWritable_writtenInStep_clean (h : ∀ v ∈ writtenInStep raw, v.isWritable = true) :
    ∀ v ∈ writtenInStep raw.clean, v.isWritable = true := by
  unfold writtenInStep at h ⊢
  simp (disch := decide) only [Value.get_clean, Value.fieldKeys_clean, List.forall_mem_append,
    List.forall_mem_cons, List.not_mem_nil, false_implies, implies_true, and_true] at h ⊢
  obtain ⟨⟨⟨hname, huses, hrun, hif⟩, hwith⟩, henv⟩ := h
  exact ⟨⟨⟨Value.isWritable_clean _ hname, Value.isWritable_clean _ huses,
    Value.isWritable_clean _ hrun, Value.isWritable_clean _ hif⟩, hwith⟩, henv⟩

/-- What a job writes can be written on a clean tree. -/
lemma isWritable_writtenInJob_clean (h : ∀ v ∈ writtenInJob raw, v.isWritable = true) :
    ∀ v ∈ writtenInJob raw.clean, v.isWritable = true := by
  unfold writtenInJob at h ⊢
  simp (disch := decide) only [Value.get_clean, Value.fieldKeys_clean, Value.itemsOrSelf_clean,
    Value.clean_clean, List.forall_mem_append, List.forall_mem_flatMap, List.forall_mem_map,
    List.forall_mem_cons, List.not_mem_nil, false_implies, implies_true, and_true] at h ⊢
  obtain ⟨⟨⟨hsteps, hname, hif⟩, hneeds⟩, hfields⟩ := h
  refine ⟨⟨⟨fun item hitem => ?_, Value.isWritable_clean _ hname, Value.isWritable_clean _ hif⟩,
    hneeds⟩, hfields⟩
  exact isWritable_writtenInStep_clean (hsteps item hitem)

/-- A job apart from lines, from its id and its value. -/
def plainJob (source : String) (p : String × Value) : Job := (job source p.1 p.2 .null).withoutLines

/-- Adding the jobs of a clean mapping follows adding those of the mapping. -/
lemma follows_addJobs (mapping : Value) (entries : List (Value × Value))
    (before before' : List Job) :
    Follows (fun jobs jobs' => ∃ read read', jobs = read.foldl Document.putJob before ∧
        jobs' = read'.foldl Document.putJob before' ∧
        List.Forall₂ (fun j p => j.withoutLines = plainJob source p) read (namedJobs entries) ∧
        List.Forall₂ (fun j p => j.withoutLines = plainJob source (p.1, p.2.clean)) read'
          (namedJobs entries))
      (addJobs source mapping before entries)
        (addJobs source mapping.clean before' (Value.cleanEntries entries)) := by
  induction entries generalizing before before' with
  | nil => exact Follows.pure ⟨[], [], rfl, rfl, .nil, .nil⟩
  | cons entry rest ih =>
      obtain ⟨key, raw⟩ := entry
      rw [addJobs, Value.cleanEntries]
      by_cases hkey : key.isPositionKey = true
      · have hnamed : namedJobs ((key, raw) :: rest) = namedJobs rest := by
          simp [namedJobs, Value.properEntries, hkey]
        rw [if_pos hkey, if_pos hkey, hnamed]
        exact ih before before'
      · have hnamed : namedJobs ((key, raw) :: rest) = (key.display, raw) :: namedJobs rest := by
          simp [namedJobs, Value.properEntries, hkey]
        rw [if_neg hkey, if_neg hkey, hnamed, Value.cleanEntry, addJobs, if_neg hkey]
        refine (Follows.checkWritten fun h => h).bind fun _ _ _ => ?_
        dsimp only
        rw [Value.isMap_clean]
        split_ifs with hmap
        · exact Follows.reject rfl
        · refine (Follows.checkWritten isWritable_writtenInJob_clean).bind fun _ _ _ => ?_
          refine (ih _ _).imp ?_
          rintro jobs jobs' ⟨read, read', rfl, rfl, hread, hread'⟩
          exact ⟨_ :: read, _ :: read', rfl, rfl, .cons rfl hread, .cons rfl hread'⟩

/-- The triggers of a clean tree are clean. -/
lemma triggers_clean (tree : Value) : triggers tree.clean = (triggers tree).clean := by
  unfold triggers
  rw [Value.get?_clean tree (by decide), Value.lookup_bool_clean]
  cases tree.get? "on" with
  | some v => rfl
  | none => cases Value.lookup tree.entries (.bool true) <;> rfl

/-- A clean mapping has an entry if the mapping has one that is no position entry. -/
lemma any_isPositionKey_clean (v : Value) :
    (v.clean.entries.any fun e => !e.1.isPositionKey) = v.entries.any fun e =>
      !e.1.isPositionKey := by
  rw [Value.entries_clean, Value.cleanEntries_eq_map, Value.properEntries, List.any_map,
    List.any_filter]
  refine congrArg _ (funext fun e => ?_)
  exact Bool.and_self _

/-- **Reading a clean tree follows reading the tree**, and gives the same document apart from lines
exactly if there is nothing to clean in what is taken over. -/
lemma follows_document (tree : Value) (source fileName : String) :
    Follows (fun d d' => d'.withoutLines = d.withoutLines ↔ ∀ v ∈ taken tree, v.clean = v)
      (document tree source fileName) (document tree.clean source fileName) := by
  unfold document
  simp (disch := decide) only [Value.get_clean, any_isPositionKey_clean, triggers_clean,
    Value.isNull_clean, Value.clean_clean, Value.fieldKeys_clean, Value.asFields_clean]
  by_cases hnone : (!(tree.get "jobs").entries.any fun e => !e.1.isPositionKey) = true
  · rw [if_pos hnone, if_pos hnone]
    exact Follows.reject rfl
  by_cases hnull : (triggers tree).isNull = true
  · rw [if_neg hnone, if_neg hnone, if_pos hnull, if_pos hnull]
    exact Follows.reject rfl
  rw [if_neg hnone, if_neg hnone, if_neg hnull, if_neg hnull, Value.entries_clean]
  refine (follows_addJobs _ _ [] []).bind ?_
  rintro jobs jobs' ⟨read, read', rfl, rfl, hread, hread'⟩
  refine (Follows.checkWritten fun h => ?_).bind fun _ _ _ => Follows.pure ?_
  · rw [List.cons_append, List.forall_mem_cons] at h ⊢
    exact ⟨Value.isWritable_clean _ h.1, h.2⟩
  · have hjobs := Document.map_withoutLines_foldl_putJob (F := plainJob source) (fun _ => rfl) hread
    have hjobs' := Document.map_withoutLines_foldl_putJob
      (F := fun p => plainJob source (p.1, p.2.clean)) (fun _ => rfl) hread'
    unfold Document.withoutLines taken
    simp only [Document.mk.injEq, true_and, hjobs, hjobs', Value.text?_clean_eq_iff,
      List.map_inj_left, List.forall_mem_cons, List.forall_mem_flatMap]
    exact and_congr_right fun _ => forall₂_congr fun p _ => job_clean_eq_iff p.1

end PipelineAudit.Github
