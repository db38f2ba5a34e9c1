import Mathlib.Data.List.Nodup
import Mathlib.Data.List.Pairwise
import PipelineAudit.Proofs.Workflow.Document

/-!
# Jobs and steps that were read

A job of a document that was read is what the reader of its dialect made of one entry
(`Github.exists_entry_of_mem`, `Gitlab.exists_entry_of_mem`): writing jobs under their ids replaces
and appends, and makes no job of its own. Both readers number the steps of a job as they go, so that
an index stands for one step (`Document.nodup_index_of_ofTree`) and `Job.step?` finds the step that
has it.
-/

namespace PipelineAudit

/-! ## Where jobs come from -/

/-- A job that stands in the list after one was written was there before, or is the one. -/
lemma Document.mem_putJob {jobs : List Job} {job j : Job} (h : j ∈ putJob jobs job) :
    j ∈ jobs ∨ j = job := by
  induction jobs with
  | nil => exact Or.inr (by simpa [putJob] using h)
  | cons k rest ih =>
      rw [putJob] at h
      split_ifs at h with hid
      · rcases List.mem_cons.mp h with rfl | h
        · exact Or.inr rfl
        · exact Or.inl (List.mem_cons_of_mem k h)
      · rcases List.mem_cons.mp h with rfl | h
        · exact Or.inl List.mem_cons_self
        · exact (ih h).imp_left (List.mem_cons_of_mem k)

/-- A job that stands in the list after several were written was there before, or is one of them. -/
lemma Document.mem_foldl_putJob {read jobs : List Job} {j : Job} (h : j ∈ read.foldl putJob jobs) :
    j ∈ jobs ∨ j ∈ read := by
  induction read generalizing jobs with
  | nil => exact Or.inl h
  | cons k rest ih =>
      rcases ih h with h | h
      · rcases mem_putJob h with h | rfl
        · exact Or.inl h
        · exact Or.inr List.mem_cons_self
      · exact Or.inr (List.mem_cons_of_mem k h)

/-- In the first dialect, the job of an entry of a mapping of jobs. -/
def Github.jobOfEntry (source : String) (mapping : Value) (entry : Value × Value) : Job :=
  let id := entry.1.display
  job source id entry.2 (jobLine (mapping.keyLine id) (Source.findJobLine source id))

/-- In the first dialect, the jobs of a mapping are those before it and those of its entries. -/
lemma Github.mem_addJobs {source : String} {mapping : Value} {entries : List (Value × Value)}
    {before jobs : List Job} (h : addJobs source mapping before entries = .ok jobs) {j : Job}
    (hj : j ∈ jobs) : j ∈ before ∨ ∃ entry ∈ entries, j = jobOfEntry source mapping entry := by
  induction entries generalizing before with
  | nil =>
      cases h
      exact Or.inl hj
  | cons entry rest ih =>
      obtain ⟨key, raw⟩ := entry
      have hlater : (∃ entry ∈ rest, j = jobOfEntry source mapping entry) →
          ∃ entry ∈ (key, raw) :: rest, j = jobOfEntry source mapping entry :=
        fun ⟨entry, hentry, heq⟩ => ⟨entry, List.mem_cons_of_mem _ hentry, heq⟩
      rw [addJobs] at h
      split_ifs at h with hkey hmap
      · exact (ih h).imp_right hlater
      · obtain ⟨_, _, h⟩ := bind_eq_ok.mp h
        cases h
      · obtain ⟨_, _, h⟩ := bind_eq_ok.mp h
        obtain ⟨_, _, h⟩ := bind_eq_ok.mp h
        rcases ih h with hj | hj
        · exact (Document.mem_putJob hj).imp_right fun hj => ⟨(key, raw), List.mem_cons_self, hj⟩
        · exact Or.inr (hlater hj)

/-- In the first dialect, every job of a document was read from an entry. -/
lemma Github.exists_entry_of_mem {tree : Value} {source fileName : String} {d : Document}
    (h : document tree source fileName = .ok d) {j : Job} (hj : j ∈ d.jobs) :
    ∃ entry ∈ (tree.get "jobs").entries, j = jobOfEntry source (tree.get "jobs") entry :=
  (mem_addJobs (addJobs_of_document h).2 hj).resolve_left List.not_mem_nil

/-- In the first dialect, every step of a job was read from the item of the job's steps at its
index. -/
lemma Github.exists_item_of_mem {tree : Value} {source fileName : String} {d : Document}
    (h : document tree source fileName = .ok d) {j : Job} (hj : j ∈ d.jobs) {s : Step}
    (hs : s ∈ j.steps) : ∃ entry ∈ (tree.get "jobs").entries, entry.1.display = j.id ∧
      ∃ item, (entry.2.get "steps").itemsOrSelf[s.index]? = some item ∧
        s = step source j.id s.index item := by
  obtain ⟨entry, hentry, rfl⟩ := exists_entry_of_mem h hj
  obtain ⟨⟨item, index⟩, hitem, rfl⟩ := List.mem_map.mp hs
  exact ⟨entry, hentry, rfl, item,
    List.mem_zipIdx_iff_getElem?.mp (List.mem_of_mem_filter hitem), rfl⟩

/-- In the second dialect, every job of a document was read from an entry. -/
lemma Gitlab.exists_entry_of_mem {tree : Value} {source fileName : String} {d : Document}
    (h : document tree source fileName = .ok d) {j : Job} (hj : j ∈ d.jobs) :
    ∃ defaults, ∃ entry ∈ tree.entries, jobOfEntry tree source defaults entry = .ok j := by
  obtain ⟨-, defaults, read, hread, hjobs⟩ := foldl_putJob_of_document h
  rw [hjobs] at hj
  have hmem : j ∈ read := (Document.mem_foldl_putJob hj).resolve_left List.not_mem_nil
  obtain ⟨entry, hentry, hread⟩ := exists_of_mem_mapM hread hmem
  exact ⟨defaults, entry, List.mem_of_mem_filter hentry, hread⟩

/-! ## Indices of steps -/

/-- In the first dialect, the index of a step is its place in the list, so that indices rise. -/
lemma Github.nodup_index_steps (source jobId : String) (raw : Value) :
    ((steps source jobId raw).map Step.index).Nodup := by
  have hindex : (steps source jobId raw).map Step.index =
      (raw.itemsOrSelf.zipIdx.filter fun p => p.1.isMap).map Prod.snd := by
    simp [steps, step, Function.comp_def]
  rw [hindex]
  refine List.Nodup.sublist (List.Sublist.map Prod.snd List.filter_sublist) ?_
  rw [List.zipIdx_map_snd]
  exact List.nodup_range'

/-- In the second dialect, the first command is looked for, and the others from where it was
found. -/
lemma Gitlab.exists_of_steps_cons {source : String} {index : Nat} {first : Value} {command : String}
    {rest : List String} {read : List Step}
    (h : steps source index first (command :: rest) = .ok read) :
    ∃ found start later, Source.findLineFrom source (firstLine command) first 0 = .ok found ∧
      steps source (index + 1) start rest = .ok later ∧
      read =
        { index := index, run := some command,
          line :=
            (found.or (Source.findLine source (firstLine command) 1)).map Numeral.ofNat } ::
          later := by
  rw [steps] at h
  obtain ⟨found, hfound, h⟩ := bind_eq_ok.mp h
  obtain ⟨later, hlater, h⟩ := bind_eq_ok.mp h
  cases h
  exact ⟨found, _, later, hfound, hlater, rfl⟩

/-- In the second dialect, the indices of steps count up. -/
lemma Gitlab.map_index_steps {source : String} {index : Nat} {first : Value}
    {commands : List String} {read : List Step} (h : steps source index first commands = .ok read) :
    read.map Step.index = List.range' index read.length := by
  induction commands generalizing index first read with
  | nil =>
      cases h
      rfl
  | cons command rest ih =>
      obtain ⟨_, _, later, -, hlater, rfl⟩ := exists_of_steps_cons h
      simp [ih hlater, List.range'_succ]

/-- In the second dialect, a step is made from a command and from the line that is found for it. -/
lemma Gitlab.exists_of_mem_steps {source : String} {index : Nat} {first : Value}
    {commands : List String} {read : List Step} (h : steps source index first commands = .ok read) :
    ∀ s ∈ read, ∃ i command start found,
      Source.findLineFrom source (firstLine command) start 0 = .ok found ∧
      s = { index := i, run := some command,
            line :=
              (found.or (Source.findLine source (firstLine command) 1)).map Numeral.ofNat } := by
  induction commands generalizing index first read with
  | nil =>
      cases h
      exact List.forall_mem_nil _
  | cons command rest ih =>
      obtain ⟨found, _, later, hfound, hlater, rfl⟩ := exists_of_steps_cons h
      exact List.forall_mem_cons.mpr ⟨⟨index, command, first, found, hfound, rfl⟩, ih hlater⟩

/-- In the second dialect, the job of an entry is made from it and from steps that were found. -/
lemma Gitlab.exists_steps_of_jobOfEntry {tree : Value} {source : String} {defaults : Defaults}
    {entry : Value × Value} {j : Job} (h : jobOfEntry tree source defaults entry = .ok j) :
    ∃ first commands read, steps source 0 first commands = .ok read ∧
      j = job entry.1.display entry.2 (jobLine (tree.keyLine entry.1.display)
        (Source.findJobLine source entry.1.display)) defaults read := by
  obtain ⟨_, -, h⟩ := bind_eq_ok.mp h
  obtain ⟨read, hread, h⟩ := bind_eq_ok.mp h
  obtain ⟨_, -, h⟩ := bind_eq_ok.mp h
  cases h
  exact ⟨_, _, read, mapError_eq_ok.mp hread, rfl⟩

/-- In the second dialect, the steps of a job that was read have indices of their own. -/
lemma Gitlab.nodup_index_of_jobOfEntry {tree : Value} {source : String} {defaults : Defaults}
    {entry : Value × Value} {j : Job} (h : jobOfEntry tree source defaults entry = .ok j) :
    (j.steps.map Step.index).Nodup := by
  obtain ⟨_, _, read, hread, rfl⟩ := exists_steps_of_jobOfEntry h
  rw [job, map_index_steps hread]
  exact List.nodup_range'

/-- **The steps of a job that was read have indices of their own.** -/
theorem Document.nodup_index_of_ofTree {tree : Value} {source dialect fileName : String}
    {d : Document} (h : ofTree tree source dialect fileName = .ok d) {j : Job} (hj : j ∈ d.jobs) :
    (j.steps.map Step.index).Nodup := by
  rcases document_of_ofTree h with h | h
  · obtain ⟨entry, -, rfl⟩ := Github.exists_entry_of_mem h hj
    exact Github.nodup_index_steps source entry.1.display (entry.2.get "steps")
  · obtain ⟨defaults, entry, -, hentry⟩ := Gitlab.exists_entry_of_mem h hj
    exact Gitlab.nodup_index_of_jobOfEntry hentry

/-- Under indices of their own, a step is found by its index. -/
lemma Job.step?_eq_some_iff {j : Job} (hj : (j.steps.map Step.index).Nodup)
    {index : Int} {s : Step} : j.step? index = some s ↔ s ∈ j.steps ∧ (s.index : Int) = index := by
  refine find?_key_eq_some_iff ?_
  have hcast : j.steps.map (fun s => (s.index : Int)) = (j.steps.map Step.index).map Nat.cast := by
    simp
  rw [hcast]
  exact hj.map fun _ _ h => Int.ofNat_inj.mp h

/-! ## Jobs under keys of their own -/

/-- In the second dialect, a job has the text of its key as its id. -/
lemma Gitlab.id_of_jobOfEntry {tree : Value} {source : String} {defaults : Defaults}
    {entry : Value × Value}
    {j : Job} (h : jobOfEntry tree source defaults entry = .ok j) : j.id = entry.1.display := by
  obtain ⟨_, _, _, -, rfl⟩ := exists_steps_of_jobOfEntry h
  rfl

/-- Jobs are named by the keys of their entries. -/
lemma Gitlab.map_id_of_mapM {tree : Value} {source : String} {defaults : Defaults}
    {entries : List (Value × Value)} {read : List Job}
    (h : entries.mapM (jobOfEntry tree source defaults) = .ok read) :
    read.map Job.id = (entries.map Prod.fst).map Value.display := by
  induction entries generalizing read with
  | nil =>
      cases h
      rfl
  | cons entry rest ih =>
      rw [List.mapM_cons] at h
      obtain ⟨j, hj, h⟩ := bind_eq_ok.mp h
      obtain ⟨later, hlater, h⟩ := bind_eq_ok.mp h
      cases h
      rw [List.map_cons, List.map_cons, List.map_cons, id_of_jobOfEntry hj, ih hlater]

/-- In the second dialect, the key of a job is a text. -/
lemma Gitlab.exists_str_of_isJob {key value : Value} (h : isJob key value = true) :
    ∃ name, key = .str name := by
  cases key
  case str name => exact ⟨name, rfl⟩
  all_goals cases h

/-- In the second dialect, every mapping of a job is read as a job of the document, if keys are
distinct. -/
lemma Gitlab.exists_job_of_mem {tree : Value} {source fileName : String} {d : Document}
    (h : document tree source fileName = .ok d) (hkeys : (tree.entries.map Prod.fst).Nodup)
    {entry : Value × Value} (hentry : entry ∈ tree.entries) (hjob : isJob entry.1 entry.2 = true) :
    ∃ defaults, ∃ j ∈ d.jobs, jobOfEntry tree source defaults entry = .ok j := by
  obtain ⟨-, defaults, read, hread, hjobs⟩ := foldl_putJob_of_document h
  have htext : ∀ key ∈ (tree.entries.filter fun e => isJob e.1 e.2).map Prod.fst,
      ∃ name, key = .str name := by
    intro key hkey
    obtain ⟨e, he, rfl⟩ := List.mem_map.mp hkey
    exact exists_str_of_isJob (List.mem_filter.mp he).2
  have hnodup : (read.map Job.id).Nodup := by
    rw [map_id_of_mapM hread]
    refine ((List.filter_sublist.map Prod.fst).nodup hkeys).map_on fun k hk l hl hsame => ?_
    obtain ⟨name, rfl⟩ := htext k hk
    obtain ⟨other, rfl⟩ := htext l hl
    exact congrArg Value.str hsame
  rw [Document.foldl_putJob_of_nodup (by simpa using hnodup), List.nil_append] at hjobs
  obtain ⟨j, hj, hread⟩ := exists_mem_of_mapM hread (List.mem_filter.mpr ⟨hentry, hjob⟩)
  exact ⟨defaults, j, hjobs ▸ hj, hread⟩

end PipelineAudit
