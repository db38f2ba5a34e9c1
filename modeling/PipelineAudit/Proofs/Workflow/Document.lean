import Mathlib.Data.List.Nodup
import PipelineAudit.Workflow.Parse

/-!
# Documents that were read

Reading writes each job under its id, and a job whose id was met before takes the place of the
earlier one (`Document.putJob`). So in both dialects the ids of a document that was read are
distinct (`Document.nodup_jobIds_of_ofTree`), which is what lets an id stand for its job in the
graph.

`Document.sampleTree` is a definition to try statements on: a diamond of four jobs, two jobs that
wait for each other, and one behind them.
-/

namespace PipelineAudit

/-- A computation in steps succeeds if each of its steps does. -/
lemma bind_eq_ok {ε α β : Type} {x : Except ε α} {f : α → Except ε β} {b : β} :
    (x >>= f) = .ok b ↔ ∃ a, x = .ok a ∧ f a = .ok b := by
  cases x <;> simp [bind, Except.bind]

/-- Renaming failures changes no result. -/
lemma mapError_eq_ok {ε δ α : Type} {f : ε → δ} {x : Except ε α} {a : α} :
    x.mapError f = .ok a ↔ x = .ok a := by
  cases x <;> simp [Except.mapError]

/-- A result that is changed was there before. -/
lemma map_eq_ok {ε α β : Type} {f : α → β} {x : Except ε α} {b : β} :
    x.map f = .ok b ↔ ∃ a, x = .ok a ∧ f a = b := by
  cases x <;> simp [Except.map]

/-- What is done with a result does not touch failures. -/
lemma map_eq_error {ε α β : Type} {f : α → β} {x : Except ε α} {e : ε} :
    x.map f = .error e ↔ x = .error e := by
  cases x <;> simp [Except.map]

/-- What a computation returns item by item, it returns for some item. -/
lemma exists_of_mem_mapM {ε α β : Type} {f : α → Except ε β} {items : List α} {results : List β}
    {b : β} (h : items.mapM f = .ok results) (hb : b ∈ results) : ∃ a ∈ items, f a = .ok b := by
  induction items generalizing results with
  | nil =>
      cases h
      cases hb
  | cons a rest ih =>
      rw [List.mapM_cons] at h
      obtain ⟨c, hc, h⟩ := bind_eq_ok.mp h
      obtain ⟨later, hlater, h⟩ := bind_eq_ok.mp h
      cases h
      rcases List.mem_cons.mp hb with rfl | hb
      · exact ⟨a, List.mem_cons_self, hc⟩
      · obtain ⟨a', ha', hfa⟩ := ih hlater hb
        exact ⟨a', List.mem_cons_of_mem a ha', hfa⟩

/-- What a computation returns for an item is among its results. -/
lemma exists_mem_of_mapM {ε α β : Type} {f : α → Except ε β} {items : List α} {results : List β}
    {a : α} (h : items.mapM f = .ok results) (ha : a ∈ items) : ∃ b ∈ results, f a = .ok b := by
  induction items generalizing results with
  | nil => cases ha
  | cons a' rest ih =>
      rw [List.mapM_cons] at h
      obtain ⟨c, hc, h⟩ := bind_eq_ok.mp h
      obtain ⟨later, hlater, h⟩ := bind_eq_ok.mp h
      cases h
      rcases List.mem_cons.mp ha with rfl | ha
      · exact ⟨c, List.mem_cons_self, hc⟩
      · obtain ⟨b, hb, hfb⟩ := ih hlater ha
        exact ⟨b, List.mem_cons_of_mem c hb, hfb⟩

/-- A computation item by item succeeds if it does so for each item. -/
lemma exists_mapM_iff {ε α β : Type} {f : α → Except ε β} {items : List α} :
    (∃ results, items.mapM f = .ok results) ↔ ∀ a ∈ items, ∃ b, f a = .ok b := by
  induction items with
  | nil => exact ⟨fun _ => nofun, fun _ => ⟨[], rfl⟩⟩
  | cons a rest ih =>
      simp only [List.mapM_cons, bind_eq_ok, List.forall_mem_cons, ← ih]
      constructor
      · rintro ⟨_, b, hb, results, hresults, -⟩
        exact ⟨⟨b, hb⟩, results, hresults⟩
      · rintro ⟨⟨b, hb⟩, results, hresults⟩
        exact ⟨b :: results, b, hb, results, hresults, rfl⟩

/-- Under distinct keys, the item with a key is found by it. -/
lemma find?_key_eq_some_iff {α κ : Type} [DecidableEq κ] {key : α → κ} {items : List α}
    (hkeys : (items.map key).Nodup) {k : κ} {x : α} :
    items.find? (fun a => key a == k) = some x ↔ x ∈ items ∧ key x = k := by
  constructor
  · intro h
    exact ⟨List.mem_of_find?_eq_some h, by simpa using List.find?_some h⟩
  · rintro ⟨hx, rfl⟩
    have hfound : (items.find? fun a => key a == key x).isSome = true :=
      List.find?_isSome.mpr ⟨x, hx, beq_self_eq_true (key x)⟩
    obtain ⟨y, hy⟩ := Option.isSome_iff_exists.mp hfound
    have hkey : key y = key x := by simpa using List.find?_some hy
    rw [hy, List.inj_on_of_nodup_map hkeys (List.mem_of_find?_eq_some hy) hx hkey]

namespace Document

variable {d : Document}

/-! ## Ids -/

/-- The ids of a document are those of its jobs. -/
lemma mem_jobIds {id : String} : id ∈ d.jobIds ↔ ∃ j ∈ d.jobs, j.id = id := by
  simp [jobIds]

/-- The ids of jobs of the document. -/
lemma id_mem_jobIds {j : Job} (hj : j ∈ d.jobs) : j.id ∈ d.jobIds :=
  mem_jobIds.mpr ⟨j, hj, rfl⟩

/-- A job exists if its id is one of the document's. -/
lemma hasJob_iff {id : String} : d.hasJob id = true ↔ id ∈ d.jobIds := by
  simp [hasJob, mem_jobIds]

/-- Under distinct ids, an id belongs to one job. -/
lemma job_ext (hd : d.jobIds.Nodup) {j k : Job} (hj : j ∈ d.jobs) (hk : k ∈ d.jobs)
    (hid : j.id = k.id) : j = k :=
  List.inj_on_of_nodup_map hd hj hk hid

/-- Under distinct ids, a job is found by its id. -/
lemma job?_eq_some_iff (hd : d.jobIds.Nodup) {id : String} {j : Job} :
    d.job? id = some j ↔ j ∈ d.jobs ∧ j.id = id :=
  find?_key_eq_some_iff hd

/-- No job is found by an id that no job has. -/
lemma job?_eq_none {id : String} (h : id ∉ d.jobIds) : d.job? id = none := by
  rw [job?, List.find?_eq_none]
  intro j hj hid
  exact h (mem_jobIds.mpr ⟨j, hj, by simpa using hid⟩)

/-- The steps of a document stand in its jobs. -/
lemma mem_steps {p : Job × Step} : p ∈ d.steps ↔ p.1 ∈ d.jobs ∧ p.2 ∈ p.1.steps := by
  obtain ⟨j, s⟩ := p
  simp only [steps, List.mem_flatMap, List.mem_map, Prod.mk.injEq]
  constructor
  · rintro ⟨j, hj, s, hs, rfl, rfl⟩
    exact ⟨hj, hs⟩
  · rintro ⟨hj, hs⟩
    exact ⟨j, hj, s, hs, rfl, rfl⟩

/-! ## Writing jobs -/

/-- Writing a job keeps the ids, and adds its own at the end if it is new. -/
lemma map_id_putJob (jobs : List Job) (job : Job) :
    (putJob jobs job).map Job.id =
      if job.id ∈ jobs.map Job.id then jobs.map Job.id else jobs.map Job.id ++ [job.id] := by
  induction jobs with
  | nil => simp [putJob]
  | cons j rest ih =>
      by_cases hj : j.id = job.id
      · simp [putJob, hj]
      · simp only [putJob, beq_iff_eq, hj, if_false, List.map_cons, ih, List.mem_cons,
          Ne.symm hj, false_or]
        split_ifs <;> rfl

/-- Writing a job keeps ids distinct. -/
lemma nodup_putJob {jobs : List Job} (h : (jobs.map Job.id).Nodup) (job : Job) :
    ((putJob jobs job).map Job.id).Nodup := by
  rw [map_id_putJob]
  split_ifs with hmem
  · exact h
  · exact List.nodup_append_comm.mp (List.nodup_cons.mpr ⟨hmem, h⟩)

/-- Writing jobs one after another keeps ids distinct. -/
lemma nodup_foldl_putJob (read : List Job) {jobs : List Job} (h : (jobs.map Job.id).Nodup) :
    ((read.foldl putJob jobs).map Job.id).Nodup := by
  induction read generalizing jobs with
  | nil => exact h
  | cons j rest ih => exact ih (nodup_putJob h j)

/-- Writing a job under a new id puts it at the end. -/
lemma putJob_of_notMem {jobs : List Job} {job : Job} (h : job.id ∉ jobs.map Job.id) :
    putJob jobs job = jobs ++ [job] := by
  induction jobs with
  | nil => rfl
  | cons j rest ih =>
      rw [List.map_cons, List.mem_cons, not_or] at h
      rw [putJob, if_neg (by simpa using h.1 ∘ Eq.symm), ih h.2, List.cons_append]

/-- Writing jobs of distinct ids one after another keeps them as they are. -/
lemma foldl_putJob_of_nodup {read jobs : List Job} (h : ((jobs ++ read).map Job.id).Nodup) :
    read.foldl putJob jobs = jobs ++ read := by
  induction read generalizing jobs with
  | nil => simp
  | cons j rest ih =>
      have hnew : j.id ∉ jobs.map Job.id := fun hj => by
        rw [List.map_append, List.map_cons] at h
        exact (List.nodup_append.mp h).2.2 j.id hj j.id List.mem_cons_self rfl
      rw [List.foldl_cons, putJob_of_notMem hnew, ih (by simpa using h), List.append_assoc,
        List.singleton_append]

end Document

/-! ## Distinct ids in both dialects -/

/-- In the first dialect, adding the jobs of a mapping keeps ids distinct. -/
lemma Github.nodup_addJobs {source : String} {mapping : Value} {entries : List (Value × Value)}
    {before jobs : List Job} (hb : (before.map Job.id).Nodup)
    (h : addJobs source mapping before entries = .ok jobs) : (jobs.map Job.id).Nodup := by
  induction entries generalizing before with
  | nil =>
      cases h
      exact hb
  | cons entry rest ih =>
      obtain ⟨key, raw⟩ := entry
      rw [addJobs] at h
      split_ifs at h with hkey hmap
      · exact ih hb h
      · obtain ⟨_, _, h⟩ := bind_eq_ok.mp h
        cases h
      · obtain ⟨_, _, h⟩ := bind_eq_ok.mp h
        obtain ⟨_, _, h⟩ := bind_eq_ok.mp h
        exact ih (Document.nodup_putJob hb _) h

/-- In the first dialect, the jobs of a document are those that its mapping of jobs adds. -/
lemma Github.addJobs_of_document {tree : Value} {source fileName : String} {d : Document}
    (h : document tree source fileName = .ok d) :
    d.dialect = .github ∧
      addJobs source (tree.get "jobs") [] (tree.get "jobs").entries = .ok d.jobs := by
  unfold document at h
  dsimp only at h
  split at h
  · cases h
  · split at h
    · cases h
    · obtain ⟨jobs, hadd, h⟩ := bind_eq_ok.mp h
      obtain ⟨_, _, h⟩ := bind_eq_ok.mp h
      cases h
      exact ⟨rfl, hadd⟩

/-- In the second dialect, the jobs of a document are those of the entries that are jobs, written
one after another. -/
lemma Gitlab.foldl_putJob_of_document {tree : Value} {source fileName : String} {d : Document}
    (h : document tree source fileName = .ok d) :
    d.dialect = .gitlab ∧ ∃ defaults read,
      (tree.entries.filter fun (key, value) => isJob key value).mapM
          (jobOfEntry tree source defaults) = .ok read ∧
        d.jobs = read.foldl Document.putJob [] := by
  unfold document at h
  obtain ⟨read, hread, h⟩ := bind_eq_ok.mp h
  dsimp only at h
  split at h
  · cases h
  · obtain ⟨_, _, h⟩ := bind_eq_ok.mp h
    cases h
    exact ⟨rfl, _, read, hread, rfl⟩

/-- A document that was read comes from the reader of its dialect. -/
lemma Document.document_of_ofTree {tree : Value} {source dialect fileName : String} {d : Document}
    (h : ofTree tree source dialect fileName = .ok d) :
    Github.document tree source fileName = .ok d ∨
      Gitlab.document tree source fileName = .ok d := by
  unfold ofTree at h
  split_ifs at h with hmap
  split at h
  · exact Or.inr h
  · exact Or.inl h
  · cases h

/-- A document of the first dialect comes from the reader of that dialect. -/
lemma Document.github_of_ofTree {tree : Value} {source dialect fileName : String} {d : Document}
    (h : ofTree tree source dialect fileName = .ok d) (hdialect : d.dialect = .github) :
    Github.document tree source fileName = .ok d := by
  refine (document_of_ofTree h).resolve_right fun hgitlab => ?_
  have := (Gitlab.foldl_putJob_of_document hgitlab).1
  rw [hdialect] at this
  cases this

/-- A document of the second dialect comes from the reader of that dialect. -/
lemma Document.gitlab_of_ofTree {tree : Value} {source dialect fileName : String} {d : Document}
    (h : ofTree tree source dialect fileName = .ok d) (hdialect : d.dialect = .gitlab) :
    Gitlab.document tree source fileName = .ok d := by
  refine (document_of_ofTree h).resolve_left fun hgithub => ?_
  have := (Github.addJobs_of_document hgithub).1
  rw [hdialect] at this
  cases this

/-- **The ids of a document that was read are distinct.** -/
theorem Document.nodup_jobIds_of_ofTree {tree : Value} {source dialect fileName : String}
    {d : Document} (h : ofTree tree source dialect fileName = .ok d) : d.jobIds.Nodup := by
  have hnil : (([] : List Job).map Job.id).Nodup := List.nodup_nil
  rcases document_of_ofTree h with h | h
  · exact Github.nodup_addJobs hnil (Github.addJobs_of_document h).2
  · obtain ⟨-, _, read, -, hjobs⟩ := Gitlab.foldl_putJob_of_document h
    rw [jobIds, hjobs]
    exact nodup_foldl_putJob read hnil

/-! ## A definition to try statements on -/

/-- Four jobs of which two stand side by side, with a repeated need and one of a job that does not
exist, an artifact and an output; two jobs that wait for each other; one behind them; and one
alone. -/
def Document.sampleTree : Value :=
  .ofFields [("on", .str "push"), ("jobs", .ofFields [
    ("deploy", .ofFields [("needs", .ofStrings ["test", "lint"]),
      ("env", .ofFields [("TAG", .str "$\x7b\x7b needs.build.outputs.tag \x7d\x7d")])]),
    ("build",
      .ofFields [("steps", .seq [.ofFields [("uses", .str "actions/upload-artifact@v4")]])]),
    ("test", .ofFields [("needs", .str "build"),
      ("steps", .seq [.ofFields [("uses", .str "actions/download-artifact@v4")]])]),
    ("lint", .ofFields [("needs", .ofStrings ["build", "build", "gone"])]),
    ("left", .ofFields [("needs", .str "right")]),
    ("right", .ofFields [("needs", .str "left")]),
    ("behind", .ofFields [("needs", .str "left")]),
    ("docs", .ofFields [])])]

/-- A result that passes a check exists. -/
lemma exists_ok_of_any {ε α : Type} {x : Except ε α} {p : α → Prop} [DecidablePred p]
    (hp : (x.toOption.any fun a => decide (p a)) = true) : ∃ a, x = .ok a ∧ p a := by
  cases x with
  | error e => cases hp
  | ok a => exact ⟨a, rfl, of_decide_eq_true hp⟩

/-- A result that passes a check exists, and has what every result has. -/
lemma exists_ok_and {ε α : Type} {x : Except ε α} {p q : α → Prop} [DecidablePred p]
    (hq : ∀ a, x = .ok a → q a) (hp : (x.toOption.any fun a => decide (p a)) = true) :
    ∃ a, x = .ok a ∧ p a ∧ q a := by
  obtain ⟨a, ha, hpa⟩ := exists_ok_of_any hp
  exact ⟨a, ha, hpa, hq a ha⟩

end PipelineAudit
