import PipelineAudit.Context
import PipelineAudit.Graph.Edge
import PipelineAudit.Proofs.Assoc
import PipelineAudit.Proofs.Workflow.Lines

/-!
# Trees whose values have texts

A value has a text unless an integer in it is too long (`Value.isWritable`), and what is taken out
of such a value has one too. So a tree all of whose values have texts is read without a failure on a
number (`Document.reads_ofTree`), and the document has texts wherever expressions are looked for
(`Document.areTextsWritable_of_ofTree`).
-/

namespace PipelineAudit

namespace Value

/-! ## Parts of values -/

/-- A list has a text if its items have. -/
lemma isWritable_seq_iff {items : List Value} :
    (seq items).isWritable = true ↔ ∀ v ∈ items, v.isWritable = true := by
  have hitems : ∀ items, areWritable items = true ↔ ∀ v ∈ items, v.isWritable = true := by
    intro items
    induction items with
    | nil => simp [areWritable]
    | cons v rest ih => simp [areWritable, ih]
  exact hitems items

/-- A mapping has a text if its keys and values have. -/
lemma isWritable_map_iff {es : List (Value × Value)} :
    (map es).isWritable = true ↔ ∀ e ∈ es, e.1.isWritable = true ∧ e.2.isWritable = true := by
  have hentries : ∀ es, entriesWritable es = true ↔
      ∀ e ∈ es, e.1.isWritable = true ∧ e.2.isWritable = true := by
    intro es
    induction es with
    | nil => simp [entriesWritable]
    | cons e rest ih =>
        obtain ⟨k, v⟩ := e
        simp only [entriesWritable, entryWritable, Bool.and_eq_true, ih, List.forall_mem_cons]
  exact hentries es

variable {v w : Value}

/-- The entries of a value with a text have texts. -/
lemma isWritable_of_mem_entries (h : v.isWritable = true) {e : Value × Value} (he : e ∈ v.entries) :
    e.1.isWritable = true ∧ e.2.isWritable = true := by
  cases v with
  | map es => exact isWritable_map_iff.mp h e he
  | _ => cases he

/-- What a value with a text holds under a key has a text. -/
lemma isWritable_of_get? (h : v.isWritable = true) {name : String} (hw : v.get? name = some w) :
    w.isWritable = true := by
  obtain ⟨e, he, rfl⟩ := get?_eq_some hw
  exact (isWritable_of_mem_entries h he).2

/-- A field of a value that can be written can be written. -/
lemma isWritable_get (h : v.isWritable = true) (name : String) :
    (v.get name).isWritable = true := by
  rw [get]
  cases hget : v.get? name with
  | none => rfl
  | some w => exact isWritable_of_get? h hget

/-- What is found under a key is the value of an entry. -/
lemma exists_mem_of_lookup {es : List (Value × Value)} {key : Value} (h : lookup es key = some w) :
    ∃ e ∈ es, e.2 = w := by
  induction es with
  | nil => cases h
  | cons e rest ih =>
      obtain ⟨k, v⟩ := e
      rw [lookup] at h
      split_ifs at h
      · cases h
        exact ⟨_, List.mem_cons_self, rfl⟩
      · obtain ⟨e, he, heq⟩ := ih h
        exact ⟨e, List.mem_cons_of_mem _ he, heq⟩

/-- The items of a value with a text have texts. -/
lemma isWritable_of_mem_itemsOrSelf (h : v.isWritable = true) (hw : w ∈ v.itemsOrSelf) :
    w.isWritable = true := by
  cases v with
  | null => cases hw
  | seq items => exact isWritable_seq_iff.mp h w hw
  | _ =>
      obtain rfl := List.mem_singleton.mp hw
      exact h

/-- The keys of a value with a text have texts. -/
lemma isWritable_of_mem_fieldKeys (h : v.isWritable = true) (hw : w ∈ v.fieldKeys) :
    w.isWritable = true := by
  obtain ⟨e, he, rfl⟩ := List.mem_map.mp (List.mem_of_mem_filter hw)
  exact (isWritable_of_mem_entries h he).1

mutual

/-- Without its position entries, a value with a text has a text. -/
lemma isWritable_clean : (v : Value) → v.isWritable = true → v.clean.isWritable = true
  | seq items => isWritable_cleanItems items
  | map es => isWritable_cleanEntries es
  | null | bool _ | int _ | float _ | str _ | bytes _ | date _ | moment _ | pair _ _ => id
termination_by structural v => v

/-- Items that can be written can be written when cleaned. -/
lemma isWritable_cleanItems : (items : List Value) → areWritable items = true →
    areWritable (cleanItems items) = true
  | [] => id
  | v :: rest => by
      simp only [areWritable, cleanItems, Bool.and_eq_true]
      exact And.imp (isWritable_clean v) (isWritable_cleanItems rest)
termination_by structural items => items

/-- So can entries. -/
lemma isWritable_cleanEntries : (es : List (Value × Value)) → entriesWritable es = true →
    entriesWritable (cleanEntries es) = true
  | [] => id
  | e :: rest => by
      rw [cleanEntries]
      simp only [entriesWritable, Bool.and_eq_true]
      rintro ⟨he, hrest⟩
      split_ifs
      · exact isWritable_cleanEntries rest hrest
      · simp only [entriesWritable, Bool.and_eq_true]
        exact ⟨isWritable_cleanEntry e he, isWritable_cleanEntries rest hrest⟩
termination_by structural es => es

/-- So can an entry, if it stays. -/
lemma isWritable_cleanEntry : (e : Value × Value) → entryWritable e = true →
    entryWritable (cleanEntry e) = true
  | (k, v) => by
      simp only [entryWritable, cleanEntry, Bool.and_eq_true]
      exact And.imp_right (isWritable_clean v)
termination_by structural e => e

end

end Value

/-- All values of some fields have texts. -/
def Fields.AreWritable (fields : Fields) : Prop := ∀ p ∈ fields, p.2.isWritable = true

/-- A mapping of fields with texts has a text. -/
lemma Fields.AreWritable.ofFields {fields : Fields} (h : fields.AreWritable) :
    (Value.ofFields fields).isWritable = true := by
  refine Value.isWritable_map_iff.mpr fun e he => ?_
  obtain ⟨p, hp, rfl⟩ := List.mem_map.mp he
  exact ⟨rfl, h p hp⟩

/-! ## Ways to fail -/

/-- A failure on a tree is expected: a rejection, or on a number in a tree that has no text. -/
def ParseFailure.IsExpected (tree : Value) : ParseFailure → Prop
  | .rejected _ => True
  | .number why => why = .tooLongToWrite ∧ tree.isWritable = false
  | .fault _ => False
  | .line => False

/-- A reading of a tree fails in expected ways only. -/
def Reads {α : Type} (tree : Value) (x : Except ParseFailure α) : Prop :=
  ∀ why, x = .error why → why.IsExpected tree

section reads

variable {α β : Type} {tree : Value}

/-- A result is read as expected. -/
lemma Reads.ok (a : α) : Reads tree (.ok a) := nofun

/-- So is a rejection. -/
lemma Reads.rejected (e : DocumentError) :
    Reads tree (.error (.rejected e) : Except ParseFailure α) := by
  rintro _ ⟨⟩
  trivial

/-- So is what is read one after the other. -/
lemma Reads.bind {x : Except ParseFailure α} {f : α → Except ParseFailure β} (hx : Reads tree x)
    (hf : ∀ a, Reads tree (f a)) : Reads tree (x >>= f) := by
  intro why h
  cases x with
  | error e =>
      cases h
      exact hx _ rfl
  | ok a => exact hf a why h

/-- So is what is read item by item. -/
lemma Reads.mapM {f : α → Except ParseFailure β} {items : List α}
    (h : ∀ a ∈ items, Reads tree (f a)) : Reads tree (items.mapM f) := by
  induction items with
  | nil => exact Reads.ok []
  | cons a rest ih =>
      obtain ⟨ha, hrest⟩ := List.forall_mem_cons.mp h
      rw [List.mapM_cons]
      exact ha.bind fun _ => (ih hrest).bind fun _ => Reads.ok _

/-- Values that have texts if the tree has can be checked for texts. -/
lemma Reads.checkWritten {values : List Value}
    (h : tree.isWritable = true → ∀ v ∈ values, v.isWritable = true) :
    Reads tree (checkWritten values) := by
  intro why hwhy
  unfold PipelineAudit.checkWritten at hwhy
  split_ifs at hwhy with hall
  cases hwhy
  refine ⟨rfl, ?_⟩
  by_contra htree
  exact hall (List.all_eq_true.mpr (h (by simpa using htree)))

end reads

/-! ## The first dialect -/

namespace Github

variable {tree raw : Value} {source fileName : String}

/-- What a step of a value with a text writes has a text. -/
lemma isWritable_of_mem_writtenInStep (h : raw.isWritable = true) :
    ∀ v ∈ writtenInStep raw, v.isWritable = true := by
  intro v hv
  simp only [writtenInStep, List.mem_append, List.mem_cons, List.not_mem_nil, or_false] at hv
  rcases hv with ((rfl | rfl | rfl | rfl) | hv) | hv
  · exact Value.isWritable_get h "name"
  · exact Value.isWritable_get h "uses"
  · exact Value.isWritable_get h "run"
  · exact Value.isWritable_get h "if"
  · exact Value.isWritable_of_mem_fieldKeys (Value.isWritable_get h "with") hv
  · exact Value.isWritable_of_mem_fieldKeys (Value.isWritable_get h "env") hv

/-- What a job of a value with a text writes has a text. -/
lemma isWritable_of_mem_writtenInJob (h : raw.isWritable = true) :
    ∀ v ∈ writtenInJob raw, v.isWritable = true := by
  intro v hv
  simp only [writtenInJob, List.mem_append, List.mem_cons, List.not_mem_nil, or_false] at hv
  rcases hv with ((hv | (rfl | rfl)) | hv) | hv
  · obtain ⟨item, hitem, hv⟩ := List.mem_flatMap.mp hv
    exact isWritable_of_mem_writtenInStep
      (Value.isWritable_of_mem_itemsOrSelf (Value.isWritable_get h "steps") hitem) v hv
  · exact Value.isWritable_get h "name"
  · exact Value.isWritable_get h "if"
  · exact Value.isWritable_of_mem_itemsOrSelf
      (Value.isWritable_clean _ (Value.isWritable_get h "needs")) hv
  · obtain ⟨name, -, hv⟩ := List.mem_flatMap.mp hv
    exact Value.isWritable_of_mem_fieldKeys (Value.isWritable_get h name) hv

/-- The jobs of a mapping are read as expected. -/
lemma reads_addJobs {mapping : Value} {before : List Job} {entries : List (Value × Value)}
    (h : tree.isWritable = true → ∀ e ∈ entries, e.1.isWritable = true ∧ e.2.isWritable = true) :
    Reads tree (addJobs source mapping before entries) := by
  induction entries generalizing before with
  | nil => exact Reads.ok before
  | cons entry rest ih =>
      obtain ⟨key, raw⟩ := entry
      have hrest : ∀ jobs, Reads tree (addJobs source mapping jobs rest) := fun jobs =>
        ih fun htree => (List.forall_mem_cons.mp (h htree)).2
      have hentry := fun htree => (List.forall_mem_cons.mp (h htree)).1
      rw [addJobs]
      split_ifs
      · exact hrest before
      · refine Reads.bind (Reads.checkWritten fun htree => ?_) fun _ => Reads.rejected _
        simpa using (hentry htree).1
      · refine Reads.bind (Reads.checkWritten fun htree => ?_) fun _ =>
          Reads.bind (Reads.checkWritten fun htree => ?_) fun _ => hrest _
        · simpa using (hentry htree).1
        · exact isWritable_of_mem_writtenInJob (hentry htree).2

/-- The names of triggers with a text have texts. -/
lemma isWritable_of_mem_names {on : Value} (h : on.isWritable = true) :
    ∀ v ∈ Trigger.names on, v.isWritable = true := by
  intro v hv
  cases on with
  | null => cases hv
  | seq items => exact Value.isWritable_seq_iff.mp h v hv
  | map es =>
      obtain ⟨e, he, rfl⟩ := List.mem_map.mp hv
      exact (Value.isWritable_map_iff.mp h e he).1
  | _ =>
      obtain rfl := List.mem_singleton.mp hv
      exact h

/-- The triggers of a tree with a text have a text. -/
lemma isWritable_triggers (h : tree.isWritable = true) : (triggers tree).isWritable = true := by
  unfold triggers
  split
  · rename_i v hv
    obtain ⟨e, he, rfl⟩ := Value.get?_eq_some hv
    exact (Value.isWritable_of_mem_entries h he).2
  · cases hlookup : Value.lookup tree.entries (.bool true) with
    | none => rfl
    | some w =>
        obtain ⟨e, he, rfl⟩ := Value.exists_mem_of_lookup hlookup
        exact (Value.isWritable_of_mem_entries h he).2

/-- The whole document is read as expected. -/
lemma reads_document : Reads tree (document tree source fileName) := by
  unfold document
  dsimp only
  split
  · exact Reads.rejected _
  · split
    · exact Reads.rejected _
    · refine Reads.bind (reads_addJobs fun htree e he => ?_) fun jobs =>
        Reads.bind (Reads.checkWritten fun htree v hv => ?_) fun _ => Reads.ok _
      · exact Value.isWritable_of_mem_entries (Value.isWritable_get htree "jobs") he
      · simp only [List.cons_append, List.mem_cons, List.mem_append] at hv
        rcases hv with rfl | hv | hv
        · exact Value.isWritable_get htree "name"
        · exact isWritable_of_mem_names (Value.isWritable_clean _ (isWritable_triggers htree)) v hv
        · exact Value.isWritable_of_mem_fieldKeys (Value.isWritable_get htree "env") hv

end Github

/-! ## The second dialect -/

namespace Gitlab

variable {tree raw : Value} {source fileName : String} {defaults : Defaults}

/-- The value of a key of a value with a text, or else one with a text, has a text. -/
lemma isWritable_getOr {other : Value} (h : raw.isWritable = true)
    (hother : other.isWritable = true)
    (key : String) : (getOr raw key other).isWritable = true := by
  rw [getOr]
  cases hget : raw.get? key with
  | none => exact hother
  | some w =>
      obtain ⟨e, he, rfl⟩ := Value.get?_eq_some hget
      exact (Value.isWritable_of_mem_entries h he).2

/-- A mapping with a text, or an empty one in its place, has a text. -/
lemma isWritable_mapOrEmpty (h : raw.isWritable = true) : (mapOrEmpty raw).isWritable = true := by
  unfold mapOrEmpty
  split_ifs
  · exact h
  · rfl

/-- What a pipeline sets for all its jobs has texts. -/
structure Defaults.IsWritable (defaults : Defaults) : Prop where
  before : defaults.before.isWritable = true
  after : defaults.after.isWritable = true
  common : defaults.common.isWritable = true

/-- The scripts of a job with a text have texts. -/
lemma isWritable_of_mem_scripts (h : raw.isWritable = true) (hdefaults : defaults.IsWritable) :
    ∀ v ∈ scripts raw defaults, v.isWritable = true := by
  intro v hv
  simp only [scripts, List.mem_cons, List.not_mem_nil, or_false] at hv
  rcases hv with rfl | rfl | rfl
  · exact isWritable_getOr h hdefaults.before "before_script"
  · exact Value.isWritable_get h "script"
  · exact isWritable_getOr h hdefaults.after "after_script"

/-- What a job with a text writes has a text. -/
lemma isWritable_of_mem_writtenInJob (h : raw.isWritable = true) (hdefaults : defaults.IsWritable) :
    ∀ v ∈ writtenInJob raw defaults, v.isWritable = true := by
  intro v hv
  simp only [writtenInJob, List.mem_append, or_assoc] at hv
  rcases hv with hv | hv | hv | hv | hv | hv
  · have htags := isWritable_getOr h (Value.isWritable_get hdefaults.common "tags") "tags"
    exact Value.isWritable_of_mem_itemsOrSelf (Value.isWritable_clean _ htags) hv
  · obtain ⟨entry, hentry, rfl⟩ := List.mem_map.mp hv
    have hneed := Value.isWritable_of_mem_itemsOrSelf
      (Value.isWritable_clean _ (Value.isWritable_get h "needs")) hentry
    split_ifs
    · exact Value.isWritable_get hneed "job"
    · exact hneed
  · exact Value.isWritable_of_mem_fieldKeys (Value.isWritable_get h "variables") hv
  · obtain ⟨rule, hrule, rfl⟩ := List.mem_map.mp hv
    exact Value.isWritable_get
      (Value.isWritable_of_mem_itemsOrSelf (Value.isWritable_get h "rules") hrule) "if"
  · exact Value.isWritable_of_mem_fieldKeys (Value.isWritable_get h "parallel") hv
  · exact Value.isWritable_of_mem_itemsOrSelf (Value.isWritable_get h "dependencies") hv

/-- The next command is looked for from a known place. -/
lemma isKnownPlace_nextStart {last : Value} (h : last.IsKnownPlace) (found : Option Nat) :
    (nextStart last found).IsKnownPlace := by
  cases found with
  | none => exact h
  | some n =>
      rw [nextStart]
      split_ifs
      · exact ⟨.int _, rfl⟩
      · exact h

/-- The steps of commands can be told, from a known place on. -/
lemma exists_steps {first : Value} (h : first.IsKnownPlace) (index : Nat) (commands : List String) :
    ∃ read, steps source index first commands = .ok read := by
  induction commands generalizing index first with
  | nil => exact ⟨[], rfl⟩
  | cons command rest ih =>
      obtain ⟨found, hfound⟩ := h.exists_findLineFrom source (firstLine command) 0
      obtain ⟨later, hlater⟩ := ih
        (isKnownPlace_nextStart h (found.or (Source.findLine source (firstLine command) 1)))
          (index + 1)
      rw [steps]
      exact ⟨_, bind_eq_ok.mpr ⟨found, hfound, bind_eq_ok.mpr ⟨later, hlater, rfl⟩⟩⟩

/-- Reading a job fails on numbers only: its line tells a place, so that its commands can be looked
for. -/
lemma reads_jobOfEntry (hlines : tree.RecordsLines) {entry : Value × Value}
    (hentry : tree.isWritable = true → entry.2.isWritable = true)
    (hdefaults : tree.isWritable = true → defaults.IsWritable) :
    Reads tree (jobOfEntry tree source defaults entry) := by
  let line := jobLine (tree.keyLine entry.1.display) (Source.findJobLine source entry.1.display)
  have hfirst : (if line.isNull then .int 1 else line).IsKnownPlace := by
    split_ifs with hnull
    · exact ⟨.int 1, rfl⟩
    · exact ⟨isPlace_jobLine (hlines _) _, by simpa using hnull⟩
  obtain ⟨read, hread⟩ := @exists_steps source _ hfirst 0
    ((scripts entry.2 defaults).flatMap commandLines)
  refine Reads.bind (Reads.checkWritten fun htree =>
    isWritable_of_mem_scripts (hentry htree) (hdefaults htree)) fun _ => ?_
  refine Reads.bind ?_ fun _ => Reads.bind (Reads.checkWritten fun htree =>
    isWritable_of_mem_writtenInJob (hentry htree) (hdefaults htree)) fun _ => Reads.ok _
  rw [hread]
  exact Reads.ok read

/-- The values of `only` clauses of a tree with a text have texts. -/
lemma isWritable_of_mem_onlyValues (h : tree.isWritable = true) :
    ∀ v ∈ onlyValues tree, v.isWritable = true := by
  intro v hv
  obtain ⟨⟨key, value⟩, hentry, hv⟩ := List.mem_flatMap.mp hv
  dsimp only at hv
  split_ifs at hv with hskip hmap
  · cases hv
  · have honly := Value.isWritable_get (Value.isWritable_of_mem_entries h hentry).2 "only"
    exact Value.isWritable_of_mem_itemsOrSelf (Value.isWritable_get honly "refs") hv
  · have honly := Value.isWritable_get (Value.isWritable_of_mem_entries h hentry).2 "only"
    exact Value.isWritable_of_mem_itemsOrSelf honly hv

/-- The whole document is read as expected. -/
lemma reads_document (hlines : tree.RecordsLines) : Reads tree (document tree source fileName) := by
  have hcommon : tree.isWritable = true → (mapOrEmpty (tree.get "default")).isWritable = true :=
    fun htree => isWritable_mapOrEmpty (Value.isWritable_get htree "default")
  unfold document
  dsimp only
  refine Reads.bind (Reads.mapM fun entry hentry => ?_) fun read => ?_
  · refine reads_jobOfEntry hlines (fun htree => ?_) fun htree => ⟨?_, ?_, hcommon htree⟩
    · exact (Value.isWritable_of_mem_entries htree (List.mem_of_mem_filter hentry)).2
    · exact isWritable_getOr htree (Value.isWritable_get (hcommon htree) "before_script") _
    · exact isWritable_getOr htree (Value.isWritable_get (hcommon htree) "after_script") _
  · split_ifs
    · exact Reads.rejected _
    · refine Reads.bind (Reads.checkWritten fun htree v hv => ?_) fun _ => Reads.ok _
      simp only [List.cons_append, List.mem_cons, List.mem_append] at hv
      rcases hv with rfl | hv | hv
      · exact Value.isWritable_get (isWritable_mapOrEmpty (Value.isWritable_get htree "workflow"))
          "name"
      · exact isWritable_of_mem_onlyValues htree v hv
      · exact Value.isWritable_of_mem_fieldKeys (Value.isWritable_get htree "variables") hv

end Gitlab

/-! ## Documents -/

/-- The texts in which secrets are looked for are among those in which expressions are. -/
lemma Context.exists_job_of_mem_secretValues {dialect : Dialect} {jobs : List Job} {v : Value}
    (h : v ∈ secretValues dialect jobs) : ∃ j ∈ jobs, v ∈ Edge.jobValues j := by
  induction jobs with
  | nil => cases h
  | cons j rest ih =>
      have hlater : (∃ j' ∈ rest, v ∈ Edge.jobValues j') →
          ∃ j' ∈ j :: rest, v ∈ Edge.jobValues j' :=
        fun ⟨j', hj', hv⟩ => ⟨j', List.mem_cons_of_mem j hj', hv⟩
      rw [secretValues] at h
      rcases List.mem_append.mp h with h | h
      · exact ⟨j, List.mem_cons_self, List.mem_append_left _ (List.mem_append_left _ h)⟩
      · split_ifs at h
        · cases h
        · rcases List.mem_append.mp h with h | h
          · exact ⟨j, List.mem_cons_self, List.mem_append_right _ h⟩
          · exact hlater (ih h)

namespace Document

variable {tree : Value} {source dialect fileName : String} {d : Document}

/-- **A tree that records lines is read or fails in an expected way.** -/
theorem reads_ofTree (hlines : tree.RecordsLines) :
    Reads tree (ofTree tree source dialect fileName) := by
  unfold ofTree
  split_ifs
  · exact Reads.rejected _
  · split
    · exact Gitlab.reads_document hlines
    · exact Github.reads_document
    · exact Reads.rejected _

end Document

end PipelineAudit
