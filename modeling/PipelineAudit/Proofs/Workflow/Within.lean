import PipelineAudit.Proofs.Source.Steps
import PipelineAudit.Proofs.Workflow.Lines
import PipelineAudit.Proofs.Yaml.WithinText

/-!
# Documents within their source

The line of a job or a step is one that the tree of the source records, or one that a search finds
in the source. Either way it is a line of the source, if it is known: a document that was read lies
within its source (`Document.liesWithin_of_parse`).
-/

namespace PipelineAudit

variable {source : String} {count : Nat} {v : Value} {found : Option Nat}

/-! ## Searches -/

namespace Source

/-- A search passes the lines one by one, from the one where it starts. -/
lemma lineFrom_bounds {p : String → Bool} {start n : Nat} {ls : List String}
    (h : lineFrom p start ls = some n) : start ≤ n ∧ n < start + ls.length := by
  induction ls generalizing start with
  | nil => cases h
  | cons l rest ih =>
      rw [lineFrom] at h
      rw [List.length_cons]
      split_ifs at h
      · cases h
        omega
      · obtain ⟨hle, hlt⟩ := ih h
        omega

/-- What a search finds is a line of the source, wherever it starts. -/
lemma findLine_bounds {text : String} {start : Int} {n : Nat}
    (h : findLine source text start = some n) : 1 ≤ n ∧ n ≤ (Text.lines source).length := by
  unfold findLine at h
  split_ifs at h
  obtain ⟨hle, hlt⟩ := lineFrom_bounds h
  rw [List.length_drop] at hlt
  omega

/-- A line that is found is one of the source. -/
lemma findLineFrom_bounds {text : String} {line : Value} {moved : Int} {n : Nat}
    (h : findLineFrom source text line moved = .ok (some n)) :
    1 ≤ n ∧ n ≤ (Text.lines source).length := by
  unfold findLineFrom at h
  split_ifs at h
  · cases h
  · cases hstart : searchStart line moved with
    | error fault =>
        rw [hstart] at h
        cases h
    | ok first =>
        rw [hstart] at h
        exact findLine_bounds (Except.ok.inj h)

/-- So is that of a job. -/
lemma findJobLine_bounds {job : String} {n : Nat} (h : findJobLine source job = some n) :
    1 ≤ n ∧ n ≤ (Text.lines source).length := by
  obtain ⟨hle, hlt⟩ := lineFrom_bounds h
  omega

/-- So is that of a step. -/
lemma findStepLine_bounds {job : String} {index : Int} {n : Nat}
    (h : findStepLine source job index = some n) : 1 ≤ n ∧ n ≤ (Text.lines source).length := by
  obtain ⟨jobLine, hjob, h⟩ := Option.bind_eq_some_iff.mp h
  obtain ⟨p, line, rfl, hline, -⟩ := scanSteps_eq_some h
  rw [List.getElem?_drop] at hline
  obtain ⟨hlength, -⟩ := List.getElem?_eq_some_iff.mp hline
  omega

end Source

/-! ## Lines of jobs and steps -/

/-- What is found within a count is a place within it. -/
lemma isWithin_found (h : ∀ n, found = some n → 1 ≤ n ∧ n ≤ count) :
    ((found.map fun n => Value.int n).getD .null).IsWithin count := by
  cases found with
  | none => exact Value.isWithin_null
  | some n => exact Value.isWithin_int (h n rfl).1 (h n rfl).2

/-- The line of a job lies within the source, whether recorded or found. -/
lemma isWithin_jobLine (h : v.IsWithin count) (hfound : ∀ n, found = some n → 1 ≤ n ∧ n ≤ count) :
    (jobLine v found).IsWithin count := by
  unfold jobLine
  split_ifs
  · exact h
  · exact isWithin_found hfound

/-- A step at a line that was found. -/
lemma Step.isWithin_lineValue_of_found {s : Step} (hs : s.line = found.map Numeral.ofNat)
    (hfound : ∀ n, found = some n → 1 ≤ n ∧ n ≤ count) : s.lineValue.IsWithin count := by
  rw [lineValue, hs]
  cases found <;> exact isWithin_found hfound

/-- So does that of a step. -/
lemma Github.isWithin_lineValue {s : Step} (hs : s.line = stepLine v found) (h : v.IsWithin count)
    (hfound : ∀ n, found = some n → 1 ≤ n ∧ n ≤ count) : s.lineValue.IsWithin count := by
  unfold stepLine at hs
  split_ifs at hs with htruthy
  · rw [Step.lineValue, hs]
    cases v with
    | null => cases htruthy
    | int n => exact h
    | bool b =>
        obtain ⟨rfl, hcount⟩ := h
        exact ⟨rfl, hcount⟩
    | _ => exact h.elim
  · exact Step.isWithin_lineValue_of_found hs hfound

/-- In the second dialect, each command is looked for in the source. -/
lemma Gitlab.isWithin_lineValue_of_mem_steps {index : Nat} {first : Value} {commands : List String}
    {read : List Step} (h : steps source index first commands = .ok read) :
    ∀ s ∈ read, s.lineValue.IsWithin (Text.lines source).length := by
  intro s hs
  obtain ⟨i, command, start, found, hfound, rfl⟩ := exists_of_mem_steps h s hs
  refine Step.isWithin_lineValue_of_found rfl fun n hn => ?_
  rcases Option.or_eq_some_iff.mp hn with rfl | ⟨-, hn⟩
  · exact Source.findLineFrom_bounds hfound
  · exact Source.findLine_bounds hn

/-! ## Documents -/

namespace Document

/-- The lines of the jobs and steps of a document are within so many lines. -/
structure LiesWithin (count : Nat) (d : Document) : Prop where
  jobs : ∀ j ∈ d.jobs, j.line.IsWithin count
  steps : ∀ j ∈ d.jobs, ∀ s ∈ j.steps, s.lineValue.IsWithin count

instance (count : Nat) (d : Document) : Decidable (d.LiesWithin count) :=
  decidable_of_iff ((∀ j ∈ d.jobs, j.line.IsWithin count) ∧ ∀ j ∈ d.jobs, ∀ s ∈ j.steps,
    s.lineValue.IsWithin count) ⟨fun h => ⟨h.1, h.2⟩, fun h => ⟨h.jobs, h.steps⟩⟩

variable {tree : Value} {dialect fileName : String} {d : Document}

/-- A document of a tree that records lines of the source lies within the source. -/
lemma liesWithin_of_ofTree (htree : tree.LiesWithin (Text.lines source).length)
    (h : ofTree tree source dialect fileName = .ok d) :
    d.LiesWithin (Text.lines source).length := by
  have hjobLine : ∀ {v : Value} {job : String}, v.IsWithin (Text.lines source).length →
      (jobLine v (Source.findJobLine source job)).IsWithin (Text.lines source).length := fun hv =>
    isWithin_jobLine hv fun n hn => Source.findJobLine_bounds hn
  rcases document_of_ofTree h with h | h
  · have hjobs := htree.get "jobs"
    constructor
    · intro j hj
      obtain ⟨entry, -, rfl⟩ := Github.exists_entry_of_mem h hj
      exact hjobLine (hjobs.keyLine _)
    · intro j hj s hs
      obtain ⟨entry, hentry, -, item, hitem, hstep⟩ := Github.exists_item_of_mem h hj hs
      have hsteps := (hjobs.entries entry hentry).get "steps"
      have hitem := hsteps.itemsOrSelf item (List.mem_of_getElem? hitem)
      exact Github.isWithin_lineValue (congrArg Step.line hstep) hitem.startLine fun n hn =>
        Source.findStepLine_bounds hn
  · constructor
    · intro j hj
      obtain ⟨defaults, entry, -, hentry⟩ := Gitlab.exists_entry_of_mem h hj
      obtain ⟨_, _, _, -, rfl⟩ := Gitlab.exists_steps_of_jobOfEntry hentry
      exact hjobLine (htree.keyLine _)
    · intro j hj
      obtain ⟨defaults, entry, -, hentry⟩ := Gitlab.exists_entry_of_mem h hj
      obtain ⟨_, _, read, hread, rfl⟩ := Gitlab.exists_steps_of_jobOfEntry hentry
      exact Gitlab.isWithin_lineValue_of_mem_steps hread

/-- **A document that was read** lies within its source. -/
theorem liesWithin_of_parse {dialect : Option String} (h : parse source fileName dialect = .ok d) :
    d.LiesWithin (Text.lines source).length := by
  obtain ⟨tree, htree, h⟩ := ofTree_of_parse h
  exact liesWithin_of_ofTree (Yaml.liesWithin_of_load htree) h

end Document

end PipelineAudit
