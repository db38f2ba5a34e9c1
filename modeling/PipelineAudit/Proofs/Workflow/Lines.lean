import PipelineAudit.Finding.Basic
import PipelineAudit.Proofs.Workflow.Steps
import PipelineAudit.Proofs.Yaml.Position

/-!
# The lines of jobs

A job gets the line that its tree records, or one that a search finds. In a document that was read
from a text, both tell a place (`Document.isLined_of_parse`), so that searches can start there
(`Value.IsKnownPlace.exists_findLineFrom`) and the lines around it can be shown
(`Value.IsPlace.exists_around`).
-/

namespace PipelineAudit

/-! ## Places -/

namespace Value

variable {v : Value}

/-- A value tells a place, and this is known. -/
def IsKnownPlace (v : Value) : Prop := v.IsPlace ∧ v.isNull = false

/-- The lines around a place can be shown. -/
lemma IsPlace.exists_around (h : v.IsPlace) (source : String) :
    ∃ shown, Snippet.around source v = .ok shown := by
  cases h with
  | null => exact ⟨none, rfl⟩
  | int n => exact ⟨_, rfl⟩
  | bool b => exact ⟨_, rfl⟩

/-- A search can start at a place that is known. -/
lemma IsKnownPlace.exists_findLineFrom (h : v.IsKnownPlace) (source text : String) (moved : Int) :
    ∃ found, Source.findLineFrom source text v moved = .ok found := by
  unfold Source.findLineFrom
  split_ifs
  · exact ⟨none, rfl⟩
  · obtain ⟨_ | n | b, hknown⟩ := h
    · cases hknown
    · exact ⟨_, rfl⟩
    · exact ⟨_, rfl⟩

end Value

/-- The line of a job tells a place, if what is recorded does. -/
lemma isPlace_jobLine {recorded : Value} (h : recorded.IsPlace) (found : Option Nat) :
    (jobLine recorded found).IsPlace := by
  unfold jobLine
  split_ifs
  · exact h
  · cases found with
    | none => exact .null
    | some n => exact .int n

/-! ## Documents -/

namespace Document

/-- The lines of all jobs tell places. -/
def IsLined (d : Document) : Prop := ∀ j ∈ d.jobs, j.line.IsPlace

variable {tree : Value} {source dialect fileName : String} {d : Document}

/-- The lines of the jobs of a tree that records lines tell places. -/
lemma isLined_of_ofTree (htree : tree.RecordsLines) (hjobs : (tree.get "jobs").RecordsLines)
    (h : ofTree tree source dialect fileName = .ok d) : d.IsLined := by
  intro j hj
  rcases document_of_ofTree h with h | h
  · obtain ⟨entry, -, rfl⟩ := Github.exists_entry_of_mem h hj
    exact isPlace_jobLine (hjobs _) _
  · obtain ⟨defaults, entry, -, hentry⟩ := Gitlab.exists_entry_of_mem h hj
    obtain ⟨_, _, _, -, rfl⟩ := Gitlab.exists_steps_of_jobOfEntry hentry
    exact isPlace_jobLine (htree _) _

/-- A document of a text is that of the tree of the text. -/
lemma ofTree_of_parse {dialect : Option String} (h : parse source fileName dialect = .ok d) :
    ∃ tree, Yaml.load .pipeline source = .ok tree ∧
      ofTree tree source ((dialect.bind nonEmpty?).getD (Dialect.detect fileName).name) fileName =
        .ok d := by
  unfold parse at h
  split at h
  · cases h
  · cases h
  · rename_i tree htree
    exact ⟨tree, htree, h⟩

/-- **The lines of the jobs of a text tell places.** -/
theorem isLined_of_parse {dialect : Option String} (h : parse source fileName dialect = .ok d) :
    d.IsLined := by
  obtain ⟨tree, htree, h⟩ := ofTree_of_parse h
  obtain ⟨hown, hinner⟩ := Yaml.recordsLines_of_load htree
  exact isLined_of_ofTree hown (hinner "jobs") h

end Document

end PipelineAudit
