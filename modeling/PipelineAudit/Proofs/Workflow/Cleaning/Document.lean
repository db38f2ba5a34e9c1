import PipelineAudit.Proofs.Workflow.Cleaning.Github
import PipelineAudit.Proofs.Workflow.Cleaning.Gitlab
import PipelineAudit.Proofs.Yaml.Coverage
import PipelineAudit.Proofs.Yaml.Transparency

/-!
# Documents of clean trees

A document should not depend on whether its tree has positions, but for the lines of jobs and steps.
For a tree and the clean tree, what is rejected is the same; and the documents are the same apart
from lines exactly if there is nothing to clean in the values that are taken over as they are
(`Document.ofTree_clean`). A mapping in such a place, where a text is expected, brings its position
entries into the document: a command with a colon in it is one (`Document.exists_recorded_command`).
-/

namespace PipelineAudit.Document

/-- The values of a tree that are taken over into a document, or written as texts, as they are. -/
def taken (tree : Value) (dialect : String) : List Value :=
  match Dialect.ofName? dialect with
  | some .gitlab => Gitlab.taken tree
  | some .github => Github.taken tree
  | none => []

/-- Reading a clean tree follows reading the tree, in every dialect. -/
lemma follows_ofTree (tree : Value) (source dialect fileName : String) :
    Follows (fun d d' => d'.withoutLines = d.withoutLines ↔ ∀ v ∈ taken tree dialect, v.clean = v)
      (ofTree tree source dialect fileName) (ofTree tree.clean source dialect fileName) := by
  unfold ofTree taken
  rw [Value.isMap_clean]
  by_cases hmap : (!tree.isMap) = true
  · rw [if_pos hmap, if_pos hmap]
    exact Follows.reject rfl
  · rw [if_neg hmap, if_neg hmap]
    cases Dialect.ofName? dialect with
    | none => exact Follows.reject rfl
    | some language =>
        cases language with
        | github => exact Github.follows_document tree source fileName
        | gitlab => exact Gitlab.follows_document tree source fileName

/-- **Positions and documents.** For a tree that was read from a covered text, every source, dialect
and file name: if the tree is rejected, then the clean tree is, with the same message; if the tree
is read as a document, then so is the clean tree, and the documents are the same in every field
apart from the lines of jobs and steps exactly if there is nothing to clean in what is taken over as
it is. Nothing else happens, unless an integer is too long for a text. If the text has no pairs,
then no position key is left in the clean tree. -/
theorem ofTree_clean {text : String} {tree : Value} (h : Yaml.Reads .pipeline text tree)
    (source dialect fileName : String) :
    (∀ e, ofTree tree source dialect fileName = .error (.rejected e) →
        ∃ e', ofTree tree.clean source dialect fileName = .error (.rejected e') ∧
        e'.message = e.message) ∧
      (∀ d, ofTree tree source dialect fileName = .ok d →
        ∃ d', ofTree tree.clean source dialect fileName = .ok d' ∧
          (d'.withoutLines = d.withoutLines ↔ ∀ v ∈ taken tree dialect, v.clean = v)) ∧
      (∀ why, ofTree tree source dialect fileName = .error why →
        (∃ e, why = .rejected e) ∨ why = .number .tooLongToWrite ∧ tree.isWritable = false) ∧
      ((∀ tag ∈ [Yaml.Tag.omap, Yaml.Tag.pairs], tag ∉ Yaml.tagsOf .pipeline text) →
        tree.clean.holdsPositionKey = false) := by
  have hfollows := follows_ofTree tree source dialect fileName
  refine ⟨fun e he => hfollows.rejected he, fun d hd => hfollows.ok hd, fun why hwhy => ?_,
    fun htags => ?_⟩
  · have hexpected := reads_ofTree (Yaml.recordsLines_of_load h.load_eq).1 why hwhy
    cases why with
    | rejected e => exact Or.inl ⟨e, rfl⟩
    | number fault =>
        obtain ⟨rfl, hlong⟩ := hexpected
        exact Or.inr ⟨rfl, hlong⟩
    | fault f => cases hexpected
    | line => cases hexpected
  · refine (Yaml.isTree_of_load h.load_eq ?_).not_holdsPositionKey_clean
    rintro tag (rfl | rfl)
    · exact htags _ (by decide)
    · exact htags _ (by decide)

/-- Needs that are a mapping are cleaned, and the document is the same. -/
theorem ofTree_clean_needs :
    let text :=
      "on: push\njobs:\n  a:\n    runs-on: x\n    needs: \x7bb: 1\x7d\n    steps:\n      - run: echo hi\n"
    ∃ tree d d', Yaml.Reads .pipeline text tree ∧
      ofTree tree text "github-actions" "wf.yml" = .ok d ∧
      ofTree tree.clean text "github-actions" "wf.yml" = .ok d' ∧
        d'.withoutLines = d.withoutLines := by
  intro text
  obtain ⟨tree, hload, hread, htaken⟩ := exists_ok_of_any (x := Yaml.load .pipeline text)
    (p := fun tree => (ofTree tree text "github-actions" "wf.yml").toOption.isSome = true ∧
      ∀ v ∈ taken tree "github-actions", v.clean = v) (by decide +kernel)
  cases hd : ofTree tree text "github-actions" "wf.yml" with
  | error why =>
      rw [hd] at hread
      cases hread
  | ok d =>
      have hreads : Yaml.Reads .pipeline text tree :=
        ⟨Yaml.Passage.isCovered_of_load hload (by decide +kernel), hload⟩
      obtain ⟨d', hd', hsame⟩ := (ofTree_clean hreads text "github-actions" "wf.yml").2.1 d hd
      exact ⟨tree, d, d', hreads, hd, hd', hsame.mpr htaken⟩

/-- The commands of all steps do not depend on lines. -/
lemma commands_withoutLines (d : Document) :
    d.withoutLines.steps.map (fun p => p.2.run) = d.steps.map fun p => p.2.run := by
  have hjob : ∀ j : Job, (j.steps.map Step.withoutLine).map Step.run = j.steps.map Step.run := by
    intro j
    rw [List.map_map]
    rfl
  unfold steps withoutLines
  rw [List.flatMap_map, List.map_flatMap, List.map_flatMap]
  refine congrArg (d.jobs.flatMap ·) (funext fun j => ?_)
  rw [List.map_map, List.map_map]
  exact hjob j

/-- A command with a colon is a mapping, whose position entries come into the text that runs. -/
theorem exists_recorded_command :
    let text := "a:\n  script:\n    - echo foo: bar\n"
    ∃ tree d d', Yaml.Reads .pipeline text tree ∧
      ofTree tree text "gitlab-ci" ".gitlab-ci.yml" = .ok d ∧
      ofTree tree.clean text "gitlab-ci" ".gitlab-ci.yml" = .ok d' ∧
      d'.withoutLines ≠ d.withoutLines ∧
      d.steps.map (fun p => p.2.run) = [some
        "\x7b'echo foo': 'bar', '__line__': 3, '__column__': 6, '__key_lines__': \x7b'echo foo': 3\x7d\x7d"] ∧
      d'.steps.map (fun p => p.2.run) = [some "\x7b'echo foo': 'bar'\x7d"] := by
  intro text
  obtain ⟨tree, hload, hread⟩ := exists_ok_of_any (x := Yaml.load .pipeline text)
    (p := fun tree => ((ofTree tree text "gitlab-ci" ".gitlab-ci.yml").toOption.any fun d =>
        decide
          (d.steps.map (fun p => p.2.run) =
          [some "\x7b'echo foo': 'bar', '__line__': 3, '__column__': 6, '__key_lines__': \x7b'echo foo': 3\x7d\x7d"])) =
          true ∧
      ((ofTree tree.clean text "gitlab-ci" ".gitlab-ci.yml").toOption.any fun d' =>
        decide (d'.steps.map (fun p => p.2.run) = [some "\x7b'echo foo': 'bar'\x7d"])) = true)
    (by decide +kernel)
  obtain ⟨d, hd, hcommands⟩ := exists_ok_of_any hread.1
  obtain ⟨d', hd', hcommands'⟩ := exists_ok_of_any hread.2
  have hreads : Yaml.Reads .pipeline text tree :=
    ⟨Yaml.Passage.isCovered_of_load hload (by decide +kernel), hload⟩
  refine ⟨tree, d, d', hreads, hd, hd', fun hsame => ?_, hcommands, hcommands'⟩
  have hsteps := congrArg (fun d => d.steps.map fun p => p.2.run) hsame
  rw [commands_withoutLines, commands_withoutLines, hcommands, hcommands'] at hsteps
  revert hsteps
  decide

end PipelineAudit.Document
