import Mathlib.Tactic.Lemma
import Mathlib.Tactic.SplitIfs
import PipelineAudit.Source.Search

/-!
# Where the steps of a job are found

What a line does to the scan for steps does not depend on the step that is looked for: it ends the
scan, is passed, or is the dash of the next step (`Source.roleOf`). So scans for different steps go
through the same states, each up to its own step, and the steps that are found are the first ones,
one below the other. They all stand behind dashes of one indentation, below the key of the job
(`Source.findsSteps`).
-/

namespace PipelineAudit.Source

variable {source job line : String} {jobIndent d i j k m n start : Nat} {index : Int}
    {st next : StepScan}
  {ls rest : List String}

/-! ## One line -/

/-- What a line does to the scan for steps. -/
inductive LineRole where
  | ends
  | passes (next : StepScan)
  /-- It is the dash of a step. -/
  | counts (next : StepScan)

/-- What a line does to the scan for steps, whichever step is looked for. -/
def roleOf (jobIndent : Nat) (st : StepScan) (line : String) : LineRole :=
  let stripped := Text.trim line
  let here := indent line
  let isItem := Text.startsWith stripped "-"
  if stripped.isEmpty || Text.startsWith stripped "#" then .passes st
  else if here ≤ jobIndent && keyLinePattern.matchesStart stripped then .ends
  else match st.stepsIndent with
    | none =>
        .passes
          { st with stepsIndent := if Text.startsWith stripped "steps:" then some here else none }
    | some stepsIndent =>
      if here ≤ stepsIndent && !isItem then .ends
      else if isItem then
        let itemIndent := st.itemIndent.getD here
        if here = itemIndent then
          .counts { st with itemIndent := some itemIndent, count := st.count + 1 }
        else .passes { st with itemIndent := some itemIndent }
      else .passes st

/-- The scan looks at one line after another, and at the step that is looked for only where it
counts one. -/
lemma scanSteps_cons : scanSteps jobIndent index st start (line :: rest) =
    match roleOf jobIndent st line with
    | .ends => none
    | .passes next => scanSteps jobIndent index next (start + 1) rest
    | .counts next =>
      if (st.count : Int) = index then some start
      else scanSteps jobIndent index next (start + 1) rest := by
  rw [scanSteps, roleOf]
  dsimp only
  split
  · rfl
  · split
    · rfl
    · cases st.stepsIndent with
      | none => rfl
      | some stepsIndent =>
          dsimp only
          split_ifs <;> rfl

/-- A line that is passed counts no step and leaves a known indentation of the dashes as it is. -/
lemma roleOf_passes (h : roleOf jobIndent st line = .passes next) :
    next.count = st.count ∧ ∀ d, st.itemIndent = some d → next.itemIndent = some d := by
  rw [roleOf] at h
  dsimp only at h
  -- what the line looks like is of no account
  generalize ((Text.trim line).isEmpty || Text.startsWith (Text.trim line) "#") = isSkipped at h
  generalize keyLinePattern.matchesStart (Text.trim line) = isKey at h
  generalize Text.startsWith (Text.trim line) "steps:" = isOpening at h
  generalize Text.startsWith (Text.trim line) "-" = isItem at h
  split at h
  · cases h
    exact ⟨rfl, fun _ => id⟩
  · split at h
    · cases h
    · split at h
      · cases h
        exact ⟨rfl, fun _ => id⟩
      · split_ifs at h
        · cases h
          exact ⟨rfl, fun d hd => by simp [hd]⟩
        · cases h
          exact ⟨rfl, fun _ => id⟩

/-- The line of a step starts with a dash, at the indentation of the dashes so far, which from now
on is known. -/
lemma roleOf_counts (h : roleOf jobIndent st line = .counts next) :
    Text.startsWith (Text.trim line) "-" = true ∧ next.count = st.count + 1 ∧
      next.itemIndent = some (indent line) ∧ ∀ d, st.itemIndent = some d → indent line = d := by
  rw [roleOf] at h
  dsimp only at h
  generalize ((Text.trim line).isEmpty || Text.startsWith (Text.trim line) "#") = isSkipped at h
  generalize keyLinePattern.matchesStart (Text.trim line) = isKey at h
  generalize Text.startsWith (Text.trim line) "steps:" = isOpening at h
  generalize Text.startsWith (Text.trim line) "-" = isItem at h ⊢
  split at h
  · cases h
  · split at h
    · cases h
    · split at h
      · cases h
      · split_ifs at h with _ hitem hindent
        cases h
        exact ⟨hitem, rfl, congrArg some hindent.symm, fun d hd => by rw [hindent, hd]; rfl⟩

/-! ## One scan after another -/

/-- What is found is the line of a dash, at the indentation of the dashes if it is known. -/
lemma scanSteps_eq_some (h : scanSteps jobIndent index st start ls = some n) :
    ∃ p line, n = start + p ∧ ls[p]? = some line ∧ Text.startsWith (Text.trim line) "-" = true ∧
      ∀ d, st.itemIndent = some d → indent line = d := by
  induction ls generalizing st start with
  | nil => cases h
  | cons l rest ih =>
      have hlater : ∀ {next}, scanSteps jobIndent index next (start + 1) rest = some n →
          (∀ d, st.itemIndent = some d → next.itemIndent = some d) →
          ∃ p line, n = start + p ∧ (l :: rest)[p]? = some line ∧
          Text.startsWith (Text.trim line) "-" = true ∧
            ∀ d, st.itemIndent = some d → indent line = d := by
        intro next hnext hknown
        obtain ⟨p, line, hn, hline, hdash, hindent⟩ := ih hnext
        exact ⟨p + 1, line, by omega, hline, hdash, fun d hd => hindent d (hknown d hd)⟩
      rw [scanSteps_cons] at h
      cases hrole : roleOf jobIndent st l with
      | ends =>
          rw [hrole] at h
          cases h
      | passes next =>
          rw [hrole] at h
          exact hlater h (roleOf_passes hrole).2
      | counts next =>
          rw [hrole] at h
          obtain ⟨hdash, -, hknown, hindent⟩ := roleOf_counts hrole
          dsimp only at h
          split_ifs at h
          · cases h
            exact ⟨0, l, rfl, rfl, hdash, hindent⟩
          · exact hlater h fun d hd => by rw [hknown, hindent d hd]

/-- Whichever steps are looked for, what is found are dashes of one indentation. -/
lemma exists_indent_of_scanSteps (jobIndent : Nat) (st : StepScan) (start : Nat)
    (ls : List String) : ∃ d, ∀ index n, scanSteps jobIndent index st start ls = some n →
      ∃ p line, n = start + p ∧ ls[p]? = some line ∧ Text.startsWith (Text.trim line) "-" = true ∧
        indent line = d := by
  induction ls generalizing st start with
  | nil => exact ⟨0, nofun⟩
  | cons l rest ih =>
      cases hrole : roleOf jobIndent st l with
      | ends =>
          refine ⟨0, fun index n h => ?_⟩
          rw [scanSteps_cons, hrole] at h
          cases h
      | passes next =>
          obtain ⟨d, hd⟩ := ih next (start + 1)
          refine ⟨d, fun index n h => ?_⟩
          rw [scanSteps_cons, hrole] at h
          obtain ⟨p, line, hn, hline, hdash, hindent⟩ := hd index n h
          exact ⟨p + 1, line, by omega, hline, hdash, hindent⟩
      | counts next =>
          -- from here on the indentation of the dashes is known
          obtain ⟨hdash, -, hknown, -⟩ := roleOf_counts hrole
          refine ⟨indent l, fun index n h => ?_⟩
          rw [scanSteps_cons, hrole] at h
          dsimp only at h
          split_ifs at h
          · cases h
            exact ⟨0, l, rfl, rfl, hdash, rfl⟩
          · obtain ⟨p, line, hn, hline, hdash, hindent⟩ := scanSteps_eq_some h
            exact ⟨p + 1, line, by omega, hline, hdash, hindent _ hknown⟩

/-- If a step is found, so is every one before it that is still to be counted, on a line above. -/
lemma exists_scanSteps_lt (hcount : st.count ≤ i) (hij : i < j)
    (h : scanSteps jobIndent j st start ls = some n) :
    ∃ m, m < n ∧ scanSteps jobIndent i st start ls = some m := by
  induction ls generalizing st start with
  | nil => cases h
  | cons l rest ih =>
      rw [scanSteps_cons] at h ⊢
      cases hrole : roleOf jobIndent st l with
      | ends =>
          rw [hrole] at h
          cases h
      | passes next =>
          rw [hrole] at h
          exact ih ((roleOf_passes hrole).1 ▸ hcount) h
      | counts next =>
          rw [hrole] at h
          dsimp only at h ⊢
          rw [if_neg (by omega)] at h
          split_ifs with hi
          · obtain ⟨p, -, hn, -⟩ := scanSteps_eq_some h
            exact ⟨start, by omega, rfl⟩
          · exact ih (by rw [(roleOf_counts hrole).2.1]; omega) h

/-! ## The steps of a job -/

/-- How the steps of a job are found in a source. -/
structure FindsSteps (source job : String) : Prop where
  /-- If a step is found, so is every one before it, on a line above. -/
  initial : ∀ {i j n : Nat}, i < j → findStepLine source job j = some n →
    ∃ m, m < n ∧ findStepLine source job i = some m
  /-- A step stands below the key of the job, on a line of the source. -/
  below : ∀ {i n : Nat}, findStepLine source job i = some n →
    ∃ k, findJobLine source job = some k ∧ k < n ∧ n ≤ (Text.lines source).length
  /-- All steps start with a dash, at one indentation. -/
  dashes : ∃ d, ∀ {i n : Nat}, findStepLine source job i = some n →
    ∃ line, (Text.lines source)[n - 1]? = some line ∧ Text.startsWith (Text.trim line) "-" = true ∧
      indent line = d

/-- Where the key of the job is found, its steps are looked for in the lines below. -/
lemma findStepLine_eq (hjob : findJobLine source job = some k) (index : Int) :
    findStepLine source job index =
    scanSteps (((Text.lines source)[k - 1]?.map indent).getD 0) index {} (k + 1)
      ((Text.lines source).drop k) := by
  rw [findStepLine, hjob]
  rfl

/-- **The steps of a job that are found are the first ones**, one below the other, behind dashes of
one indentation below the key of the job. -/
theorem findsSteps (source job : String) : FindsSteps source job := by
  cases hjob : findJobLine source job with
  | none =>
      have hnone : ∀ index, findStepLine source job index = none := fun index => by
        rw [findStepLine, hjob]; rfl
      exact ⟨by simp [hnone], by simp [hnone], by simp [hnone]⟩
  | some k =>
      constructor
      case initial =>
        intro i j n hij h
        rw [findStepLine_eq hjob] at h ⊢
        exact exists_scanSteps_lt (Nat.zero_le i) hij h
      case below =>
        intro i n h
        rw [findStepLine_eq hjob] at h
        obtain ⟨p, line, rfl, hline, -⟩ := scanSteps_eq_some h
        rw [List.getElem?_drop] at hline
        obtain ⟨hlength, -⟩ := List.getElem?_eq_some_iff.mp hline
        exact ⟨k, hjob, by omega, by omega⟩
      case dashes =>
        obtain ⟨d, hd⟩ :=
          exists_indent_of_scanSteps (((Text.lines source)[k - 1]?.map indent).getD 0) {} (k + 1)
          ((Text.lines source).drop k)
        refine ⟨d, fun {i n} h => ?_⟩
        rw [findStepLine_eq hjob] at h
        obtain ⟨p, line, rfl, hline, hdash, hindent⟩ := hd _ _ h
        rw [List.getElem?_drop] at hline
        have hindex : k + 1 + p - 1 = k + p := by omega
        exact ⟨line, hindex ▸ hline, hdash, hindent⟩

example :
    [0, 1, 2].map (findStepLine "a:\n  steps:\n  - run: |\n      - x\n  # b\n  - run: y\n" "a") =
    [some 3, some 6, none] := by decide +kernel

end PipelineAudit.Source
