import PipelineAudit.Proofs.Reachability.Needs
import PipelineAudit.Proofs.Workflow.Steps

/-!
# When a finding is mitigated

A finding is mitigated exactly if no run gets to its place (`Document.IsShut`): the condition of its
job or of its step is literally false, or the job waits for a job that never runs. The verdict is
read off the guard (`verdictFor_eq_mitigated_iff`), the guard off the conditions of the place and of
the jobs that are needed (`jobGuard_alwaysFalse_iff`), and which jobs are needed is known from
`mem_neededJobs_iff`. What the context says and which graph is given plays no part in it.
-/

namespace PipelineAudit

open Relation (TransGen)

/-- The job in which a finding is located. -/
def Finding.jobName (f : Finding) : Option String := f.location.bind Location.job

/-- The index of the step at which a finding is located. -/
def Finding.stepIndex (f : Finding) : Option Int :=
  (f.location.bind Location.step).map Numeral.number

/-- No run gets to a place: the condition of the job or of the step never holds, or the job runs
only after the jobs that it needs and one of these, near or far, never runs. -/
def Document.IsShut (d : Document) (j : Job) (step : Option Int) : Prop :=
  Intent.neverHolds j.condition = true ∨
    (∃ s ∈ j.steps, step = some (s.index : Int) ∧ Intent.neverHolds s.condition = true) ∨
    ((∀ c, j.condition = some c → Intent.alwaysFunction.occursIn c = false) ∧
      ∃ k ∈ d.jobs, k.id ≠ j.id ∧ TransGen d.Needs j.id k.id ∧ Intent.neverHolds k.condition = true)

namespace Reachability

variable {d : Document} {j : Job} {step : Option Int}

/-! ## Guards -/

/-- An empty condition is left out where conditions are collected, and does not count as false. -/
lemma any_filterMap_nonEmpty (conditions : List (Option String)) :
    ((conditions.filterMap fun c => c.bind nonEmpty?).any fun c => Intent.neverHolds (some c)) =
      conditions.any Intent.neverHolds := by
  induction conditions with
  | nil => rfl
  | cons c rest ih =>
      cases c with
      | none => simpa [Intent.neverHolds] using ih
      | some c =>
          by_cases hc : c.isEmpty = true
          · simpa [nonEmpty?, hc, Intent.neverHolds] using ih
          · simp [nonEmpty?, hc, ih]

/-- The conditions of a place are false if that of the job or that of the step is. -/
lemma any_ownConditions : ((ownConditions j step).any fun c => Intent.neverHolds (some c)) = true ↔
    Intent.neverHolds j.condition = true ∨
      ∃ i, step = some i ∧ ∃ s, j.step? i = some s ∧ Intent.neverHolds s.condition = true := by
  rw [ownConditions, any_filterMap_nonEmpty]
  cases step with
  | none => simp [Intent.neverHolds]
  | some i => cases hs : j.step? i <;> simp [hs, Intent.neverHolds]

/-- A job does not run whatever happens if its condition calls no such function. -/
lemma runsAlways_eq_false_iff : runsAlways j = false ↔
    ∀ c, j.condition = some c → Intent.alwaysFunction.occursIn c = false := by
  have hempty : Intent.alwaysFunction.occursIn "" = false := by decide
  unfold runsAlways
  cases j.condition <;> simp [hempty]

/-- A job that never runs is found among the needed jobs if there is one. -/
lemma skippedNeed?_isSome_iff : (skippedNeed? d j).isSome = true ↔
    ∃ x ∈ neededJobs d j.id, Intent.neverHolds (conditionOf d x) = true := by
  rw [skippedNeed?, List.findSome?_isSome_iff]
  refine exists_congr fun x => and_congr_right fun _ => ?_
  cases conditionOf d x with
  | none => simp [Intent.neverHolds]
  | some c => by_cases hc : Intent.neverHolds (some c) = true <;> simp [hc]

/-- Under distinct ids, a needed job never runs if its condition never holds. -/
lemma exists_neededJob_iff (hd : d.jobIds.Nodup) :
    (∃ x ∈ neededJobs d j.id, Intent.neverHolds (conditionOf d x) = true) ↔
      ∃ k ∈ d.jobs, k.id ≠ j.id ∧ TransGen d.Needs j.id k.id ∧
        Intent.neverHolds k.condition = true := by
  have hcondition : ∀ k ∈ d.jobs, conditionOf d k.id = k.condition := by
    intro k hk
    rw [conditionOf, (Document.job?_eq_some_iff hd).mpr ⟨hk, rfl⟩, Option.bind_some]
  constructor
  · rintro ⟨x, hx, hnever⟩
    obtain ⟨hne, hreach⟩ := (mem_neededJobs_iff hd).mp hx
    -- the last need on the way names a job of the document
    obtain ⟨_, _, hlast, _⟩ := Relation.TransGen.tail'_iff.mp hreach
    obtain ⟨k, hk, rfl⟩ := Document.mem_jobIds.mp hlast
    exact ⟨k, hk, hne, hreach, hcondition k hk ▸ hnever⟩
  · rintro ⟨k, hk, hne, hreach, hnever⟩
    exact ⟨k.id, (mem_neededJobs_iff hd).mpr ⟨hne, hreach⟩, (hcondition k hk).symm ▸ hnever⟩

/-- The guard of a place lets nothing through if a condition of its own is false, or if the job
waits for a job that never runs. -/
lemma jobGuard_eq_alwaysFalse_iff : (jobGuard d j step).1 = .alwaysFalse ↔
    ((ownConditions j step).any fun c => Intent.neverHolds (some c)) = true ∨
      (runsAlways j = false ∧ (skippedNeed? d j).isSome = true) := by
  unfold jobGuard
  by_cases hown : ((ownConditions j step).any fun c => Intent.neverHolds (some c)) = true
  · simp [hown]
  · have hopen : ∀ conditions : List String,
        (if conditions = [] then (Guard.none, []) else (Guard.conditional, conditions)).1 ≠
          .alwaysFalse := by
      intro conditions
      split_ifs <;> simp
    cases runsAlways j <;> cases skippedNeed? d j <;> simp [hown, hopen]

/-- **The guard of a place that was read** lets nothing through exactly if the place is shut. -/
theorem jobGuard_eq_alwaysFalse_iff_isShut (hd : d.jobIds.Nodup)
    (hj : (j.steps.map Step.index).Nodup) :
    (jobGuard d j step).1 = .alwaysFalse ↔ d.IsShut j step := by
  rw [jobGuard_eq_alwaysFalse_iff, any_ownConditions, runsAlways_eq_false_iff,
    skippedNeed?_isSome_iff, exists_neededJob_iff hd, Document.IsShut, or_assoc]
  refine or_congr_right (or_congr_left ?_)
  simp only [Job.step?_eq_some_iff hj]
  constructor
  · rintro ⟨i, hi, s, ⟨hs, rfl⟩, hnever⟩
    exact ⟨s, hs, hi, hnever⟩
  · rintro ⟨s, hs, hi, hnever⟩
    exact ⟨s.index, hi, s, ⟨hs, rfl⟩, hnever⟩

/-! ## Verdicts -/

/-- The verdict is that a finding is mitigated exactly if the guard lets nothing through. -/
lemma verdictFor_eq_mitigated_iff {guard : Guard} {privileged secrets attacker : Bool}
    {conditions : List String} :
    verdictFor guard privileged secrets attacker conditions = .mitigated ↔
      guard = .alwaysFalse := by
  unfold verdictFor
  split
  · simp
  · split_ifs <;> simp
  · split_ifs <;> simp
  · split_ifs <;> simp

/-- The annotation of a finding says mitigated if the guard of its place lets nothing through. -/
lemma exposure_verdict_eq_mitigated_iff {context : Context} {graph : Option JobGraph}
    {f : Finding} : (exposure context d graph f).verdict = .mitigated ↔
      (guardAt d f.jobName f.stepIndex).1 = .alwaysFalse :=
  verdictFor_eq_mitigated_iff

/-- The guard of a place in a job that was read. -/
lemma guardAt_of_mem (hd : d.jobIds.Nodup) (hj : j ∈ d.jobs) (hid : j.id ≠ "") :
    guardAt d (some j.id) step = jobGuard d j step := by
  have hname : nonEmpty? j.id = some j.id := by simp [nonEmpty?, hid]
  rw [guardAt, namedJob?, Option.bind_some, hname, Option.bind_some,
    (Document.job?_eq_some_iff hd).mpr ⟨hj, rfl⟩]

/-- The guard of a place in a job whose id is empty lets everything through. -/
lemma guardAt_unnamed : guardAt d (some "") step = (.none, []) := rfl

/-- The guard of a place in no job lets everything through. -/
lemma guardAt_of_notMem {job : Option String} (h : ∀ id, job = some id → id ∉ d.jobIds) :
    guardAt d job step = (.none, []) := by
  have hnone : namedJob? d job = none := by
    rw [namedJob?]
    cases job with
    | none => rfl
    | some id =>
        by_cases hid : id.isEmpty = true <;> simp [nonEmpty?, hid, Document.job?_eq_none (h id rfl)]
  rw [guardAt, hnone]

end Reachability

/-- Which findings of a document are mitigated. -/
structure Document.Mitigates (d : Document) : Prop where
  /-- A finding in a job whose id is not empty is mitigated exactly if no run gets to its place. -/
  mitigated_iff : ∀ (context : Context) (graph : Option JobGraph) (f : Finding),
    ∀ j ∈ d.jobs, j.id ≠ "" → f.jobName = some j.id →
      ((Reachability.exposure context d graph f).verdict = .mitigated ↔ d.IsShut j f.stepIndex)
  /-- A finding in no job of the document is never mitigated. -/
  not_mitigated : ∀ (context : Context) (graph : Option JobGraph) (f : Finding),
    (∀ id, f.jobName = some id → id ∉ d.jobIds) →
      (Reachability.exposure context d graph f).verdict ≠ .mitigated
  /-- Whether it is does not depend on the context or on the graph. -/
  independent : ∀ (c₁ c₂ : Context) (g₁ g₂ : Option JobGraph) (f : Finding),
    (Reachability.exposure c₁ d g₁ f).verdict = .mitigated ↔
      (Reachability.exposure c₂ d g₂ f).verdict = .mitigated

/-- **A finding is mitigated exactly if no run gets to its place**, in every document that was
read. -/
theorem Document.mitigates_of_ofTree {tree : Value} {source dialect fileName : String}
    {d : Document} (h : ofTree tree source dialect fileName = .ok d) : d.Mitigates where
  mitigated_iff context graph f j hj hid hname := by
    have hd : d.jobIds.Nodup := nodup_jobIds_of_ofTree h
    rw [Reachability.exposure_verdict_eq_mitigated_iff, hname,
      Reachability.guardAt_of_mem hd hj hid]
    exact Reachability.jobGuard_eq_alwaysFalse_iff_isShut hd (nodup_index_of_ofTree h hj)
  not_mitigated context graph f hname := by
    rw [Ne, Reachability.exposure_verdict_eq_mitigated_iff, Reachability.guardAt_of_notMem hname]
    simp
  independent c₁ c₂ g₁ g₂ f := by
    rw [Reachability.exposure_verdict_eq_mitigated_iff,
      Reachability.exposure_verdict_eq_mitigated_iff]

/-- A job that never runs; two jobs behind it that wait for each other; one that needs the second of
them and a job that does not exist; one that needs it and runs always; and one whose second step
never runs. -/
def Document.guardedTree : Value :=
  .ofFields [("on", .str "push"), ("jobs", .ofFields [
    ("gate", .ofFields [("if", .bool false)]),
    ("left", .ofFields [("needs", .ofStrings ["gate", "right"])]),
    ("right", .ofFields [("needs", .str "left")]),
    ("ship", .ofFields [("needs", .ofStrings ["gone", "right"])]),
    ("report", .ofFields [("needs", .str "right"), ("if", .str "always()")]),
    ("check", .ofFields [("steps", .seq [.ofFields [("run", .str "make")],
      .ofFields [("run", .str "make all"), ("if", .str "$\x7b\x7b false \x7d\x7d")]])])])]

/-- The verdict on a place of a document in no particular context. -/
def Document.verdictAt (d : Document) (job : String) (step : Option Numeral) : Verdict :=
  (Reachability.exposure {} d none
    { category := .security, severity := .error, title := "", description := "", file := ""
      location := some { job := some job, step := step } }).verdict

/-- Behind the gate every job is shut, the two that wait for each other included, unless it runs
always; of the steps of one job only the second is; and a job that does not exist is not. -/
theorem Document.mitigates_guarded : ∃ d,
    ofTree guardedTree "" "github-actions" "ci.yml" = .ok d ∧
      ((["gate", "left", "right", "ship", "report", "check", "gone"].map fun job =>
          decide (d.verdictAt job none = .mitigated)) =
        [true, true, true, true, false, false, false] ∧
      ([0, 1, 2].map fun i => decide (d.verdictAt "check" (some ⟨i, false⟩) = .mitigated)) =
        [false, true, false]) ∧ d.Mitigates := by
  exact exists_ok_and (fun d hd => mitigates_of_ofTree hd) (by decide +kernel)

end PipelineAudit
