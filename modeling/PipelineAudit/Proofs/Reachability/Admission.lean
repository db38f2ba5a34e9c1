import PipelineAudit.Proofs.Pattern.Language
import PipelineAudit.Proofs.Reachability.Guard
import PipelineAudit.Proofs.Rule.Site

/-!
# Jobs that every run admits

In the second dialect a job may have a list of entries, and the first one that holds in a run
decides whether the run admits the job (`Gitlab.admits`). An entry without clauses holds in every
run. So every run admits a job with such an entry, if none of its entries is never
(`Gitlab.admits_of_isOpen`).

The condition that the job has in the document does not say so: it joins the texts under `if`, and
leaves out the entries that have none (`Gitlab.condition_of_isOpen`). The guard of its places is
therefore the one of the joined text (`Gitlab.guardsOpen`): it is conditional if the text is not
empty, and lets nothing through if the text is literally false. That takes a list with a single
text, since a bar stands in every joined one (`Intent.neverHolds_join`). Only a list without such
texts leaves the job unguarded. `Gitlab.exists_guarded_open` is a job that every run admits and that
the guard shuts.
-/

namespace PipelineAudit

open Relation (TransGen)

/-- A job does not run because it waits for a job that never runs, near or far. -/
def Document.WaitsInVain (d : Document) (j : Job) : Prop :=
  (∀ c, j.condition = some c → Intent.alwaysFunction.occursIn c = false) ∧
    ∃ k ∈ d.jobs, k.id ≠ j.id ∧ TransGen d.Needs j.id k.id ∧ Intent.neverHolds k.condition = true

/-! ## Joined conditions -/

/-- A condition with a bar in it is not literally false. -/
lemma Intent.neverHolds_of_mem {condition : String} (h : '|' ∈ condition.toList) :
    neverHolds (some condition) = false := by
  have hbar : alwaysFalse.avoids '|' = true := by decide +kernel
  have hmatch : alwaysFalse.matchesStart condition = false := by
    rw [Bool.eq_false_iff, Ne, Regex.matchesStart_iff]
    rintro ⟨text, rest, hsplit, hreads⟩
    have htext : '|' ∉ text := hreads.notMem_of_avoids hbar
    obtain ⟨_, _, rfl, -, -, hrest⟩ := hreads
    rw [hsplit] at h
    rcases hrest with rfl | rfl
    · exact htext (by simpa using h)
    · exact htext (by simpa using h)
  simp [neverHolds, hmatch]

/-- Joined conditions are literally false only if there is one of them. -/
lemma Intent.neverHolds_join {conditions : List String} :
    neverHolds (some (Text.join " || " conditions)) = true ↔
      ∃ text, conditions = [text] ∧ neverHolds (some text) = true := by
  match conditions with
  | [] => simp [Text.join, neverHolds]
  | [text] => simp [Text.join]
  | text :: other :: rest =>
      have hbar : '|' ∈ (Text.join " || " (text :: other :: rest)).toList := by simp [Text.join]
      simp [neverHolds_of_mem hbar]

/-! ## Admission -/

namespace Gitlab

/-- An entry holds in every run, since it has no clause that could fail. -/
def IsCatchAll (entry : Value) : Prop :=
  entry.isMap = true ∧ ∀ clause ∈ ["if", "changes", "exists"], entry.has clause = false

instance : DecidablePred IsCatchAll := fun _ => inferInstanceAs (Decidable (_ ∧ _))

/-- Whether a run admits a job with a list of entries: the first one that holds decides, and without
one the job is left out. The run says which entries with clauses hold. -/
def admits (holds : Value → Bool) (entries : List Value) : Bool :=
  match entries.find? fun entry => decide (IsCatchAll entry) || holds entry with
  | some entry => !isText (entry.get "when") "never"
  | none => false

/-- A job has an entry that holds in every run, and neither the job nor an entry is never or by
hand. -/
structure IsOpen (raw : Value) : Prop where
  catchAll : ∃ entry ∈ (raw.get "rules").itemsOrSelf, IsCatchAll entry
  timing : ∀ v ∈ raw :: (raw.get "rules").itemsOrSelf,
    isText (v.get "when") "never" = false ∧ isText (v.get "when") "manual" = false

variable {raw : Value} {d : Document} {j : Job} {step : Option Int}

/-- Every run admits such a job. -/
lemma admits_of_isOpen (h : IsOpen raw) (holds : Value → Bool) :
    admits holds (raw.get "rules").itemsOrSelf = true := by
  obtain ⟨entry, hentry, hall⟩ := h.catchAll
  unfold admits
  cases hfirst : (raw.get "rules").itemsOrSelf.find? fun entry =>
    decide (IsCatchAll entry) || holds entry with
  | none => simpa [hall] using List.find?_eq_none.mp hfirst entry hentry
  | some first =>
      have hnever := (h.timing first (List.mem_cons_of_mem _ (List.mem_of_find?_eq_some hfirst))).1
      simp [hnever]

/-- The condition of such a job joins the texts of its entries, if there are any. -/
lemma condition_of_isOpen (h : IsOpen raw) : condition raw =
    if (ruleConditions (raw.get "rules")).isEmpty then none
    else some (Text.join " || " (ruleConditions (raw.get "rules"))) := by
  obtain ⟨hnever, hmanual⟩ := h.timing raw List.mem_cons_self
  unfold condition
  cases hempty : (ruleConditions (raw.get "rules")).isEmpty <;> simp [hnever, hmanual, hempty]

/-- It is literally false if there is one text and this one is. -/
lemma neverHolds_condition_iff (h : IsOpen raw) : Intent.neverHolds (condition raw) = true ↔
    ∃ text, ruleConditions (raw.get "rules") = [text] ∧ Intent.neverHolds (some text) = true := by
  rw [condition_of_isOpen h, ← Intent.neverHolds_join]
  split_ifs with hempty
  · rw [List.isEmpty_iff.mp hempty]
    simp [Intent.neverHolds, Text.join]
  · rfl

/-- Steps have no conditions in the second dialect. -/
lemma condition_of_mem_steps {source : String} {index : Nat} {first : Value}
    {commands : List String}
    {read : List Step} (h : steps source index first commands = .ok read) :
    ∀ s ∈ read, s.condition = none := by
  intro s hs
  obtain ⟨i, command, start, found, -, rfl⟩ := exists_of_mem_steps h s hs
  rfl

end Gitlab

/-! ## Guards -/

namespace Reachability

variable {d : Document} {j : Job} {step : Option Int}

/-- A guard is conditional if there are conditions and it lets something through. -/
lemma jobGuard_eq_conditional_iff : (jobGuard d j step).1 = .conditional ↔
    ownConditions j step ≠ [] ∧ (jobGuard d j step).1 ≠ .alwaysFalse := by
  unfold jobGuard
  by_cases hown : ((ownConditions j step).any fun c => Intent.neverHolds (some c)) = true
  · simp [hown]
  · cases runsAlways j <;> cases skippedNeed? d j <;> by_cases hnil : ownConditions j step =
      [] <;> simp [hown, hnil]

/-- Where steps have no conditions, there is one if that of the job is not empty. -/
lemma ownConditions_ne_nil_iff (h : ∀ s ∈ j.steps, s.condition = none) :
    ownConditions j step ≠ [] ↔ j.condition.getD "" ≠ "" := by
  have hstep : (step.bind j.step?).bind Step.condition = none := by
    cases hfound : step.bind j.step? with
    | none => rfl
    | some s =>
        obtain ⟨i, -, hs⟩ := Option.bind_eq_some_iff.mp hfound
        exact h s (List.mem_of_find?_eq_some hs)
  rw [ownConditions, hstep]
  cases j.condition with
  | none => simp
  | some c => by_cases hc : c = "" <;> simp [nonEmpty?, hc]

end Reachability

namespace Gitlab

open Reachability (guardAt)

variable {raw : Value} {d : Document} {j : Job} {step : Option Int}

/-- How the places of a job are guarded that every run admits. -/
structure GuardsOpen (d : Document) (j : Job) (raw : Value) : Prop where
  /-- Every run admits the job. -/
  admitted : ∀ holds, admits holds (raw.get "rules").itemsOrSelf = true
  /-- The guard lets nothing through if the only text in the list is literally false, or if the job
  waits for one that never runs. -/
  alwaysFalse_iff : ∀ step, (guardAt d (some j.id) step).1 = .alwaysFalse ↔ j.id ≠ "" ∧
    ((∃ text, ruleConditions (raw.get "rules") = [text] ∧ Intent.neverHolds (some text) = true) ∨
      d.WaitsInVain j)
  /-- Otherwise it is conditional if there are texts that join to one that is not empty. -/
  conditional_iff : ∀ step, (guardAt d (some j.id) step).1 = .conditional ↔ j.id ≠ "" ∧
    Text.join " || " (ruleConditions (raw.get "rules")) ≠ "" ∧
      (guardAt d (some j.id) step).1 ≠ .alwaysFalse
  /-- If no entry has a text, the guard is never conditional, and lets nothing through only if the
  job waits for one that never runs. -/
  unconditional : (∀ entry ∈ (raw.get "rules").itemsOrSelf, (entry.get "if").truthy = false) →
    ∀ step, (guardAt d (some j.id) step).1 ≠ .conditional ∧
      ((guardAt d (some j.id) step).1 = .alwaysFalse → d.WaitsInVain j)

/-- Without texts in the list, none is joined. -/
lemma ruleConditions_eq_nil
    (h : ∀ entry ∈ (raw.get "rules").itemsOrSelf, (entry.get "if").truthy = false) :
    ruleConditions (raw.get "rules") = [] := by
  rw [ruleConditions, List.filterMap_eq_nil_iff]
  intro entry hentry
  simp [h entry hentry]

/-- A place is shut in a job whose steps have no conditions if the job is. -/
lemma isShut_iff (hsteps : ∀ s ∈ j.steps, s.condition = none) :
    d.IsShut j step ↔ Intent.neverHolds j.condition = true ∨ d.WaitsInVain j := by
  refine or_congr_right (or_iff_right ?_)
  rintro ⟨s, hs, -, hnever⟩
  rw [hsteps s hs] at hnever
  cases hnever

/-- How the places of a job are guarded whose condition is that of its mapping and whose steps have
none. -/
lemma guardsOpen_of_mem (hd : d.IsNumbered) (hj : j ∈ d.jobs)
    (hcondition : j.condition = condition raw)
    (hsteps : ∀ s ∈ j.steps, s.condition = none) (hopen : IsOpen raw) : GuardsOpen d j raw := by
  have hfalse : ∀ step, (guardAt d (some j.id) step).1 = .alwaysFalse ↔ j.id ≠ "" ∧
      ((∃ text, ruleConditions (raw.get "rules") = [text] ∧ Intent.neverHolds (some text) = true) ∨
        d.WaitsInVain j) := by
    intro step
    by_cases hid : j.id = ""
    · simp [hid, Reachability.guardAt_unnamed]
    · rw [Reachability.guardAt_of_mem hd.jobs hj hid,
        and_iff_right hid, ← neverHolds_condition_iff hopen, ← hcondition, ← isShut_iff hsteps]
      exact Reachability.jobGuard_eq_alwaysFalse_iff_isShut hd.jobs (hd.steps j hj)
  have hjoined : j.condition.getD "" = Text.join " || " (ruleConditions (raw.get "rules")) := by
    rw [hcondition, condition_of_isOpen hopen]
    split_ifs with hempty
    · rw [List.isEmpty_iff.mp hempty]
      rfl
    · rfl
  have hconditional : ∀ step, (guardAt d (some j.id) step).1 = .conditional ↔ j.id ≠ "" ∧
      Text.join " || " (ruleConditions (raw.get "rules")) ≠ "" ∧
        (guardAt d (some j.id) step).1 ≠ .alwaysFalse := by
    intro step
    by_cases hid : j.id = ""
    · simp [hid, Reachability.guardAt_unnamed]
    · rw [Reachability.guardAt_of_mem hd.jobs hj hid, and_iff_right hid, ← hjoined,
        ← Reachability.ownConditions_ne_nil_iff hsteps]
      exact Reachability.jobGuard_eq_conditional_iff
  refine ⟨admits_of_isOpen hopen, hfalse, hconditional,
    fun hnone step => ⟨fun hguard => ?_, fun hguard => ?_⟩⟩
  · refine ((hconditional step).mp hguard).2.1 ?_
    rw [ruleConditions_eq_nil hnone]
    rfl
  · refine ((hfalse step).mp hguard).2.resolve_left ?_
    rintro ⟨text, htext, -⟩
    rw [ruleConditions_eq_nil hnone] at htext
    cases htext

/-- **The guard of a job that every run admits** is the one of the texts in its list, in every
document of the second dialect. -/
theorem guardsOpen {tree : Value} {source dialect fileName : String} {d : Document}
    (h : Document.ofTree tree source dialect fileName = .ok d) (hdialect : d.dialect = .gitlab)
    (hkeys : (tree.entries.map Prod.fst).Nodup) {entry : Value × Value}
    (hentry : entry ∈ tree.entries) (hjob : isJob entry.1 entry.2 = true) (hopen : IsOpen entry.2) :
    ∃ j ∈ d.jobs, j.id = entry.1.display ∧ GuardsOpen d j entry.2 := by
  obtain ⟨defaults, j, hj, hread⟩ :=
    exists_job_of_mem (Document.gitlab_of_ofTree h hdialect) hkeys hentry hjob
  have hmade : j.condition = condition entry.2 ∧ ∀ s ∈ j.steps, s.condition = none := by
    obtain ⟨_, _, read, hsteps, rfl⟩ := exists_steps_of_jobOfEntry hread
    exact ⟨rfl, condition_of_mem_steps hsteps⟩
  exact ⟨j, hj, id_of_jobOfEntry hread,
    guardsOpen_of_mem (Document.isNumbered_of_ofTree h) hj hmade.1 hmade.2 hopen⟩

/-- Three jobs with a script whose last entry holds in every run: alone, behind a condition, and
behind one that is literally false. -/
def openTree : Value :=
  .ofFields ([("free", []), ("build", [.ofFields [("if", .str "$DEPLOY")]]),
    ("deploy", [.ofFields [("if", .str "false")]])].map fun (name, entries) =>
      (name, .ofFields [("script", .str "make"),
        ("rules", .seq (entries ++ [.ofFields [("when", .str "always")]]))]))

/-- The keys of the definition are distinct, and all of its jobs are open. -/
lemma isOpen_openTree : (openTree.entries.map Prod.fst).Nodup ∧
    ∀ entry ∈ openTree.entries, isJob entry.1 entry.2 = true ∧ IsOpen entry.2 := by
  constructor
  · have hkeys : openTree.entries.map Prod.fst = ["free", "build", "deploy"].map Value.str := rfl
    rw [hkeys]
    exact List.Nodup.map (fun _ _ h => Value.str.inj h) (by decide)
  · have hparts : ∀ entry ∈ openTree.entries, isJob entry.1 entry.2 = true ∧
        (∃ rule ∈ (entry.2.get "rules").itemsOrSelf, IsCatchAll rule) ∧
        ∀ v ∈ entry.2 :: (entry.2.get "rules").itemsOrSelf,
          isText (v.get "when") "never" = false ∧ isText (v.get "when") "manual" = false := by
      decide +kernel
    exact fun entry hentry =>
      ⟨(hparts entry hentry).1, (hparts entry hentry).2.1, (hparts entry hentry).2.2⟩

/-- The guards of the second job are told by its list. -/
theorem guardsOpen_openTree :
    ∃ d, Document.ofTree openTree "" "gitlab-ci" ".gitlab-ci.yml" = .ok d ∧
    d.dialect = .gitlab ∧ (openTree.entries.map Prod.fst).Nodup ∧
    ∃ entry ∈ openTree.entries, isJob entry.1 entry.2 = true ∧ IsOpen entry.2 ∧
      ruleConditions (entry.2.get "rules") = ["$DEPLOY"] ∧
      ∃ j ∈ d.jobs, j.id = entry.1.display ∧ GuardsOpen d j entry.2 := by
  obtain ⟨hkeys, hopen⟩ := isOpen_openTree
  obtain ⟨d, hd, hdialect⟩ : ∃ d, Document.ofTree openTree "" "gitlab-ci" ".gitlab-ci.yml" = .ok d ∧
      d.dialect = .gitlab := exists_ok_of_any (by decide +kernel)
  obtain ⟨entry, hentry, hconditions⟩ : ∃ entry ∈ openTree.entries,
      ruleConditions (entry.2.get "rules") = ["$DEPLOY"] := by decide +kernel
  obtain ⟨hjob, hsome⟩ := hopen entry hentry
  exact ⟨d, hd, hdialect, hkeys, entry, hentry, hjob, hsome, hconditions,
    guardsOpen hd hdialect hkeys hentry hjob hsome⟩

/-- **A job that every run admits may be guarded**: the guard of the second one is conditional, and
that of the third one lets nothing through, though no job needs another one. -/
theorem exists_guarded_open :
    ∃ d, Document.ofTree openTree "" "gitlab-ci" ".gitlab-ci.yml" = .ok d ∧
    (∀ entry ∈ openTree.entries, IsOpen entry.2) ∧ (∀ j ∈ d.jobs, j.needs = []) ∧
    guardAt d (some "free") (some 0) = (.none, []) ∧
    guardAt d (some "build") (some 0) = (.conditional, ["$DEPLOY"]) ∧
    guardAt d (some "deploy") (some 0) = (.alwaysFalse, ["false"]) := by
  have hfacts : ∃ d, Document.ofTree openTree "" "gitlab-ci" ".gitlab-ci.yml" = .ok d ∧
      (∀ j ∈ d.jobs, j.needs = []) ∧ guardAt d (some "free") (some 0) = (.none, []) ∧
      guardAt d (some "build") (some 0) = (.conditional, ["$DEPLOY"]) ∧
      guardAt d (some "deploy") (some 0) = (.alwaysFalse, ["false"]) :=
        exists_ok_of_any (by decide +kernel)
  obtain ⟨d, hd, hneeds, hguards⟩ := hfacts
  exact ⟨d, hd, fun entry hentry => (isOpen_openTree.2 entry hentry).2, hneeds, hguards⟩

end Gitlab

end PipelineAudit
