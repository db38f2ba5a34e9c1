import PipelineAudit.Proofs.Rule.Failure
import PipelineAudit.Proofs.Rule.Site
import PipelineAudit.Proofs.Workflow.Pinning

/-!
# Actions that are not pinned

The rule on pinning looks at the reference of each step. It says nothing of a step without one, of
one that names a path or an image, and of one that pins a commit. Every other step is reported once,
at its place, and as an error if its ref may be a branch (`Rules.unpinnedDrafts_eq_nil`,
`Rules.unpinnedDrafts_eq_singleton`). So the findings of its check stand for the steps that are not
pinned, one for one and in their order (`Rules.checksPinning`).

Which steps have references is told by the definition: a step is read from the item of its job at
its index, and has the text under `uses` there as its reference unless that counts as missing
(`Github.exists_reference`).
-/

namespace PipelineAudit

/-- The reference of a step that uses an action. -/
def Step.reference? (s : Step) : Option String := if s.action.isSome then s.uses else none

/-- A step has a reference that is neither exempt nor pins a commit. -/
def Step.IsUnpinned (s : Step) : Prop :=
  ∃ text ∈ s.reference?, ¬ActionRef.IsExempt (Text.trim text) ∧
    ¬ActionRef.PinsCommit (Text.trim text)

instance : DecidablePred Step.IsUnpinned := fun s => Option.decidableExistsMem s.reference?

/-! ## References of steps -/

/-- The action of a step is the one that its reference names. -/
def Step.IsNamed (s : Step) : Prop := s.action = s.reference?.map .parse

/-- In the first dialect, a step has the text of a value under `uses` as its reference, if the value
counts. -/
lemma Github.reference?_step {source jobId : String} {index : Nat} {raw : Value} :
    (step source jobId index raw).reference? =
      if (raw.get "uses").truthy then some (raw.get "uses").display else none := by
  have htext : ∀ v : Value, v.truthy = true → v.text? = some v.display := by
    intro v hv
    cases v
    case null => cases hv
    all_goals rfl
  by_cases huses : (raw.get "uses").truthy = true
  · simp [step, Step.reference?, huses, htext]
  · simp [step, Step.reference?, huses]

/-- The action of a step is the one it names. -/
lemma Github.isNamed_step {source jobId : String} {index : Nat} {raw : Value} :
    (step source jobId index raw).IsNamed := by
  rw [Step.IsNamed, reference?_step, step]
  dsimp only
  split_ifs <;> rfl

/-- In the first dialect, the reference of a step stands under `uses` in the item it was read
from. -/
lemma Github.exists_reference {tree : Value} {source fileName : String} {d : Document}
    (h : document tree source fileName = .ok d) {p : Job × Step} (hp : p ∈ d.steps) :
    ∃ entry ∈ (tree.get "jobs").entries, entry.1.display = p.1.id ∧
      ∃ item, (entry.2.get "steps").itemsOrSelf[p.2.index]? = some item ∧
        p.2.reference? = if (item.get "uses").truthy then some (item.get "uses").display
          else none := by
  obtain ⟨hj, hs⟩ := Document.mem_steps.mp hp
  obtain ⟨entry, hentry, hid, item, hitem, hstep⟩ := exists_item_of_mem h hj hs
  exact ⟨entry, hentry, hid, item, hitem, by rw [hstep]; exact reference?_step⟩

/-- So it is for the steps of a document. -/
lemma Github.isNamed_of_mem {tree : Value} {source fileName : String} {d : Document}
    (h : document tree source fileName = .ok d) {p : Job × Step} (hp : p ∈ d.steps) :
    p.2.IsNamed := by
  obtain ⟨hj, hs⟩ := Document.mem_steps.mp hp
  obtain ⟨_, -, -, _, -, hstep⟩ := exists_item_of_mem h hj hs
  rw [hstep]
  exact isNamed_step

/-- The steps of a numbered document have places of their own. -/
lemma Document.IsNumbered.nodup_places {d : Document} (h : d.IsNumbered) :
    (d.steps.map fun p => (p.1.id, p.2.index)).Nodup := by
  rw [Document.steps, List.map_flatMap, List.nodup_flatMap]
  constructor
  · intro j hj
    have hplaces := (h.steps j hj).map fun (m n : Nat) (heq : (j.id, m) = (j.id, n)) =>
      congrArg Prod.snd heq
    rwa [List.map_map] at hplaces ⊢
  · -- places of different jobs differ in the id
    refine (List.pairwise_map.mp h.jobs).imp fun hne place hj hk => ?_
    simp only [List.mem_map, exists_exists_and_eq_and] at hj hk
    obtain ⟨_, -, rfl⟩ := hj
    obtain ⟨_, -, heq⟩ := hk
    exact hne (congrArg Prod.fst heq).symm

/-! ## Findings for some of the steps -/

/-- If nothing is made of some items and one thing of each other one, then the results stand for the
others. -/
lemma exists_forall₂_of_flatMap {ε α β γ : Type} {make : α → List β} {f : β → Except ε γ}
    {P : α → Prop} [DecidablePred P] {R : γ → α → Prop} {items : List α}
    (hskip : ∀ a ∈ items, ¬P a → make a = [])
    (htake : ∀ a ∈ items, P a → ∃ b c, make a = [b] ∧ f b = .ok c ∧ R c a) :
    ∃ found, (items.flatMap make).mapM f = .ok found ∧ List.Forall₂ R found (items.filter P) := by
  induction items with
  | nil => exact ⟨[], rfl, .nil⟩
  | cons a rest ih =>
      rw [List.forall_mem_cons] at hskip htake
      obtain ⟨found, hfound, hall⟩ := ih hskip.2 htake.2
      by_cases ha : P a
      · obtain ⟨b, c, hmake, hb, hc⟩ := htake.1 ha
        refine ⟨c :: found, ?_, ?_⟩
        · rw [List.flatMap_cons, hmake, List.singleton_append, List.mapM_cons]
          exact bind_eq_ok.mpr ⟨c, hb, bind_eq_ok.mpr ⟨found, hfound, rfl⟩⟩
        · rw [List.filter_cons_of_pos (by simpa using ha)]
          exact .cons hc hall
      · refine ⟨found, ?_, ?_⟩
        · rw [List.flatMap_cons, hskip.1 ha, List.nil_append, hfound]
        · rwa [List.filter_cons_of_neg (by simpa using ha)]

namespace Rules

variable {options : RuleOptions} {subject : Subject} {j : Job} {s : Step}

/-! ## The check -/

/-- What is drafted for a step whose action is not pinned. -/
def unpinnedDraft (options : RuleOptions) (j : Job) (s : Step) (action : ActionRef) : Draft :=
  { s.draft j (pinningFault (s.label j) action).2 with
    suggestion := some (pinningAdvice options action)
    severity := some (pinningFault (s.label j) action).1 }

/-- What the rule drafts for a step. -/
def unpinnedDrafts (options : RuleOptions) (p : Job × Step) : List Draft :=
  match p.2.action with
  | some action =>
    if action.isExternal && !action.isPinned then [unpinnedDraft options p.1 p.2 action] else []
  | none => []

/-- The rule reports its drafts. -/
lemma check_unpinnedAction : unpinnedAction.check options subject =
    (subject.document.steps.flatMap (unpinnedDrafts options)).mapM
      (unpinnedActionSpec.finding subject) := rfl

/-- A step is an error if its ref may be a branch. -/
lemma fst_pinningFault {label : String} {action : ActionRef} :
    (pinningFault label action).1 = if action.kind = .branch then .error else .warning := by
  unfold pinningFault
  cases action.kind <;> rfl

/-- Nothing is drafted for a step without a reference, or with one that is exempt or pins a
commit. -/
lemma unpinnedDrafts_eq_nil (hs : s.IsNamed) (h : ¬s.IsUnpinned) :
    unpinnedDrafts options (j, s) = [] := by
  rw [unpinnedDrafts, hs]
  cases htext : s.reference? with
  | none => rfl
  | some text =>
      have hpinned : ActionRef.IsExempt (Text.trim text) ∨
          ActionRef.PinsCommit (Text.trim text) := by
        by_contra hneither
        exact h ⟨text, htext, not_or.mp hneither⟩
      refine if_neg fun hdraft => ?_
      rw [Bool.and_eq_true, Bool.not_eq_true', ActionRef.isExternal_parse_iff] at hdraft
      have : (ActionRef.parse text).isPinned = true :=
        ActionRef.isPinned_parse_iff.mpr ⟨hdraft.1, hpinned.resolve_left hdraft.1⟩
      rw [this] at hdraft
      exact absurd hdraft.2 (by decide)

/-- One finding is drafted for a step with another reference. -/
lemma unpinnedDrafts_eq_singleton (hs : s.IsNamed) {text : String} (htext : text ∈ s.reference?)
    (hexempt : ¬ActionRef.IsExempt (Text.trim text))
    (hpins : ¬ActionRef.PinsCommit (Text.trim text)) :
    unpinnedDrafts options (j, s) = [unpinnedDraft options j s (.parse text)] := by
  have hpinned : (ActionRef.parse text).isPinned = false :=
    Bool.eq_false_iff.mpr fun h => hpins (ActionRef.isPinned_parse_iff.mp h).2
  rw [unpinnedDrafts, hs, Option.mem_def.mp htext]
  simp [ActionRef.isExternal_parse_iff.mpr hexempt, hpinned]

/-- A ref may be a branch if there is one and it is not a tag, where it is no commit. -/
lemma kind_eq_branch_iff {text : String} (hexempt : ¬ActionRef.IsExempt (Text.trim text))
    (hpins : ¬ActionRef.PinsCommit (Text.trim text)) : (ActionRef.parse text).kind = .branch ↔
      ActionRef.refOf text ≠ "" ∧ RefKind.classify (ActionRef.refOf text) ≠ .tag := by
  have hcommit : RefKind.classify (ActionRef.refOf text) ≠ .sha := fun h =>
    hpins (ActionRef.isPinned_parse_iff.mp
      (by rw [ActionRef.isPinned, ActionRef.kind_parse hexempt, h]; rfl)).2
  rw [ActionRef.kind_parse hexempt, RefKind.classify_eq_branch_iff, and_iff_right hcommit]

/-- A finding reports a step that is not pinned: it is at the step, and an error exactly if there is
a ref and it is not a tag. -/
structure ReportsUnpinned (f : Finding) (p : Job × Step) : Prop where
  rule : f.ruleId = "unpinned_action"
  location : f.location = some ⟨some p.1.id, some (.ofNat p.2.index), p.2.lineValue⟩
  severity : ∃ text ∈ p.2.reference?, f.severity =
    if ActionRef.refOf text ≠ "" ∧ RefKind.classify (ActionRef.refOf text) ≠ .tag then
      .error else .warning

/-- The finding of the draft for such a step reports it. -/
lemma reportsUnpinned_of_finding {text : String} (htext : text ∈ s.reference?)
    (hexempt : ¬ActionRef.IsExempt (Text.trim text))
    (hpins : ¬ActionRef.PinsCommit (Text.trim text)) {f : Finding}
    (h : unpinnedActionSpec.finding subject (unpinnedDraft options j s (.parse text)) = .ok f) :
    ReportsUnpinned f (j, s) := by
  obtain ⟨line, _, hline, -, rfl⟩ := RuleSpec.finding_eq_ok.mp h
  obtain rfl : s.lineValue = line := Except.ok.inj hline
  refine ⟨rfl, rfl, text, htext, ?_⟩
  simp only [Draft.findingWith, unpinnedDraft, Option.getD_some, fst_pinningFault,
    kind_eq_branch_iff hexempt hpins]

/-- What counts as pinned, which steps have references, and what the rule on pinning reports. -/
structure ChecksPinning (tree : Value) (options : RuleOptions) (subject : Subject) : Prop where
  /-- A reference is pinned exactly if it is not exempt and a commit hash stands behind its first
  `@`. -/
  pinned : ∀ text, (ActionRef.parse text).isPinned = true ↔
    ¬ActionRef.IsExempt (Text.trim text) ∧ ActionRef.PinsCommit (Text.trim text)
  /-- The reference of a step stands under `uses` in the item it was read from. -/
  reference : ∀ p ∈ subject.document.steps, ∃ entry ∈ (tree.get "jobs").entries,
    entry.1.display = p.1.id ∧ ∃ item, (entry.2.get "steps").itemsOrSelf[p.2.index]? = some item ∧
      p.2.reference? = if (item.get "uses").truthy then some (item.get "uses").display else none
  /-- Steps have places of their own. -/
  places : (subject.document.steps.map fun p => (p.1.id, p.2.index)).Nodup
  /-- The check ends, and its findings report the steps that are not pinned, one for one. -/
  reported : ∃ found, unpinnedAction.check options subject = .ok found ∧
    List.Forall₂ ReportsUnpinned found (subject.document.steps.filter fun p => p.2.IsUnpinned)

/-- **Every action that is not pinned is reported once**, and nothing else is, in a document of the
first dialect. -/
theorem checksPinning {tree : Value} {source dialect fileName : String} {subject : Subject}
    (h : Document.ofTree tree source dialect fileName = .ok subject.document)
    (hdialect : subject.document.dialect = .github) (options : RuleOptions) :
    ChecksPinning tree options subject where
  pinned _ := ActionRef.isPinned_parse_iff
  reference _ hp := Github.exists_reference (Document.github_of_ofTree h hdialect) hp
  places := (Document.isNumbered_of_ofTree h).nodup_places
  reported := by
    have hnamed : ∀ p ∈ subject.document.steps, p.2.IsNamed := fun _ =>
      Github.isNamed_of_mem (Document.github_of_ofTree h hdialect)
    rw [check_unpinnedAction]
    refine exists_forall₂_of_flatMap (fun p hp => unpinnedDrafts_eq_nil (hnamed p hp)) ?_
    rintro ⟨j, s⟩ hp ⟨text, htext, hexempt, hpins⟩
    obtain ⟨f, hf⟩ := unpinnedActionSpec.exists_finding subject
      (d := unpinnedDraft options j s (.parse text)) s.isTold_lineValue
    exact ⟨_, f, unpinnedDrafts_eq_singleton (hnamed _ hp) htext hexempt hpins, hf,
      reportsUnpinned_of_finding htext hexempt hpins hf⟩

/-- Steps with a commit between blanks, with a tag, a branch and no ref, with a commit behind a
second `@` and one that is a digit short, with a path, an image and an empty reference. -/
def referencesTree : Value :=
  .ofFields [("on", .str "push"), ("jobs", .ofFields [("a", .ofFields [("steps", .seq ([
    " o/r/sub@0123456789abcdefABCDEF0123456789abcdef01\n", "o/r@v4", "o/r@main", "o/r",
    "o/r@x@0123456789abcdefABCDEF0123456789abcdef01", "o/r@0123456789abcdefABCDEF0123456789abcdef0",
    "./here@main", "docker://image:1", ""].map fun text => .ofFields [("uses", .str text)]))])])]

/-- Five of these steps are not pinned, of which three are errors. -/
theorem checksPinning_references :
    ∃ d, Document.ofTree referencesTree "" "github-actions" "ci.yml" = .ok d ∧ d.dialect = .github ∧
    (d.steps.filter fun p => p.2.IsUnpinned).map (fun p => p.2.index) = [1, 2, 3, 4, 5] ∧
    (unpinnedAction.check {} ⟨d, "", "ci.yml"⟩).toOption.map (List.map Finding.severity) =
      some [.warning, .error, .warning, .error, .error] ∧
    ChecksPinning referencesTree {} ⟨d, "", "ci.yml"⟩ := by
  have hfacts : ∃ d, Document.ofTree referencesTree "" "github-actions" "ci.yml" = .ok d ∧
      d.dialect = .github ∧
      (d.steps.filter fun p => p.2.IsUnpinned).map (fun p => p.2.index) = [1, 2, 3, 4, 5] ∧
      (unpinnedAction.check {} ⟨d, "", "ci.yml"⟩).toOption.map (List.map Finding.severity) =
        some [.warning, .error, .warning, .error, .error] :=
    exists_ok_of_any (by decide +kernel)
  obtain ⟨d, hd, hdialect, hunpinned, hseverities⟩ := hfacts
  exact ⟨d, hd, hdialect, hunpinned, hseverities, checksPinning hd hdialect {}⟩

end Rules

end PipelineAudit
