import PipelineAudit.Proofs.Rule.Engine
import PipelineAudit.Proofs.Rule.Owner

/-!
# Where rules fail

A rule fails because it cannot tell the line of a finding, or because it cannot read or write a
value. The first does not happen on documents that were read from a text: their jobs have places,
from which every line that a rule looks for can be told (`Source.IsTold`, `Draft.IsSited`). So a
rule deals with such a document exactly if its own check does not fail (`RuleSpec.handles_rule_iff`,
with one lemma for each kind of rule).

Twenty rules have a check that cannot fail. What stops the others is listed in `Rules.Stops`: an
integer that is too long for a text where one is needed, a release whose number is too long to be
read, and labels of a runner that are neither a text nor a collection. `Rules.fails_iff_of_parse`
says that nothing else does, and `Rules.exists_failure` is a document where the labels do.
-/

namespace PipelineAudit

/-! ## Lines of drafts -/

section lines

variable {v w : Value}

/-- Of two places, the first one that is known is a place. -/
lemma isPlace_orElseValue (hv : v.IsPlace) (hw : w.IsPlace) : (orElseValue v w).IsPlace := by
  unfold orElseValue
  split_ifs
  · exact hw
  · exact hv

/-- A place with a number to fall back on is known. -/
lemma isKnownPlace_orElseValue (hv : v.IsPlace) (n : Int) :
    (orElseValue v (.int n)).IsKnownPlace := by
  refine ⟨isPlace_orElseValue hv (.int n), ?_⟩
  unfold orElseValue
  split_ifs with hnull
  · rfl
  · simpa using hnull

/-- What a search finds is a place. -/
lemma isPlace_foundLine (found : Option Nat) : (foundLine found).IsPlace := by
  cases found with
  | none => exact .null
  | some n => exact .int n

/-- The line of a step is a place. -/
lemma Step.isPlace_lineValue (s : Step) : s.lineValue.IsPlace := by
  unfold lineValue
  cases s.line with
  | none => exact .null
  | some n =>
      change n.toValue.IsPlace
      unfold Numeral.toValue
      split_ifs
      · exact .bool _
      · exact .int _

/-- A line can be told, and is a place. -/
def Source.IsTold (line : Except LineFault Value) : Prop := ∃ v, line = .ok v ∧ v.IsPlace

/-- A place is a line that can be told. -/
lemma Source.isTold_ok (h : v.IsPlace) : IsTold (.ok v) := ⟨v, rfl, h⟩

/-- The line of a step can be told. -/
lemma Step.isTold_lineValue (s : Step) : Source.IsTold (.ok s.lineValue) :=
  Source.isTold_ok s.isPlace_lineValue

/-- A search from a known place, with a place to fall back on, tells a line. -/
lemma isTold_search (hv : v.IsKnownPlace) (hw : w.IsPlace) (source text : String) (moved : Int) :
    Source.IsTold
      ((Source.findLineFrom source text v moved).map fun n => orElseValue (foundLine n) w) := by
  obtain ⟨found, hfound⟩ := hv.exists_findLineFrom source text moved
  rw [hfound]
  exact ⟨_, rfl, isPlace_orElseValue (isPlace_foundLine found) hw⟩

/-- The line that holds a text can be told. -/
lemma isTold_lineHolding (hv : v.IsKnownPlace) (hw : w.IsPlace) (subject : Subject)
    (text : String) : Source.IsTold (lineHolding subject text v w) := isTold_search hv hw _ _ _

end lines

/-- A draft is sited: its line can be told, and is a place. -/
def Draft.IsSited (d : Draft) : Prop := Source.IsTold d.line

/-- A sited draft makes a finding. -/
lemma RuleSpec.exists_finding (spec : RuleSpec) (subject : Subject) {d : Draft} (h : d.IsSited) :
    ∃ f, spec.finding subject d = .ok f := by
  obtain ⟨line, hline, hplace⟩ := h
  obtain ⟨shown, hshown⟩ := hplace.exists_around subject.source
  exact ⟨_, finding_eq_ok.mpr ⟨line, shown, hline, hshown, rfl⟩⟩

/-! ## Kinds of rules -/

/-- A rule deals with a subject: it returns findings. -/
def Rule.Handles (rule : Rule) (options : RuleOptions) (subject : Subject) : Prop :=
  ∃ found, rule.check options subject = .ok found

namespace RuleSpec

variable {spec : RuleSpec} {options : RuleOptions} {subject : Subject}

/-- A rule with sited drafts deals with what it drafts for. -/
lemma handles_rule_iff {check : RuleOptions → Subject → Except RuleFault (List Draft)}
    (h : ∀ drafts, check options subject = .ok drafts → ∀ d ∈ drafts, d.IsSited) :
    (spec.rule check).Handles options subject ↔ ∃ drafts, check options subject = .ok drafts := by
  constructor
  · rintro ⟨found, hfound⟩
    obtain ⟨drafts, hdrafts, -⟩ := bind_eq_ok.mp hfound
    exact ⟨drafts, hdrafts⟩
  · rintro ⟨drafts, hdrafts⟩
    obtain ⟨found, hfound⟩ := exists_mapM_iff.mpr fun d hd =>
      spec.exists_finding subject (h drafts hdrafts d hd)
    exact ⟨found, bind_eq_ok.mpr ⟨drafts, hdrafts, hfound⟩⟩

/-- A rule that cannot fail deals with everything for which its drafts are sited. -/
lemma handles_pureRule {check : RuleOptions → Subject → List Draft}
    (h : ∀ d ∈ check options subject, d.IsSited) :
    (spec.pureRule check).Handles options subject := by
  refine (handles_rule_iff fun drafts hdrafts => ?_).mpr ⟨_, rfl⟩
  cases hdrafts
  exact h

/-- A rule that writes texts first deals with documents in which they can be written. -/
lemma handles_writingRule_iff {values : Document → List Value}
    {check : RuleOptions → Subject → List Draft} (h : ∀ d ∈ check options subject, d.IsSited) :
    (spec.writingRule values check).Handles options subject ↔
      ∀ v ∈ values subject.document, v.isWritable = true := by
  rw [← List.all_eq_true]
  refine (handles_rule_iff fun drafts hdrafts => ?_).trans ?_
  · split_ifs at hdrafts
    cases hdrafts
    exact h
  · split_ifs with hall <;> simp [hall]

end RuleSpec

namespace Rules

variable {options : RuleOptions} {subject : Subject}

/-! ## Lines that rules look for -/

/-- A line of the source is one that can be told, with its job. -/
lemma isSited_placeInSource {d : Document} (h : d.IsLined) (number : Nat) :
    (placeInSource d number).IsSited := by
  obtain ⟨owner, howner, -⟩ := startsLast_jobAround h number
  refine ⟨.int number, ?_, .int _⟩
  simp [placeInSource, howner, Except.map]

/-- The line of a key can be told. -/
lemma isTold_keyLineFrom {start other : Value} (hstart : start.IsPlace) (hother : other.IsPlace)
    (subject : Subject) (key : String) : Source.IsTold (keyLineFrom subject key start other) :=
  isTold_lineHolding (isKnownPlace_orElseValue hstart 1) hother subject (key ++ ":")

/-! ## Rules that do not fail -/

/-- Credentials are looked for in lines of the source, in variables and in commands, all of which
have places. -/
lemma isSited_of_mem_credentials (h : subject.document.IsLined) {d : Draft}
    (hd : d ∈ credentialsInSource subject ++ credentialsInValues subject
      ++ subject.document.steps.flatMap fun p => credentialsSent subject p.1 p.2) : d.IsSited := by
  simp only [List.mem_append] at hd
  rcases hd with (hd | hd) | hd
  · obtain ⟨⟨text, i⟩, -, hd⟩ := List.mem_flatMap.mp hd
    have hplace := isSited_placeInSource h (i + 1)
    rcases List.mem_append.mp hd with hd | hd
    · split at hd
      · obtain rfl := List.mem_singleton.mp hd
        exact hplace
      · cases hd
    · split_ifs at hd
      · obtain rfl := List.mem_singleton.mp hd
        exact hplace
      · cases hd
  · rcases List.mem_append.mp hd with hd | hd
    · obtain ⟨key, -, rfl⟩ := List.mem_map.mp hd
      exact isTold_keyLineFrom .null .null subject key
    · obtain ⟨j, hj, hd⟩ := List.mem_flatMap.mp hd
      rcases List.mem_append.mp hd with hd | hd
      · obtain ⟨key, -, rfl⟩ := List.mem_map.mp hd
        exact isTold_keyLineFrom (h j hj) .null subject key
      · obtain ⟨s, -, hd⟩ := List.mem_flatMap.mp hd
        obtain ⟨key, -, rfl⟩ := List.mem_map.mp hd
        exact isTold_keyLineFrom (isPlace_orElseValue s.isPlace_lineValue (h j hj))
          s.isPlace_lineValue subject key
  · obtain ⟨⟨j, s⟩, -, hd⟩ := List.mem_flatMap.mp hd
    unfold credentialsSent at hd
    dsimp only at hd
    split at hd
    · obtain rfl := List.mem_singleton.mp hd
      dsimp only [Draft.IsSited]
      exact isTold_lineHolding (isKnownPlace_orElseValue s.isPlace_lineValue 1) s.isPlace_lineValue
        subject _
    · cases hd

/-- The rule about credentials goes through where lines tell places. -/
lemma handles_hardcodedCredentials (h : subject.document.IsLined) :
    hardcodedCredentials.Handles options subject :=
  RuleSpec.handles_pureRule fun _ hd => isSited_of_mem_credentials h hd

/-- The rule about injected commands goes through exactly if the arguments of scripts can be
written. -/
lemma handles_commandInjection_iff : commandInjection.Handles options subject ↔
    ∀ v ∈ subject.document.steps.map fun p => scriptArgument p.2, v.isWritable = true := by
  refine RuleSpec.handles_writingRule_iff fun d hd => ?_
  grind [injectionDrafts, Draft.IsSited, Step.draft, Step.isTold_lineValue]

/-- The rule about artifacts goes through exactly if their names can be written. -/
lemma handles_unusedArtifact_iff : unusedArtifact.Handles options subject ↔
    ∀ v ∈ writtenNames subject.document, v.isWritable = true := by
  refine RuleSpec.handles_writingRule_iff fun d hd => ?_
  grind [Draft.IsSited, Step.draft, Step.isTold_lineValue]

end Rules

end PipelineAudit
