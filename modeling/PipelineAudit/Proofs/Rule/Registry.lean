import Mathlib.Data.List.Basic
import PipelineAudit.Proofs.Rule.Independence
import PipelineAudit.Rule.Custom

/-!
# Rules that are switched off

Rules are added to an engine and switched on and off by their ids, in any order. An id stands for
the first rule that has it, and nothing keeps a later rule from having it too. A rule can also be
added once more, and wherever it stands it has the same switch. What calls do is told by the list of
the rules with one id (`Engine.named`): a call about the id switches the first of them or adds one
at the end, and any other call leaves the list alone (`Engine.named_call`).

So once the first rule has been switched off it stays so until a call wakes the id
(`Engine.named_run`), and the other rules behind it go on as they are. `Engine.leavesOnly_run` says
what follows for findings: those under the id come from these other rules, and there are none if the
rule was the only one.
-/

namespace PipelineAudit

/-- A rule puts its own id on its findings. -/
def Rule.SignsFindings (r : Rule) : Prop :=
  ∀ options subject found, r.check options subject = .ok found → ∀ f ∈ found, f.ruleId = r.id

/-- The rules of the catalogue put their ids on their findings. -/
lemma Rules.signsFindings_of_mem_catalog {rule : Rule} (h : rule ∈ catalog) : rule.SignsFindings :=
  fun _ _ _ hfound _ hf => (ruleId_of_mem_catalog h hfound hf).1

/-- A rule with fixed findings puts its id on them. -/
lemma FixedRule.signsFindings (r : FixedRule) : r.toRule.SignsFindings := by
  intro options subject found hfound f hf
  dsimp only [toRule] at hfound
  split_ifs at hfound
  obtain ⟨fixed, -, hfixed⟩ := exists_of_mem_mapM hfound hf
  obtain ⟨⟨line, snippet⟩, -, hfixed⟩ := bind_eq_ok.mp hfixed
  dsimp only at hfixed
  split at hfixed
  · cases hfixed
  · cases hfixed
  · cases hfixed
    rfl

/-- An entry is of one rule with itself. -/
lemma EngineRule.isSame_self (r : EngineRule) : r.isSame r = true := by
  rw [isSame, beq_self_eq_true, beq_self_eq_true]
  rfl

namespace Engine

/-- A call that changes the rules of an engine. -/
inductive Call where
  /-- Adds a rule at the end: a new one, switched as it is, or one that stands there already, once
  more. -/
  | register (r : EngineRule)
  | enable (id : String)
  | disable (id : String)

/-- A call can wake an id: it adds a rule that has it, or switches it on. -/
def Call.wakes (id : String) : Call → Bool
  | register r => r.rule.id == id
  | enable other => other == id
  | disable _ => false

/-- The engine after a call. -/
def call (e : Engine) : Call → Engine
  | .register r => e.add r
  | .enable id => e.switch id true
  | .disable id => e.switch id false

/-- The engine after calls. -/
def run (e : Engine) (calls : List Call) : Engine := calls.foldl call e

/-- The rules with an id, in order. -/
def named (e : Engine) (id : String) : List EngineRule := e.rules.filter fun r => r.rule.id == id

/-- The entries of one rule with another switch. -/
def switched (rule : EngineRule) (on : Bool) (rules : List EngineRule) : List EngineRule :=
  rules.map fun r => if r.isSame rule then { r with enabled := on } else r

variable {e : Engine} {id other : String} {first r : EngineRule} {rest : List EngineRule}

/-! ## One call -/

/-- The rule for which an id stands is the first one that has it. -/
lemma find?_eq_head?_named (e : Engine) (id : String) : e.find? id = (e.named id).head? :=
  List.head?_filter.symm

/-- Switches leave ids alone. -/
lemma filter_switched (rule : EngineRule) (on : Bool) (id : String) (rules : List EngineRule) :
    (switched rule on rules).filter (fun r => r.rule.id == id) =
      switched rule on (rules.filter fun r => r.rule.id == id) := by
  have hid :
      (fun r : EngineRule =>
        (if r.isSame rule then { r with enabled := on } else r).rule.id == id) =
      fun r => r.rule.id == id := by
    funext r
    split_ifs <;> rfl
  rw [switched, List.filter_map, switched]
  exact congrArg (List.map _) (congrArg (List.filter · rules) hid)

/-- The entries of a rule have the switch that is set. -/
lemma enabled_of_mem_switched {on : Bool} {rules : List EngineRule}
    (hr : r ∈ switched first on rules) (hsame : r.isSame first = true) : r.enabled = on := by
  obtain ⟨r', -, rfl⟩ := List.mem_map.mp hr
  split_ifs at hsame ⊢ with hsame'
  · rfl
  · exact absurd hsame hsame'

/-- The entries of other rules keep their switches. -/
lemma filter_not_isSame_switched (rule : EngineRule) (on : Bool) (rules : List EngineRule) :
    (switched rule on rules).filter (fun r => !r.isSame rule) = rules.filter fun r =>
      !r.isSame rule := by
  induction rules with
  | nil => rfl
  | cons r rules ih =>
      rw [switched, List.map_cons, List.filter_cons, List.filter_cons, ← switched, ih]
      by_cases hsame : r.isSame rule = true
      · have hswitched : EngineRule.isSame { r with enabled := on } rule = true := hsame
        rw [if_pos hsame, hswitched, hsame]
        rfl
      · rw [if_neg hsame]

/-- The rule itself is switched. -/
lemma switched_cons (first : EngineRule) (on : Bool) (rest : List EngineRule) :
    switched first on (first :: rest) = { first with enabled := on } :: switched first on rest := by
  rw [switched, List.map_cons, if_pos first.isSame_self]
  rfl

/-- A switch that is set already changes nothing. -/
lemma switched_eq_self {on : Bool} {rules : List EngineRule}
    (h : ∀ r ∈ rules, r.isSame first = true → r.enabled = on) :
    switched first on rules = rules := by
  refine (List.map_congr_left fun r hr => ?_).trans (List.map_id rules)
  split_ifs with hsame
  · rw [← h r hr hsame]
    rfl
  · rfl

/-- The first rule with an id is switched wherever it stands. -/
lemma named_switch (h : e.named id = first :: rest) (on : Bool) :
    (e.switch id on).named id = switched first on (first :: rest) := by
  have hfirst : e.rules.find? (·.rule.id == id) = some first := by
    rw [← List.head?_filter]
    exact congrArg List.head? h
  rw [← h, named, switch, setSwitch, hfirst]
  exact filter_switched first on id e.rules

/-- The switch of one id is not that of another. -/
lemma named_switch_of_ne (e : Engine) (on : Bool) (h : other ≠ id) :
    (e.switch other on).named id = e.named id := by
  rw [named, switch, setSwitch]
  split
  · rename_i first hfirst
    have hother : first.rule.id = other := by simpa using List.find?_some hfirst
    refine (filter_switched first on id e.rules).trans
      (switched_eq_self fun r hr hsame => absurd ?_ h)
    have hid : r.rule.id = id := by simpa using (List.mem_filter.mp hr).2
    have hrule : r.rule.id = first.rule.id := by simpa using (Bool.and_eq_true_iff.mp hsame).1
    rw [← hother, ← hrule, hid]
  · rfl

/-- The entry that comes in has the id of the rule that is added. -/
lemma id_find?_getD (e : Engine) (r : EngineRule) :
    ((e.rules.find? (·.isSame r)).getD r).rule.id = r.rule.id := by
  cases hfind : e.rules.find? (·.isSame r) with
  | none => rfl
  | some found =>
      have hsame : found.isSame r = true := List.find?_some (p := (EngineRule.isSame · r)) hfind
      simpa using (Bool.and_eq_true_iff.mp hsame).1

/-- A rule that is added comes last, and leaves other ids alone. -/
lemma named_add_of_ne (e : Engine) (h : r.rule.id ≠ id) : (e.add r).named id = e.named id := by
  have hid : ¬(((e.rules.find? (·.isSame r)).getD r).rule.id == id) = true := by
    rw [id_find?_getD]
    exact fun heq => h (beq_iff_eq.mp heq)
  rw [named, add, List.filter_append, List.filter_cons, if_neg hid]
  exact List.append_nil _

/-- **A call changes nothing about the rules with an id that it does not wake** once the first of
them is off, wherever it stands. -/
theorem named_call {c : Call} (hquiet : c.wakes id = false) (h : e.named id = first :: rest)
    (hoff : ∀ r ∈ first :: rest, r.isSame first = true → r.enabled = false) :
    (e.call c).named id = first :: rest := by
  cases c with
  | register r => rw [call, named_add_of_ne e (by simpa [Call.wakes] using hquiet), h]
  | enable other =>
      rw [call, named_switch_of_ne e true (by simpa [Call.wakes] using hquiet), h]
  | disable other =>
      by_cases hother : other = id
      · subst hother
        rw [call, named_switch h, switched_eq_self hoff]
      · rw [call, named_switch_of_ne e false hother, h]

/-! ## Runs -/

/-- **A rule that has been switched off stays so** under any calls that do not wake its id, and the
other rules with the same id stay as they are. -/
theorem named_run {calls : List Call} (hquiet : ∀ c ∈ calls, c.wakes id = false)
    (h : e.named id = first :: rest)
    (hoff : ∀ r ∈ first :: rest, r.isSame first = true → r.enabled = false) :
    (e.run calls).named id = first :: rest := by
  induction calls generalizing e with
  | nil => exact h
  | cons c calls ih =>
      obtain ⟨hfirst, hrest⟩ := List.forall_mem_cons.mp hquiet
      exact ih hrest (named_call hfirst h hoff)

/-- The rules after calls are those from before and those that the calls add. -/
lemma mem_allRules_run {calls : List Call} {rule : Rule} (h : rule ∈ (e.run calls).allRules) :
    rule ∈ e.allRules ∨ ∃ r, Call.register r ∈ calls ∧ r.rule = rule := by
  induction calls generalizing e with
  | nil => exact Or.inl h
  | cons c calls ih =>
      rcases ih h with h | ⟨r, hr, hrule⟩
      · cases c with
        | register r =>
            obtain ⟨r', hr', rfl⟩ := List.mem_map.mp h
            rcases List.mem_append.mp hr' with hr' | hr'
            · exact Or.inl (List.mem_map_of_mem hr')
            · rw [List.mem_singleton.mp hr']
              cases hfind : e.rules.find? (·.isSame r) with
              | none => exact Or.inr ⟨r, List.mem_cons_self, rfl⟩
              | some found => exact Or.inl (List.mem_map_of_mem (List.mem_of_find?_eq_some hfind))
        | enable other => exact Or.inl (allRules_switch other true ▸ h)
        | disable other => exact Or.inl (allRules_switch other false ▸ h)
      · exact Or.inr ⟨r, List.mem_cons_of_mem c hr, hrule⟩

/-! ## Findings -/

/-- Of the rules with an id only some others than the first one run: what is left of them where the
first one is off. -/
structure LeavesOnly (e : Engine) (id : String) (others : List EngineRule) : Prop where
  applicable_eq : ∀ d, (e.applicable d).filter (fun rule => rule.id == id) =
    (others.filter fun r => r.enabled && r.rule.covers d).map (·.rule)
  /-- A finding under the id comes from one of the others. -/
  exists_other : ∀ subject, ∀ f ∈ e.scan subject, f.ruleId = id → ∃ r ∈ others, r.enabled = true ∧
    r.rule.covers subject.document = true ∧ ∃ found, r.rule.check e.options subject = .ok found ∧
      f ∈ found
  /-- There is none if all others are off as well, or if there are no others. -/
  silent : (∀ r ∈ others, r.enabled = false) → ∀ subject, ∀ f ∈ e.scan subject, f.ruleId ≠ id

/-- Where some of the rules with an id are off, only the others run. -/
lemma leavesOnly_of_named {rules : List EngineRule} {isOff : EngineRule → Bool}
    (hsigned : ∀ rule ∈ e.allRules, rule.SignsFindings) (h : e.named id = rules)
    (hoff : ∀ r ∈ rules, isOff r = true → r.enabled = false) :
    e.LeavesOnly id (rules.filter fun r => !isOff r) := by
  have happlicable : ∀ d, (e.applicable d).filter (fun rule => rule.id == id) =
      ((rules.filter fun r => !isOff r).filter fun r => r.enabled && r.rule.covers d).map
        (·.rule) := by
    intro d
    have hnamed : (e.rules.filter fun r => r.enabled && r.rule.covers d).filter
        (fun r => r.rule.id == id) =
        (rules.filter fun r => !isOff r).filter fun r => r.enabled && r.rule.covers d := by
      rw [List.filter_comm]
      change (e.named id).filter _ = _
      rw [List.filter_filter]
      rw [h]
      refine List.filter_congr fun r hr => ?_
      cases hisOff : isOff r with
      | false => rw [Bool.not_false, Bool.and_true]
      | true => rw [hoff r hr hisOff, Bool.false_and, Bool.false_and]
    rw [applicable, List.filter_map, ← hnamed]
    rfl
  have hother : ∀ subject, ∀ f ∈ e.scan subject, f.ruleId = id →
      ∃ r ∈ rules.filter fun r => !isOff r, r.enabled = true ∧
      r.rule.covers subject.document = true ∧
      ∃ found, r.rule.check e.options subject = .ok found ∧ f ∈ found := by
    intro subject f hf hid
    obtain ⟨rule, hrule, found, hfound, hmem⟩ := exists_applicable_of_mem_scan hf
    have hall : rule ∈ e.allRules := (List.filter_sublist.map EngineRule.rule).mem hrule
    -- the rule signed the finding, so it has the id
    have hnamed : rule ∈ (e.applicable subject.document).filter fun rule => rule.id == id :=
      List.mem_filter.mpr
        ⟨hrule, by rw [← hsigned rule hall _ _ found hfound f hmem, hid, beq_self_eq_true]⟩
    rw [happlicable] at hnamed
    obtain ⟨r, hr, rfl⟩ := List.mem_map.mp hnamed
    obtain ⟨hr, hruns⟩ := List.mem_filter.mp hr
    obtain ⟨hon, hcovers⟩ := Bool.and_eq_true_iff.mp hruns
    exact ⟨r, hr, hon, hcovers, found, hfound, hmem⟩
  refine ⟨happlicable, hother, fun hsilent subject f hf hid => ?_⟩
  obtain ⟨r, hr, hon, -⟩ := hother subject f hf hid
  rw [hsilent r hr] at hon
  cases hon

/-- **What is left of an id that has been switched off**, after any calls on an engine whose rules
sign their findings, and as long as no call wakes the id: the other rules with the id that stood
behind the first one when it was switched off, each as it was. Where the first one stands behind
itself once more, it is off there too. -/
theorem leavesOnly_run {earlier later : List Call}
    (hsigned : ∀ rule ∈ e.allRules, rule.SignsFindings)
    (hadded : ∀ r, Call.register r ∈ earlier ++ later → r.rule.SignsFindings)
    (hfound : ((e.run earlier).find? id).isSome = true) (hquiet : ∀ c ∈ later, c.wakes id = false) :
    ∃ first others, (e.run earlier).named id = first :: others ∧
      (((e.run earlier).call (.disable id)).run later).LeavesOnly id
        (others.filter fun r => !r.isSame first) := by
  rw [find?_eq_head?_named] at hfound
  obtain ⟨first, hfirst⟩ := Option.isSome_iff_exists.mp hfound
  obtain ⟨others, hnamed⟩ := List.head?_eq_some_iff.mp hfirst
  refine ⟨first, others, hnamed, ?_⟩
  have hdisabled : ((e.run earlier).call (.disable id)).named id =
      switched first false (first :: others) :=
    named_switch hnamed false
  have hoff : ∀ r ∈ switched first false (first :: others), r.isSame first = true →
      r.enabled = false :=
    fun _ hr hsame => enabled_of_mem_switched hr hsame
  have hlater : (((e.run earlier).call (.disable id)).run later).named id =
      switched first false (first :: others) := by
    rw [switched_cons] at hdisabled hoff ⊢
    exact named_run hquiet hdisabled hoff
  have hothers : (switched first false (first :: others)).filter (fun r => !r.isSame first) =
      others.filter fun r => !r.isSame first := by
    rw [filter_not_isSame_switched, List.filter_cons, if_neg]
    simp [first.isSame_self]
  rw [← hothers]
  refine leavesOnly_of_named (fun rule hrule => ?_) hlater hoff
  rcases mem_allRules_run hrule with hrule | ⟨r, hr, rfl⟩
  · have hrule : rule ∈ (e.run earlier).allRules := allRules_switch id false ▸ hrule
    rcases mem_allRules_run hrule with hrule | ⟨r, hr, rfl⟩
    · exact hsigned rule hrule
    · exact hadded r (List.mem_append_left later hr)
  · exact hadded r (List.mem_append_right earlier hr)

/-- A rule with an id that reports every document. -/
def ownRule (id : String) : EngineRule :=
  let fixed : FixedRule :=
    { id := id, title := "Own policy", description := "Every document is reported",
      remediation := "None"
      category := "structure", severity := "info", dialects := [Dialect.github.name]
      findings := [{}] }
  { rule := fixed.toRule, number := 1 }

-- a rule that is added twice is switched off at both places, and another one with its id is not
example : (((ofOptions {}).run [.register (ownRule "own"), .register (ownRule "own"),
    .register { ownRule "own" with number := 2 }, .disable "own"]).named "own").map (·.enabled) =
      [false, false, true] := by
  decide +kernel

/-- The rules of an engine with the catalogue sign their findings. -/
lemma signsFindings_ofOptions (options : RuleOptions) :
    ∀ rule ∈ (ofOptions options).allRules, rule.SignsFindings := by
  rw [allRules_ofOptions]
  exact fun rule => Rules.signsFindings_of_mem_catalog

/-- A rule of one's own that is switched off says nothing more, whatever becomes of other rules. -/
theorem leavesOnly_run_own :
    let earlier := [Call.register (ownRule "own"), .disable "timeout"]
    let later := [Call.register (ownRule "other"), .enable "timeout", .disable "own"]
    let e := (((ofOptions {}).run earlier).call (.disable "own")).run later
    (((ofOptions {}).run earlier).find? "own").isSome = true ∧
    (∀ c ∈ later, c.wakes "own" = false) ∧
      e.LeavesOnly "own" [] ∧ ∀ subject, ∀ f ∈ e.scan subject, f.ruleId ≠ "own" := by
  intro earlier later e
  have hfound : (((ofOptions {}).run earlier).find? "own").isSome = true := by decide +kernel
  have hquiet : ∀ c ∈ later, c.wakes "own" = false := by decide
  have hnone : ((((ofOptions {}).run earlier).named "own").map (·.rule.id)) = ["own"] := by
    decide +kernel
  have hadded : ∀ r, Call.register r ∈ earlier ++ later → r.rule.SignsFindings := by
    intro r hr
    simp only [earlier, later, List.cons_append, List.nil_append, List.mem_cons,
      Call.register.injEq, reduceCtorEq, List.not_mem_nil, or_false, false_or] at hr
    rcases hr with rfl | rfl <;> exact FixedRule.signsFindings _
  obtain ⟨first, others, hnamed, hleaves⟩ :=
    leavesOnly_run (signsFindings_ofOptions {}) hadded hfound hquiet
  obtain rfl : others = [] := by
    rw [hnamed, List.map_cons, List.cons_eq_cons] at hnone
    exact List.map_eq_nil_iff.mp hnone.2
  exact ⟨hfound, hquiet, hleaves, hleaves.silent nofun⟩

/-- A job without a limit of time. -/
def endlessTree : Value :=
  .ofFields [("on", .str "push"), ("jobs", .ofFields [("a", .ofFields [])])]

/-- **A rule may go on under an id that has been switched off**: one of one's own has taken the id
of a rule of the catalogue, which is found first and switched off instead. -/
theorem exists_speaking : ∃ d, Document.ofTree endlessTree "" "github-actions" "ci.yml" = .ok d ∧
    (∀ rule ∈ ((ofOptions {}).run [.register (ownRule "timeout")]).allRules, rule.SignsFindings) ∧
    (((ofOptions {}).run [.register (ownRule "timeout")]).find? "timeout").isSome = true ∧
    ∃ f ∈ (((ofOptions {}).run [.register (ownRule "timeout")]).call (.disable "timeout")).scan
      ⟨d, "", "ci.yml"⟩, f.ruleId = "timeout" := by
  obtain ⟨d, hd, hfound, hscan⟩ : ∃ d,
      Document.ofTree endlessTree "" "github-actions" "ci.yml" = .ok d ∧
      (((ofOptions {}).run [.register (ownRule "timeout")]).find? "timeout").isSome = true ∧
      ∃ f ∈ (((ofOptions {}).run [.register (ownRule "timeout")]).call (.disable "timeout")).scan
        ⟨d, "", "ci.yml"⟩, f.ruleId = "timeout" := exists_ok_of_any (by decide +kernel)
  refine ⟨d, hd, fun rule hrule => ?_, hfound, hscan⟩
  rcases mem_allRules_run hrule with hrule | ⟨r, hr, rfl⟩
  · exact signsFindings_ofOptions {} rule hrule
  · simp only [List.mem_cons, Call.register.injEq, List.not_mem_nil, or_false] at hr
    exact hr ▸ FixedRule.signsFindings _

end Engine

end PipelineAudit
