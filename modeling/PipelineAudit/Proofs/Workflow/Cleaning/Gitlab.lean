import Mathlib.Algebra.Order.BigOperators.Group.List
import Mathlib.Algebra.Order.Ring.Nat
import PipelineAudit.Proofs.Workflow.Cleaning.Fields

/-!
# The second dialect on a clean tree

As in the first dialect, `taken` lists the values that are taken over, or written as texts, as they
are: here the commands of scripts and the conditions of rules are among them. Reading a clean tree
follows reading the tree, and the two documents are the same apart from lines exactly if there is
nothing to clean in these values (`follows_document`).
-/

namespace PipelineAudit.Gitlab

variable {source id : String} {raw tree : Value} {defaults : Defaults}

/-! ## What is taken over as it is -/

/-- The values of a job that are taken over, or written as texts, as they are. The conditions of
rules do not count in a job that never runs. -/
def takenByJob (raw : Value) (defaults : Defaults) : List Value :=
  scripts raw defaults
    ++ [getOr raw "timeout" (defaults.common.get "timeout"), raw.get "allow_failure",
      raw.get "stage"]
    ++ (raw.get "dependencies").itemsOrSelf
    ++ if isText (raw.get "when") "never" then []
      else ((raw.get "rules").itemsOrSelf.filter Value.isMap).map fun rule => rule.get "if"

/-- What a pipeline sets for all its jobs. -/
def defaultsOf (tree : Value) : Defaults :=
  let common := mapOrEmpty (tree.get "default")
  { before := getOr tree "before_script" (common.get "before_script")
    after := getOr tree "after_script" (common.get "after_script")
    cache := getOr tree "cache" (common.get "cache")
    common := common }

/-- The jobs of a tree, under the texts of their keys. -/
def jobsOf (tree : Value) : Assoc String Value :=
  Assoc.ofList ((tree.entries.filter fun (key, value) => isJob key value).map fun e =>
    (e.1.display, e.2))

/-- The values of a tree that are taken over, or written as texts, as they are. -/
def taken (tree : Value) : List Value :=
  (mapOrEmpty (tree.get "workflow")).get "name" ::
    (jobsOf tree).flatMap fun p => takenByJob p.2 (defaultsOf tree)

/-! ## Fields -/

/-- What a pipeline sets for all its jobs, clean. -/
def Defaults.clean (defaults : Defaults) : Defaults :=
  ⟨defaults.before.clean, defaults.after.clean, defaults.cache.clean, defaults.common.clean⟩

/-- Looking up a key other than that of a position commutes with cleaning. -/
lemma getOr_clean {key : String} (hkey : key ∉ Yaml.positionKeys) (v other : Value) :
    getOr v.clean key other.clean = (getOr v key other).clean := by
  rw [getOr, getOr, Value.get?_clean v hkey]
  cases v.get? key <;> rfl

/-- So does taking a mapping, or an empty one in its place. -/
lemma mapOrEmpty_clean (v : Value) : mapOrEmpty v.clean = (mapOrEmpty v).clean := by
  unfold mapOrEmpty
  rw [Value.isMap_clean]
  split_ifs <;> rfl

/-- The defaults of a clean tree are the clean defaults. -/
lemma defaultsOf_clean (tree : Value) : defaultsOf tree.clean = (defaultsOf tree).clean := by
  unfold defaultsOf Defaults.clean
  simp (disch := decide) only [Value.get_clean, mapOrEmpty_clean, getOr_clean]

/-- Its scripts are the clean scripts. -/
lemma scripts_clean (raw : Value) (defaults : Defaults) :
    scripts raw.clean defaults.clean = (scripts raw defaults).map Value.clean := by
  unfold scripts Defaults.clean
  simp (disch := decide) only [Value.get_clean, getOr_clean, List.map_cons, List.map_nil]

/-- Its tags are the same. -/
lemma tags_clean (raw : Value) (defaults : Defaults) :
    tags raw.clean defaults.clean = tags raw defaults := by
  unfold tags Defaults.clean
  simp (disch := decide) only [Value.get_clean, getOr_clean, Value.clean_clean]

/-- Whether a value is some text does not depend on cleaning. -/
lemma isText_clean (v : Value) (s : String) : isText v.clean s = isText v s := by
  cases v <;> rfl

/-- Nor does whether an entry is a job. -/
lemma isJob_clean (key value : Value) : isJob key value.clean = isJob key value := by
  have hmarkers : jobMarkers.any value.clean.has = jobMarkers.any value.has := by
    simp (disch := decide) only [jobMarkers, List.any_cons, List.any_nil, Value.has_clean]
  unfold isJob
  rw [hmarkers]

/-- Nor do the fields of variables. -/
lemma variableFields_clean (v : Value) : variableFields v.clean = variableFields v := by
  rw [variableFields, variableFields, Value.asFields_clean]

/-! ## Commands -/

/-- The number of characters of texts. -/
def size (texts : List String) : Nat := (texts.map String.length).sum

/-- The size of texts is that of their parts. -/
lemma size_flatMap {α : Type} (f : α → List String) (items : List α) :
    size (items.flatMap f) = (items.map fun a => size (f a)).sum := by
  unfold size
  induction items with
  | nil => rfl
  | cons a rest ih =>
      rw [List.flatMap_cons, List.map_append, List.sum_append, ih, List.map_cons, List.sum_cons]

/-- The items of a script give their commands one after the other. -/
lemma scriptItems_eq_flatMap (items : List Value) :
    scriptItems items = items.flatMap commandLines := by
  induction items with
  | nil => rfl
  | cons v rest ih => rw [scriptItems, ih, List.flatMap_cons]

/-- Cleaning a script changes nothing, or makes its commands shorter. -/
lemma clean_eq_or_size_lt (v : Value) :
    v.clean = v ∨ size (commandLines v.clean) < size (commandLines v) := by
  induction v using Value.induction_parts with
  | leaf v hleaf => exact Or.inl (Value.clean_of_isLeaf hleaf)
  | pair k v hk hv => exact Or.inl rfl
  | seq items ih =>
      rw [Value.clean_seq, commandLines, commandLines, scriptItems_eq_flatMap,
        scriptItems_eq_flatMap, size_flatMap, size_flatMap]
      exact (map_eq_or_sum_lt ih).imp_left (congrArg Value.seq)
  | map es ih =>
      have hsize : ∀ es, size (commandLines (.map es)) = (Value.map es).display.length :=
        fun _ => Nat.add_zero _
      rw [Value.clean, hsize, hsize]
      exact Value.clean_eq_or_display_lt (.map es)

/-- The commands of clean scripts are the same exactly if there is nothing to clean in the
scripts. -/
lemma flatMap_commandLines_clean_eq_iff {values : List Value} :
    (values.map Value.clean).flatMap commandLines = values.flatMap commandLines ↔
      ∀ v ∈ values, v.clean = v := by
  rw [← Value.map_clean_eq_self_iff]
  refine ⟨fun h => ?_, fun h => by rw [h]⟩
  have hsize := @map_eq_or_sum_lt _ Value.clean (fun v => size (commandLines v)) values fun v _ =>
    clean_eq_or_size_lt v
  rcases hsize with hclean | hlt
  · exact hclean
  · rw [← size_flatMap, ← size_flatMap, h] at hlt
    exact absurd hlt (Nat.lt_irrefl _)

/-! ## Conditions -/

/-- The condition of a rule. -/
def ruleCondition? (rule : Value) : Option String :=
  if rule.isMap && (rule.get "if").truthy then some (Text.trim (rule.get "if").display) else none

/-- The conditions of rules are those of each rule. -/
lemma ruleConditions_eq (v : Value) : ruleConditions v = v.itemsOrSelf.filterMap ruleCondition? :=
  rfl

/-- Those of clean rules are those of each clean rule. -/
lemma ruleConditions_clean (v : Value) :
    ruleConditions v.clean = v.itemsOrSelf.filterMap fun rule => ruleCondition? rule.clean := by
  rw [ruleConditions_eq, Value.itemsOrSelf_clean, List.filterMap_map]
  rfl

/-- There is nothing to clean in the condition of a rule. -/
def HasCleanCondition (rule : Value) : Prop :=
  rule.isMap = true → (rule.get "if").clean = rule.get "if"

/-- A rule whose condition is clean has the same one when it is cleaned. -/
lemma ruleCondition?_clean {rule : Value} (h : HasCleanCondition rule) :
    ruleCondition? rule.clean = ruleCondition? rule := by
  unfold ruleCondition?
  rw [Value.isMap_clean, Value.get_clean rule (by decide)]
  by_cases hmap : rule.isMap = true
  · rw [h hmap]
  · simp [hmap]

/-- A condition with something to clean stands in brackets, and gets shorter or lost. -/
lemma ruleCondition?_of_not_clean {rule : Value} (h : ¬HasCleanCondition rule) :
    ∃ text first later, ruleCondition? rule = some text ∧ text.toList = first :: later ∧
      (first = '[' ∨ first = '\x7b') ∧ ∀ other, ruleCondition? rule.clean = some other →
        other.length < text.length := by
  obtain ⟨hmap, hclean⟩ : rule.isMap = true ∧ (rule.get "if").clean ≠ rule.get "if" := by
    simpa [HasCleanCondition] using h
  have hcollection := Value.isCollection_of_clean_ne hclean
  obtain ⟨first, middle, last, hends, hfirst, -⟩ := Value.exists_brackets hcollection
  refine ⟨(rule.get "if").display, first, middle ++ [last], ?_, hends, hfirst, ?_⟩
  · rw [ruleCondition?, hmap, Value.truthy_of_clean_ne hclean, Value.trim_display hcollection]
    rfl
  · intro other hother
    rw [ruleCondition?, Value.get_clean rule (by decide)] at hother
    split_ifs at hother
    rw [Value.trim_display (by simpa using hcollection)] at hother
    cases hother
    rcases Value.clean_eq_or_display_lt (rule.get "if") with heq | hlt
    · exact absurd heq hclean
    · exact hlt

/-- The room that the condition of a rule takes among others. -/
def roomOf (condition? : Option String) : Nat := (condition?.map fun t => t.length + 4).getD 0

/-- The room that conditions need is that of each rule. -/
lemma room_filterMap (f : Value → Option String) (rules : List Value) :
    Text.room " || " (rules.filterMap f) = (rules.map fun rule => roomOf (f rule)).sum := by
  induction rules with
  | nil => rfl
  | cons rule rest ih =>
      rw [List.map_cons, List.sum_cons, ← ih]
      cases hrule : f rule with
      | none =>
          rw [List.filterMap_cons_none hrule, roomOf, Option.map_none,
          Option.getD_none, Nat.zero_add]
      | some text =>
          rw [List.filterMap_cons_some hrule, Text.room, List.map_cons, List.sum_cons]
          rfl

/-- Where a condition has something to clean, the conditions of clean rules take less room. -/
lemma room_clean_lt {rules : List Value} {rule : Value} (hrule : rule ∈ rules)
    (h : ¬HasCleanCondition rule) :
    Text.room " || " (rules.filterMap fun rule => ruleCondition? rule.clean) <
      Text.room " || " (rules.filterMap ruleCondition?) := by
  have hlt : ∀ {rule : Value}, ¬HasCleanCondition rule →
      roomOf (ruleCondition? rule.clean) < roomOf (ruleCondition? rule) := by
    intro rule h
    obtain ⟨text, first, later, htext, -, -, hshorter⟩ := ruleCondition?_of_not_clean h
    rw [htext]
    cases hclean : ruleCondition? rule.clean with
    | none => exact Nat.succ_pos _
    | some other => exact Nat.add_lt_add_right (hshorter other hclean) 4
  rw [room_filterMap, room_filterMap]
  refine List.sum_lt_sum _ _ (fun rule _ => ?_) ⟨rule, hrule, hlt h⟩
  by_cases hclean : HasCleanCondition rule
  · rw [ruleCondition?_clean hclean]
  · exact Nat.le_of_lt (hlt hclean)

/-- If no condition is left on a clean tree, then all conditions had something to clean, and stood
in brackets. -/
lemma join_ruleConditions_ne_manual {v : Value} (hlost : ruleConditions v.clean = [])
    (hsome : ruleConditions v ≠ []) : Text.join " || " (ruleConditions v) ≠ "manual" := by
  obtain ⟨text, rest, hconditions⟩ := List.exists_cons_of_ne_nil hsome
  obtain ⟨rule, hrule, htext⟩ : ∃ rule ∈ v.itemsOrSelf, ruleCondition? rule = some text := by
    rw [← List.mem_filterMap, ← ruleConditions_eq, hconditions]
    exact List.mem_cons_self
  have hnot : ¬HasCleanCondition rule := by
    intro hclean
    rw [ruleConditions_clean, List.filterMap_eq_nil_iff] at hlost
    have hgone := hlost rule hrule
    rw [ruleCondition?_clean hclean, htext] at hgone
    cases hgone
  obtain ⟨text', first, later, htext', hfirst, hbracket, -⟩ := ruleCondition?_of_not_clean hnot
  obtain rfl : text = text' := Option.some.inj (htext.symm.trans htext')
  obtain ⟨tail, htail⟩ := Text.exists_toList_join_cons " || " text rest
  intro hmanual
  rw [← hconditions, hmanual, hfirst] at htail
  obtain rfl : 'm' = first := (List.cons.inj htail).1
  revert hbracket
  decide

/-- The condition of a job on a clean tree is the same exactly if it never runs or there is nothing
to clean in the conditions of its rules. -/
lemma condition_clean_eq_iff :
    condition raw.clean = condition raw ↔ isText (raw.get "when") "never" = true ∨
      ∀ rule ∈ (raw.get "rules").itemsOrSelf, HasCleanCondition rule := by
  unfold condition
  simp (disch := decide) only [Value.get_clean, isText_clean]
  by_cases hnever : isText (raw.get "when") "never" = true
  · simp [hnever]
  rw [if_neg hnever, if_neg hnever]
  constructor
  · intro h
    refine Or.inr fun rule hrule => ?_
    by_contra hclean
    have hroom := room_clean_lt hrule hclean
    rw [← ruleConditions_clean, ← ruleConditions_eq] at hroom
    have hsome : ruleConditions (raw.get "rules") ≠ [] := by
      intro hnone
      rw [hnone] at hroom
      exact Nat.not_lt_zero _ hroom
    have hlength := Text.length_join_add " || " hsome
    have hthere : (!(ruleConditions (raw.get "rules")).isEmpty) = true := by simpa using hsome
    rw [if_pos hthere] at h
    by_cases hlost : ruleConditions (raw.get "rules").clean = []
    · have hgone : ¬(!(ruleConditions (raw.get "rules").clean).isEmpty) = true := by simp [hlost]
      rw [if_neg hgone] at h
      split_ifs at h
      exact join_ruleConditions_ne_manual hlost hsome (Option.some.inj h).symm
    · have hlength' := Text.length_join_add " || " hlost
      have hleft : (!(ruleConditions (raw.get "rules").clean).isEmpty) = true := by
        simpa using hlost
      rw [if_pos hleft] at h
      rw [Option.some.inj h] at hlength'
      omega
  · rintro (h | h)
    · exact absurd h hnever
    · have heq : ruleConditions (raw.get "rules").clean = ruleConditions (raw.get "rules") := by
        rw [ruleConditions_clean, ruleConditions_eq]
        exact List.filterMap_congr fun rule hrule => ruleCondition?_clean (h rule hrule)
      rw [heq]

/-! ## Jobs -/

/-- The steps of commands, apart from lines. -/
def plainSteps (index : Nat) (commands : List String) : List Step :=
  (commands.zipIdx index).map fun (command, index) => { index := index, run := some command }

/-- Steps tell their commands. -/
lemma plainSteps_inj {index : Nat} {commands others : List String} :
    plainSteps index commands = plainSteps index others ↔ commands = others := by
  refine ⟨fun h => ?_, fun h => by rw [h]⟩
  have hrun : ∀ texts index, (plainSteps index texts).filterMap Step.run = texts := by
    intro texts
    induction texts with
    | nil => exact fun _ => rfl
    | cons text rest ih => exact fun index => congrArg (text :: ·) (ih (index + 1))
  rw [← hrun commands index, h, hrun]

/-- Apart from lines, the steps of commands are told by the commands. -/
lemma map_withoutLine_of_steps {index : Nat} {first : Value} {commands : List String}
    {read : List Step} (h : steps source index first commands = .ok read) :
    read.map Step.withoutLine = plainSteps index commands := by
  induction commands generalizing index first read with
  | nil =>
      cases h
      rfl
  | cons command rest ih =>
      obtain ⟨_, _, later, -, hlater, rfl⟩ := exists_of_steps_cons h
      rw [List.map_cons, ih hlater]
      rfl

/-- A job apart from lines, from its id and its value. -/
def plainJob (defaults : Defaults) (p : String × Value) : Job :=
  job p.1 p.2 .null defaults (plainSteps 0 ((scripts p.2 defaults).flatMap commandLines))

/-- The conditions of a job are clean if its rules count for nothing or each of them is clean. -/
lemma forall_mem_rules_iff : (isText (raw.get "when") "never" = true ∨
      ∀ rule ∈ (raw.get "rules").itemsOrSelf, HasCleanCondition rule) ↔
    ∀ v ∈ if isText (raw.get "when") "never" then []
      else ((raw.get "rules").itemsOrSelf.filter Value.isMap).map fun rule => rule.get "if",
        v.clean = v := by
  by_cases hnever : isText (raw.get "when") "never" = true
  · simp [hnever]
  · rw [if_neg hnever, or_iff_right hnever]
    simp only [List.forall_mem_map, List.mem_filter, and_imp]
    rfl

/-- A job is the same on a clean tree, apart from lines, exactly if there is nothing to clean in
what it takes over. -/
lemma plainJob_clean_eq_iff :
    plainJob defaults.clean (id, raw.clean) = plainJob defaults (id, raw) ↔
      ∀ v ∈ takenByJob raw defaults, v.clean = v := by
  have hcommon : defaults.clean.common = defaults.common.clean := rfl
  have hcache : defaults.clean.cache = defaults.cache.clean := rfl
  have hdependencies : (raw.get "dependencies").clean.itemsOrSelf.map Value.display =
      (raw.get "dependencies").itemsOrSelf.map Value.display ↔
        ∀ v ∈ (raw.get "dependencies").itemsOrSelf, v.clean = v := by
    rw [Value.itemsOrSelf_clean, List.map_map, List.map_inj_left]
    exact forall₂_congr fun v _ => Value.display_clean_eq_iff
  unfold plainJob job takenByJob
  simp (disch := decide) only [Job.mk.injEq, hcommon, hcache, Value.get_clean, getOr_clean,
    tags_clean, scripts_clean, Value.clean_clean, variableFields_clean, Value.asFields_clean,
    plainSteps_inj, flatMap_commandLines_clean_eq_iff, condition_clean_eq_iff, forall_mem_rules_iff,
    hdependencies, true_and, and_true, List.forall_mem_append, List.forall_mem_cons,
    List.not_mem_nil, false_implies, implies_true]
  constructor
  · rintro ⟨hscripts, hrules, htimeout, hfailure, hstage, hneeded⟩
    exact ⟨⟨⟨hscripts, htimeout, hfailure, hstage⟩, hneeded⟩, hrules⟩
  · rintro ⟨⟨⟨hscripts, htimeout, hfailure, hstage⟩, hneeded⟩, hrules⟩
    exact ⟨hscripts, hrules, htimeout, hfailure, hstage, hneeded⟩

/-! ## Events -/

/-- Only certain keywords stand for another event than a push, and none of them starts with a
bracket. -/
lemma eventOf_of_bracket {text : String} {first : Char} {later : List Char}
    (h : text.toList = first :: later)
    (hfirst : first = '[' ∨ first = '\x7b') : eventOf text = "push" := by
  have hother : ∀ word : String, word.toList.head? ≠ some '[' ∧ word.toList.head? ≠ some '\x7b' →
      text ≠ word := by
    rintro word ⟨hword, hword'⟩ rfl
    rw [h] at hword hword'
    rcases hfirst with rfl | rfl
    · exact hword rfl
    · exact hword' rfl
  have hnone : ∀ words : List String,
      (∀ word ∈ words, word.toList.head? ≠ some '[' ∧ word.toList.head? ≠ some '\x7b') →
        ¬words.contains text = true := by
    intro words hwords hmem
    exact hother text (hwords text (List.contains_iff_mem.mp hmem)) rfl
  rw [eventOf, if_neg (hnone _ (by decide)), if_neg (hnone _ (by decide)),
    if_neg (hnone _ (by decide)), if_neg (hother "web" (by decide)), if_neg (hnone _ (by decide))]

/-- The event that a value names does not depend on cleaning. -/
lemma eventOf_clean (v : Value) : eventOf v.clean.display = eventOf v.display := by
  by_cases hclean : v.clean = v
  · rw [hclean]
  · have hcollection := Value.isCollection_of_clean_ne hclean
    obtain ⟨first, middle, last, hends, hfirst, -⟩ := Value.exists_brackets hcollection
    obtain ⟨first', middle', last', hends', hfirst', -⟩ :=
      @Value.exists_brackets v.clean (by simpa using hcollection)
    rw [eventOf_of_bracket hends hfirst, eventOf_of_bracket hends' hfirst']

/-- The values in `only` clauses of a clean tree. -/
lemma onlyValues_clean (tree : Value) :
    onlyValues tree.clean = (onlyValues tree).map Value.clean := by
  unfold onlyValues
  rw [Value.entries_clean]
  induction tree.entries with
  | nil => rfl
  | cons e rest ih =>
      obtain ⟨key, value⟩ := e
      rw [Value.cleanEntries, List.flatMap_cons, List.map_append, ← ih]
      by_cases hkey : key.isPositionKey = true
      · simp [hkey]
      · rw [if_neg hkey, List.flatMap_cons, Value.cleanEntry]
        refine congrArg (· ++ _) ?_
        dsimp only
        rw [Value.isMap_clean, Value.get_clean value (by decide), Value.isMap_clean,
          Value.get_clean (value.get "only") (by decide)]
        split_ifs
        · rfl
        · exact Value.itemsOrSelf_clean _
        · exact Value.itemsOrSelf_clean _

/-- The events of a clean tree are the same: what has something to clean is no keyword, before and
after. -/
lemma events_clean (tree : Value) (source : String) :
    events tree.clean source = events tree source := by
  have hfold : ∀ found, (onlyKeywords tree.clean).foldl addEvent found =
      (onlyKeywords tree).foldl addEvent found := by
    intro found
    rw [onlyKeywords, onlyKeywords, onlyValues_clean, List.map_map, List.foldl_map, List.foldl_map]
    simp only [Function.comp_apply, addEvent, eventOf_clean]
  unfold events
  simp only [List.foldl_append, hfold]

/-! ## Reading a tree -/

/-- Values that can be written still can be when they are cleaned. -/
lemma isWritable_map_clean {values : List Value} (h : ∀ v ∈ values, v.isWritable = true) :
    ∀ v ∈ values.map Value.clean, v.isWritable = true :=
  List.forall_mem_map.mpr fun v hv => Value.isWritable_clean v (h v hv)

/-- What a job writes can be written on a clean tree. -/
lemma isWritable_writtenInJob_clean (h : ∀ v ∈ writtenInJob raw defaults, v.isWritable = true) :
    ∀ v ∈ writtenInJob raw.clean defaults.clean, v.isWritable = true := by
  unfold writtenInJob at h ⊢
  simp (disch := decide) only [tags_clean, Value.get_clean, Value.clean_clean,
    Value.fieldKeys_clean, Value.itemsOrSelf_clean, List.forall_mem_append,
    List.forall_mem_map] at h ⊢
  obtain ⟨⟨⟨⟨⟨htags, hneeds⟩, hvariables⟩, hrules⟩, hparallel⟩, hdependencies⟩ := h
  exact ⟨⟨⟨⟨⟨htags, hneeds⟩, hvariables⟩,
    fun rule hrule => Value.isWritable_clean _ (hrules rule hrule)⟩,
    hparallel⟩, fun v hv => Value.isWritable_clean v (hdependencies v hv)⟩

/-- The steps of commands can be told from a known place on, whatever others were. -/
lemma follows_steps {first first' : Value} (hfirst : first'.IsKnownPlace)
    (commands others : List String) :
    Follows (fun read read' => read.map Step.withoutLine = plainSteps 0 commands ∧
        read'.map Step.withoutLine = plainSteps 0 others)
      ((steps source 0 first commands).mapError fun _ => .line)
      ((steps source 0 first' others).mapError fun _ => .line) where
  ok := by
    intro read hread
    obtain ⟨read', hread'⟩ := @exists_steps source first' hfirst 0 others
    rw [hread']
    exact ⟨read', rfl, map_withoutLine_of_steps (mapError_eq_ok.mp hread),
      map_withoutLine_of_steps hread'⟩
  rejected := by
    intro e he
    cases hsteps : steps source 0 first commands with
    | error why =>
        rw [hsteps] at he
        cases he
    | ok read =>
        rw [hsteps] at he
        cases he

/-- Reading a job of a clean tree follows reading the job. -/
lemma follows_jobOfEntry (entry : Value × Value) :
    Follows (fun j j' => j.withoutLines = plainJob defaults (entry.1.display, entry.2) ∧
        j'.withoutLines = plainJob defaults.clean (entry.1.display, entry.2.clean))
      (jobOfEntry tree source defaults entry)
      (jobOfEntry tree.clean source defaults.clean (entry.1, entry.2.clean)) := by
  obtain ⟨key, raw⟩ := entry
  unfold jobOfEntry
  dsimp only
  rw [scripts_clean, Value.keyLine_clean]
  refine (Follows.checkWritten isWritable_map_clean).bind fun _ _ _ => ?_
  have hplace : (jobLine .null (Source.findJobLine source key.display)).IsPlace :=
    isPlace_jobLine .null _
  refine (follows_steps ?_ _ _).bind ?_
  · split_ifs with hnull
    · exact ⟨.int 1, rfl⟩
    · exact ⟨hplace, by simpa using hnull⟩
  · rintro read read' ⟨hread, hread'⟩
    refine (Follows.checkWritten isWritable_writtenInJob_clean).bind fun _ _ _ =>
      Follows.pure ⟨?_, ?_⟩
    · rw [plainJob, ← hread]
      rfl
    · rw [plainJob, scripts_clean, ← hread']
      rfl

/-- The jobs of a clean tree. -/
lemma filter_isJob_clean (tree : Value) :
    (tree.clean.entries.filter fun (key, value) => isJob key value) =
    (tree.entries.filter fun (key, value) => isJob key value).map fun e => (e.1, e.2.clean) := by
  have hno : ∀ {key value : Value}, key.isPositionKey = true → isJob key value = false := by
    intro key value hkey
    cases key with
    | str name => simp [isJob, hkey]
    | _ => rfl
  rw [Value.entries_clean, Value.cleanEntries_eq_map, Value.properEntries, List.filter_map,
    List.filter_filter]
  refine congrArg _ (List.filter_congr fun e _ => ?_)
  change (isJob e.1 e.2.clean && !e.1.isPositionKey) = isJob e.1 e.2
  rw [isJob_clean]
  by_cases hkey : e.1.isPositionKey = true
  · rw [hno hkey, Bool.false_and]
  · simp [hkey]

/-- **Reading a clean tree follows reading the tree**, and gives the same document apart from lines
exactly if there is nothing to clean in what is taken over. -/
lemma follows_document (tree : Value) (source fileName : String) :
    Follows (fun d d' => d'.withoutLines = d.withoutLines ↔ ∀ v ∈ taken tree, v.clean = v)
      (document tree source fileName) (document tree.clean source fileName) := by
  have hread : Follows _ ((tree.entries.filter fun (key, value) => isJob key value).mapM
      (jobOfEntry tree source (defaultsOf tree)))
      (((tree.entries.filter fun (key, value) => isJob key value).map fun e =>
        (e.1, e.2.clean)).mapM (jobOfEntry tree.clean source (defaultsOf tree).clean)) :=
    Follows.mapM fun entry _ => follows_jobOfEntry entry
  rw [← filter_isJob_clean, ← defaultsOf_clean] at hread
  refine Follows.bind hread ?_
  rintro read read' ⟨hread, hread'⟩
  -- apart from lines, both documents have a job for each id, from the value and from the clean
  -- value
  have hjobs : (read.foldl Document.putJob []).map Job.withoutLines =
      (jobsOf tree).map (plainJob (defaultsOf tree)) :=
    Document.map_withoutLines_foldl_putJob (fun _ => rfl) (List.forall₂_map_right_iff.mpr hread)
  have hjobs' : (read'.foldl Document.putJob []).map Job.withoutLines =
      (jobsOf tree).map fun p => plainJob (defaultsOf tree).clean (p.1, p.2.clean) := by
    refine Document.map_withoutLines_foldl_putJob (fun _ => rfl) (List.forall₂_map_right_iff.mpr ?_)
    rw [← defaultsOf_clean]
    exact hread'
  have hempty : (read'.foldl Document.putJob []).isEmpty =
      (read.foldl Document.putJob []).isEmpty := by
    rw [← List.isEmpty_map, hjobs', List.isEmpty_map, ← List.isEmpty_map, ← hjobs, List.isEmpty_map]
  dsimp only
  simp (disch := decide) only [hempty, Value.get_clean, mapOrEmpty_clean, onlyValues_clean,
    Value.fieldKeys_clean, events_clean, variableFields_clean]
  by_cases hnone : (read.foldl Document.putJob []).isEmpty = true
  · rw [if_pos hnone, if_pos hnone]
    exact Follows.reject rfl
  rw [if_neg hnone, if_neg hnone]
  refine (Follows.checkWritten fun h => ?_).bind fun _ _ _ => Follows.pure ?_
  · rw [List.cons_append, List.forall_mem_cons, List.forall_mem_append] at h ⊢
    exact ⟨Value.isWritable_clean _ h.1, isWritable_map_clean h.2.1, h.2.2⟩
  · unfold Document.withoutLines taken
    simp only [Document.mk.injEq, true_and, hjobs, hjobs', Value.text?_clean_eq_iff,
      List.map_inj_left, List.forall_mem_cons, List.forall_mem_flatMap]
    exact and_congr_right fun _ => forall₂_congr fun p _ => plainJob_clean_eq_iff

end PipelineAudit.Gitlab
