import PipelineAudit.Proofs.Rule.Engine
import PipelineAudit.Proofs.Workflow.Steps

/-!
# Where the findings of a rule stand

A finding is told from others by its title and its place. The site of a draft is what it gives to
both: its title, its job and its step (`RuleSpec.site`). Findings that repeat each other come from
drafts with one site (`RuleSpec.site_eq_of_same`), whatever lines were found for them.

Most rules look at a job, a step or an action once. So they never make two different drafts for one
site (`RuleSpec.Tells`), and of their findings only those repeat each other that are equal
(`Rule.Distinguishes`): the lemmas for the kinds of rules reduce this to one job or step at a time,
and `Rules.distinguishes_of_mem_catalog` collects the rules. It rests on the numbers that a document
gives to its jobs and steps (`Document.IsNumbered`), which a document that was read has. The two
rules that are left out look at the variables of a job, and a variable is no part of a site.
-/

namespace PipelineAudit

/-! ## Numbers of jobs and steps -/

/-- No two jobs of a document have the same id, and no two steps of a job the same index. -/
structure Document.IsNumbered (d : Document) : Prop where
  jobs : d.jobIds.Nodup
  steps : ∀ j ∈ d.jobs, (j.steps.map Step.index).Nodup

namespace Document

variable {d : Document}

/-- A step is told by the id of its job and its index. -/
lemma IsNumbered.step_ext (hd : d.IsNumbered) {p q : Job × Step} (hp : p ∈ d.steps)
    (hq : q ∈ d.steps) (hjob : p.1.id = q.1.id) (hstep : p.2.index = q.2.index) : p = q := by
  obtain ⟨hpj, hps⟩ := mem_steps.mp hp
  obtain ⟨hqj, hqs⟩ := mem_steps.mp hq
  have hj : p.1 = q.1 := job_ext hd.jobs hpj hqj hjob
  have hs : p.2 = q.2 := List.inj_on_of_nodup_map (hd.steps p.1 hpj) hps (hj ▸ hqs) hstep
  exact Prod.ext hj hs

/-- A document that was read is numbered. -/
lemma isNumbered_of_ofTree {tree : Value} {source dialect fileName : String}
    (h : ofTree tree source dialect fileName = .ok d) : d.IsNumbered :=
  ⟨nodup_jobIds_of_ofTree h, fun _ hj => nodup_index_of_ofTree h hj⟩

end Document

/-! ## Sites -/

/-- Two places that are the same have the same job and the same number of the step, whatever their
lines are. -/
lemma Draft.eq_of_sameLocation {d d' : Draft} {line line' : Value}
    (h : Finding.sameLocation (d.location line) (d'.location line') = true) :
    d.job = d'.job ∧ d.step.map Numeral.number = d'.step.map Numeral.number := by
  have hsome : ∀ {e : Draft} {v : Value} {l : Location}, e.location v = some l →
      l.job = e.job ∧ l.step = e.step := by
    intro e v l hl
    unfold location at hl
    split_ifs at hl
    cases hl
    exact ⟨rfl, rfl⟩
  have hnone : ∀ {e : Draft} {v : Value}, e.location v = none → e.job = none ∧ e.step = none := by
    intro e v hl
    have hunset : (e.job = none ∧ e.step = none) ∧ v.isNull = true := by simpa [location] using hl
    exact hunset.1
  cases hl : d.location line with
  | none =>
      cases hl' : d'.location line' with
      | none =>
          rw [(hnone hl).1, (hnone hl).2, (hnone hl').1, (hnone hl').2]
          exact ⟨rfl, rfl⟩
      | some l' => simp [hl, hl', Finding.sameLocation] at h
  | some l =>
      cases hl' : d'.location line' with
      | none => simp [hl, hl', Finding.sameLocation] at h
      | some l' =>
          have hboth : (l.job = l'.job ∧ l.step.map Numeral.number = l'.step.map Numeral.number) ∧
              l.line.sameKey l'.line = true := by
            simpa [hl, hl', Finding.sameLocation, Location.same] using h
          rw [← (hsome hl).1, ← (hsome hl).2, ← (hsome hl').1, ← (hsome hl').2]
          exact hboth.1

/-- Of the findings of a rule on numbered documents, those that repeat each other are equal. -/
def Rule.Distinguishes (rule : Rule) : Prop :=
  ∀ options subject, subject.document.IsNumbered → ∀ found, rule.check options subject = .ok found →
    ∀ f ∈ found, ∀ g ∈ found, f.same g = true → f = g

namespace RuleSpec

variable {spec : RuleSpec} {subject : Subject}

/-- What a draft says of title and place without the line: its title, its job and its step. -/
def site (spec : RuleSpec) (d : Draft) : String × Option String × Option Int :=
  (orElseText d.title spec.title, d.job, d.step.map Numeral.number)

/-- **Findings that repeat each other** come from drafts with one site. -/
lemma site_eq_of_same {d d' : Draft} {f f' : Finding} (hf : spec.finding subject d = .ok f)
    (hf' : spec.finding subject d' = .ok f') (h : f.same f' = true) :
    spec.site d = spec.site d' := by
  obtain ⟨_, _, -, -, rfl⟩ := finding_eq_ok.mp hf
  obtain ⟨_, _, -, -, rfl⟩ := finding_eq_ok.mp hf'
  simp only [Finding.same, Bool.and_eq_true, beq_iff_eq] at h
  obtain ⟨hjob, hstep⟩ := Draft.eq_of_sameLocation h.2
  have htitle : orElseText d.title spec.title = orElseText d'.title spec.title := h.1.2
  rw [site, site, htitle, hjob, hstep]

/-- Drafts with one site are one draft. -/
def Tells (spec : RuleSpec) (drafts : List Draft) : Prop :=
  ∀ d ∈ drafts, ∀ d' ∈ drafts, spec.site d = spec.site d' → d = d'

/-! ### Lists of drafts -/

/-- A single draft has its site for itself. -/
lemma tells_of_length_le_one {drafts : List Draft} (h : drafts.length ≤ 1) : spec.Tells drafts := by
  intro d hd d' hd' _
  cases drafts with
  | nil => cases hd
  | cons only rest =>
      have hrest : rest = [] := List.length_eq_zero_iff.mp (by simpa using h)
      subst hrest
      rw [List.mem_singleton] at hd hd'
      rw [hd, hd']

/-- Two lists of drafts are told apart together if no site is in both. -/
lemma tells_append {first second : List Draft} (hfirst : spec.Tells first)
    (hsecond : spec.Tells second)
    (h : ∀ d ∈ first, ∀ d' ∈ second, spec.site d ≠ spec.site d') :
    spec.Tells (first ++ second) := by
  intro d hmem d' hmem' hsite
  rcases List.mem_append.mp hmem with hmem | hmem <;> rcases List.mem_append.mp
      hmem' with hmem' | hmem'
  · exact hfirst d hmem d' hmem' hsite
  · exact absurd hsite (h d hmem d' hmem')
  · exact absurd hsite.symm (h d' hmem' d hmem)
  · exact hsecond d hmem d' hmem' hsite

/-- Jobs are told apart by their ids. -/
lemma tells_flatMap_jobs (hd : subject.document.IsNumbered) {jobs : List Job}
    {drafts : Job → List Draft}
    (hsub : ∀ j ∈ jobs, j ∈ subject.document.jobs)
    (hjob : ∀ j ∈ jobs, ∀ d ∈ drafts j, d.job = some j.id)
    (htells : ∀ j ∈ jobs, spec.Tells (drafts j)) : spec.Tells (jobs.flatMap drafts) := by
  intro d hmem d' hmem' hsite
  obtain ⟨j, hj, hmem⟩ := List.mem_flatMap.mp hmem
  obtain ⟨j', hj', hmem'⟩ := List.mem_flatMap.mp hmem'
  have hjobs : d.job = d'.job := congrArg (fun p => p.2.1) hsite
  rw [hjob j hj d hmem, hjob j' hj' d' hmem'] at hjobs
  obtain rfl : j = j' := Document.job_ext hd.jobs (hsub j hj) (hsub j' hj') (Option.some.inj hjobs)
  exact htells j hj d hmem d' hmem' hsite

/-- Steps are told apart by the ids of their jobs and their indices. -/
lemma tells_flatMap_steps (hd : subject.document.IsNumbered) {steps : List (Job × Step)}
    {drafts : Job × Step → List Draft} (hsub : ∀ p ∈ steps, p ∈ subject.document.steps)
    (hplace : ∀ p ∈ steps, ∀ d ∈ drafts p, d.job = some p.1.id ∧ d.step = some (.ofNat p.2.index))
    (hone : ∀ p ∈ steps, (drafts p).length ≤ 1) : spec.Tells (steps.flatMap drafts) := by
  intro d hmem d' hmem' hsite
  obtain ⟨p, hp, hmem⟩ := List.mem_flatMap.mp hmem
  obtain ⟨p', hp', hmem'⟩ := List.mem_flatMap.mp hmem'
  obtain ⟨hjob, hstep⟩ := hplace p hp d hmem
  obtain ⟨hjob', hstep'⟩ := hplace p' hp' d' hmem'
  have hjobs : d.job = d'.job := congrArg (fun s => s.2.1) hsite
  have hsteps : d.step.map Numeral.number = d'.step.map Numeral.number :=
    congrArg (fun s => s.2.2) hsite
  rw [hjob, hjob'] at hjobs
  rw [hstep, hstep'] at hsteps
  have hindex : p.2.index = p'.2.index := by
    simp only [Option.map_some, Numeral.ofNat, Option.some.injEq] at hsteps
    omega
  obtain rfl : p = p' := hd.step_ext (hsub p hp) (hsub p' hp') (Option.some.inj hjobs) hindex
  exact tells_of_length_le_one (hone p hp) d hmem d' hmem' hsite

/-- Steps with one draft each are told apart. -/
lemma tells_map_steps (hd : subject.document.IsNumbered) {steps : List (Job × Step)}
    {draft : Job × Step → Draft} (hsub : ∀ p ∈ steps, p ∈ subject.document.steps)
    (hplace : ∀ p ∈ steps, (draft p).job = some p.1.id ∧ (draft p).step = some (.ofNat p.2.index)) :
    spec.Tells (steps.map draft) := by
  rw [List.map_eq_flatMap]
  apply tells_flatMap_steps hd hsub
  · intro p hp d hmem
    rw [List.mem_singleton.mp hmem]
    exact hplace p hp
  · intro p hp
    exact Nat.le_refl 1

/-! ### Kinds of rules -/

/-- A rule distinguishes its findings if its drafts have sites of their own. -/
lemma distinguishes_rule {check : RuleOptions → Subject → Except RuleFault (List Draft)}
    (h : ∀ options subject, subject.document.IsNumbered →
      ∀ drafts, check options subject = .ok drafts → spec.Tells drafts) :
    (spec.rule check).Distinguishes := by
  intro options subject hd found hfound f hf g hg hsame
  obtain ⟨drafts, hdrafts, hfound⟩ := bind_eq_ok.mp hfound
  obtain ⟨d, hmem, hfind⟩ := exists_of_mem_mapM hfound hf
  obtain ⟨d', hmem', hfind'⟩ := exists_of_mem_mapM hfound hg
  have hsite : spec.site d = spec.site d' := site_eq_of_same hfind hfind' hsame
  obtain rfl : d = d' := h options subject hd drafts hdrafts d hmem d' hmem' hsite
  exact Except.ok.inj (hfind.symm.trans hfind')

/-- The same for a rule that cannot fail. -/
lemma distinguishes_pureRule {check : RuleOptions → Subject → List Draft}
    (h : ∀ options subject, subject.document.IsNumbered → spec.Tells (check options subject)) :
    (spec.pureRule check).Distinguishes := by
  apply distinguishes_rule
  intro options subject hd drafts hdrafts
  cases hdrafts
  exact h options subject hd

/-- The same for a rule that drafts at most one thing. -/
lemma distinguishes_pureRule_of_length_le_one {check : RuleOptions → Subject → List Draft}
    (hone : ∀ options subject, (check options subject).length ≤ 1) :
    (spec.pureRule check).Distinguishes :=
  distinguishes_pureRule fun options subject _ => tells_of_length_le_one (hone options subject)

/-- The same for a rule that writes texts first. -/
lemma distinguishes_writingRule {values : Document → List Value}
    {check : RuleOptions → Subject → List Draft}
    (h : ∀ options subject, subject.document.IsNumbered → spec.Tells (check options subject)) :
    (spec.writingRule values check).Distinguishes := by
  apply distinguishes_rule
  intro options subject hd drafts hdrafts
  split_ifs at hdrafts
  cases hdrafts
  exact h options subject hd

/-- The same for a rule on jobs, job by job. -/
lemma distinguishes_jobRule {check : RuleOptions → Subject → Job → List Draft}
    (hjob : ∀ options subject j, ∀ d ∈ check options subject j, d.job = some j.id)
    (htells : ∀ options subject, subject.document.IsNumbered →
      ∀ j ∈ subject.document.jobs, spec.Tells (check options subject j)) :
    (spec.jobRule check).Distinguishes := by
  apply distinguishes_pureRule
  intro options subject hd
  exact tells_flatMap_jobs hd (fun _ hj => hj) (fun j _ => hjob options subject j)
    (htells options subject hd)

/-- The same for a rule that drafts at most one thing for each job. -/
lemma distinguishes_jobRule_of_length_le_one {check : RuleOptions → Subject → Job → List Draft}
    (hjob : ∀ options subject j, ∀ d ∈ check options subject j, d.job = some j.id)
    (hone : ∀ options subject j, (check options subject j).length ≤ 1) :
    (spec.jobRule check).Distinguishes :=
  distinguishes_jobRule hjob fun options subject _ j _ =>
    tells_of_length_le_one (hone options subject j)

/-- The same for a rule on steps with one draft for each of them. -/
lemma distinguishes_stepRule {check : RuleOptions → Subject → Job → Step → List Draft}
    (hplace : ∀ options subject j s, ∀ d ∈ check options subject j s,
      d.job = some j.id ∧ d.step = some (.ofNat s.index))
    (hone : ∀ options subject j s, (check options subject j s).length ≤ 1) :
    (spec.stepRule check).Distinguishes := by
  apply distinguishes_pureRule
  intro options subject hd
  exact tells_flatMap_steps hd (fun _ hp => hp) (fun p _ => hplace options subject p.1 p.2)
    fun p _ => hone options subject p.1 p.2

/-- What is collected item by item and may fail is what each item gives. -/
lemma flatten_eq_flatMap_of_mapM {ε α β : Type} {f : α → Except ε (List β)} {items : List α}
    {found : List (List β)} (h : items.mapM f = .ok found) :
    found.flatten = items.flatMap fun a => (f a).toOption.getD [] := by
  induction items generalizing found with
  | nil =>
      cases h
      rfl
  | cons a rest ih =>
      rw [List.mapM_cons] at h
      obtain ⟨first, hfirst, h⟩ := bind_eq_ok.mp h
      obtain ⟨later, hlater, h⟩ := bind_eq_ok.mp h
      cases h
      rw [List.flatten_cons, List.flatMap_cons, ih hlater, hfirst]
      rfl

/-- The same for a rule on steps that may fail. -/
lemma distinguishes_fallibleStepRule
    {check : RuleOptions → Subject → Job → Step → Except RuleFault (List Draft)}
    (h : ∀ options subject j s drafts, check options subject j s = .ok drafts → drafts.length ≤ 1 ∧
      ∀ d ∈ drafts, d.job = some j.id ∧ d.step = some (.ofNat s.index)) :
    (spec.fallibleStepRule check).Distinguishes := by
  apply distinguishes_rule
  intro options subject hd drafts hdrafts
  obtain ⟨found, hfound, hdrafts⟩ := bind_eq_ok.mp hdrafts
  cases hdrafts
  rw [flatten_eq_flatMap_of_mapM hfound]
  have hboth : ∀ p ∈ subject.document.steps,
      ((check options subject p.1 p.2).toOption.getD []).length ≤ 1 ∧
        ∀ d ∈ (check options subject p.1 p.2).toOption.getD [],
          d.job = some p.1.id ∧ d.step = some (.ofNat p.2.index) := by
    intro p _
    cases hcheck : check options subject p.1 p.2 with
    | error why => exact ⟨Nat.zero_le 1, fun d hd => absurd hd List.not_mem_nil⟩
    | ok ofStep => exact h options subject p.1 p.2 ofStep hcheck
  apply tells_flatMap_steps hd (fun _ hp => hp)
  · intro p hp
    exact (hboth p hp).2
  · intro p hp
    exact (hboth p hp).1

/-- The same for a rule that asks about actions. -/
lemma distinguishes_actionRule {α : Type}
    {ask : RuleOptions → ActionRef → Except RuleFault (Option α)}
    {draft : Job → Step → ActionRef → α → Draft}
    (h : ∀ j s a answer, (draft j s a answer).job = some j.id ∧
    (draft j s a answer).step = some (.ofNat s.index)) :
    (spec.actionRule ask draft).Distinguishes := by
  apply distinguishes_fallibleStepRule
  intro options subject j s drafts hdrafts
  rcases answerDrafts_cases hdrafts with rfl | ⟨a, answer, rfl⟩
  · exact ⟨Nat.zero_le 1, List.forall_mem_nil _⟩
  · exact ⟨Nat.le_refl 1, List.forall_mem_singleton.mpr (h j s a answer)⟩

end RuleSpec

/-! ## Uses of actions -/

namespace ActionUse

variable {uses : List (ActionRef × Job × Step)} {u u' : ActionUse}

/-- The uses of an action are told by its name, and the first of them is one of the uses. -/
lemma of_ofName? {name : String} (h : ofName? uses name = some u) :
    u.name = name ∧ ∃ a, (a, u.job, u.step) ∈ uses ∧ a.name = name := by
  unfold ofName? at h
  split at h
  · cases h
  · rename_i first rest hfilter
    cases h
    have hfirst : first ∈ uses.filter fun u => u.1.name == name := by simp [hfilter]
    obtain ⟨hmem, hname⟩ := List.mem_filter.mp hfirst
    exact ⟨rfl, first.1, hmem, by simpa using hname⟩

/-- The step that is named for an action is one that uses it. -/
lemma exists_of_mem_moreThan {limit : Nat} (h : u ∈ moreThan limit uses) :
    ∃ a, (a, u.job, u.step) ∈ uses := by
  obtain ⟨name, -, hname⟩ := List.mem_filterMap.mp (List.mem_of_mem_filter h)
  obtain ⟨-, a, ha, -⟩ := of_ofName? hname
  exact ⟨a, ha⟩

/-- The uses of actions are told apart by the step that comes first, if a step uses one action. -/
lemma eq_of_mem_moreThan {limit : Nat} (hone : ∀ x ∈ uses, x.2.2.action = some x.1)
    (hu : u ∈ moreThan limit uses) (hu' : u' ∈ moreThan limit uses)
    (h : (u.job, u.step) = (u'.job, u'.step)) : u = u' := by
  obtain ⟨name, -, hname⟩ := List.mem_filterMap.mp (List.mem_of_mem_filter hu)
  obtain ⟨name', -, hname'⟩ := List.mem_filterMap.mp (List.mem_of_mem_filter hu')
  obtain ⟨-, a, ha, rfl⟩ := of_ofName? hname
  obtain ⟨-, a', ha', rfl⟩ := of_ofName? hname'
  have hstep : u.step = u'.step := congrArg Prod.snd h
  have haction : some a = some a' := by
    rw [← hone _ ha, ← hone _ ha', hstep]
  rw [Option.some.inj haction, hname'] at hname
  exact (Option.some.inj hname).symm

/-- The steps of uses are those of the document, and use the action that they stand for. -/
lemma of_mem_uses {d : Document} {x : ActionRef × Job × Step} (h : x ∈ ActionUse.uses d.steps) :
    x.2 ∈ d.steps ∧ x.2.2.action = some x.1 := by
  obtain ⟨⟨j, s⟩, hmem, hx⟩ := List.mem_filterMap.mp h
  obtain ⟨a, ha, rfl⟩ := Option.map_eq_some_iff.mp hx
  exact ⟨hmem, ha⟩

/-- Drafts at the first uses of actions have sites of their own. -/
lemma tells_map_draft {spec : RuleSpec} {subject : Subject} (hd : subject.document.IsNumbered)
    {limit : Nat} (text : ActionUse → String)
    (huses : ∀ x ∈ uses, x.2 ∈ subject.document.steps ∧ x.2.2.action = some x.1) :
    spec.Tells ((moreThan limit uses).map fun u => u.draft (text u)) := by
  intro d hmem d' hmem' hsite
  obtain ⟨u, hu, rfl⟩ := List.mem_map.mp hmem
  obtain ⟨u', hu', rfl⟩ := List.mem_map.mp hmem'
  have hplace : ∀ {v : ActionUse}, v ∈ moreThan limit uses →
      (v.job, v.step) ∈ subject.document.steps := by
    intro v hv
    obtain ⟨a, ha⟩ := exists_of_mem_moreThan hv
    exact (huses _ ha).1
  have hjob : u.job.id = u'.job.id := Option.some.inj (congrArg (fun s => s.2.1) hsite)
  have hstep : u.step.index = u'.step.index := by
    have hnumber := congrArg (fun s => s.2.2) hsite
    simp only [RuleSpec.site, draft, Step.draft, Numeral.ofNat, Option.map_some, Option.some.injEq]
      at hnumber
    omega
  have hsame := hd.step_ext (hplace hu) (hplace hu') hjob hstep
  rw [eq_of_mem_moreThan (fun x hx => (huses x hx).2) hu hu' hsame]

end ActionUse

/-! ## The catalogue -/

namespace Rules

/-! ### Rules on security -/

/-- Actions that are not pinned are told apart by their steps. -/
lemma distinguishes_unpinnedAction : unpinnedAction.Distinguishes := by
  apply RuleSpec.distinguishes_stepRule
  · grind [Step.draft]
  · grind

/-- The draft on the whole document names no job, and the others name a job each. -/
lemma distinguishes_permissions : permissions.Distinguishes := by
  apply RuleSpec.distinguishes_writingRule
  intro options subject hd
  apply RuleSpec.tells_append
  · apply RuleSpec.tells_of_length_le_one
    grind
  · rw [List.map_eq_flatMap]
    apply RuleSpec.tells_flatMap_jobs hd
    · intro j hj
      exact List.mem_of_mem_filter hj
    · intro j _ d hmem
      rw [List.mem_singleton.mp hmem]
    · intro j _
      exact RuleSpec.tells_of_length_le_one (Nat.le_refl 1)
  · intro d hmem d' hmem' hsite
    have hjob : d.job = d'.job := congrArg (fun s => s.2.1) hsite
    obtain ⟨j, -, rfl⟩ := List.mem_map.mp hmem'
    have hnone : d.job = none := by grind
    rw [hnone] at hjob
    cases hjob

/-- So are unsafe scripts. -/
lemma distinguishes_unsafeScript : unsafeScript.Distinguishes := by
  apply RuleSpec.distinguishes_stepRule
  · grind [Step.draft]
  · grind

/-- So are scripts with untrusted expressions. -/
lemma distinguishes_commandInjection : commandInjection.Distinguishes := by
  apply RuleSpec.distinguishes_writingRule
  intro options subject hd
  apply RuleSpec.tells_flatMap_steps hd (fun _ hp => hp)
  · grind [injectionDrafts, Step.draft]
  · grind [injectionDrafts]

/-- So are checkouts of foreign code. -/
lemma distinguishes_privilegedCheckout : privilegedCheckout.Distinguishes := by
  apply RuleSpec.distinguishes_writingRule
  intro options subject hd
  apply RuleSpec.tells_map_steps hd
  · grind [privilegedCheckouts]
  · grind [Step.draft]

/-- Runners of one's own are told apart by their jobs. -/
lemma distinguishes_selfHostedRunner : selfHostedRunner.Distinguishes := by
  rw [selfHostedRunner_eq]
  apply RuleSpec.distinguishes_rule
  intro options subject hd drafts hdrafts
  obtain ⟨found, hfound, hdrafts⟩ := bind_eq_ok.mp hdrafts
  cases hdrafts
  rw [RuleSpec.flatten_eq_flatMap_of_mapM hfound]
  have hone : ∀ j : Job, ((runnerDrafts j).toOption.getD []).length ≤ 1 ∧
      ∀ d ∈ (runnerDrafts j).toOption.getD [], d.job = some j.id := by
    intro j
    cases hcheck : runnerDrafts j with
    | error why => exact ⟨Nat.zero_le 1, List.forall_mem_nil _⟩
    | ok drafts =>
        obtain ⟨labels, -, rfl⟩ := map_eq_ok.mp hcheck
        simp only [Except.toOption, Option.getD_some]
        split_ifs
        · exact ⟨Nat.le_refl 1, List.forall_mem_singleton.mpr rfl⟩
        · exact ⟨Nat.zero_le 1, List.forall_mem_nil _⟩
  exact RuleSpec.tells_flatMap_jobs hd (fun _ hj => hj) (fun j _ => (hone j).2) fun j _ =>
    RuleSpec.tells_of_length_le_one (hone j).1

/-- Actions of third parties are told apart by their steps. -/
lemma distinguishes_thirdPartyAction : thirdPartyAction.Distinguishes := by
  apply RuleSpec.distinguishes_stepRule
  · grind [Step.draft]
  · grind

/-! ### Rules on wasted time -/

/-- Jobs without a cache are told apart. -/
lemma distinguishes_missingCache : missingCache.Distinguishes := by
  apply RuleSpec.distinguishes_jobRule_of_length_le_one
  · grind [Step.draft]
  · grind

/-- So are jobs with several checkouts. -/
lemma distinguishes_redundantCheckout : redundantCheckout.Distinguishes := by
  apply RuleSpec.distinguishes_jobRule_of_length_le_one
  · grind [Step.draft]
  · grind

/-- So are jobs with large matrices. -/
lemma distinguishes_largeMatrix : largeMatrix.Distinguishes := by
  apply RuleSpec.distinguishes_jobRule_of_length_le_one
  · grind [Job.draft]
  · grind

/-- Artifacts that nobody downloads are told apart by their steps. -/
lemma distinguishes_unusedArtifact : unusedArtifact.Distinguishes := by
  apply RuleSpec.distinguishes_writingRule
  intro options subject hd
  dsimp only
  split_ifs
  · exact RuleSpec.tells_of_length_le_one (Nat.zero_le 1)
  · apply RuleSpec.tells_map_steps hd
    · grind
    · grind [Step.draft]

/-- There is one finding about heavy use of actions. -/
lemma distinguishes_heavyActionUsage : heavyActionUsage.Distinguishes := by
  apply RuleSpec.distinguishes_pureRule
  intro options subject hd
  exact ActionUse.tells_map_draft hd _ fun x hx => ActionUse.of_mem_uses hx

/-! ### Rules on readability -/

/-- There is one finding about the name of the workflow. -/
lemma distinguishes_workflowName : workflowName.Distinguishes := by
  apply RuleSpec.distinguishes_pureRule_of_length_le_one
  grind

/-- Jobs without names are told apart. -/
lemma distinguishes_jobName : jobName.Distinguishes := by
  apply RuleSpec.distinguishes_jobRule_of_length_le_one
  · grind [Job.draft]
  · grind

/-- Steps without names are told apart. -/
lemma distinguishes_stepName : stepName.Distinguishes := by
  apply RuleSpec.distinguishes_stepRule
  · grind [Step.draft]
  · grind

/-- Jobs without a limit of time are told apart. -/
lemma distinguishes_timeout : timeout.Distinguishes := by
  apply RuleSpec.distinguishes_jobRule_of_length_le_one
  · grind [Job.draft]
  · grind

/-- The draft on a job names no step, and the others name a step each. -/
lemma distinguishes_errorHandling : errorHandling.Distinguishes := by
  apply RuleSpec.distinguishes_jobRule
  · grind [Job.draft, Step.draft]
  · intro options subject hd j hj
    by_cases hdeals : dealsWithFailures j = true
    · rw [if_pos hdeals]
      exact RuleSpec.tells_of_length_le_one (Nat.zero_le 1)
    rw [if_neg hdeals]
    apply RuleSpec.tells_append
    · apply RuleSpec.tells_of_length_le_one
      grind
    · intro d hmem d' hmem' hsite
      have hstep : d.step.map Numeral.number = d'.step.map Numeral.number :=
        congrArg (fun s => s.2.2) hsite
      obtain ⟨s, hs, rfl⟩ := List.mem_map.mp hmem
      obtain ⟨s', hs', rfl⟩ := List.mem_map.mp hmem'
      have hindex : s.index = s'.index := by
        simp only [Step.draft, Numeral.ofNat, Option.map_some, Option.some.injEq] at hstep
        omega
      rw [List.inj_on_of_nodup_map (hd.steps j hj) (List.mem_of_mem_filter hs)
        (List.mem_of_mem_filter hs') hindex]
    · intro d hmem d' hmem' hsite
      have hstep : d.step.map Numeral.number = d'.step.map Numeral.number :=
        congrArg (fun s => s.2.2) hsite
      obtain ⟨s, -, rfl⟩ := List.mem_map.mp hmem'
      have hnone : d.step = none := by grind [Job.draft]
      rw [hnone] at hstep
      cases hstep

/-- There is one finding about documentation. -/
lemma distinguishes_documentation : documentation.Distinguishes := by
  apply RuleSpec.distinguishes_pureRule_of_length_le_one
  grind

/-! ### Rules on actions -/

/-- Deprecated actions are told apart by their steps. -/
lemma distinguishes_deprecatedAction : deprecatedAction.Distinguishes := by
  rw [deprecatedAction_eq]
  apply RuleSpec.distinguishes_actionRule
  intro j s a why
  cases why <;> exact ⟨rfl, rfl⟩

/-- So are outdated ones. -/
lemma distinguishes_outdatedAction : outdatedAction.Distinguishes := by
  rw [outdatedAction_eq]
  apply RuleSpec.distinguishes_actionRule
  intro j s a known
  exact ⟨rfl, rfl⟩

/-- Actions in frequent use are told apart by their names. -/
lemma distinguishes_frequentAction : frequentAction.Distinguishes := by
  apply RuleSpec.distinguishes_pureRule
  intro options subject hd
  exact ActionUse.tells_map_draft hd _ fun x hx => ActionUse.of_mem_uses (List.mem_of_mem_filter hx)

/-! ### Rules on the shape of a document -/

/-- The title of a finding on a job that does not exist tells the name of that job. -/
lemma missingTitle_injective : Function.Injective missingTitle := by
  intro name name' h
  have hquoted := (String.append_left_inj _).mp h
  exact (String.append_right_inj _).mp hquoted

/-- The title of a draft has the name of the job that does not exist. -/
lemma distinguishes_missingDependency : missingDependency.Distinguishes := by
  apply RuleSpec.distinguishes_jobRule
  · grind [missingDependencyDraft, Job.draft]
  · intro options subject hd j hj d hmem d' hmem' hsite
    obtain ⟨name, -, rfl⟩ := List.mem_map.mp hmem
    obtain ⟨name', -, rfl⟩ := List.mem_map.mp hmem'
    have htitle : missingTitle name = missingTitle name' := by
      have hheading : ∀ n, (missingDependencySpec.site (missingDependencyDraft subject j n)).1 =
          missingTitle n :=
        fun n => congrArg Heading.title (heading_missing n)
      rw [← hheading name, ← hheading name', hsite]
    rw [missingTitle_injective htitle]

/-- There is one finding about the number of steps. -/
lemma distinguishes_complexWorkflow : complexWorkflow.Distinguishes := by
  apply RuleSpec.distinguishes_pureRule_of_length_le_one
  grind

/-- There is one about the number of triggers. -/
lemma distinguishes_complexTriggers : complexTriggers.Distinguishes := by
  apply RuleSpec.distinguishes_pureRule_of_length_le_one
  grind

/-- There is one about the number of jobs. -/
lemma distinguishes_excessiveJobs : excessiveJobs.Distinguishes := by
  apply RuleSpec.distinguishes_pureRule_of_length_le_one
  grind

/-- **The rules that distinguish their findings** are all of the catalogue but the two that look at
variables. -/
theorem distinguishes_of_mem_catalog {rule : Rule} (h : rule ∈ catalog) :
    rule.Distinguishes ∨ rule = hardcodedCredentials ∨ rule = envShadowing := by
  simp only [catalog, securityRules, performanceRules, practiceRules, dependencyRules,
    structureRules, List.mem_append, List.mem_cons, List.not_mem_nil, or_false] at h
  rcases h with ((((h | h) | h) | h) | h)
  · rcases h with rfl | rfl | rfl | rfl | rfl | rfl | rfl | rfl
    · exact Or.inr (Or.inl rfl)
    · exact Or.inl distinguishes_unpinnedAction
    · exact Or.inl distinguishes_permissions
    · exact Or.inl distinguishes_unsafeScript
    · exact Or.inl distinguishes_commandInjection
    · exact Or.inl distinguishes_privilegedCheckout
    · exact Or.inl distinguishes_selfHostedRunner
    · exact Or.inl distinguishes_thirdPartyAction
  · rcases h with rfl | rfl | rfl | rfl | rfl
    · exact Or.inl distinguishes_missingCache
    · exact Or.inl distinguishes_redundantCheckout
    · exact Or.inl distinguishes_largeMatrix
    · exact Or.inl distinguishes_unusedArtifact
    · exact Or.inl distinguishes_heavyActionUsage
  · rcases h with rfl | rfl | rfl | rfl | rfl | rfl | rfl
    · exact Or.inl distinguishes_workflowName
    · exact Or.inl distinguishes_jobName
    · exact Or.inl distinguishes_stepName
    · exact Or.inl distinguishes_timeout
    · exact Or.inl distinguishes_errorHandling
    · exact Or.inl distinguishes_documentation
    · exact Or.inr (Or.inr rfl)
  · rcases h with rfl | rfl | rfl
    · exact Or.inl distinguishes_deprecatedAction
    · exact Or.inl distinguishes_outdatedAction
    · exact Or.inl distinguishes_frequentAction
  · rcases h with rfl | rfl | rfl | rfl
    · exact Or.inl distinguishes_missingDependency
    · exact Or.inl distinguishes_complexWorkflow
    · exact Or.inl distinguishes_complexTriggers
    · exact Or.inl distinguishes_excessiveJobs

end Rules

end PipelineAudit
