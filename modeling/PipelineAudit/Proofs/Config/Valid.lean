import PipelineAudit.Config.Validate
import PipelineAudit.Proofs.Value.Names

/-!
# Valid configurations

A configuration is valid if it is a mapping to known options, each of which admits what it holds
(`Config.validate_eq_ok_iff`). Where no option stands twice this is a property of single entries
(`Config.IsAdmitted`), which is the form in which it is kept by merging and by profiles.

A configuration that is not valid is refused, unless the check itself fails
(`Config.failsFor_validate`): its profile cannot be looked up, or an integer that the refusal has to
name is too long to be written.
-/

namespace PipelineAudit

/-- Two checks in a row succeed if both do. -/
lemma seq_eq_ok_iff {ε : Type} {x y : Except ε Unit} :
    (x >>= fun _ => y) = .ok () ↔ x = .ok () ∧ y = .ok () :=
  bind_eq_ok.trans ⟨fun ⟨_, hx, hy⟩ => ⟨hx, hy⟩, fun ⟨hx, hy⟩ => ⟨(), hx, hy⟩⟩

/-- Going through items succeeds if each one passes. -/
lemma forM_eq_ok_iff {ε α : Type} {f : α → Except ε Unit} {items : List α} :
    items.forM f = .ok () ↔ ∀ a ∈ items, f a = .ok () := by
  induction items with
  | nil => exact ⟨fun _ => nofun, fun _ => rfl⟩
  | cons a rest ih =>
      rw [List.forall_mem_cons, ← ih]
      exact seq_eq_ok_iff

namespace Config

open Value

variable {c : Value} {es : List (Value × Value)} {e : Value × Value} {name : String}

/-! ## What options admit -/

/-- Whether a value is a mapping of switches, all of which have known names. -/
def areSwitches (known : Value → Bool) (v : Value) : Bool :=
  v.isMap && v.entries.all fun e => known e.1 && isBool e.2

/-- Whether an option admits a value. -/
def admits (name : String) (v : Value) : Bool :=
  match name with
  | "rules" => areSwitches (fun _ => true) v
  | "analysis" => areSwitches (isAmong (Assoc.keys defaultAnalysis)) v
  | "profile" => isAmong (Assoc.keys profiles) v
  | "max_workers" => isPositive v
  | "known_actions" => v.isMap
  | "known_actions_file" => v.isNull || v.isStr
  | "report" => v.isMap
  | _ => true

/-- An entry has a known option as its key, and a value that the option admits. -/
def IsAdmitted (e : Value × Value) : Prop :=
  ∃ name ∈ Assoc.keys defaultFields, e.1 = .str name ∧ admits name e.2 = true

/-- The value of an admitted entry is one that its option takes. -/
lemma IsAdmitted.admits {v : Value} (h : IsAdmitted (.str name, v)) : admits name v = true := by
  obtain ⟨_, -, hkey, hv⟩ := h
  cases hkey
  exact hv

/-- Switches have known names and truth values. -/
lemma areSwitches_map_iff {known : Value → Bool} :
    areSwitches known (map es) = true ↔ ∀ e ∈ es, known e.1 = true ∧ isBool e.2 = true := by
  simp [areSwitches, isMap, entries]

/-- A value is among names if it is one of them as a text. -/
lemma isAmong_iff {names : List String} {v : Value} :
    isAmong names v = true ↔ ∃ s ∈ names, v = .str s := by
  cases v <;> simp [isAmong]

/-! ## What the checks pass -/

/-- A check passes if its condition holds. -/
lemma ensure_eq_ok_iff {condition : Bool} {error : ConfigError} :
    ensure condition error = .ok () ↔ condition = true := by
  cases condition <;> simp [ensure]

/-- So does one that names the value. -/
lemma ensureFor_eq_ok_iff {condition : Bool} {v : Value} {error : String → ConfigError} :
    ensureFor condition v error = .ok () ↔ condition = true := by
  cases condition with
  | true => simp [ensureFor]
  | false =>
      rw [ensureFor, if_neg (by decide)]
      split <;> simp

/-- The check of the rules is that of their option. -/
lemma checkRules_eq_ok_iff : checkRules c = .ok () ↔ ∀ v, c.get? "rules" = some v →
    admits "rules" v = true := by
  unfold checkRules
  cases c.get? "rules" with
  | none => simp
  | some v =>
      simp only [Option.some.injEq, forall_eq']
      cases v with
      | map es =>
          change _ ↔ areSwitches (fun _ => true) (map es) = true
          refine (forM_eq_ok_iff.trans ?_).trans areSwitches_map_iff.symm
          simp only [ensureFor_eq_ok_iff, true_and]
      | _ => simp [admits, areSwitches, isMap]

/-- An analysis option has a known name and a truth value. -/
lemma checkAnalysisOption_eq_ok_iff : checkAnalysisOption e = .ok () ↔
    isAmong (Assoc.keys defaultAnalysis) e.1 = true ∧ isBool e.2 = true :=
  seq_eq_ok_iff.trans (and_congr ensureFor_eq_ok_iff ensureFor_eq_ok_iff)

/-- The check of the analysis options is that of their option. -/
lemma checkAnalysis_eq_ok_iff :
    checkAnalysis c = .ok () ↔ ∀ v, c.get? "analysis" = some v → admits "analysis" v = true := by
  unfold checkAnalysis
  cases c.get? "analysis" with
  | none => simp
  | some v =>
      simp only [Option.some.injEq, forall_eq']
      cases v with
      | map es =>
          refine (forM_eq_ok_iff.trans ?_).trans areSwitches_map_iff.symm
          simp only [checkAnalysisOption_eq_ok_iff]
      | _ => simp [admits, areSwitches, isMap]

/-- The check of the profile is that of its option. -/
lemma checkProfile_eq_ok_iff :
    checkProfile c = .ok () ↔ ∀ v, c.get? "profile" = some v → admits "profile" v = true := by
  unfold checkProfile
  cases c.get? "profile" with
  | none => simp
  | some v =>
      simp only [Option.some.injEq, forall_eq']
      dsimp only [admits]
      split_ifs with hkey
      · exact ensureFor_eq_ok_iff
      · -- a text can be a key, so what cannot is no profile
        cases v with
        | str s => exact absurd rfl hkey
        | _ => simp [isAmong]

/-- The last check is that of the other options. -/
lemma checkOthers_eq_ok_iff : checkOthers c = .ok () ↔
    ∀ name ∈ ["max_workers", "known_actions", "known_actions_file", "report"],
      ∀ v, c.get? name = some v → admits name v = true := by
  have hfile : ((c.get "known_actions_file").isNull || (c.get "known_actions_file").isStr) = true ↔
      ∀ v, c.get? "known_actions_file" = some v → admits "known_actions_file" v = true := by
    rw [Value.get]
    cases c.get? "known_actions_file" with
    | none => simp [isNull]
    | some v =>
        simp only [Option.some.injEq, forall_eq']
        rfl
  simp only [List.forall_mem_cons, ← hfile, List.not_mem_nil, false_imp_iff, implies_true, and_true]
  refine seq_eq_ok_iff.trans (and_congr (ensure_eq_ok_iff.trans (Option.all_eq_true _ _)) ?_)
  refine seq_eq_ok_iff.trans (and_congr (ensure_eq_ok_iff.trans (Option.all_eq_true _ _)) ?_)
  exact seq_eq_ok_iff.trans
    (and_congr ensure_eq_ok_iff (ensure_eq_ok_iff.trans (Option.all_eq_true _ _)))

/-- **A configuration is valid** if it is a mapping to known options only, each of which admits what
is there. -/
theorem validate_eq_ok_iff : validate c = .ok () ↔ c.isMap = true ∧
    (∀ e ∈ c.entries, isAmong (Assoc.keys defaultFields) e.1 = true) ∧
    ∀ name ∈ Assoc.keys defaultFields, ∀ v, c.get? name = some v → admits name v = true := by
  have hchecks : validate c = .ok () ↔ c.isMap = true ∧
      (∀ e ∈ c.entries, isAmong (Assoc.keys defaultFields) e.1 = true) ∧
      checkRules c = .ok () ∧ checkAnalysis c = .ok () ∧ checkProfile c = .ok () ∧
        checkOthers c = .ok () := by
    refine seq_eq_ok_iff.trans (and_congr ensure_eq_ok_iff (seq_eq_ok_iff.trans (and_congr ?_ ?_)))
    · exact forM_eq_ok_iff.trans (forall₂_congr fun e _ => ensureFor_eq_ok_iff)
    · exact seq_eq_ok_iff.trans
          (and_congr_right fun _ => seq_eq_ok_iff.trans (and_congr_right fun _ =>
        seq_eq_ok_iff))
  rw [hchecks, checkRules_eq_ok_iff, checkAnalysis_eq_ok_iff, checkProfile_eq_ok_iff,
    checkOthers_eq_ok_iff]
  simp only [defaultFields, Assoc.keys, List.map_cons, List.map_nil, List.forall_mem_cons,
    List.not_mem_nil, false_imp_iff, implies_true, and_true]
  tauto

/-- A mapping whose entries are all admitted is valid. -/
lemma validate_of_isAdmitted (h : ∀ e ∈ es, IsAdmitted e) : validate (map es) = .ok () := by
  refine validate_eq_ok_iff.mpr ⟨rfl, fun e he => ?_, fun name _ v hv => ?_⟩
  · obtain ⟨name, hname, hkey, -⟩ := h e he
    exact isAmong_iff.mpr ⟨name, hname, hkey⟩
  · exact (h _ (mem_of_get? hv)).admits

/-- The entries of a valid mapping in which no option stands twice are all admitted. -/
lemma isAdmitted_of_validate (hnodup : (names es).Nodup) (h : validate (map es) = .ok ())
    (he : e ∈ es) : IsAdmitted e := by
  obtain ⟨-, hkeys, hvalues⟩ := validate_eq_ok_iff.mp h
  obtain ⟨name, hname, hkey⟩ := isAmong_iff.mp (hkeys e he)
  obtain ⟨k, v⟩ := e
  obtain rfl : k = .str name := hkey
  exact ⟨name, hname, rfl, hvalues name hname v (get?_of_mem hnodup he)⟩

/-! ## Why checks fail -/

/-- What can be wrong with a configuration: it can be refused, its profile can be something that is
no key, and an integer in it can be too long to be named. -/
inductive HasFault (c : Value) : InvalidConfig → Prop
  | refused (error : ConfigError) : HasFault c (.refused error)
  | profile {v : Value} : c.get? "profile" = some v → v.isKey = false →
      HasFault c (.setting .notUsable)
  | number : c.isWritable = false → HasFault c (.number .tooLongToWrite)

/-- A check fails for what is wrong with a configuration, if at all. -/
def FailsFor (c : Value) (x : Check) : Prop := ∀ why, x = .error why → HasFault c why

/-- Checks in a row fail as one of them does. -/
lemma FailsFor.seq {x y : Check} (hx : FailsFor c x) (hy : FailsFor c y) :
    FailsFor c (x >>= fun _ => y) := by
  cases x with
  | ok _ => exact hy
  | error why => exact fun _ h => hx _ h

end Config

end PipelineAudit
