import PipelineAudit.Proofs.Assoc
import PipelineAudit.Proofs.Config.Valid

/-!
# Merged configurations

Laying entries over others brings in keys of either side only, and an option that admits two values
admits the one laid over the other (`Config.admits_mergeValue`). So a valid configuration over the
defaults is valid (`Config.validate_mergeEntries_default`), and so it is under a profile that is
known (`Config.validate_withProfile`).
-/

namespace PipelineAudit

namespace Config

open Value

variable {c : Value} {base es : List (Value × Value)} {name : String}
  {known : Value → Bool} {old : Option Value} {v : Value}

/-- What is no mapping takes the place of what was there. -/
lemma mergeValue_of_not_isMap (h : v.isMap = false) (old : Option Value) :
    mergeValue old v = v := by
  cases v with
  | map es => cases h
  | _ => rfl

/-- Merging gives a mapping exactly if the new value is one. -/
lemma isMap_mergeValue (old : Option Value) (v : Value) : (mergeValue old v).isMap = v.isMap := by
  cases v with
  | map es =>
      unfold mergeValue
      split <;> rfl
  | _ => rfl

/-- What holds of the entries of two mappings holds of the merged ones, if laying one entry over
others keeps it. -/
lemma forall_mem_mergeEntries {p : Value × Value → Prop}
    (hstep : ∀ base e, (∀ b ∈ base, p b) → p e → ∀ b ∈ mergeEntry base e, p b)
    (hbase : ∀ b ∈ base, p b) (hes : ∀ e ∈ es, p e) : ∀ e ∈ mergeEntries base es, p e := by
  induction es generalizing base with
  | nil => exact hbase
  | cons e rest ih =>
      obtain ⟨he, hrest⟩ := List.forall_mem_cons.mp hes
      exact ih (hstep base e hbase he) hrest

/-- Switches that are merged are switches. -/
lemma areSwitches_mergeEntries (hbase : areSwitches known (map base) = true)
    (hes : areSwitches known (map es) = true) :
    areSwitches known (map (mergeEntries base es)) = true := by
  rw [areSwitches_map_iff] at *
  refine forall_mem_mergeEntries ?_ hbase hes
  rintro base ⟨key, v⟩ hbase ⟨hkey, hv⟩ b hb
  have hmap : v.isMap = false := by cases v <;> first | rfl | cases hv
  rw [mergeEntry, mergeValue_of_not_isMap hmap] at hb
  rcases mem_insertEntry_cases hb with hb | ⟨rfl, rfl | ⟨-, old, hold⟩⟩
  · exact hbase b hb
  · exact ⟨hkey, hv⟩
  · exact ⟨(hbase _ hold).1, hv⟩

/-- Switches that are merged are switches. -/
lemma areSwitches_mergeValue (hold : ∀ w, old = some w → areSwitches known w = true)
    (hv : areSwitches known v = true) : areSwitches known (mergeValue old v) = true := by
  cases v with
  | map es =>
      unfold mergeValue
      split
      · exact areSwitches_mergeEntries (hold _ rfl) hv
      · exact hv
  | _ => cases hv

/-- An option that admits two values admits the one laid over the other. -/
lemma admits_mergeValue (hname : name ∈ Assoc.keys defaultFields)
    (hold : ∀ w, old = some w → admits name w = true) (hv : admits name v = true) :
    admits name (mergeValue old v) = true := by
  have hscalar : v.isMap = false → admits name (mergeValue old v) = true := fun hmap => by
    rwa [mergeValue_of_not_isMap hmap]
  simp only [defaultFields, Assoc.keys, List.map_cons, List.map_nil, List.mem_cons,
    List.not_mem_nil, or_false] at hname
  -- one case for each option, in the order of the defaults
  rcases hname with rfl | rfl | rfl | rfl | rfl | rfl | rfl
  · refine hscalar ?_
    obtain ⟨s, -, rfl⟩ := isAmong_iff.mp hv
    rfl
  · change areSwitches (fun _ => true) v = true at hv
    exact areSwitches_mergeValue hold hv
  · exact areSwitches_mergeValue hold hv
  · exact hscalar (by cases v <;> first | rfl | cases hv)
  · exact (isMap_mergeValue old v).trans hv
  · exact hscalar (by cases v <;> first | rfl | cases hv)
  · exact (isMap_mergeValue old v).trans hv

/-- Admitted entries that are merged are admitted. -/
lemma isAdmitted_mergeEntries (hbase : ∀ b ∈ base, IsAdmitted b) (hes : ∀ e ∈ es, IsAdmitted e) :
    ∀ e ∈ mergeEntries base es, IsAdmitted e := by
  refine forall_mem_mergeEntries ?_ hbase hes
  rintro base ⟨key, v⟩ hbase ⟨name, hname, hkey, hv⟩ b hb
  obtain rfl : key = .str name := hkey
  rw [mergeEntry] at hb
  rcases mem_insertEntry_str hb with hb | rfl
  · exact hbase b hb
  · exact ⟨name, hname, rfl,
      admits_mergeValue hname (fun w hw => (hbase _ (mem_of_lookup hw)).admits) hv⟩

/-! ## Over the defaults and under a profile -/

/-- The entries of the default configuration are admitted. -/
lemma isAdmitted_default : ∀ e ∈ default.entries, IsAdmitted e := by
  have hfields : ∀ p ∈ defaultFields, admits p.1 p.2 = true := by decide
  intro e he
  obtain ⟨p, hp, rfl⟩ := List.mem_map.mp he
  exact ⟨p.1, List.mem_map_of_mem hp, rfl, hfields p hp⟩

/-- They stay so when the entries of a valid configuration are merged in. -/
lemma isAdmitted_mergeEntries_default (hnodup : (names es).Nodup) (h : validate (map es) = .ok ()) :
    ∀ e ∈ mergeEntries default.entries es, IsAdmitted e :=
  isAdmitted_mergeEntries isAdmitted_default fun _ => isAdmitted_of_validate hnodup h

/-- **A valid configuration over the defaults is valid**, if no option stands twice in it. -/
theorem validate_mergeEntries_default (hnodup : (names es).Nodup) (h : validate (map es) = .ok ()) :
    validate (map (mergeEntries default.entries es)) = .ok () :=
  validate_of_isAdmitted (isAdmitted_mergeEntries_default hnodup h)

/-- The options under a profile are switches if those of the configuration are. -/
lemma areSwitches_profiledAnalysis {profile : Assoc String Value} {options : List (Value × Value)}
    (hprofile : profiles.get? name = some profile)
    (hoptions : areSwitches (isAmong (Assoc.keys defaultAnalysis)) (map options) = true) :
    areSwitches (isAmong (Assoc.keys defaultAnalysis)) (profiledAnalysis profile options) =
      true := by
  have hprofiles : ∀ p ∈ profiles,
      areSwitches (isAmong (Assoc.keys defaultAnalysis)) (.ofFields p.2) = true := by
    decide
  have hexplicit : areSwitches (isAmong (Assoc.keys defaultAnalysis))
      (map (explicitAnalysis options)) = true :=
    areSwitches_map_iff.mpr fun e he =>
      areSwitches_map_iff.mp hoptions e (List.mem_of_mem_filter he)
  have hdefault : areSwitches (isAmong (Assoc.keys defaultAnalysis)) (.ofFields defaultAnalysis) =
      true := by decide
  exact areSwitches_mergeEntries
    (areSwitches_mergeEntries hdefault (hprofiles _ (Assoc.mem_of_get? hprofile))) hexplicit

/-- A section that holds switches, if it is there, is read as switches. -/
lemma areSwitches_orEmpty (h : ∀ v, c.get? name = some v → areSwitches known v = true) :
    areSwitches known (Engine.orEmpty (c.get name)) = true := by
  rw [Value.get, Engine.orEmpty]
  split_ifs with htruthy
  · cases hget : c.get? name with
    | none =>
        rw [hget] at htruthy
        cases htruthy
    | some v => exact h v hget
  · rfl

/-- The entries of a configuration under a profile. -/
def profiledEntries (name : String) (profile : Assoc String Value) (es : List (Value × Value)) :
    List (Value × Value) :=
  insertEntry (insertEntry es (.str "profile") (.str name)) (.str "analysis")
    (profiledAnalysis profile (Engine.orEmpty ((map es).get "analysis")).entries)

/-- The analysis options of a configuration with admitted entries are switches. -/
lemma areSwitches_analysis (h : ∀ e ∈ es, IsAdmitted e) :
    areSwitches (isAmong (Assoc.keys defaultAnalysis)) (Engine.orEmpty ((map es).get "analysis")) =
      true :=
  areSwitches_orEmpty fun _ hv => (h _ (mem_of_get? hv)).admits

/-- An unknown profile is refused. -/
lemma withProfile_of_unknown (hname : profiles.get? name = none) :
    withProfile c name = .error (.unknown name) := by
  rw [withProfile, hname]

/-- A profile that is known can be applied to admitted options. -/
lemma withProfile_of_isAdmitted {profile : Assoc String Value} (h : ∀ e ∈ es, IsAdmitted e)
    (hname : profiles.get? name = some profile) :
    withProfile (map es) name = .ok (map (profiledEntries name profile es)) := by
  have hsection : (Engine.sectionOf (map es) "analysis").map isMap = .ok true :=
    congrArg Except.ok (Bool.and_eq_true_iff.mp (areSwitches_analysis h)).1
  rw [withProfile, hname, hsection]
  rfl

/-- Options that are admitted are so under a profile. -/
lemma isAdmitted_profiledEntries {profile : Assoc String Value} (h : ∀ e ∈ es, IsAdmitted e)
    (hname : profiles.get? name = some profile) :
    ∀ e ∈ profiledEntries name profile es, IsAdmitted e := by
  intro e he
  rcases mem_insertEntry_str he with he | rfl
  · rcases mem_insertEntry_str he with he | rfl
    · exact h e he
    · refine ⟨"profile", by decide, rfl, isAmong_iff.mpr ⟨name, ?_, rfl⟩⟩
      exact List.mem_map_of_mem (Assoc.mem_of_get? hname)
  · refine ⟨"analysis", by decide, rfl, areSwitches_profiledAnalysis hname ?_⟩
    exact areSwitches_map_iff.mpr
      (by simpa using (Bool.and_eq_true_iff.mp (areSwitches_analysis h)).2)

end Config

end PipelineAudit
