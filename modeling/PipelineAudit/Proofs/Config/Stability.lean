import PipelineAudit.Config.Store
import PipelineAudit.Proofs.Config.Overlay

/-!
# Configurations that are complete

What results from laying a mapping over another one has all that the other one offers, so that
laying it over that once more gives it again (`Config.Completes.mergeEntries_eq`). The analysis
options that a profile leaves are read under the same profile as what they are: those that differ
from the defaults are laid over the others again, and the others are as the profile has them
(`Config.profiledAnalysis_again`). So a configuration that was completed for a user stays what it
is, with the same profile or without one (`Config.isSettled_of_completed`).
-/

namespace PipelineAudit.Config

open Value

variable {base es : List (Value × Value)} {old : Option Value} {v w key k : Value}
    {e : Value × Value}
  {p : Value × Value → Bool}

/-! ## Laying over once more -/

/-- What a merged mapping has is what was below, or what was laid over it. -/
lemma mem_mergeEntries_cases (hbase : AreKeyed base) (hes : AreKeyed es)
    (h : e ∈ mergeEntries base es) : (lookup es e.1 = none ∧ lookup base e.1 = some e.2) ∨
      ∃ v, lookup es e.1 = some v ∧ e.2 = mergeValue (lookup base e.1) v := by
  have hfound := (areKeyed_mergeEntries hbase hes.isKey).lookup_of_mem h
  rw [lookup_mergeEntries hbase hes] at hfound
  cases hes' : lookup es e.1 with
  | none =>
      rw [hes'] at hfound
      exact Or.inl ⟨rfl, hfound⟩
  | some v =>
      rw [hes'] at hfound
      exact Or.inr ⟨v, rfl, (Option.some.inj hfound).symm⟩

/-- A merged value is keyed if both are. -/
lemma isKeyed_mergeValue (hold : ∀ w, old = some w → w.IsKeyed) (hv : v.IsKeyed) :
    (mergeValue old v).IsKeyed := by
  induction hv generalizing old with
  | other hmap => exact .other ((isMap_mergeValue old _).trans hmap)
  | @map es hkeys hvalues ih =>
      by_cases hmap : ∃ bs, old = some (map bs)
      · obtain ⟨bs, rfl⟩ := hmap
        have hbs := isKeyed_map_iff.mp (hold _ rfl)
        have hbelow : ∀ k w, lookup bs k = some w → w.IsKeyed :=
          fun k w => isKeyed_of_lookup (hold _ rfl)
        rw [mergeValue_map_map]
        refine .map (areKeyed_mergeEntries hbs.1 hkeys.isKey) fun e he => ?_
        rcases mem_mergeEntries_cases hbs.1 hkeys he with ⟨-, hw⟩ | ⟨v, hv, heq⟩
        · exact hbelow _ _ hw
        · obtain ⟨d, hd, rfl⟩ := exists_mem_of_lookup hv
          exact heq ▸ ih d hd (hbelow _)
      · rw [mergeValue_of_old (by simpa using hmap)]
        exact .map hkeys hvalues

/-- What is laid over something is made of mappings without repeats if both are. -/
lemma isKeyed_mergeEntries (hbase : (map base).IsKeyed) (hes : (map es).IsKeyed) :
    (map (mergeEntries base es)).IsKeyed := by
  rw [← mergeValue_map_map]
  exact isKeyed_mergeValue (fun _ hw => Option.some.inj hw ▸ hbase) hes

/-- A value laid over itself changes nothing. -/
lemma mergeValue_self (hv : v.IsKeyed) : mergeValue (some v) v = v := by
  have hagain : mergeValue (some (mergeValue none v)) v = mergeValue none v :=
    mergeValue_again nofun hv
  rwa [mergeValue_none] at hagain

/-- Entries have all that others offer: the keys in front, and under each key what is below it. -/
structure Completes (base es : List (Value × Value)) : Prop where
  isKeyed : (map es).IsKeyed
  keys : ∃ new, es.map Prod.fst = base.map Prod.fst ++ new ∧ ∀ key ∈ new, lookup base key = none
  values : ∀ e ∈ es, mergeValue (lookup base e.1) e.2 = e.2

/-- **Entries that have all that others offer** stay what they are when they are laid over them. -/
theorem Completes.mergeEntries_eq (hbase : AreKeyed base) (h : Completes base es) :
    mergeEntries base es = es := by
  obtain ⟨new, hkeys, hnew⟩ := h.keys
  have hes := (isKeyed_map_iff.mp h.isKeyed).1
  refine (hes.ext ?_ fun e he => ?_).symm
  · have hold : ∀ key ∈ base.map Prod.fst, ¬(lookup base key).isNone = true := by
      intro key hkey
      obtain ⟨b, hb, rfl⟩ := List.mem_map.mp hkey
      simp [hbase.lookup_of_mem hb]
    rw [map_fst_mergeEntries hbase hes, hkeys, List.filter_append, List.filter_eq_nil_iff.mpr hold,
      List.nil_append, List.filter_eq_self.mpr fun key hkey => by simp [hnew key hkey]]
  · rw [lookup_mergeEntries hbase hes, hes.lookup_of_mem he]
    exact congrArg some (h.values e he)

/-- Merged entries have all that is below, if each of the values laid over has it once it was
merged. -/
lemma completes_mergeEntries_of (hbase : (map base).IsKeyed) (hes : (map es).IsKeyed)
    (hvalues : ∀ e ∈ es, ∀ old, (∀ w, old = some w → w.IsKeyed) →
      mergeValue old (mergeValue old e.2) = mergeValue old e.2) : Completes base
        (mergeEntries base es) := by
  have hbase' := (isKeyed_map_iff.mp hbase).1
  have hes' := (isKeyed_map_iff.mp hes).1
  refine ⟨isKeyed_mergeEntries hbase hes, ⟨_, map_fst_mergeEntries hbase' hes', fun key hkey => ?_⟩,
    fun e he => ?_⟩
  · exact Option.isNone_iff_eq_none.mp (List.mem_filter.mp hkey).2
  · rcases mem_mergeEntries_cases hbase' hes' he with ⟨-, hw⟩ | ⟨v, hv, heq⟩
    · rw [hw, mergeValue_self (isKeyed_of_lookup hbase hw)]
    · obtain ⟨d, hd, rfl⟩ := exists_mem_of_lookup hv
      rw [heq]
      exact hvalues d hd _ fun w => isKeyed_of_lookup hbase

/-- What results from laying a value over another one has all that the other one offers. -/
lemma mergeValue_of_merged (hold : ∀ w, old = some w → w.IsKeyed) (hv : v.IsKeyed) :
    mergeValue old (mergeValue old v) = mergeValue old v := by
  induction hv generalizing old with
  | other hmap => rw [mergeValue_of_not_isMap hmap, mergeValue_of_not_isMap hmap]
  | @map es hkeys hvalues ih =>
      by_cases hmap : ∃ bs, old = some (map bs)
      · obtain ⟨bs, rfl⟩ := hmap
        have hbs := hold _ rfl
        have hcomplete := completes_mergeEntries_of hbs (.map hkeys hvalues) fun e he old hold =>
          ih e he hold
        rw [mergeValue_map_map, mergeValue_map_map,
          hcomplete.mergeEntries_eq (isKeyed_map_iff.mp hbs).1]
      · have hother : ∀ bs, old ≠ some (map bs) := by simpa using hmap
        rw [mergeValue_of_old hother, mergeValue_of_old hother]

/-- What results from laying entries over others has all that the others offer. -/
theorem completes_mergeEntries (hbase : (map base).IsKeyed) (hes : (map es).IsKeyed) :
    Completes base (mergeEntries base es) :=
  completes_mergeEntries_of hbase hes fun e he _ hold =>
    mergeValue_of_merged hold ((isKeyed_map_iff.mp hes).2 e he)

/-- Writing a value that has all that is below its key keeps entries complete. -/
lemma Completes.insertEntry (hbase : AreKeyed base) (h : Completes base es)
    (hkey : key.isKey = true) (hv : v.IsKeyed)
    (hvalue : mergeValue (lookup base key) v = v) : Completes base (insertEntry es key v) := by
  obtain ⟨hes, hvalues⟩ := isKeyed_map_iff.mp h.isKeyed
  refine ⟨.map (hes.insertEntry hkey v) fun e he => ?_, ?_, fun e he => ?_⟩
  · rcases mem_insertEntry_cases he with he | ⟨heq, -⟩
    · exact hvalues e he
    · exact heq ▸ hv
  · obtain ⟨new, hkeys, hnew⟩ := h.keys
    refine ⟨new ++ if (lookup es key).isNone then [key] else [], ?_, fun k hk => ?_⟩
    · rw [map_fst_insertEntry, hkeys, List.append_assoc]
    · rcases List.mem_append.mp hk with hk | hk
      · exact hnew k hk
      · split_ifs at hk with hnone
        · obtain rfl := List.mem_singleton.mp hk
          have hapart := lookup_eq_none_iff.mp (Option.isNone_iff_eq_none.mp hnone)
          refine lookup_eq_none_iff.mpr fun b hb => ?_
          have hmem : b.1 ∈ es.map Prod.fst :=
            hkeys ▸ List.mem_append_left new (List.mem_map_of_mem hb)
          obtain ⟨d, hd, heq⟩ := List.mem_map.mp hmem
          exact heq ▸ hapart d hd
        · cases hk
  · rcases mem_insertEntry_cases he with he | ⟨heq, hsame | ⟨hsame, old, hold⟩⟩
    · exact h.values e he
    · rw [heq, hsame, hvalue]
    · rw [heq, lookup_congr hbase.isKey (hes.isKey _ hold) hkey hsame, hvalue]

/-! ## Under a profile -/

/-- Laying entries over others that have all their keys brings in no key. -/
lemma map_fst_mergeEntries_of_known (hbase : AreKeyed base) (hes : AreKeyed es)
    (h : ∀ e ∈ es, (lookup base e.1).isSome = true) :
    (mergeEntries base es).map Prod.fst = base.map Prod.fst := by
  have hold : ∀ key ∈ es.map Prod.fst, ¬(lookup base key).isNone = true := by
    intro key hkey
    obtain ⟨e, he, rfl⟩ := List.mem_map.mp hkey
    simp [Option.isSome_iff_ne_none.mp (h e he)]
  rw [map_fst_mergeEntries hbase hes, List.filter_eq_nil_iff.mpr hold, List.append_nil]

/-- Entries of which some are laid over others, if the rest is there already. -/
lemma mergeEntries_filter (hbase : AreKeyed base) (hkeys : es.map Prod.fst = base.map Prod.fst)
    (hscalar : ∀ e ∈ es, e.2.isMap = false)
    (hrest : ∀ e ∈ es, p e = false → lookup base e.1 = some e.2) :
    mergeEntries base (es.filter p) = es := by
  have hes : AreKeyed es := hbase.of_map_fst_eq hkeys.symm
  have hknown : ∀ e ∈ es.filter p, (lookup base e.1).isSome = true := fun e he => by
    rw [← isSome_lookup_congr hkeys, hes.lookup_of_mem (List.mem_of_mem_filter he),
      Option.isSome_some]
  refine (hes.ext ?_ fun e he => ?_).symm
  · rw [map_fst_mergeEntries_of_known hbase (hes.filter p) hknown, hkeys]
  · rw [lookup_mergeEntries hbase (hes.filter p), hes.lookup_filter_of_mem p he]
    split_ifs with hp
    · exact congrArg some (mergeValue_of_not_isMap (hscalar e he) _)
    · exact hrest e he (Bool.eq_false_iff.mpr hp)

/-- The analysis options with their defaults, as entries. -/
def analysisEntries : List (Value × Value) := (ofFields defaultAnalysis).entries

/-- The analysis options of the defaults do not repeat. -/
lemma areKeyed_analysisEntries : AreKeyed analysisEntries := areKeyed_ofFields (by decide)

/-- Switches of the analysis: known options only, and none of them twice. -/
def AreOptions (es : List (Value × Value)) : Prop :=
  AreKeyed es ∧ areSwitches (isAmong (Assoc.keys defaultAnalysis)) (map es) = true

namespace AreOptions

/-- An option is a truth value. -/
lemma isBool (h : AreOptions es) (he : e ∈ es) : Config.isBool e.2 = true :=
  (areSwitches_map_iff.mp h.2 e he).2

/-- So it is no mapping. -/
lemma isMap (h : AreOptions es) (he : e ∈ es) : e.2.isMap = false := by
  have hbool := h.isBool he
  cases hvalue : e.2 <;> first | rfl | (rw [hvalue] at hbool; cases hbool)

/-- It has the name of one. -/
lemma exists_name (h : AreOptions es) (he : e ∈ es) :
    ∃ name ∈ Assoc.keys defaultAnalysis, e.1 = .str name :=
  isAmong_iff.mp (areSwitches_map_iff.mp h.2 e he).1

/-- The defaults have it. -/
lemma isSome_lookup (h : AreOptions es) (he : e ∈ es) :
    (lookup analysisEntries e.1).isSome = true := by
  obtain ⟨name, hname, hkey⟩ := h.exists_name he
  rw [hkey]
  exact isSome_lookup_ofFields hname

/-- Options are a mapping without repeats. -/
lemma isKeyed (h : AreOptions es) : (map es).IsKeyed := .map h.1 fun _ he => .other (h.isMap he)

/-- Some of the options are options. -/
lemma filter (h : AreOptions es) (p : Value × Value → Bool) : AreOptions (es.filter p) :=
  ⟨h.1.filter p,
    areSwitches_map_iff.mpr fun e he => areSwitches_map_iff.mp h.2 e (List.mem_of_mem_filter he)⟩

/-- Options that are laid over others are options. -/
lemma mergeEntries (hbase : AreOptions base) (hes : AreOptions es) :
    AreOptions (mergeEntries base es) :=
  ⟨areKeyed_mergeEntries hbase.1 hes.1.isKey, areSwitches_mergeEntries hbase.2 hes.2⟩

/-- Options of the analysis that are laid over all of them change their values only. -/
lemma map_fst_mergeEntries (hbase : AreOptions base) (hes : AreOptions es)
    (hkeys : base.map Prod.fst = analysisEntries.map Prod.fst) :
    (Config.mergeEntries base es).map Prod.fst = analysisEntries.map Prod.fst := by
  refine (map_fst_mergeEntries_of_known hbase.1 hes.1 fun e he => ?_).trans hkeys
  rw [isSome_lookup_congr hkeys]
  exact hes.isSome_lookup he

end AreOptions

/-- The defaults are options. -/
lemma areOptions_analysisEntries : AreOptions analysisEntries :=
  ⟨areKeyed_analysisEntries, by decide⟩

/-- So are the settings of a profile. -/
lemma areOptions_of_profile {name : String} {profile : Assoc String Value}
    (h : profiles.get? name = some profile) : AreOptions (ofFields profile).entries := by
  have hprofiles : ∀ p ∈ profiles, p.2.keys.Nodup ∧
      areSwitches (isAmong (Assoc.keys defaultAnalysis)) (.ofFields p.2) = true := by decide
  obtain ⟨hkeys, hswitches⟩ := hprofiles _ (Assoc.mem_of_get? h)
  exact ⟨areKeyed_ofFields hkeys, hswitches⟩

/-- **Under the same profile, the analysis options stay what they are**: all options in the order of
the defaults, of which those that differ from the defaults are laid over the others once more. -/
theorem profiledAnalysis_again {name : String} {profile : Assoc String Value}
    {options : List (Value × Value)} (hprofile : profiles.get? name = some profile)
    (hoptions : AreOptions options) :
    ∃ es, profiledAnalysis profile options = map es ∧ AreOptions es ∧ Completes analysisEntries es ∧
      profiledAnalysis profile es = map es := by
  have hknown := areOptions_analysisEntries.mergeEntries (areOptions_of_profile hprofile)
  have hkeys := areOptions_analysisEntries.map_fst_mergeEntries (areOptions_of_profile hprofile) rfl
  have hexplicit : AreOptions (explicitAnalysis options) := hoptions.filter _
  have hes := hknown.mergeEntries hexplicit
  have heskeys := hknown.map_fst_mergeEntries hexplicit hkeys
  refine ⟨_, rfl, hes, ⟨hes.isKeyed, ⟨[], heskeys.trans (List.append_nil _).symm, nofun⟩,
    fun e he => mergeValue_of_not_isMap (hes.isMap he) _⟩, ?_⟩
  refine congrArg map
    (mergeEntries_filter hknown.1 (heskeys.trans hkeys.symm) (fun e he => hes.isMap he) ?_)
  intro e he hdefault
  rcases mem_mergeEntries_cases hknown.1 hexplicit.1 he with ⟨-, hw⟩ | ⟨v, hv, heq⟩
  · exact hw
  · -- what was laid over differs from the default, so that it is laid over again
    obtain ⟨s, -, hkey⟩ := hes.exists_name he
    have hmem : (e.1, v) ∈ explicitAnalysis options := by
      rw [hkey] at hv ⊢
      exact mem_of_lookup hv
    have hvalue : e.2 = v := heq.trans (mergeValue_of_not_isMap (hexplicit.isMap hmem) _)
    have hdiffers := (List.mem_filter.mp hmem).2
    rw [← hvalue, hdefault] at hdiffers
    cases hdiffers

/-! ## Whole configurations -/

/-- The configuration of a user over the defaults, and under the profile that is asked for. -/
def completed (user : Value) (profile : Option String) : Except ProfileFault Value :=
  let config := Value.map (mergeEntries default.entries user.entries)
  match selectedProfile? config profile with
  | some name => withProfile config name
  | none => .ok config

/-- A configuration is valid, and it is complete: with no profile or the given one nothing changes
in it. -/
structure IsSettled (profile : Option String) (c : Value) : Prop where
  valid : validate c = .ok ()
  alone : completed c none = .ok c
  again : completed c profile = .ok c

variable {name : String} {profile : Option String} {settings : Assoc String Value}

/-- The profile that is selected is the one asked for, or else the one that is written. -/
lemma selectedProfile?_of_get? {c : Value} (h : c.get? "profile" = some (.str name))
    (profile : Option String) : selectedProfile? c profile =
      (profile.bind nonEmpty?).or (if name = defaultProfile then none else some name) := by
  rw [selectedProfile?, h]
  cases profile.bind nonEmpty? with
  | some _ => rfl
  | none => simp [display]

/-- Of complete entries only the profile is still to be applied. -/
lemma completed_of_completes (h : Completes default.entries es) (profile : Option String) :
    completed (map es) profile = match selectedProfile? (map es) profile with
      | some name => withProfile (map es) name
      | none => .ok (map es) := by
  have hsame : mergeEntries default.entries (map es).entries = es :=
    h.mergeEntries_eq (isKeyed_map_iff.mp isKeyed_default).1
  rw [completed, hsame]

/-- What has a default is there over the defaults. -/
lemma exists_get?_of_completes (hname : name ∈ Assoc.keys defaultFields)
    (h : Completes default.entries es) : ∃ v, (map es).get? name = some v := by
  obtain ⟨new, hkeys, -⟩ := h.keys
  have hmem : .str name ∈ es.map Prod.fst := by
    rw [hkeys]
    obtain ⟨p, hp, rfl⟩ := List.mem_map.mp hname
    exact List.mem_append_left new (List.mem_map_of_mem (List.mem_map_of_mem hp))
  obtain ⟨⟨k, v⟩, he, hkey⟩ := List.mem_map.mp hmem
  obtain rfl : k = .str name := hkey
  exact ⟨v, (get?_eq_lookup es name).trans ((isKeyed_map_iff.mp h.isKeyed).1.lookup_of_mem he)⟩

/-- The analysis options of a configuration are options, none of them twice. -/
lemma areOptions_analysis (hkeyed : (map es).IsKeyed) (h : ∀ e ∈ es, IsAdmitted e) :
    AreOptions (Engine.orEmpty ((map es).get "analysis")).entries := by
  have hswitches := areSwitches_analysis h
  obtain ⟨options, hoptions⟩ := exists_of_isMap (Bool.and_eq_true_iff.mp hswitches).1
  refine ⟨?_, by rwa [hoptions] at hswitches ⊢⟩
  rw [Engine.orEmpty, Value.get, get?_eq_lookup]
  split_ifs with htruthy
  · cases hfound : lookup es (.str "analysis") with
    | none => exact areKeyed_nil
    | some v =>
        cases isKeyed_of_lookup hkeyed hfound with
        | other hmap => exact entries_of_not_isMap hmap ▸ areKeyed_nil
        | map hkeys _ => exact hkeys
  · exact areKeyed_nil

/-- A mapping has its entries, also where it counts as false. -/
lemma entries_orEmpty_map (es : List (Value × Value)) : (Engine.orEmpty (map es)).entries = es := by
  cases es <;> rfl

/-- A configuration over the defaults is complete under a profile, and applying the profile again
changes nothing. -/
lemma completes_profiledEntries (h : Completes default.entries es) (hes : ∀ e ∈ es, IsAdmitted e)
    (hname : profiles.get? name = some settings) :
    Completes default.entries (profiledEntries name settings es) ∧
      (map (profiledEntries name settings es)).get? "profile" = some (.str name) ∧
      withProfile (map (profiledEntries name settings es)) name =
        .ok (map (profiledEntries name settings es)) := by
  have hdefault := (isKeyed_map_iff.mp isKeyed_default).1
  obtain ⟨options, hoptions, hare, hcomplete, hagain⟩ :=
    profiledAnalysis_again hname (areOptions_analysis h.isKeyed hes)
  have hanalysis : mergeValue (lookup default.entries (.str "analysis")) (map options) =
      map options := by
    change map (mergeEntries analysisEntries options) = map options
    rw [hcomplete.mergeEntries_eq areKeyed_analysisEntries]
  have hnamed : Completes default.entries (insertEntry es (.str "profile") (.str name)) :=
    h.insertEntry hdefault rfl (.other rfl) rfl
  have hall : Completes default.entries (profiledEntries name settings es) := by
    rw [profiledEntries, hoptions]
    exact hnamed.insertEntry hdefault rfl hare.isKeyed hanalysis
  have hprofile : lookup (profiledEntries name settings es) (.str "profile") =
      some (.str name) := by
    rw [profiledEntries, lookup_insertEntry (isKeyed_map_iff.mp hnamed.isKeyed).1.isKey rfl rfl,
      if_neg (by decide), lookup_insertEntry (isKeyed_map_iff.mp h.isKeyed).1.isKey rfl rfl,
      if_pos (by decide)]
  have hsection : (map (profiledEntries name settings es)).get? "analysis" =
      some (map options) := by
    rw [profiledEntries, hoptions]
    exact get?_insertEntry _ _ _
  refine ⟨hall, (get?_eq_lookup _ _).trans hprofile, ?_⟩
  rw [withProfile_of_isAdmitted (isAdmitted_profiledEntries hes hname) hname]
  -- both entries that the profile writes are there
  refine congrArg (Except.ok ∘ map) ?_
  rw [profiledEntries, insertEntry_of_lookup hprofile, Value.get, hsection, Option.getD_some,
    entries_orEmpty_map, hagain, insertEntry_of_lookup ((get?_eq_lookup _ _).symm.trans hsection)]

/-- Entries under a profile are settled. -/
lemma isSettled_profiledEntries (h : Completes default.entries es) (hes : ∀ e ∈ es, IsAdmitted e)
    (hname : profiles.get? name = some settings)
    (hasked : ∀ other, profile.bind nonEmpty? = some other → other = name) :
    IsSettled profile (map (profiledEntries name settings es)) := by
  obtain ⟨hcomplete, hprofile, hagain⟩ := completes_profiledEntries h hes hname
  have hstays : ∀ p : Option String, (∀ other, p.bind nonEmpty? = some other → other = name) →
      completed (map (profiledEntries name settings es)) p =
        .ok (map (profiledEntries name settings es)) := by
    intro p hp
    rw [completed_of_completes hcomplete, selectedProfile?_of_get? hprofile]
    cases hother : p.bind nonEmpty? with
    | none =>
        rw [Option.none_or]
        split_ifs with hdefault
        · rfl
        · exact hagain
    | some other =>
        obtain rfl := hp other hother
        exact hagain
  exact ⟨validate_of_isAdmitted (isAdmitted_profiledEntries hes hname), hstays none nofun,
    hstays profile hasked⟩

/-- **A configuration that is completed for a user is settled**, unless the profile that was asked
for is unknown. -/
theorem isSettled_of_completed {user : Value} (huser : user.IsKeyed)
    (hvalid : validate user = .ok ())
    (hadmitted : ∀ e ∈ mergeEntries default.entries user.entries, IsAdmitted e)
    (profile : Option String) : (∃ name, profile = some name ∧ profiles.get? name = none ∧
        completed user profile = .error (.unknown name)) ∨
      ∃ c, completed user profile = .ok c ∧ IsSettled profile c := by
  obtain ⟨us, rfl⟩ := exists_of_isMap (validate_eq_ok_iff.mp hvalid).1
  have hcomplete : Completes default.entries (mergeEntries default.entries us) :=
    completes_mergeEntries isKeyed_default huser
  have hcompleted : completed (map us) profile =
      completed (map (mergeEntries default.entries us)) profile := by
    rw [completed_of_completes hcomplete]
    rfl
  change ∀ e ∈ mergeEntries default.entries us, IsAdmitted e at hadmitted
  rw [hcompleted]
  generalize mergeEntries default.entries us = es at *
  have hprofile : "profile" ∈ Assoc.keys defaultFields := by decide
  obtain ⟨v, hv⟩ := exists_get?_of_completes hprofile hcomplete
  obtain ⟨own, hown, rfl⟩ := isAmong_iff.mp (hadmitted _ (mem_of_get? hv)).admits
  rw [completed_of_completes hcomplete, selectedProfile?_of_get? hv]
  cases hasked : profile.bind nonEmpty? with
  | some name =>
      obtain ⟨given, rfl, hgiven⟩ := Option.bind_eq_some_iff.mp hasked
      obtain rfl : given = name := by
        rw [nonEmpty?] at hgiven
        split_ifs at hgiven
        exact Option.some.inj hgiven
      cases hname : profiles.get? given with
      | none => exact Or.inl ⟨given, rfl, hname, withProfile_of_unknown hname⟩
      | some settings =>
          refine Or.inr ⟨_, withProfile_of_isAdmitted hadmitted hname, ?_⟩
          exact isSettled_profiledEntries hcomplete hadmitted hname fun other hother =>
            Option.some.inj (hother.symm.trans hasked)
  | none =>
      refine Or.inr ?_
      have hstays : ∀ other, profile.bind nonEmpty? = some other → other = own :=
        fun other hother => by
        rw [hasked] at hother
        cases hother
      by_cases hdefault : own = defaultProfile
      · rw [Option.none_or, if_pos hdefault]
        have halone : ∀ p : Option String, p.bind nonEmpty? = none →
            completed (map es) p = .ok (map es) := by
          intro p hp
          rw [completed_of_completes hcomplete, selectedProfile?_of_get? hv, hp, Option.none_or,
            if_pos hdefault]
        exact ⟨_, rfl, validate_of_isAdmitted hadmitted, halone none rfl, halone profile hasked⟩
      · obtain ⟨settings, hname⟩ : ∃ settings, profiles.get? own = some settings := by
          have hknown : ∀ name ∈ Assoc.keys profiles, (profiles.get? name).isSome = true := by
            decide
          exact Option.isSome_iff_exists.mp (hknown own hown)
        rw [Option.none_or, if_neg hdefault]
        exact ⟨_, withProfile_of_isAdmitted hadmitted hname,
          isSettled_profiledEntries hcomplete hadmitted hname hstays⟩

end PipelineAudit.Config
