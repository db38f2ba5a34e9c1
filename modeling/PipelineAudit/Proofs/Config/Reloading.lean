import PipelineAudit.Proofs.Config.Load
import PipelineAudit.Proofs.Config.Stability
import PipelineAudit.Proofs.FileTree
import PipelineAudit.Proofs.Yaml.Keyed

/-!
# Loading a loaded configuration

What is loaded from a valid configuration file is the configuration of the user over the defaults
and under the profile that was asked for (`Config.yields_load_of_holds`). That one is complete: a
file that holds it is loaded as what it is, without a profile or with the same one again, and so is
the file that it is saved in, if that is read as what was written (`Config.isKept_of_load`).
-/

namespace PipelineAudit.Config

open Work

variable {t t' : FileTree} {path profile : Option String} {file out : String} {bytes : List UInt8}
    {user c : Value}

/-! ## Loading from a file with a valid configuration -/

/-- The configuration file has a value as its content. -/
def Holds (t : FileTree) (path : Option String) (v : Value) : Prop :=
  ∃ file bytes, t.configFile? path = some file ∧ t.read file = .ok bytes ∧ valueOf bytes = .ok v

/-- A file that holds a valid configuration is read as it. -/
lemma yields_readFile_of_valid (hread : t.read file = .ok bytes) (hv : valueOf bytes = .ok user)
    (hvalid : validate user = .ok ()) : Yields t (readFile plainReader file) (.ok user) := by
  have hdata := yields_readData_of_ok hread
  rw [hv] at hdata
  refine hdata.tryCatch_ok.bind_ok ?_
  change Yields t (if user.truthy then do ensureValid user; return user else return .map []) _
  split_ifs with htruthy
  · have hcheck := yields_ensureValid (t := t) user
    rw [hvalid] at hcheck
    exact hcheck.bind_ok (yields_pure user)
  · obtain ⟨us, rfl⟩ := Value.exists_of_isMap (validate_eq_ok_iff.mp hvalid).1
    obtain rfl : us = [] := by simpa [Value.truthy] using htruthy
    exact yields_pure _

/-- So is the configuration file. -/
lemma yields_readUser_of_holds (h : Holds t path user) (hvalid : validate user = .ok ()) :
    Yields t (readUser plainReader path) (.ok user) := by
  obtain ⟨file, bytes, hfile, hread, hv⟩ := h
  have huser := yields_readFile_of_valid hread hv hvalid
  unfold readUser
  unfold FileTree.configFile? at hfile
  cases hpath : path.bind nonEmpty? with
  | some given =>
      rw [hpath] at hfile
      dsimp only at hfile ⊢
      split_ifs at hfile with hkind
      obtain rfl : given = file := Option.some.inj hfile
      refine (yields_kind? given).bind_ok ?_
      rw [if_pos hkind]
      exact huser
  | none =>
      rw [hpath] at hfile
      dsimp only at hfile ⊢
      refine yields_paths.bind_ok ((yields_firstExisting? _).bind_ok ?_)
      rw [hfile]
      exact huser.bind_ok ((yields_note _).bind_ok (yields_pure user))

/-- How work fails for a profile that cannot be applied. -/
def profileFailure : ProfileFault → Failure
  | .unknown name => .config (.unknownProfile name)
  | .setting fault => .setting fault

/-- A profile yields what comes of it. -/
lemma yields_ofProfile (r : Except ProfileFault Value) :
    Yields t (ofProfile r) (r.mapError profileFailure) := by
  cases r with
  | ok config => exact yields_pure config
  | error why => cases why <;> exact yields_throw _

/-- What is loaded from a valid configuration file. -/
theorem yields_load_of_holds (h : Holds t path user) (hvalid : validate user = .ok ())
    (profile : Option String) :
    Yields t (load path profile) ((completed user profile).mapError profileFailure) := by
  refine (yields_readUser_of_holds h hvalid).bind_ok ?_
  rw [completed]
  dsimp only
  cases selectedProfile? (.map (mergeEntries default.entries user.entries)) profile with
  | some name => exact yields_ofProfile _
  | none => exact yields_pure _

/-! ## Saving -/

/-- Saving a configuration inside the working directory leaves a file with its text. -/
lemma read_of_save {a : Anchored} (h : Leaves t (save a out) (.ok ()) t')
    (hinside : t.IsInside out) :
    t'.kind? out = some .file ∧ t'.read out = .ok (Yaml.Printer.print a).toUTF8.toList ∧
      out.isEmpty = false := by
  rw [save] at h
  split_ifs at h with hwritable
  · have hwrite := h.of_tryCatch fun why => by cases why <;> exact ⟨_, rfl⟩
    obtain ⟨_, t₁, hparents, hwrite⟩ := hwrite.of_bind
    have hmade : t.makeParents out = _ :=
      (FileTree.run_makeParents t out).symm.trans hparents.of_ofFile
    have hwritten :=
      FileTree.eq_ok_of_change ((FileTree.run_write _ _ _).symm.trans hwrite.of_ofFile)
    have hinside' := hinside.makeParents out
    rw [hmade] at hinside'
    obtain ⟨hkind, hread⟩ := FileTree.read_of_write hwritten hinside'
    exact ⟨hkind, hread, FileTree.isEmpty_of_write hwritten⟩
  · obtain ⟨_, _, -, h⟩ := h.of_bind
    exact absurd h not_leaves_throw

/-- A configuration is loaded from a file, without a profile and with a given one. -/
def IsLoaded (t : FileTree) (path profile : Option String) (c : Value) : Prop :=
  Yields t (load path none) (.ok c) ∧ Yields t (load path profile) (.ok c)

/-- A configuration is valid and is loaded as what it is. -/
structure IsKept (profile : Option String) (c : Value) : Prop where
  valid : validate c = .ok ()
  /-- From a file that holds it. -/
  held : ∀ t path, Holds t path c → IsLoaded t path profile c
  /-- From a file in which it was saved, whatever parts of it are shared, if its text is read as
  what it is. -/
  saved : ∀ (a : Anchored) t out t', a.value = c →
  valueOf (Yaml.Printer.print a).toUTF8.toList = .ok c →
    t.IsInside out → Leaves t (save a out) (.ok ()) t' → IsLoaded t' (some out) profile c

/-- A settled configuration is loaded again from a file that holds it. -/
lemma isLoaded_of_holds (hsettled : IsSettled profile c) (h : Holds t path c) :
    IsLoaded t path profile c := by
  have hnone := yields_load_of_holds h hsettled.valid none
  have hagain := yields_load_of_holds h hsettled.valid profile
  rw [hsettled.alone] at hnone
  rw [hsettled.again] at hagain
  exact ⟨hnone, hagain⟩

/-- **What is loaded from a file with a valid configuration** is kept from then on, unless the
profile that was asked for is unknown and therefore refused. -/
theorem isKept_of_load (h : Holds t path user) (hvalid : validate user = .ok ())
    (profile : Option String) : (∃ name, profile = some name ∧ profiles.get? name = none ∧
        Yields t (load path profile) (.error (.config (.unknownProfile name)))) ∨
      ∃ c, Yields t (load path profile) (.ok c) ∧ IsKept profile c := by
  have hload := yields_load_of_holds h hvalid profile
  obtain ⟨file, bytes, -, -, hv⟩ := h
  have hadmitted := isAdmitted_of_isUserConfig (isUserConfig_of_valueOf hv hvalid)
  rcases isSettled_of_completed (Yaml.isKeyed_of_load hv) hvalid hadmitted profile with
    ⟨name, hname, hunknown, hrefused⟩ | ⟨c, hc, hsettled⟩
  · rw [hrefused] at hload
    exact Or.inl ⟨name, hname, hunknown, hload⟩
  · rw [hc] at hload
    refine Or.inr ⟨c, hload, hsettled.valid, fun _ _ => isLoaded_of_holds hsettled, ?_⟩
    rintro a t out t' rfl htext hinside hsave
    obtain ⟨hkind, hread, hout⟩ := read_of_save hsave hinside
    refine isLoaded_of_holds hsettled ⟨out, _, ?_, hread, htext⟩
    simp [FileTree.configFile?, nonEmpty?, hout, hkind]

/-- A file with a profile of its own is read under another one, and the configuration is kept. -/
theorem isKept_of_load_strict : ∃ user, Holds (oneFileTree strictFile) (some "c.yml") user ∧
    validate user = .ok () ∧
    ∃ c, Yields (oneFileTree strictFile) (load (some "c.yml") (some "security")) (.ok c) ∧
      IsKept (some "security") c := by
  have hchecked : (valueOf strictFile >>= fun user => .ok (validate user)) = .ok (.ok ()) := by
    decide +kernel
  obtain ⟨user, hv, hok⟩ := bind_eq_ok.mp hchecked
  have hvalid : validate user = .ok () := Except.ok.inj hok
  have hholds : Holds (oneFileTree strictFile) (some "c.yml") user :=
    ⟨"c.yml", strictFile, by decide +kernel, by decide +kernel, hv⟩
  refine ⟨user, hholds, hvalid, (isKept_of_load hholds hvalid (some "security")).resolve_left ?_⟩
  rintro ⟨name, hname, hunknown, -⟩
  cases hname
  exact absurd hunknown (by decide)

end PipelineAudit.Config
