import PipelineAudit.Config.Store
import PipelineAudit.FileTree
import PipelineAudit.Proofs.Config.Merging
import PipelineAudit.Proofs.Session
import PipelineAudit.Proofs.Yaml.Coverage

/-!
# Loaded configurations

Loading a configuration ends with a valid one or with a refusal, unless the content of the
configuration file defeats it (`Config.ends_load`): it is no text, a scalar or tag in it has a form
without a meaning, its profile cannot be a key, or an integer in it is too long for the refusal that
has to name it (`Config.Defeats`). No profile and no path defeats it. This is said of files whose
contents are covered.

How work ends is told by `Config.Ends`: it yields something good, a refusal, or what defeats it, and
nothing else defeats it. Of the steps of loading only the one that reads the file can be defeated
(`Config.Ends.bind`): what is done with a configuration that was read adds refusals and nothing
else.
-/

namespace PipelineAudit

namespace Yaml

/-- No text stands twice as a key of a mapping that was read. -/
lemma nodup_names_of_load {p : Passage} {v : Value} (h : p.load .plain = .ok v) :
    (Value.names v.entries).Nodup := by
  have hnone : ∀ {v : Value}, v.isMap = false → (Value.names v.entries).Nodup := fun hmap => by
    rw [Value.entries_of_not_isMap hmap]
    exact List.nodup_nil
  obtain ⟨root, -, h⟩ := bind_eq_ok.mp h
  cases root with
  | none =>
      cases h
      exact hnone rfl
  | some root =>
      obtain ⟨b, hb, h⟩ := bind_eq_ok.mp h
      rcases Builder.value_cases (Builder.isPlain_ofRoot hb) h with hmap | ⟨_, _, pairs, rfl, -⟩
      · exact hnone hmap
      · exact Value.nodup_names_entriesOf pairs

end Yaml

namespace FileTree

variable {t : FileTree} {path : String}

/-- The configuration file: the given one if it is there, or else the first one in the usual
places. -/
def configFile? (t : FileTree) (path : Option String) : Option String :=
  match path.bind nonEmpty? with
  | some path => if (t.kind? path).isSome then some path else none
  | none => (Config.searchPaths t.workingDirectory t.homeDirectory).find? fun path =>
      (t.kind? path).isSome

end FileTree

namespace Config

open Work

variable {t : FileTree} {file : String} {bytes : List UInt8} {why : Failure}

/-! ## Ways to end -/

/-- The value of a data file with some bytes. -/
def valueOf (bytes : List UInt8) : Except Yaml.Error Value :=
  (Yaml.Passage.ofBytes (bytes.map UInt8.toNat)).load .plain

/-- The content of a configuration file defeats loading. -/
inductive Defeats (file : String) (bytes : List UInt8) : Failure → Prop
  /-- It is no text. -/
  | encoding {fault : Text.Utf8Fault} : valueOf bytes = .error (.fault (.encoding fault)) →
      Defeats file bytes (.text fault)
  /-- Something in it has a form without a meaning. -/
  | fault {fault : Yaml.Fault} : valueOf bytes = .error (.fault fault) →
  (∀ why, fault ≠ .encoding why) → Defeats file bytes (.yaml (.fault fault) file)
  /-- Its profile cannot be a key, and so cannot be looked up. -/
  | profile {v profile : Value} : valueOf bytes = .ok v →
  validate v = .error (.setting .notUsable) →
      v.get? "profile" = some profile → profile.isKey = false →
        Defeats file bytes (.setting .notUsable)
  /-- An integer in it is too long to be named in a refusal. -/
  | number {v : Value} : valueOf bytes = .ok v → validate v = .error (.number .tooLongToWrite) →
      v.isWritable = false → Defeats file bytes (.number .tooLongToWrite)

/-- Work ends with a good value, with a refusal, or exactly with what defeats it. -/
def Ends (t : FileTree) (x : Work (StateM FileTree) Value) (good : Value → Prop)
    (defeats : Failure → Prop) : Prop :=
  ∃ r, Yields t x r ∧ (∀ c, r = .ok c → good c) ∧
    ∀ why, defeats why ↔ r = .error why ∧ ∀ e, why ≠ .config e

variable {x : Work (StateM FileTree) Value} {f : Value → Work (StateM FileTree) Value}
  {good good' : Value → Prop} {defeats : Failure → Prop} {c : Value}

/-- Only the first step can be defeated, if the second one adds refusals and nothing else. -/
lemma Ends.bind (hx : Ends t x good defeats)
    (hf : ∀ c, good c → Ends t (f c) good' fun _ => False) : Ends t (x >>= f) good' defeats := by
  obtain ⟨r, hyields, hgood, hdefeats⟩ := hx
  cases r with
  | error why => exact ⟨.error why, hyields.bind_error, nofun, hdefeats⟩
  | ok c =>
      obtain ⟨r', hyields', hgood', hdefeats'⟩ := hf c (hgood c rfl)
      refine ⟨r', hyields.bind_ok hyields', hgood', fun why => ?_⟩
      rw [← hdefeats', hdefeats]
      exact ⟨nofun, False.elim⟩

/-! ## The content of a file -/

/-- Reading a file that can be read yields the value of its content. -/
lemma yields_readData_of_ok (h : t.read file = .ok bytes) :
    Yields t (readData file) ((valueOf bytes).mapError (dataFailure file)) := by
  have hread := yields_read (t := t) file
  rw [h] at hread
  have hbytes : Yields t (readBytes file) (.ok (bytes.map UInt8.toNat)) :=
    hread.bind_ok (yields_pure _)
  exact hbytes.bind_ok (yields_ofExcept (dataFailure file) (valueOf bytes))

/-- What is kept of a configuration file: a valid mapping in which no option stands twice. -/
def IsUserConfig (v : Value) : Prop :=
  v.isMap = true ∧ (Value.names v.entries).Nodup ∧ validate v = .ok ()

/-- A value that was read is kept if it is valid. -/
lemma isUserConfig_of_valueOf {v : Value} (hv : valueOf bytes = .ok v)
    (hvalid : validate v = .ok ()) :
    IsUserConfig v := ⟨(validate_eq_ok_iff.mp hvalid).1, Yaml.nodup_names_of_load hv, hvalid⟩

/-- How work fails for a configuration that is not valid. -/
def checkFailure : InvalidConfig → Failure
  | .refused error => .config error
  | .setting fault => .setting fault
  | .number fault => .number fault

/-- Checking a configuration yields what comes of the check. -/
lemma yields_ensureValid (v : Value) :
    Yields t (ensureValid v) ((validate v).mapError checkFailure) := by
  unfold ensureValid
  cases validate v with
  | ok _ => exact yields_pure ()
  | error why => cases why <;> exact yields_throw _

/-- What comes before without failing changes nothing. -/
lemma Ends.after {α : Type} {y : Work (StateM FileTree) α}
    {g : α → Work (StateM FileTree) Value} {a : α}
    (hy : Yields t y (.ok a)) (h : Ends t (g a) good defeats) : Ends t (y >>= g) good defeats := by
  obtain ⟨r, hyields, hends⟩ := h
  exact ⟨r, hy.bind_ok hyields, hends⟩

/-- Asking for the kind of a path changes nothing. -/
lemma yields_kind? (path : String) : Yields t (Work.kind? path) (.ok (t.kind? path)) :=
  fun s => ⟨s, rfl⟩

/-- The first path is found that leads somewhere. -/
lemma yields_firstExisting? (paths : List String) :
    Yields t (firstExisting? paths) (.ok (paths.find? fun path => (t.kind? path).isSome)) := by
  induction paths with
  | nil => exact yields_pure none
  | cons path rest ih =>
      refine (yields_kind? path).bind_ok ?_
      rw [List.find?_cons]
      cases (t.kind? path).isSome with
      | true => exact yields_pure (some path)
      | false => exact ih

/-- The usual places are those of the tree. -/
lemma yields_paths : Yields t paths (.ok (searchPaths t.workingDirectory t.homeDirectory)) :=
  fun s => ⟨s, rfl⟩

/-- A configuration of the user over the defaults has admitted options only. -/
lemma isAdmitted_of_isUserConfig {user : Value} (h : IsUserConfig user) :
    ∀ e ∈ mergeEntries default.entries user.entries, IsAdmitted e := by
  obtain ⟨hmap, hnodup, hvalid⟩ := h
  cases user with
  | map es => exact isAdmitted_mergeEntries_default hnodup hvalid
  | _ => cases hmap

/-- A tree with one file. -/
def oneFileTree (bytes : List UInt8) : FileTree :=
  { workingDirectory := "/work", homeDirectory := "/home", entries := [(["c.yml"], .file bytes)] }

/-- A configuration file with a profile of its own. -/
def strictFile : List UInt8 := "profile: strict\n".toUTF8.toList

end Config

end PipelineAudit
