import Mathlib.Data.List.TakeWhile
import PipelineAudit.KnownActions.Load
import PipelineAudit.Proofs.Config.Load
import PipelineAudit.Proofs.KnownActions.Lookup
import PipelineAudit.Proofs.Value.Paths

/-!
# Loaded known actions

For a valid configuration the table of known actions answers from the configuration itself, or else
from its file, or else from the built-in table (`KnownActions.answers_load`). A file that is
missing, is a directory or is not well formed tells nothing. Other files defeat loading
(`KnownActions.Defeats`): those that are no text, in which a scalar or a tag has a form without a
meaning, or which name an action by an integer that is too long to be written. This is said of files
whose contents are covered.
-/

namespace PipelineAudit.KnownActions

open Work
open Config (valueOf)

variable {t : FileTree} {config v : Value} {path : String} {bytes : List UInt8}
    {table : KnownActions} {why : Failure}

/-! ## The sources of a table -/

/-- The path of the file that a configuration gives, empty if it gives none. -/
def filePath (config : Value) : String :=
  match config.get "known_actions_file" with
  | .str path => path
  | _ => ""

/-- The entries of a file that can be read and is well formed; no entries otherwise, or if it holds
no mapping. -/
def entriesAt (t : FileTree) (path : String) : List (Value × Value) :=
  (((t.read path).toOption.bind fun bytes => (valueOf bytes).toOption).map Value.entries).getD []

/-- The entries of the configuration itself. -/
def ownEntries (config : Value) : List (Value × Value) := (config.get "known_actions").entries

/-- A file defeats loading. -/
inductive FileDefeats (t : FileTree) (path : String) : Failure → Prop
  /-- Its path holds a null character. -/
  | path : t.read path = .error .nullInPath → FileDefeats t path .nullInPath
  /-- It is no text. -/
  | text {bytes : List UInt8} {fault : Text.Utf8Fault} : t.read path = .ok bytes →
      valueOf bytes = .error (.fault (.encoding fault)) → FileDefeats t path (.text fault)
  /-- Something in it has a form without a meaning. -/
  | fault {bytes : List UInt8} {fault : Yaml.Fault} : t.read path = .ok bytes →
  valueOf bytes = .error (.fault fault) →
      (∀ why, fault ≠ .encoding why) → FileDefeats t path (.yaml (.fault fault) path)
  /-- An integer in one of its entries is too long to be written. -/
  | number : (entriesAt t path).all isEntryWritable = false →
      FileDefeats t path (.number .tooLongToWrite)

/-- The file of a configuration defeats loading, or else an integer in one of its own entries
does. -/
inductive Defeats (t : FileTree) (config : Value) : Failure → Prop
  | file {why : Failure} : FileDefeats t (filePath config) why → Defeats t config why
  | own : (∀ why, ¬FileDefeats t (filePath config) why) →
  (ownEntries config).all isEntryWritable = false → Defeats t config (.number .tooLongToWrite)

/-- Work ends with a table of some kind, or exactly with what defeats it. -/
def Ends (t : FileTree) (x : Work (StateM FileTree) KnownActions) (good : KnownActions → Prop)
    (defeats : Failure → Prop) : Prop :=
  ∃ r, Yields t x r ∧ (∀ table, r = .ok table → good table) ∧ ∀ why, defeats why ↔ r = .error why

variable {x : Work (StateM FileTree) KnownActions} {good : KnownActions → Prop}
    {defeats : Failure → Prop}

/-- What is good and what defeats may be said in other words. -/
lemma Ends.imp {good' : KnownActions → Prop} {defeats' : Failure → Prop} (h : Ends t x good defeats)
    (hgood : ∀ table, good table → good' table) (hdefeats : ∀ why, defeats why ↔ defeats' why) :
    Ends t x good' defeats' := by
  obtain ⟨r, hyields, hr, hends⟩ := h
  exact ⟨r, hyields, fun table htable => hgood table (hr table htable), fun why =>
    (hdefeats why).symm.trans (hends why)⟩

/-- Work in two steps is defeated in the first one, or else in the second one. -/
lemma Ends.bind {f : KnownActions → Work (StateM FileTree) KnownActions}
    {good' : KnownActions → Prop} {defeats' : Failure → Prop} (hx : Ends t x good defeats)
    (hf : ∀ table, good table → Ends t (f table) good' defeats') :
    Ends t (x >>= f) good' fun why => defeats why ∨ (∀ other, ¬defeats other) ∧ defeats' why := by
  obtain ⟨r, hyields, hgood, hdefeats⟩ := hx
  cases r with
  | error why =>
      refine ⟨.error why, hyields.bind_error, nofun, fun other => ?_⟩
      rw [← hdefeats]
      refine ⟨fun h => h.elim id fun hnone => absurd ((hdefeats why).mpr rfl) (hnone.1 why), Or.inl⟩
  | ok table =>
      obtain ⟨r', hyields', hgood', hdefeats'⟩ := hf table (hgood table rfl)
      have hnone : ∀ other, ¬defeats other := fun other h => nomatch (hdefeats other).mp h
      refine ⟨r', hyields.bind_ok hyields', hgood', fun why => ?_⟩
      rw [← hdefeats']
      exact ⟨fun h => (h.resolve_left (hnone why)).2, fun h => Or.inr ⟨hnone, h⟩⟩

/-! ## Tables of entries -/

/-- A file that names another version of an action. -/
def sampleFile : List UInt8 := "Actions/Checkout: v9\n".toUTF8.toList

/-- A tree with this file. -/
def sampleTree : FileTree := Config.oneFileTree sampleFile

end PipelineAudit.KnownActions
