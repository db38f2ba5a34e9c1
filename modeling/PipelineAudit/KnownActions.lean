import PipelineAudit.Text.Case
import PipelineAudit.Value.Display
import PipelineAudit.Workflow.ActionRef

/-!
# Known actions

The latest release of well-known actions, by owner and repository with case ignored. The table only
enriches suggestions.
-/

namespace PipelineAudit

/-- The latest release of an action, with the commit it stands for where that is known. -/
structure KnownAction where
  name : String
  latestTag : String
  sha : Option String := none
  deriving DecidableEq, Repr

/-- Known actions by their names in lower case. -/
structure KnownActions where
  entries : Assoc String KnownAction := []
  deriving Repr

namespace KnownActions

/-- The table of named entries; a later entry replaces one that differs only by case. -/
def ofEntries (entries : List (String × KnownAction)) : KnownActions :=
  ⟨Assoc.ofList (entries.map fun e => (Text.lower e.1, e.2))⟩

/-- The built-in tags. -/
def builtInTags : List (String × String) := [
  ("actions/checkout", "v4"),
  ("actions/setup-node", "v4"),
  ("actions/setup-python", "v5"),
  ("actions/setup-java", "v4"),
  ("actions/setup-go", "v5"),
  ("actions/setup-dotnet", "v4"),
  ("actions/cache", "v4"),
  ("actions/upload-artifact", "v4"),
  ("actions/download-artifact", "v4"),
  ("actions/github-script", "v7"),
  ("docker/build-push-action", "v6"),
  ("docker/setup-buildx-action", "v3"),
  ("docker/login-action", "v3"),
  ("codecov/codecov-action", "v5"),
  ("hashicorp/setup-terraform", "v3"),
  ("aws-actions/configure-aws-credentials", "v4"),
  ("azure/login", "v2")]

/-- The built-in table. -/
def builtIn : KnownActions :=
  ofEntries (builtInTags.map fun (name, tag) => (name, { name := name, latestTag := tag }))

/-- The entry that a value describes: a tag, or a mapping with a tag and perhaps a commit. -/
def entry? (name : String) (value : Value) : Option KnownAction :=
  match value with
  | .str tag => some { name := name, latestTag := tag }
  | .map _ =>
    let tag := value.get "tag"
    let sha := value.get "sha"
    if tag.truthy then
      some
        { name := name
          latestTag := tag.display
          sha := if sha.truthy then some sha.display else none }
    else none
  | _ => none

/-- Whether the texts that an entry is made of can be written. -/
def isEntryWritable (entry : Value × Value) : Bool :=
  let tag := entry.2.get "tag"
  let sha := entry.2.get "sha"
  match entry.2 with
  | .str _ => entry.1.isWritable
  | .map _ =>
      !tag.truthy || (entry.1.isWritable && tag.isWritable && (!sha.truthy || sha.isWritable))
  | _ => true

/-- The table that a mapping describes, and the names of the entries that describe nothing. -/
def ofMapping (entries : List (Value × Value)) : KnownActions × List String :=
  let read := entries.map fun (key, value) => (key.display, entry? key.display value)
  let good := read.filterMap fun (name, entry) => entry.map fun e => (name, e)
  (ofEntries (Assoc.ofList good), (read.filter (·.2.isNone)).map Prod.fst)

/-- Both tables together; the entries of the second one win. -/
def merge (a b : KnownActions) : KnownActions :=
  ⟨b.entries.foldl (fun es e => es.insert e.1 e.2) a.entries⟩

/-- The entry of a name, case ignored. -/
def lookup (db : KnownActions) (name : String) : Option KnownAction :=
  db.entries.get? (Text.lower name)

/-- The number of entries. -/
def size (db : KnownActions) : Nat := db.entries.length

/-- A table, or the built-in one in place of an empty one. -/
def orBuiltIn (db : Option KnownActions) : KnownActions :=
  match db with
  | some db => if db.size = 0 then builtIn else db
  | none => builtIn

end KnownActions

end PipelineAudit
