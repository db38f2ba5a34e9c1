import PipelineAudit.Config.Anchored
import PipelineAudit.Session
import PipelineAudit.Yaml.Printer

/-!
# Configuration files

A configuration is read from a given file, or from the first of the usual places where there is one,
and laid over the defaults.
-/

namespace PipelineAudit.Config

variable {m : Type → Type} [Monad m] [FileStore m]

/-- Where configurations are looked for, in order. -/
def searchPaths (working home : String) : List String :=
  ["flowlyt.yml", "flowlyt.yaml", ".flowlyt.yml", ".flowlyt.yaml"].map
    (fun n => working ++ "/" ++ n)
    ++ [".flowlyt.yml", ".flowlyt.yaml", ".config/flowlyt/config.yml",
      ".config/flowlyt/config.yaml"].map (fun n => home ++ "/" ++ n)
    ++ ["/etc/flowlyt/config.yml", "/etc/flowlyt/config.yaml"]

/-- Where configurations are looked for here. -/
def paths : Work m (List String) := do
  return searchPaths (← (FileStore.workingDirectory : m String))
    (← (FileStore.homeDirectory : m String))

/-- Checks a configuration. -/
def ensureValid (config : Value) : Work m Unit :=
  match validate config with
  | .ok () => pure ()
  | .error (.refused error) => throw (.config error)
  | .error (.setting fault) => throw (.setting fault)
  | .error (.number fault) => throw (.number fault)

/-- A way to read data files. -/
structure DataReader (m : Type → Type) [Monad m] (α : Type) where
  read : String → Work m α
  /-- The value of what was read. -/
  view : α → Value
  /-- What a file without content holds. -/
  empty : α

/-- Reads values. -/
def plainReader : DataReader m Value := ⟨Work.readData, id, .map []⟩

/-- Reads values with the numbers of their shared parts. -/
def anchoredReader : DataReader m Anchored := ⟨Work.readAnchored, Anchored.value, .map none []⟩

/-- The configuration of a file, checked; an empty one if the file has no content. -/
def readFile {α : Type} (reader : DataReader m α) (path : String) : Work m α := do
  let data ← tryCatch (reader.read path) fun failure =>
    match failure with
    | .yaml (.problem p) _ => throw (.config (.malformed (p.describe path)))
    | .file why => throw (.config (.unreadable why.message))
    | other => throw other
  if (reader.view data).truthy then
    ensureValid (reader.view data)
    return data
  else return reader.empty

/-- The first path at which something is. -/
def firstExisting? : List String → Work m (Option String)
  | [] => return none
  | path :: rest => do
    if (← Work.kind? path).isSome then return some path else firstExisting? rest

/-- The configuration of the user: that of a given file, or that of the first file found. -/
def readUser {α : Type} (reader : DataReader m α) (path : Option String) : Work m α := do
  match path.bind nonEmpty? with
  | some path =>
    if (← Work.kind? path).isSome then readFile reader path
    else throw (.config (.fileNotFound path))
  | none =>
    match ← firstExisting? (← paths) with
    | some path =>
      let config ← readFile reader path
      Work.note [.configurationRead path]
      return config
    | none => return reader.empty

/-- A result of putting a configuration under a profile. -/
def ofProfile {α : Type} : Except ProfileFault α → Work m α
  | .ok config => pure config
  | .error (.unknown name) => throw (.config (.unknownProfile name))
  | .error (.setting fault) => throw (.setting fault)

/-- The configuration under a profile. -/
def underProfile (config : Value) (profile : String) : Work m Value :=
  ofProfile (withProfile config profile)

/-- The profile to apply: the given one, or that of the configuration unless it is the default. -/
def selectedProfile? (config : Value) (profile : Option String) : Option String :=
  match profile.bind nonEmpty? with
  | some name => some name
  | none =>
    let own := ((config.get? "profile").getD (.str defaultProfile)).display
    if own == defaultProfile then none else some own

/-- Reads the configuration. -/
def load (path profile : Option String) : Work m Value := do
  let config := Value.map (mergeEntries default.entries (← readUser plainReader path).entries)
  match selectedProfile? config profile with
  | some name => underProfile config name
  | none => return config

/-- Reads the configuration, with the numbers of its shared parts. -/
def loadAnchored (path profile : Option String) : Work m Anchored := do
  let user ← readUser anchoredReader path
  let config :=
    Anchored.map none (Anchored.mergeEntries (Anchored.ofValue default).entries user.entries)
  match selectedProfile? config.value profile with
  | some name => ofProfile (config.withProfile name)
  | none => return config

/-- Writes a text to a file whose directory is made if it is missing. -/
def writeText (path text : String) (refused : String → ConfigError) : Work m Unit :=
  tryCatch
    (do
      Work.ofFile (FileStore.makeParents (m := m) path)
      Work.ofFile (FileStore.write (m := m) path text))
    fun failure =>
      match failure with
      | .file why => throw (.config (refused why.message))
      | other => throw other

/-- Writes a configuration. If a number in it is too long to be written, the file is left empty. -/
def save (config : Anchored) (path : String) : Work m Unit := do
  if config.value.isWritable then writeText path (Yaml.Printer.print config) .unwritable
  else
    writeText path "" .unwritable
    throw (.number .tooLongToWrite)

/-- The text of the default configuration. -/
def defaultText : String := Yaml.Printer.print (.ofValue default)

/-- The default configuration as a text, also written to a file if one is given. -/
def generate (path : Option String) : Work m String := do
  match path.bind nonEmpty? with
  | some path => writeText path defaultText .defaultsUnwritable
  | none => pure ()
  return defaultText

end PipelineAudit.Config
