import PipelineAudit.Session

/-!
# Reading known actions

A configuration extends the built-in table by a file and then by entries of its own. A file that
cannot be read, or is not well formed, is reported and left out.
-/

namespace PipelineAudit.KnownActions

variable {m : Type → Type} [Monad m] [FileStore m]

/-- The table that entries describe; entries that describe nothing are reported. -/
def ofEntriesNoted (entries : List (Value × Value)) : Work m KnownActions := do
  let (table, malformed) := ofMapping (entries.takeWhile isEntryWritable)
  Work.note (malformed.map Notice.malformedAction)
  if entries.all isEntryWritable then return table else throw (.number .tooLongToWrite)

/-- The table that a value describes, which has to be a mapping. -/
def ofValue (v : Value) : Work m KnownActions :=
  if v.isMap then ofEntriesNoted v.entries else throw (.setting .notAMapping)

/-- The table of a file. A file without content has no entries, and neither has one whose content is
no mapping. -/
def ofFile (path : String) : Work m KnownActions := do
  let data := Engine.orEmpty (← Work.readData path)
  if data.isMap then ofEntriesNoted data.entries
  else
    Work.note [.actionsNotAMapping path]
    return {}

/-- The path that a configuration gives. -/
def pathOf (v : Value) : Except Failure String :=
  match v with
  | .str path => .ok path
  | .int _ => .error (.file .badDescriptor)
  | _ => .error (.setting .notUsable)

/-- The built-in table extended by a file. -/
def extendedBy (path : Value) : Work m KnownActions :=
  tryCatch
    (do return builtIn.merge (← ofFile (← Work.ofExcept id (pathOf path))))
    fun failure =>
      let unreadable := fun (why : String) => do
        Work.note [.actionsUnreadable path.display why]
        return builtIn
      match failure with
      | .file why => unreadable why.message
      | .yaml (.problem p) _ => unreadable (p.describe path.display)
      | other => throw other

/-- The table for a configuration. -/
def load (config : Value) : Work m KnownActions := do
  if !config.isMap then throw (.setting .notAMapping)
  let path := config.get "known_actions_file"
  let table ← if path.truthy then extendedBy path else pure builtIn
  let own := config.get "known_actions"
  if own.truthy then return table.merge (← ofValue own) else return table

end PipelineAudit.KnownActions
