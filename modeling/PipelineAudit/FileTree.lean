import PipelineAudit.Assoc
import PipelineAudit.Files

/-!
# A tree of files in memory

Files and directories by their parts, counted from the working directory. A directory also exists if
something stands in it. Of what is outside the working directory only the directories around it, the
root directory and the null device are known.
-/

namespace PipelineAudit

/-- A file or a directory. -/
inductive FileEntry where
  | file (bytes : List UInt8)
  | directory
  deriving DecidableEq, Repr

/-- A tree of files. -/
structure FileTree where
  workingDirectory : String
  homeDirectory : String
  entries : Assoc (List String) FileEntry := []
  deriving Repr

namespace FileTree

/-- The file that is always empty and swallows what is written to it. -/
def nullDevice : List String := ["dev", "null"]

/-- The first part of a place that is counted from the root directory. -/
def rootMark : String := "/"

/-- The parts of a path as counted from the working directory, or else from the root directory. -/
def partsOf (t : FileTree) (path : String) : List String :=
  let root := Path.parts t.workingDirectory
  let parts := Path.parts path
  if root.isPrefixOf parts && Text.startsWith path t.workingDirectory then parts.drop root.length
  else if Text.startsWith path "/" then rootMark :: parts
  else parts

/-- What stands at a place. A place that starts with steps up is outside the working directory. -/
def kindAt (t : FileTree) (place : List String) : Option EntryKind :=
  match t.entries.get? place with
  | some (.file _) => some .file
  | some .directory => some .directory
  | none =>
    if place == rootMark :: nullDevice then some .file
    else if place == [rootMark] || place == [rootMark, "dev"] || place.all (· == "..") then
      some .directory
    else if t.entries.any fun e => place.isPrefixOf e.1 then some .directory
    else none

/-- The trail after a step up, in reverse. There are directories around the working directory, and
none above the root directory. -/
def stepUp : List String → List String
  | [] => [".."]
  | part :: rest =>
    if part == ".." then part :: part :: rest else if part == rootMark then part :: rest else rest

/-- Walks along the parts of a path, from directory to directory; a step up leads back. The trail is
in reverse. -/
def walk (t : FileTree) (path : String) : List String → List String → Except FileFault (List String)
  | trail, [] => .ok trail.reverse
  | trail, part :: rest =>
    match t.kindAt trail.reverse with
    | none => .error (.missing path)
    | some .file => .error (.notADirectory path)
    | some .directory =>
      if Path.nameLimit < part.utf8ByteSize then .error (.nameTooLong path)
      else walk t path (if part == ".." then stepUp trail else part :: trail) rest

/-- How a path ends: in a name, behind a slash, or in a step on the spot. -/
inductive PathEnd where
  | name
  | slash
  | dot
  deriving DecidableEq, Repr

/-- How a path ends. -/
def pathEnd (path : String) : PathEnd :=
  match ((Text.splitOn '/' path).filter fun p => !p.isEmpty).getLast? with
  | some "." => .dot
  | _ => if Text.endsWith path "/" then .slash else .name

/-- Checks a path as such. -/
def checkPath (path : String) : Except FileFault Unit :=
  if Path.holdsNull path then .error .nullInPath
  else if path.isEmpty then .error (.missing path)
  else if Path.pathLimit < path.utf8ByteSize then .error (.nameTooLong path)
  else .ok ()

/-- Checks that a place is a directory, if there has to be one. -/
def checkDirectory (t : FileTree) (path : String) (needed : Bool) (place : List String) :
    Except FileFault Unit :=
  if needed then
    match t.kindAt place with
    | some .directory => .ok ()
    | some .file => .error (.notADirectory path)
    | none => .error (.missing path)
  else .ok ()

/-- The place of a path. All directories on the way have to exist. -/
def locate (t : FileTree) (path : String) : Except FileFault (List String) := do
  checkPath path
  let place ← t.walk path [] (t.partsOf path)
  t.checkDirectory path (pathEnd path != .name) place
  return place

/-- What a path leads to. -/
def kind? (t : FileTree) (path : String) : Option EntryKind :=
  (t.locate path).toOption.bind t.kindAt

/-- The bytes of a file. -/
def read (t : FileTree) (path : String) : Except FileFault (List UInt8) := do
  let place ← t.locate path
  match t.entries.get? place, t.kindAt place with
  | some (.file bytes), _ => return bytes
  | _, some .file => return []
  | _, some .directory => throw (.isDirectory path)
  | _, none => throw (.missing path)

/-- The names of what is in a directory. -/
def names (t : FileTree) (path : String) : List String :=
  match t.locate path with
  | .error _ => []
  | .ok place =>
    (t.entries.filterMap fun e =>
      if place.isPrefixOf e.1 then (e.1.drop place.length).head? else none).eraseDups

/-- The tree with a file. What is written outside the working directory is not kept. -/
def put (t : FileTree) (place : List String) (bytes : List UInt8) : FileTree :=
  if place.head? == some ".." || place.head? == some rootMark then t
  else { t with entries := t.entries.insert place (.file bytes) }

/-- Writes a file in a directory that exists. A path with a slash at its end is always one of a
directory. -/
def write (t : FileTree) (path text : String) : Except FileFault FileTree := do
  checkPath path
  if pathEnd path == .slash then
    t.checkDirectory path true (← t.walk path [] (t.partsOf path).dropLast)
    throw (.isDirectory path)
  let place ← t.walk path [] (t.partsOf path)
  t.checkDirectory path (pathEnd path == .dot) place
  if t.kindAt place == some .directory then throw (.isDirectory path)
  return t.put place text.toUTF8.toList

/-- The full path of a place. -/
def fullPath (t : FileTree) (place : List String) : String :=
  if place.head? == some rootMark then "/" ++ Text.join "/" (place.drop 1)
  else Text.join "/" (t.workingDirectory :: place)

/-- Parts without steps up, each of which removes the part before it. -/
def collapse : List String → List String → List String
  | trail, [] => trail.reverse
  | trail, part :: rest => collapse (if part == ".." then stepUp trail else part :: trail) rest

/-- Makes a directory in one that exists. It may exist itself, unless it is the last one to be made
and a file. -/
def makeDirectory (t : FileTree) (isLast : Bool) (place : List String) :
    Except FileFault FileTree :=
  match t.kindAt place with
  | some .directory => .ok t
  | some .file => if isLast then .error (.occupied (t.fullPath place)) else .ok t
  | none =>
    let name := place.getLast?.getD ""
    if Path.holdsNull name then .error .nullInPath
    else if t.kindAt place.dropLast == some .file then .error (.notADirectory (t.fullPath place))
    else if Path.nameLimit < name.utf8ByteSize then .error (.nameTooLong (t.fullPath place))
    else .ok { t with entries := t.entries.insert place .directory }

/-- Makes directories one after another, each below the one before; those that were made stay also
if the next one cannot be made. -/
def makeDirectories (t : FileTree) : List (List String) → Except FileFault Unit × FileTree
  | [] => (.ok (), t)
  | place :: rest =>
    match t.makeDirectory rest.isEmpty place with
    | .ok t => makeDirectories t rest
    | .error fault => (.error fault, t)

/-- Makes the directories that lead to a path. -/
def makeParents (t : FileTree) (path : String) : Except FileFault Unit × FileTree :=
  let parent := (collapse [] (t.partsOf path)).dropLast
  t.makeDirectories ((List.range parent.length).map fun n => parent.take (n + 1))

end FileTree

/-- Runs a change of the tree. -/
def FileTree.change (f : FileTree → Except FileFault FileTree) :
    StateM FileTree (Except FileFault Unit) :=
  fun t => match f t with
    | .ok t' => (.ok (), t')
    | .error fault => (.error fault, t)

instance : FileStore (StateM FileTree) where
  kind? path := fun t => (t.kind? path, t)
  read path := fun t => (t.read path, t)
  names path := fun t => (t.names path, t)
  write path text := FileTree.change fun t => t.write path text
  makeParents path := fun t => t.makeParents path
  workingDirectory := fun t => (t.workingDirectory, t)
  homeDirectory := fun t => (t.homeDirectory, t)

end PipelineAudit
