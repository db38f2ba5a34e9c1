import PipelineAudit.Text.Quoted
import PipelineAudit.Text.Utf8

/-!
# Files

What the tool needs of a file system, as operations of a monad: it can be a real file system or a
tree in memory.
-/

namespace PipelineAudit

/-- What a path leads to. -/
inductive EntryKind where
  | file
  | directory
  deriving DecidableEq, Repr

/-- Why a file operation fails. -/
inductive FileFault where
  /-- Nothing is there. -/
  | missing (path : String)
  /-- A directory is where a file is needed. -/
  | isDirectory (path : String)
  /-- A file is where a directory is needed. -/
  | notADirectory (path : String)
  /-- Something else is there already. -/
  | occupied (path : String)
  /-- A path or a name in it is too long. -/
  | nameTooLong (path : String)
  /-- A number is no open file. -/
  | badDescriptor
  /-- A path holds the null character. -/
  | nullInPath
  deriving DecidableEq, Repr

/-- The message for a fault. -/
def FileFault.message : FileFault → String
  | missing path => "[Errno 2] No such file or directory: " ++ Text.quoted path
  | badDescriptor => "[Errno 9] Bad file descriptor"
  | occupied path => "[Errno 17] File exists: " ++ Text.quoted path
  | notADirectory path => "[Errno 20] Not a directory: " ++ Text.quoted path
  | isDirectory path => "[Errno 21] Is a directory: " ++ Text.quoted path
  | nameTooLong path => "[Errno 36] File name too long: " ++ Text.quoted path
  | nullInPath => "embedded null byte"

/-- A store of files. -/
class FileStore (m : Type → Type) where
  /-- What a path leads to. -/
  kind? : String → m (Option EntryKind)
  /-- The bytes of a file. -/
  read : String → m (Except FileFault (List UInt8))
  /-- The names of what is in a directory. -/
  names : String → m (List String)
  /-- Writes a file in a directory that exists. -/
  write : String → String → m (Except FileFault Unit)
  /-- Makes the directories that lead to a path. -/
  makeParents : String → m (Except FileFault Unit)
  /-- The directory from which relative paths start. -/
  workingDirectory : m String
  /-- The user's directory. -/
  homeDirectory : m String

/-! ## Paths -/

namespace Path

/-- The parts of a path that lead somewhere. -/
def parts (path : String) : List String :=
  (Text.splitOn '/' path).filter fun p => !(p.isEmpty || p == ".")

/-- Whether a path holds the null character. -/
def holdsNull (path : String) : Bool := path.toList.contains (Char.ofNat 0)

/-- The greatest number of bytes in a name. -/
def nameLimit : Nat := 255

/-- The greatest number of bytes in a path. -/
def pathLimit : Nat := 4095

/-- A path in its plain form: no empty parts and no steps on the spot. -/
def normalize (path : String) : String :=
  let body := Text.join "/" (parts path)
  if Text.startsWith path "/" then "/" ++ body
  else if body.isEmpty then "." else body

/-- A path below another one, in its plain form. -/
def join (root name : String) : String :=
  normalize (if root.isEmpty then name else root ++ "/" ++ name)

end Path

end PipelineAudit
