import PipelineAudit.Number.Literal
import PipelineAudit.Pattern.Regex
import PipelineAudit.Text.Blank
import PipelineAudit.Text.Lines

/-!
# References to actions

A step names the action it uses as `owner/repository/path@ref`. The ref is a full commit hash, a
version tag, or anything else, which is taken for a branch. Paths inside the repository and
container images are references of their own kinds.
-/

namespace PipelineAudit

open Regex

/-- What a reference is pinned to. -/
inductive RefKind where
  | sha
  | tag
  | branch
  /-- No ref is given. -/
  | missing
  /-- A path inside the repository. -/
  | inRepository
  /-- A container image. -/
  | container
  deriving DecidableEq, Repr

/-- The word for a kind of ref. -/
def RefKind.word : RefKind → String
  | sha => "sha"
  | tag => "tag"
  | branch => "branch"
  | missing => "missing"
  | inRepository => "local"
  | container => "docker"

/-- A reference to an action. -/
structure ActionRef where
  raw : String
  owner : Option String := none
  repo : Option String := none
  path : Option String := none
  ref : Option String := none
  kind : RefKind
  deriving DecidableEq, Repr

/-! ## Versions -/

/-- A semantic version. -/
structure Version where
  major : Nat
  minor : Nat
  patch : Nat
  deriving DecidableEq, Repr

/-- Why a text is no version. -/
inductive VersionFault where
  /-- The text has another form. -/
  | form (text : String)
  /-- A part of it is too long a number. -/
  | number (fault : NumberFault)
  deriving DecidableEq, Repr

/-- The message for a fault. -/
def VersionFault.message : VersionFault → String
  | form text => "Invalid version format: " ++ text
  | number fault => fault.message

/-- One to three numbers with points between them, perhaps after a `v`. -/
def semverPattern : Regex :=
  start ++ opt (lit "v") ++ group 1 (plus (char .digit))
    ++ opt (lit "." ++ group 2 (plus (char .digit))
      ++ opt (lit "." ++ group 3 (plus (char .digit))))
    ++ finish

/-- Forty hexadecimal digits. -/
def shaPattern : Regex := start ++ exactly 40 (char .hex) ++ finish

/-- A `v` and a digit. -/
def tagStartPattern : Regex := start ++ lit "v" ++ char .digit

/-- The leading number of a tag, which ends or goes on after a point or dash. -/
def majorPattern : Regex :=
  start ++ opt (lit "v") ++ group 1 (plus (char .digit))
    ++ opt (oneOf ".-" ++ star (char .dot)) ++ finish

namespace Version

/-- Reads a version; missing parts are zero. -/
def parse (text : String) : Except VersionFault Version :=
  match semverPattern.matchAt (Text.trim text) with
  | none => .error (.form text)
  | some m => do
    let part := fun n => match m.group? n with
      | none => .ok 0
      | some digits => ((Literal.int 10 digits).map Int.toNat).mapError VersionFault.number
    return ⟨← part 1, ← part 2, ← part 3⟩

/-- Which of two versions is later. -/
def compare (a b : Version) : Ordering :=
  (Ord.compare a.major b.major).then
    ((Ord.compare a.minor b.minor).then (Ord.compare a.patch b.patch))

end Version

namespace RefKind

/-- The kind of a ref. -/
def classify (ref : String) : RefKind :=
  if ref.isEmpty then missing
  else if shaPattern.matchesStart ref then sha
  else if semverPattern.matchesStart ref || tagStartPattern.matchesStart ref then tag
  else branch

end RefKind

/-- A text, none if it is empty. -/
def nonEmpty? (s : String) : Option String := if s.isEmpty then none else some s

namespace ActionRef

/-- Reads a reference. -/
def parse (text : String) : ActionRef :=
  let raw := Text.trim text
  if Text.startsWith raw "./" || Text.startsWith raw "../" then
    { raw := raw, kind := .inRepository }
  else if Text.startsWith raw "docker://" then { raw := raw, kind := .container }
  else
    let (name, ref) := Text.cut '@' raw
    let parts := Text.splitOn '/' name
    { raw := raw
      owner := parts[0]?.bind nonEmpty?
      repo := parts[1]?.bind nonEmpty?
      path := nonEmpty? (Text.join "/" (parts.drop 2))
      ref := nonEmpty? ref
      kind := .classify ref }

/-- The name of the action without the ref, a path inside its repository included. -/
def name (a : ActionRef) : String := (Text.cut '@' a.raw).1

/-- Owner and repository; the whole name if one of them is missing. -/
def slug (a : ActionRef) : String :=
  match a.owner, a.repo with
  | some owner, some repo => owner ++ "/" ++ repo
  | _, _ => a.name

/-- Whether the reference is pinned to a commit. -/
def isPinned (a : ActionRef) : Bool := a.kind == .sha

/-- Whether the action comes from outside the repository. -/
def isExternal (a : ActionRef) : Bool := a.kind != .inRepository && a.kind != .container

/-- The words for branches that move. -/
def unstableBranches : List String :=
  ["main", "master", "develop", "dev", "trunk", "latest", "head"]

/-- Whether the reference follows a branch that is known to move. -/
def isUnstable (a : ActionRef) : Bool :=
  a.kind == .branch && unstableBranches.contains (Text.lower (a.ref.getD ""))

end ActionRef

/-- The leading number of a version tag; none if the ref is no version. -/
def majorVersion (ref : String) : Except NumberFault (Option Int) :=
  match (majorPattern.matchAt ref).bind (·.group? 1) with
  | none => .ok none
  | some digits => (Literal.int 10 digits).map some

end PipelineAudit
