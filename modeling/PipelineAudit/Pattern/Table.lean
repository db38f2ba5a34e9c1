import PipelineAudit.Finding.Basic
import PipelineAudit.Pattern.Regex

/-!
# Named patterns

An entry of a table of text patterns: what it looks for, what that is called, how bad it is and in
which dialects it counts.
-/

namespace PipelineAudit

/-- A named pattern. -/
structure NamedPattern where
  id : String
  regex : Regex
  description : String
  severity : Severity := .error
  dialects : List Dialect := [.github, .gitlab]

namespace NamedPattern

/-- Whether a pattern counts in a dialect and occurs in a text. -/
def found (p : NamedPattern) (dialect : Dialect) (text : String) : Bool :=
  p.dialects.contains dialect && p.regex.occursIn text

end NamedPattern

namespace Regex

/-- The opening of an expression. -/
def exprOpen : Regex := lit "$\x7b\x7b"

/-- The closing of an expression. -/
def exprClose : Regex := lit "\x7d\x7d"

/-- A pattern between word borders. -/
def wordly (r : Regex) : Regex := boundary ++ r ++ boundary

end Regex

end PipelineAudit
