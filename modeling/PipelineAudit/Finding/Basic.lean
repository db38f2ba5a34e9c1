import PipelineAudit.Source.Search
import PipelineAudit.Workflow.Basic

/-!
# Findings

A finding says what is wrong, how bad it is and where. Security findings can carry an annotation
that says how an attacker could reach them.
-/

namespace PipelineAudit

/-- What a finding is about. -/
inductive Category where
  | security
  | performance
  | bestPractice
  | dependency
  | structural
  deriving DecidableEq, Repr

namespace Category

/-- All categories. -/
def all : List Category := [security, performance, bestPractice, dependency, structural]

/-- The name of a category. -/
def name : Category → String
  | security => "security"
  | performance => "performance"
  | bestPractice => "best-practice"
  | dependency => "dependency"
  | structural => "structure"

/-- The category with a name. -/
def ofName? (s : String) : Option Category := all.find? (·.name == s)

end Category

/-- How bad a finding is. -/
inductive Severity where
  | info
  | warning
  | error
  deriving DecidableEq, Repr

namespace Severity

/-- All severities. -/
def all : List Severity := [info, warning, error]

/-- The name of a severity. -/
def name : Severity → String
  | info => "info"
  | warning => "warning"
  | error => "error"

/-- The severity with a name. -/
def ofName? (s : String) : Option Severity := all.find? (·.name == s)

/-- The place of a severity among all, from the lowest on. -/
def rank : Severity → Nat
  | info => 0
  | warning => 1
  | error => 2

end Severity

/-- Where a finding comes from. -/
inductive Origin where
  | rule
  | graph
  | context
  /-- An origin outside the tool, by its name. -/
  | other (name : String)
  deriving DecidableEq, Repr

namespace Origin

/-- The name of an origin. -/
def name : Origin → String
  | rule => "rule"
  | graph => "graph"
  | context => "context"
  | other name => name

/-- The origin with a name. -/
def ofName (s : String) : Origin := ([rule, graph, context].find? (·.name == s)).getD (other s)

end Origin

/-- Where a finding is. -/
structure Location where
  job : Option String := none
  step : Option Numeral := none
  /-- The line, null if it is not known. -/
  line : Value := .null
  deriving DecidableEq, Repr

/-- Whether two locations are the same place. -/
def Location.same (a b : Location) : Bool :=
  a.job == b.job && a.step.map Numeral.number == b.step.map Numeral.number && a.line.sameKey b.line

/-- Lines of the source around a finding. The highlighted line counts from the start of the
snippet; it is null if no line is highlighted. -/
structure Snippet where
  content : String
  startLine : Int
  endLine : Int
  highlight : Value := .null
  deriving DecidableEq, Repr

/-- The items of a list from one position up to another, which counts from the end if it is
negative. -/
def between {α : Type} (xs : List α) (first last : Int) : List α :=
  let last := if last < 0 then last + xs.length else last
  (xs.take last.toNat).drop first.toNat

/-- The lines around a line of the source. -/
def Snippet.extract (source : String) (target : Int) (context : Int) : Option Snippet :=
  if target < 1 then none
  else
    let ls := Text.lines source
    let count : Int := ls.length
    if count < target then none
    else
      let first := max 1 (target - context)
      let last := min count (target + context)
      some {
        content := Text.join "\n" (between ls (first - 1) last)
        startLine := first
        endLine := last
        highlight := .int (target - first + 1) }

/-- The number of lines that a snippet shows on either side. -/
def Snippet.reach : Int := 2

/-- The lines around a place that is a decimal: all lines, where the snippet reaches both ends of
the source. Elsewhere a decimal is no line. -/
def Snippet.aroundDecimal (source : String) (place : Float) :
    Except Source.LineFault (Option Snippet) :=
  let ls := Text.lines source
  let count := Float.ofNat ls.length
  if place < 1 || count < place then .ok none
  else if 1 < place - 2 || place + 2 < count then .error .notALine
  else .ok (some {
    content := Text.join "\n" ls
    startLine := 1
    endLine := ls.length
    highlight := .float (.ofFloat (place - 1 + 1)) })

/-- The lines around a recorded line. -/
def Snippet.around (source : String) (line : Value) : Except Source.LineFault (Option Snippet) :=
  match line with
  | .int n => .ok (extract source n reach)
  | .bool b => .ok (extract source (if b then 1 else 0) reach)
  | .float x => aroundDecimal source x.toFloat
  | v => if v.truthy then .error .notALine else .ok none

/-- How far an attacker gets to a finding. -/
inductive Verdict where
  | highRisk
  | reachable
  | lowImpact
  | conditional
  | mitigated
  /-- A verdict that was not reached here, by its name. -/
  | other (name : String)
  deriving DecidableEq, Repr

namespace Verdict

/-- The name of a verdict. -/
def name : Verdict → String
  | highRisk => "reachable-high-risk"
  | reachable => "reachable"
  | lowImpact => "reachable-low-impact"
  | conditional => "conditionally-reachable"
  | mitigated => "mitigated"
  | other name => name

/-- The verdict with a name. -/
def ofName (s : String) : Verdict :=
  ([highRisk, reachable, lowImpact, conditional, mitigated].find? (·.name == s)).getD (other s)

end Verdict

/-- What the conditions on the way to a place say. -/
inductive Guard where
  | none
  | conditional
  | alwaysFalse
  /-- A guard of another name, which guards nothing. -/
  | other (name : String)
  deriving DecidableEq, Repr

namespace Guard

/-- The name of a guard. -/
def name : Guard → String
  | none => "none"
  | conditional => "conditional"
  | alwaysFalse => "always-false"
  | other name => name

/-- The guard with a name. -/
def ofName (s : String) : Guard :=
  ([none, conditional, alwaysFalse].find? (·.name == s)).getD (other s)

end Guard

/-- How a security finding can be reached. -/
structure Exposure where
  verdict : Verdict
  source : String
  path : List String
  sink : String
  guard : Guard := .none
  conditions : List String := []
  mitigatingFactors : List String := []
  deriving DecidableEq, Repr

namespace Exposure

/-- Whether the finding can be reached at all. -/
def isReachable (a : Exposure) : Bool := a.verdict != .mitigated

/-- The way from the source to the sink, in one line. -/
def narrative (a : Exposure) : String :=
  a.source ++ " → " ++ Text.join " → " a.path ++ " → " ++ a.sink

end Exposure

/-- An issue of a pipeline definition. -/
structure Finding where
  category : Category
  severity : Severity
  title : String
  description : String
  file : String
  location : Option Location := none
  suggestion : Option String := none
  links : List String := []
  snippet : Option Snippet := none
  ruleId : String := ""
  id : String := ""
  origin : Origin := .rule
  reachability : Option Exposure := none
  deriving DecidableEq, Repr

namespace Finding

/-- Whether two optional locations are the same place. -/
def sameLocation : Option Location → Option Location → Bool
  | none, none => true
  | some a, some b => a.same b
  | _, _ => false

/-- Whether two findings say the same of the same place. -/
def same (a b : Finding) : Bool :=
  a.category == b.category && a.title == b.title && sameLocation a.location b.location

/-- The findings that repeat none of `seen`, each kept once. -/
def distinctFrom (seen : List Finding) : List Finding → List Finding
  | [] => []
  | f :: rest =>
    if seen.any (·.same f) then distinctFrom seen rest else f :: distinctFrom (f :: seen) rest

/-- The findings without repeats: of several that say the same of the same place, the first one
stays. -/
def distinct (findings : List Finding) : List Finding := distinctFrom [] findings

end Finding

end PipelineAudit
