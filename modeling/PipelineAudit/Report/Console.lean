import PipelineAudit.Report.Basic

/-!
# Reports for a terminal

Texts can be coloured by escape sequences; without colours the texts stay as they are.
-/

namespace PipelineAudit

/-- A colour of the terminal. -/
inductive Color where
  | red
  | green
  | yellow
  | blue
  | magenta
  | cyan
  deriving DecidableEq, Repr

namespace Color

/-- The code of a colour. -/
def code : Color → Nat
  | red => 31
  | green => 32
  | yellow => 33
  | blue => 34
  | magenta => 35
  | cyan => 36

/-- The name of a colour. -/
def name : Color → String
  | red => "red"
  | green => "green"
  | yellow => "yellow"
  | blue => "blue"
  | magenta => "magenta"
  | cyan => "cyan"

end Color

namespace Console

/-- How reports are shown. -/
structure Style where
  verbose : Bool := false
  showSnippets : Bool := true
  showGraph : Bool := false
  showSummary : Bool := true
  color : Bool := false
  deriving DecidableEq, Repr

/-- An escape sequence. -/
def escape (code : Nat) : String := "\x1b[" ++ toString code ++ "m"

/-- A text in a colour, bold or not, with escape sequences. -/
def styled (text : String) (color : Option Color) (bold : Bool) : String :=
  ((color.map fun c => escape c.code).getD "") ++ (if bold then escape 1 else escape 22)
    ++ text ++ escape 0

/-- A text in a colour, if colours are used. -/
def paint (style : Style) (text : String) (color : Option Color) (bold : Bool) : String :=
  if style.color then styled text color bold else text

/-- The colour of a severity. -/
def severityColor : Severity → Color
  | .error => .red
  | .warning => .yellow
  | .info => .blue

/-- The symbol of a severity. -/
def severitySymbol : Severity → String
  | .error => "✖"
  | .warning => "⚠"
  | .info => "ℹ"

/-- The severity in capitals. -/
def severityLabel : Severity → String
  | .error => "ERROR"
  | .warning => "WARNING"
  | .info => "INFO"

/-- The colour of a score. -/
def gradeColor (score : Int) : Color :=
  if 80 ≤ score then .green else if 50 ≤ score then .yellow else .red

/-- The severities from the highest to the lowest. -/
def severities : List Severity := [.error, .warning, .info]

/-- A line of text. -/
def ln (parts : List String) : String := Text.join "" parts ++ "\n"

/-- Where a finding is. -/
def place (f : Finding) : String :=
  match f.location with
  | none => f.file
  | some l =>
    let line := if l.line.isNull then "" else ":" ++ l.line.display
    let job := match l.job with
      | none => ""
      | some job =>
        " (job: " ++ job ++ ((l.step.map fun s => ", step: " ++ toString (s.number + 1)).getD "")
          ++ ")"
    f.file ++ line ++ job

/-- A row of a snippet. -/
def snippetRow (s : Snippet) (offset : Nat) (text : String) : String :=
  let marker := if s.highlight.same (.int (offset + 1)) then ">" else " "
  ln ["    ", marker, " ", Text.padLeft 4 (toString (s.startLine + offset)), " | ", text]

/-- The rows of a snippet. -/
def snippetRows (s : Snippet) : List String :=
  (Text.lines s.content).zipIdx.map fun (text, offset) => snippetRow s offset text

/-- How a finding is reached. -/
def reachabilityText (style : Style) (a : Exposure) : String :=
  ln ["  Reachability: ", a.verdict.name]
    ++ (if style.verbose then ln ["    ", a.narrative] else "")

/-- A finding. -/
def findingText (style : Style) (f : Finding) : String :=
  let label := paint style (severityLabel f.severity) (some (severityColor f.severity)) false
  ln [severitySymbol f.severity, " ", label, " [", f.category.name, "] ", f.title]
    ++ ln ["  ", f.description]
    ++ ln ["  Location: ", place f]
    ++ (f.reachability.map (reachabilityText style)).getD ""
    ++ ((f.suggestion.bind nonEmpty?).map fun s => ln ["  Suggestion: ", s]).getD ""
    ++ (if style.verbose then
        ln ["  Rule: ", (nonEmpty? f.ruleId).getD "-", " (", f.origin.name, ")"]
          ++ Text.join "" (f.links.map fun link => ln ["  See: ", link])
      else "")
    ++ (if style.showSnippets then Text.join "" ((f.snippet.map snippetRows).getD []) else "")

/-- A rule under a heading. -/
def ruler : String := String.ofList (List.replicate 50 '=') ++ "\n"

/-- A heading. -/
def heading (style : Style) (text : String) : String :=
  "\n" ++ paint style text none true ++ "\n" ++ ruler

/-- A dependency. -/
def edgeText (e : Edge) : String :=
  let details := ((e.details.bind nonEmpty?).map fun d => " (" ++ d ++ ")").getD ""
  ln ["  ", e.source, " → ", e.target, " [", e.kind.word, "]", details]

/-- The graph of jobs. -/
def graphText (style : Style) (g : JobGraph) : String :=
  heading style "Job Dependencies"
    ++ (if g.edges.isEmpty then "No dependencies between jobs.\n" else "")
    ++ Text.join "" (g.edges.map edgeText)
    ++ (if g.levels.isEmpty then ""
      else "\nExecution levels:\n" ++ Text.join "" (g.levels.zipIdx.map fun (level, i) =>
        ln ["  ", toString (i + 1), ". ", Text.join ", " level]))
    ++ (g.criticalPaths.head?.map fun path =>
      ln ["\nCritical path: ", JobGraph.arrows path]).getD ""
    ++ (if g.isolated.isEmpty then "" else ln ["Isolated jobs: ", Text.join ", " g.isolated])
    ++ (if g.cyclic.isEmpty then ""
      else paint style ("Jobs in or behind a cycle: " ++ Text.join ", " g.cyclic) (some .red) false
        ++ "\n")

/-- A truth value in words. -/
def yesNo (b : Bool) : String := if b then "yes" else "no"

/-- How findings are reached. -/
def exposureText (style : Style) (d : ExposureOverview) : String :=
  heading style "Reachability"
    ++ ln ["Triggers: ", (nonEmpty? (Text.join ", " d.context.triggers)).getD "-"]
    ++ ln ["Privileged triggers: ", yesNo d.context.hasPrivilegedTriggers]
    ++ ln ["Secrets in scope: ", yesNo d.context.hasSecrets]
    ++ ln ["Conditional jobs: ", toString d.context.conditionalJobs]
    ++ ln ["Security issues: ", toString d.stats.total, " total, ", toString d.stats.reachable,
      " reachable, ", toString d.stats.highRisk, " high risk, ", toString d.stats.mitigated,
        " mitigated"]

/-- The findings, the worst ones first. -/
def findingsText (style : Style) (findings : List Finding) : String :=
  Text.join "" (severities.flatMap fun severity =>
    (findings.filter (·.severity == severity)).map fun f => "\n" ++ findingText style f)

/-- The report on a file. -/
def reportText (style : Style) (r : Report) : String :=
  let title := "\n" ++ paint style ("File: " ++ r.fileName) none true ++ "\n"
  match r.error with
  | some error => title ++ paint style ("  Analysis failed: " ++ error) (some .red) false ++ "\n"
  | none =>
    title
      ++ (r.kind.map fun k => ln ["  Workflow type: ", k.word]).getD ""
      ++ (if r.findings.isEmpty then "  No issues found.\n" else "")
      ++ findingsText style r.findings
      ++ (if style.showGraph then
          (r.graph.map (graphText style)).getD ""
            ++ (r.reachability.map (exposureText style)).getD ""
        else "")

/-- The number of issues of a severity in a summary. -/
def issueCount (severity : Severity) (s : Summary) : Nat :=
  match severity with
  | .error => s.errors
  | .warning => s.warnings
  | .info => s.infos

/-- The number of issues of all reports. -/
def totalIssues (reports : List Report) : Nat := sumOf (reports.map fun r => r.summary.total)

/-- The issues of one severity. -/
def severityRow (style : Style) (reports : List Report) (severity : Severity) : String :=
  let count := sumOf (reports.map fun r => issueCount severity r.summary)
  if count = 0 then ""
  else ln ["  ", paint style severity.name (some (severityColor severity)) false, ": ",
    toString count]

/-- The score of a file. -/
def scoreRow (style : Style) (r : Report) : String :=
  let score := r.summary.score
  ln ["  ", r.fileName, ": ", paint style (toString score) (some (gradeColor score)) false, "/100"]

/-- The numbers of all reports. -/
def summaryText (style : Style) (reports : List Report) : String :=
  let failed := (reports.filter Report.isFailed).length
  heading style "Analysis Summary"
    ++ ln ["Total files analyzed: ", toString reports.length]
    ++ (if failed = 0 then "" else ln ["Files that could not be analyzed: ", toString failed])
    ++ ln ["Total issues found: ", toString (totalIssues reports)]
    ++ "\nIssues by severity:\n"
    ++ Text.join "" (severities.map (severityRow style reports))
    ++ "\nScores:\n"
    ++ Text.join "" (reports.map (scoreRow style))

/-- All reports. -/
def text (style : Style) (reports : List Report) : String :=
  Text.join "" (reports.map (reportText style))
    ++ (if style.showSummary then summaryText style reports else "")

end Console

end PipelineAudit
