import PipelineAudit.Reachability

/-!
# Reports

The report on one file: its findings in order, a summary with a score, and the graph and
reachability they rest on. A file that cannot be analyzed has a report with an error instead.
-/

namespace PipelineAudit

/-- The numbers of a report. -/
structure Summary where
  total : Nat := 0
  errors : Nat := 0
  warnings : Nat := 0
  infos : Nat := 0
  score : Nat := 100
  deriving DecidableEq, Repr

namespace Summary

/-- What an error takes off the score. -/
def errorPenalty : Nat := 20

/-- What a warning takes off the score. -/
def warningPenalty : Nat := 10

/-- The score: 100 without findings, less for each error and warning, never below zero. -/
def scoreOf (errors warnings total : Nat) : Nat :=
  if total = 0 then 100 else 100 - (errorPenalty * errors + warningPenalty * warnings)

/-- The score for any numbers, in floating-point arithmetic: each error takes a fifth of one off,
each warning a tenth, and the rest counts in hundredths, a half going to the even neighbour. It
agrees with `scoreOf` on the numbers of a report. None if a number is too great. -/
def scoreOfInts? (errors warnings total : Int) : Option Nat :=
  if total = 0 then some 100
  else
    let weight := 2 * errors + warnings
    let tenths := Binary64.ofDecimal weight.natAbs (-1)
    let penalty := if weight < 0 then tenths.neg else tenths
    let score := Binary64.ofFloat ((1 - penalty.toFloat) * 100)
    if penalty.isInfinite || score.isInfinite then none else some score.round.toNat

/-- The number of findings of a severity. -/
def count (severity : Severity) (findings : List Finding) : Nat :=
  (findings.filter (·.severity == severity)).length

/-- The summary of findings. -/
def ofFindings (findings : List Finding) : Summary :=
  let errors := count .error findings
  let warnings := count .warning findings
  { total := findings.length
    errors := errors
    warnings := warnings
    infos := count .info findings
    score := scoreOf errors warnings findings.length }

end Summary

/-- The report on a file. -/
structure Report where
  fileId : String
  fileName : String
  findings : List Finding := []
  graph : Option JobGraph := none
  reachability : Option ExposureOverview := none
  summary : Summary := {}
  kind : Option PipelineKind := none
  error : Option String := none
  deriving Repr

namespace Report

/-- The report on a file that cannot be analyzed. -/
def failed (fileId fileName error : String) : Report :=
  { fileId := fileId, fileName := fileName, summary := { score := 0 }, error := some error }

/-- Whether the file could not be analyzed. -/
def isFailed (r : Report) : Bool := r.error.isSome

end Report

end PipelineAudit
