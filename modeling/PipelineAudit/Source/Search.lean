import PipelineAudit.Pattern.Regex
import PipelineAudit.Text.Blank
import PipelineAudit.Text.Lines
import PipelineAudit.Value.Basic

/-!
# Searching a source text by lines

Where a tree carries no positions, the lines of jobs and steps are found by their text: a job by the
line that starts with its key, a step by counting the dashes under the job's `steps:`. The module
also cuts the snippets that findings show.
-/

namespace PipelineAudit.Source

open Regex

/-- The number of the first line, at or after a start, that satisfies a test. -/
def lineFrom (p : String → Bool) : Nat → List String → Option Nat
  | _, [] => none
  | n, l :: rest => if p l then some n else lineFrom p (n + 1) rest

/-- The number of the first line, from a line on, that holds a text. -/
def findLine (source text : String) (start : Int) : Option Nat :=
  if text.isEmpty then none
  else
    let skipped := (start - 1).toNat
    lineFrom (fun l => Text.contains l text) (skipped + 1) ((Text.lines source).drop skipped)

/-- A value stands where the number of a line is needed. -/
inductive LineFault where
  | notALine
  deriving DecidableEq, Repr

/-- The line from which a search starts: the one that a value records, moved by some lines. Decimals
serve only where they lead to the first line. -/
def searchStart (line : Value) (moved : Int) : Except LineFault Int :=
  match line with
  | .int n => .ok (n + moved)
  | .bool b => .ok ((if b then 1 else 0) + moved)
  | .float x => if 0 < x.toFloat + Float.ofInt moved - 1 then .error .notALine else .ok 1
  | _ => .error .notALine

/-- The number of the first line that holds a text, from a recorded line on, moved by some lines. -/
def findLineFrom (source text : String) (line : Value) (moved : Int) :
    Except LineFault (Option Nat) :=
  if text.isEmpty then .ok none
  else (searchStart line moved).map (findLine source text)

/-- The number of leading blanks of a line. -/
def indent (line : String) : Nat := (line.toList.takeWhile Text.isBlank).length

/-- A quote that may stand around a key. -/
def optionalQuote : Regex := opt (oneOf "\"'")

/-- A line that starts with a key. -/
def keyLinePattern : Regex :=
  start ++ optionalQuote ++ plus (char (.alnum ||| .ofString "_.-")) ++ optionalQuote
    ++ blanks ++ lit ":"

/-- A line that starts with a given key. -/
def keyPattern (key : String) : Regex :=
  start ++ blanks ++ optionalQuote ++ lit key ++ optionalQuote ++ blanks ++ lit ":"

/-- The line of the key that defines a job. -/
def findJobLine (source jobId : String) : Option Nat :=
  let pattern := keyPattern jobId
  lineFrom pattern.matchesStart 1 (Text.lines source)

/-- What is known while the steps of a job are counted. -/
structure StepScan where
  /-- The indentation of the `steps:` key, once it is found. -/
  stepsIndent : Option Nat := none
  /-- The indentation of the dashes, once one is found. -/
  itemIndent : Option Nat := none
  /-- How many steps have been found. -/
  count : Nat := 0

/-- Looks for the step with an index in the lines after the job's key; `number` is the number of the
first of them. -/
def scanSteps (jobIndent : Nat) (index : Int) : StepScan → Nat → List String → Option Nat
  | _, _, [] => none
  | st, number, line :: rest =>
    let stripped := Text.trim line
    let here := indent line
    let isItem := Text.startsWith stripped "-"
    if stripped.isEmpty || Text.startsWith stripped "#" then
      scanSteps jobIndent index st (number + 1) rest
    else if here ≤ jobIndent && keyLinePattern.matchesStart stripped then none
    else match st.stepsIndent with
      | none =>
        let found := if Text.startsWith stripped "steps:" then some here else none
        scanSteps jobIndent index { st with stepsIndent := found } (number + 1) rest
      | some stepsIndent =>
        if here ≤ stepsIndent && !isItem then none
        else if isItem then
          let itemIndent := st.itemIndent.getD here
          let st := { st with itemIndent := some itemIndent }
          if here = itemIndent then
            if (st.count : Int) = index then some number
            else scanSteps jobIndent index { st with count := st.count + 1 } (number + 1) rest
          else scanSteps jobIndent index st (number + 1) rest
        else scanSteps jobIndent index st (number + 1) rest

/-- The line where a step of a job starts. -/
def findStepLine (source jobId : String) (index : Int) : Option Nat :=
  (findJobLine source jobId).bind fun jobLine =>
    let ls := Text.lines source
    let jobIndent := (ls[jobLine - 1]?.map indent).getD 0
    scanSteps jobIndent index {} (jobLine + 1) (ls.drop jobLine)

/-- Whether a text has a comment. -/
def isCommented (source : String) : Bool :=
  (Text.lines source).any fun line =>
    Text.startsWith (Text.trim line) "#" || (char .blank ++ lit "#").occursIn line

end PipelineAudit.Source
