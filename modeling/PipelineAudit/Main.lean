import Std.Time
import PipelineAudit.Cli.Run

/-!
# The command line tool

The outermost layer: files, clock and environment of the machine, and the streams that the outcome
of a run is written to.
-/

namespace PipelineAudit

/-- What a path of the machine leads to. -/
def machineKind? (path : String) : IO (Option EntryKind) := do
  if path.isEmpty then return none
  let place := (← IO.currentDir) / path
  if ← place.isDir then return some .directory
  else if ← place.pathExists then return some .file
  else return none

/-- A step that fails with a fault where the machine refuses it. -/
def orFault {α : Type} (fault : FileFault) (step : IO α) : IO (Except FileFault α) := do
  try return .ok (← step)
  catch _ => return .error fault

instance : FileStore IO where
  kind? := machineKind?
  read path := do
    match ← machineKind? path with
    | some .directory => return .error (.isDirectory path)
    | some .file => orFault (.missing path) do return (← IO.FS.readBinFile path).toList
    | none => return .error (.missing path)
  names path := do
    return (← ((← IO.currentDir) / path).readDir).toList.map (·.fileName)
  write path text := do
    if (← machineKind? path) == some .directory then return .error (.isDirectory path)
    else orFault (.missing path) (IO.FS.writeFile path text)
  makeParents path := do
    match ((← IO.currentDir) / path).parent with
    | some parent => orFault (.occupied parent.toString) (IO.FS.createDirAll parent)
    | none => return .ok ()
  workingDirectory := do return (← IO.currentDir).toString
  homeDirectory := do return (← IO.getEnv "HOME").getD "/"

/-- The time of the machine. -/
def machineTime : IO Moment := do
  let now ← Std.Time.PlainDateTime.now
  return {
    date := ⟨now.year.toInt.toNat, now.month.val.toNat, now.day.val.toNat⟩
    hour := now.hour.val.toNat
    minute := now.minute.val.toNat
    second := now.second.val.toNat
    microsecond := now.nanosecond.val.toNat / 1000
    offset := none }

/-- A failure that no command deals with, in words. -/
def Failure.message : Failure → String
  | .document (.rejected why) => why.text
  | .document (.fault why) => (why.message?).getD "a value of the document cannot be read"
  | .document (.number why) => why.message
  | .document .line => "a line of the document is no number"
  | .line => "a line of the document is no number"
  | .setting _ => "the configuration cannot be used"
  | .number why => why.message
  | .config why => why.message
  | .text why => why.message
  | .yaml (.problem p) name => p.describe name
  | .yaml (.fault why) _ => (why.message?).getD "a value of the file cannot be read"
  | .file why => why.message
  | .nullInPath => FileFault.nullInPath.message
  | .exit status => "exit " ++ toString status

end PipelineAudit

open PipelineAudit in
/-- Runs the tool. -/
def main (args : List String) : IO UInt32 := do
  let out ← IO.getStdout
  let err ← IO.getStderr
  let noColor := (← IO.getEnv "NO_COLOR").getD ""
  let world : Cli.Surroundings :=
    { color := noColor.isEmpty, terminal := ← out.isTty, now := ← machineTime }
  let outcome ← (Cli.run world args : IO Cli.Outcome)
  out.putStr outcome.out
  err.putStr (Text.join "" (outcome.log.map fun n => n.line ++ "\n"))
  err.putStr outcome.err
  match outcome.failure with
  | some why => err.putStrLn why.message
  | none => pure ()
  return UInt32.ofNat outcome.status
