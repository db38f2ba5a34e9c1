import PipelineAudit.Text.Lines

/-!
# Command-line arguments

Options have long names. A flag stands alone; any other option takes a value, which follows an
equals sign or is the next argument, whatever that looks like. Two dashes end the options. Where
operands do not mix with options, the first operand ends them too.
-/

namespace PipelineAudit.Cli

/-- What an option takes. -/
inductive ValueKind where
  /-- Nothing: the option is a flag. -/
  | nothing
  | text
  /-- One of some words. -/
  | choice (words : List String)
  /-- The path of a file, which need not exist. -/
  | path
  deriving DecidableEq, Repr

/-- An option that a command understands. -/
structure OptionSpec where
  name : String
  kind : ValueKind := .text
  deriving DecidableEq, Repr

/-- A flag. -/
def flag (name : String) : OptionSpec := ⟨name, .nothing⟩

/-- Whether an option takes a value. -/
def OptionSpec.takesValue (o : OptionSpec) : Bool := o.kind != .nothing

/-- Why a command line makes no sense. -/
inductive UsageFault where
  | unknownOption (option : String)
  | valueMissing (option : String)
  | valueUnexpected (option : String)
  | badChoice (option value : String) (choices : List String)
  | unknownCommand (name : String)
  | operandMissing (name : String)
  | operandsUnexpected (operands : List String)
  | nothingAt (path : String)
  | directoryAt (path : String)
  /-- A path holds the null character, so that nothing can be looked up. -/
  | nullInPath
  deriving DecidableEq, Repr

/-- What is wrong with a command line, in words. -/
def UsageFault.message : UsageFault → String
  | unknownOption option => "No such option: " ++ option
  | valueMissing option => "Option '" ++ option ++ "' requires an argument."
  | valueUnexpected option => "Option '" ++ option ++ "' does not take a value."
  | badChoice option value choices =>
    "Invalid value for '" ++ option ++ "': '" ++ value ++ "' is not one of "
      ++ Text.join ", " choices ++ "."
  | unknownCommand name => "No such command '" ++ name ++ "'."
  | operandMissing name => "Missing argument '" ++ name ++ "'."
  | operandsUnexpected operands =>
      "Got unexpected extra arguments (" ++ Text.join " " operands ++ ")"
  | nothingAt path => "Path '" ++ path ++ "' does not exist."
  | directoryAt path => "File '" ++ path ++ "' is a directory."
  | nullInPath => "embedded null byte"

/-- The options given, with their values in the order they were given, and the operands. A flag is
given with an empty value. -/
structure Arguments where
  given : List (String × String) := []
  operands : List String := []
  deriving DecidableEq, Repr

namespace Arguments

/-- The arguments with an option before the others. -/
def withOption (name value : String) (a : Arguments) : Arguments :=
  { a with given := (name, value) :: a.given }

/-- The arguments with an operand before the others. -/
def withOperand (operand : String) (a : Arguments) : Arguments :=
  { a with operands := operand :: a.operands }

/-- Whether an argument is written as an option. -/
def looksLikeOption (arg : String) : Bool := Text.startsWith arg "-" && arg != "-"

/-- The name and, behind an equals sign, the value of an option. -/
def splitOption (arg : String) : String × Option String :=
  if arg.toList.contains '=' then
    let (name, value) := Text.cut '=' arg
    (name, some value)
  else (arg, none)

/-- Reads arguments. -/
def parse (specs : List OptionSpec) (mixed : Bool) : List String → Except UsageFault Arguments
  | [] => .ok {}
  | arg :: rest =>
    if arg == "--" then .ok { operands := rest }
    else if looksLikeOption arg then
      let (name, value) := splitOption arg
      match (specs.find? (·.name == name)).map OptionSpec.takesValue, value with
      | none, _ => .error (.unknownOption name)
      | some false, some _ => .error (.valueUnexpected name)
      | some false, none => (parse specs mixed rest).map (withOption name "")
      | some true, some value => (parse specs mixed rest).map (withOption name value)
      | some true, none =>
        match rest with
        | [] => .error (.valueMissing name)
        | value :: rest => (parse specs mixed rest).map (withOption name value)
    else if mixed then (parse specs mixed rest).map (withOperand arg)
    else .ok { operands := arg :: rest }

/-- Whether an option is given. -/
def has (a : Arguments) (name : String) : Bool := a.given.any (·.1 == name)

/-- All values given for an option. -/
def values (a : Arguments) (name : String) : List String :=
  (a.given.filter (·.1 == name)).map Prod.snd

/-- The last value given for an option. -/
def value? (a : Arguments) (name : String) : Option String := (a.values name).getLast?

/-- Checks the value of an option. -/
def checkValue (name value : String) : ValueKind → Except UsageFault Unit
  | .nothing | .text => .ok ()
  | .choice words => if words.contains value then .ok () else .error (.badChoice name value words)
  | .path => if value.toList.contains (Char.ofNat 0) then .error .nullInPath else .ok ()

/-- Checks the values of the options in the order in which they were given. Of an option that was
given several times the last value counts. -/
def check (specs : List OptionSpec) (a : Arguments) : Except UsageFault Unit :=
  ((a.given.map Prod.fst).eraseDups).forM fun name =>
    match specs.find? (·.name == name), a.value? name with
    | some spec, some value => checkValue name value spec.kind
    | _, _ => .ok ()

/-- Refuses operands. -/
def noOperands (a : Arguments) : Except UsageFault Unit :=
  if a.operands.isEmpty then .ok () else .error (.operandsUnexpected a.operands)

end Arguments

end PipelineAudit.Cli
