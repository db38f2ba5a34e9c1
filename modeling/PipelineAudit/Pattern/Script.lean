import PipelineAudit.Pattern.Table

/-!
# Commands in scripts

Patterns for downloads that are executed at once, for commands that send data out, and for the
installation of dependencies.
-/

namespace PipelineAudit.Script

open Regex

/-- A program that downloads. -/
def downloader : Regex := words ["curl", "wget"]

/-- What stands between a download and the pipe after it. -/
def beforePipe : Regex := star (noneOf "|\n")

/-- Rights of the administrator, perhaps. -/
def optionalSudo : Regex := opt (lit "sudo" ++ blanks1)

/-- Downloads that are executed. -/
def remotePatterns : List NamedPattern := [
  { id := "curl-pipe-shell"
    regex := wordly downloader ++ beforePipe ++ lit "|" ++ blanks ++ optionalSudo
      ++ opt (words ["ba", "z", "da"]) ++ lit "sh" ++ boundary
    description := "download piped to a shell" },
  { id := "shell-process-substitution"
    regex := boundary ++ opt (words ["ba", "z"]) ++ lit "sh" ++ blanks1 ++ lit "<(" ++ blanks
      ++ downloader ++ boundary
    description := "shell reading a download" },
  { id := "shell-command-substitution"
    regex := boundary ++ opt (words ["ba", "z"]) ++ lit "sh" ++ blanks1 ++ lit "-c" ++ blanks1
      ++ opt (oneOf "\"'") ++ lit "$(" ++ blanks ++ downloader ++ boundary
    description := "shell executing a download" },
  { id := "powershell-iex"
    regex := (
      (wordly (words ["iex", "Invoke-Expression"]) ++ star (char .dot)
        ++ wordly (words ["iwr", "Invoke-WebRequest", "DownloadString"]))
      ||| (wordly (words ["iwr", "Invoke-WebRequest"]) ++ beforePipe ++ lit "|" ++ blanks
        ++ lit "iex" ++ boundary)).caseless
    description := "PowerShell download executed" },
  { id := "curl-pipe-python"
    regex := wordly downloader ++ beforePipe ++ lit "|" ++ blanks ++ optionalSudo ++ lit "python"
      ++ star (char (.decimal ||| .ofString ".")) ++ boundary
    description := "download piped to python" }]

/-- A program that can send data out. -/
def externalCommand : Regex :=
  notAfter (.word ||| .ofString "-") ++ words ["curl", "wget", "nc", "netcat", "ssh", "scp"]
    ++ notBefore (.word ||| .ofString "-")

/-- Commands that install dependencies, by ecosystem, in the order in which they are tried. -/
def installCommands : List (String × Regex) := [
  ("npm", boundary ++ choice [
    lit "npm" ++ blanks1 ++ words ["ci", "install", "i"] ++ boundary,
    lit "yarn" ++ opt (blanks1 ++ lit "install") ++ blanks ++ (lineEnd ||| lit "--"),
    lit "pnpm" ++ blanks1 ++ words ["i", "install"] ++ boundary]),
  ("pip", choice [
    boundary ++ (lit "pip" ++ opt (lit "3")
        ||| lit "python" ++ star (char (.decimal ||| .ofString ".")) ++ blanks1
          ++ lit "-m" ++ blanks1 ++ lit "pip")
      ++ blanks1 ++ lit "install" ++ boundary,
    wordly (lit "poetry" ++ blanks1 ++ lit "install"),
    wordly (lit "pipenv" ++ blanks1 ++ lit "install")]),
  ("maven", wordly (lit "mvn")),
  ("gradle", wordly (words ["gradle", "./gradlew"])),
  ("go", wordly (lit "go" ++ blanks1
    ++ choice [lit "mod" ++ blanks1 ++ lit "download", lit "build", lit "get"])),
  ("bundler", wordly (lit "bundle" ++ blanks1 ++ lit "install")),
  ("cargo", wordly (lit "cargo" ++ blanks1 ++ words ["build", "fetch"])),
  ("composer", wordly (lit "composer" ++ blanks1 ++ lit "install"))]

/-- The ecosystem whose dependencies a command installs. -/
def ecosystem? (command : String) : Option String :=
  (installCommands.find? fun entry => entry.2.occursIn command).map Prod.fst

/-- Actions that set up a language and can cache its dependencies. -/
def cachingSetupActions : List String :=
  ["actions/setup-node", "actions/setup-python", "actions/setup-java", "actions/setup-go",
   "actions/setup-dotnet", "ruby/setup-ruby"]

/-- Actions that cache. -/
def cacheActions : List String := ["actions/cache", "actions/cache/restore"]

end PipelineAudit.Script
