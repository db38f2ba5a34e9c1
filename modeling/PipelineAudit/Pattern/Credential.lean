import PipelineAudit.Number.Binary64
import PipelineAudit.Pattern.Table

/-!
# Credentials

Patterns for tokens and keys in clear text, for assignments of secrets, and for names that suggest a
secret; and the measure of randomness that tells a literal secret from an ordinary word.
-/

namespace PipelineAudit.Credential

open Regex

/-- Letters and digits. -/
def alnum : Regex := char .alnum

/-- Tokens and keys with a fixed form. -/
def tokenPatterns : List NamedPattern := [
  { id := "github-token"
    regex := wordly (lit "gh" ++ oneOf "pousr" ++ lit "_" ++ atLeast 36 alnum)
    description := "GitHub token" },
  { id := "github-pat"
    regex := wordly (lit "github_pat_" ++ atLeast 22 (char (.alnum ||| .ofString "_")))
    description := "GitHub fine-grained token" },
  { id := "gitlab-token"
    regex := wordly (lit "glpat-" ++ atLeast 20 (char (.alnum ||| .ofString "_-")))
    description := "GitLab personal access token" },
  { id := "aws-access-key"
    regex := wordly (words ["AKIA", "ASIA"] ++ exactly 16 (char (.decimal ||| .range 'A' 'Z')))
    description := "AWS access key id" },
  { id := "slack-token"
    regex :=
      wordly (lit "xox" ++ oneOf "abprs" ++ lit "-" ++ atLeast 10 (char (.alnum ||| .ofString "-")))
    description := "Slack token" },
  { id := "stripe-live-key"
    regex := wordly (lit "sk_live_" ++ atLeast 20 alnum)
    description := "Stripe live secret key" },
  { id := "private-key"
    regex := lit "-----BEGIN " ++ opt (plus (char (.range 'A' 'Z')) ++ lit " ")
      ++ lit "PRIVATE KEY-----"
    description := "private key block" },
  { id := "google-api-key"
    regex := wordly (lit "AIza" ++ exactly 35 (char (.alnum ||| .ofString "_-")))
    description := "Google API key" },
  { id := "npm-token"
    regex := wordly (lit "npm_" ++ exactly 36 alnum)
    description := "npm access token" }]

/-- An assignment of a quoted text to a name, case ignored. -/
def assignment (key : Regex) (name : String) : NamedPattern :=
  { id := "assigned-" ++ String.ofList (name.toList.map fun c => if c = ' ' then '-' else c)
    regex := (boundary ++ key ++ blanks ++ oneOf ":=" ++ blanks ++ oneOf "'\""
      ++ atLeast 4 (char (.alnum ||| .ofString "_-./+")) ++ oneOf "'\"").caseless
    description := name }

/-- The word for an API key. -/
def apiKey : Regex := lit "api" ++ opt (oneOf "_-") ++ lit "key"

/-- Assignments of secrets. -/
def assignmentPatterns : List NamedPattern := [
  assignment (lit "password") "password",
  assignment (lit "passwd") "password",
  assignment (lit "token") "token",
  assignment apiKey "API key",
  assignment (lit "secret") "secret"]

/-- All patterns for credentials, in the order in which they are tried. -/
def patterns : List NamedPattern := tokenPatterns ++ assignmentPatterns

/-- A name that suggests a secret. -/
def secretLikeKey : Regex :=
  (choice [lit "password", lit "passwd", lit "secret", lit "token", apiKey,
    lit "private" ++ opt (oneOf "_-") ++ lit "key", lit "credential", lit "auth"]).caseless

/-- A name of a shell variable. -/
def variableName : Regex :=
  char (.letter ||| .ofString "_") ++ star (char (.alnum ||| .ofString "_"))

/-- A reference to a value rather than the value itself. -/
def expression : Regex := choice [
  exprOpen ++ lazyStar (char .dot) ++ exprClose,
  lit "$" ++ variableName,
  lit "$\x7b" ++ variableName ++ lit "\x7d"]

/-! ## Randomness -/

/-- The least length of a literal secret. -/
def minSecretLength : Nat := 16

/-- The least entropy of a literal secret, in bits per character. -/
def minSecretEntropy : Float := 3.5

/-- How often each character occurs, in the order of their first occurrence. -/
def counts (cs : List Char) : List Nat :=
  cs.eraseDups.map fun c => cs.count c

/-- The entropy of a text in bits per character. -/
def entropy (text : String) : Float :=
  let cs := text.toList
  if cs.isEmpty then 0
  else
    let length := Float.ofNat cs.length
    let total := (counts cs).foldl (fun sum n =>
      let share := Float.ofNat n / length
      sum + share * share.log2) 0
    Neg.neg total

/-- Whether a value looks like a literal secret and not like a reference to one. -/
def isHighEntropy : Value → Bool
  | .str s =>
    let text := Text.trim s
    !(text.length < minSecretLength || text.toList.contains ' ' || expression.occursIn text)
      && minSecretEntropy ≤ entropy text
  | _ => false

/-! ## References to secrets -/

/-- An expression that uses a secret by name. -/
def secretReference : Regex :=
  exprOpen ++ star (noneOf "\x7d") ++ boundary ++ lit "secrets."
    ++ plus (char (.alnum ||| .ofString "_")) ++ star (noneOf "\x7d") ++ exprClose

/-- A variable that holds a secret. -/
def secretVariable : Regex :=
  lit "$" ++ opt (lit "\x7b")
    ++ choice [lit "CI_JOB_TOKEN", lit "CI_REGISTRY_PASSWORD", lit "CI_DEPLOY_PASSWORD",
      star (char (.range 'A' 'Z' ||| .decimal ||| .ofString "_"))
        ++ words ["TOKEN", "PASSWORD", "SECRET", "API_KEY"]]
    ++ opt (lit "\x7d")

/-- All secrets at once, as text. -/
def allSecretsAsText : Regex :=
  (lit "toJSON(" ++ blanks ++ lit "secrets" ++ blanks ++ lit ")").caseless

end PipelineAudit.Credential
