import PipelineAudit.Yaml.Error

/-!
# Tokens

The tokens of a YAML text: indicators, scalars, and the marks of where block collections start and
end, which the indentation gives.
-/

namespace PipelineAudit.Yaml

/-- The value of a directive. -/
inductive Directive where
  | version (major minor : Nat)
  | handle (handle head : String)
  | other (name : String)
  deriving DecidableEq, Repr

/-- What a token is. -/
inductive TokenKind where
  | streamEnd
  | directive (d : Directive)
  | documentStart
  | documentEnd
  | blockSequenceStart
  | blockMappingStart
  | blockEnd
  | flowSequenceStart
  | flowSequenceEnd
  | flowMappingStart
  | flowMappingEnd
  | flowEntry
  | blockEntry
  | key
  | value
  | aliasOf (name : String)
  | anchor (name : String)
  | tag (handle : Option String) (suffix : String)
  | scalar (text : String) (plain : Bool)
  deriving DecidableEq, Repr

/-- A token with its place. -/
structure Token where
  kind : TokenKind
  start : Mark
  stop : Mark
  deriving DecidableEq, Repr

/-- How a token is named in messages. -/
def TokenKind.label : TokenKind → String
  | streamEnd => "<stream end>"
  | directive _ => "<directive>"
  | documentStart => "<document start>"
  | documentEnd => "<document end>"
  | blockSequenceStart => "<block sequence start>"
  | blockMappingStart => "<block mapping start>"
  | blockEnd => "<block end>"
  | flowSequenceStart => "["
  | flowSequenceEnd => "]"
  | flowMappingStart => "\x7b"
  | flowMappingEnd => "\x7d"
  | flowEntry => ","
  | blockEntry => "-"
  | key => "?"
  | value => ":"
  | aliasOf _ => "<alias>"
  | anchor _ => "<anchor>"
  | tag _ _ => "<tag>"
  | scalar _ _ => "<scalar>"

/-- The tokens that could be read, and the error that ended the reading early, if any. The tokens
before an error are those that are certain: no later character could have put a token before
them. -/
structure TokenStream where
  tokens : List Token
  failure : Option Error
  deriving Repr

end PipelineAudit.Yaml
