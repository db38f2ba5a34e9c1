import PipelineAudit.Yaml.Passage
import PipelineAudit.Yaml.Token.Name
import PipelineAudit.Yaml.Token.Scalar

/-!
# From text to tokens

`Token.scan` reads the tokens of a passage. A key need not be announced: whether a scalar, alias or
flow collection is a key shows only when a colon follows on the same line, within 1024 characters.
Until then it is kept as a possible key, together with the number of the token it would stand
before; when the colon comes, the key token (and perhaps the start of a block mapping) is put in at
that place.

The tokens from the first possible key on are not certain yet. When reading fails, the stream holds
only the tokens that were certain before the failing step, so a reader of tokens meets its own
complaints about them before the failure.
-/

namespace PipelineAudit.Yaml

/-- A place where a key may have started. -/
structure SimpleKey where
  /-- How many tokens stand before it. -/
  tokenNumber : Nat
  /-- Whether a colon has to follow. -/
  required : Bool
  mark : Mark
  deriving Repr

/-- The state of reading tokens. -/
structure Lexer where
  input : Input
  /-- Nesting of flow collections; a stray closing bracket makes it negative. -/
  flowLevel : Int := 0
  /-- The tokens so far, latest first. -/
  tokens : List Token := []
  /-- How many tokens there are. -/
  count : Nat := 0
  /-- The column of the current block collection. -/
  indent : Int := -1
  /-- The columns of the enclosing block collections. -/
  indents : List Int := []
  /-- Whether a key may start here without being announced. -/
  allowKey : Bool := true
  /-- The possible keys, by flow level. -/
  keys : List (Int × SimpleKey) := []
  done : Bool := false

namespace Lexer

/-- The current position. -/
def mark (lx : Lexer) : Mark := lx.input.mark

/-- The current column. -/
def column (lx : Lexer) : Int := lx.mark.column

/-- Whether the position is inside a flow collection. -/
def inFlow (lx : Lexer) : Bool := lx.flowLevel != 0

/-- Adds a token. -/
def push (lx : Lexer) (t : Token) : Lexer :=
  { lx with tokens := t :: lx.tokens, count := lx.count + 1 }

/-- Adds a token of no length at the current position. -/
def pushHere (lx : Lexer) (kind : TokenKind) : Lexer := lx.push ⟨kind, lx.mark, lx.mark⟩

/-- Puts a token before the tokens from a number on. -/
def insertAt (lx : Lexer) (number : Nat) (t : Token) : Lexer :=
  let later := lx.count - number
  { lx with
    tokens := lx.tokens.take later ++ t :: lx.tokens.drop later
    count := lx.count + 1 }

/-- Adds an indicator of some length and moves past it. -/
def pushIndicator (lx : Lexer) (kind : TokenKind) (length : Nat) : Lexer :=
  let after := lx.input.forward length
  { lx.push ⟨kind, lx.mark, after.mark⟩ with input := after }

/-! ## Possible keys -/

/-- The possible key of the current flow level. -/
def currentKey? (lx : Lexer) : Option SimpleKey :=
  (lx.keys.find? (·.1 == lx.flowLevel)).map Prod.snd

/-- The state without the possible key of the current level. -/
def eraseKey (lx : Lexer) : Lexer :=
  { lx with keys := lx.keys.filter (·.1 != lx.flowLevel) }

/-- Gives up the possible key of the current level; an error if a colon had to follow. -/
def dropKey (lx : Lexer) : Except Error Lexer :=
  match lx.currentKey? with
  | some key =>
    if key.required then .error (.within .simpleKeyUnclosed key.mark lx.mark) else .ok lx.eraseKey
  | none => .ok lx

/-- Notes that a key may start here. -/
def saveKey (lx : Lexer) : Except Error Lexer :=
  if lx.allowKey then do
    let required := !lx.inFlow && lx.indent == lx.column
    let lx ← lx.dropKey
    return { lx with keys := lx.keys ++ [(lx.flowLevel, ⟨lx.count, required, lx.mark⟩)] }
  else .ok lx

/-- The greatest distance between the start of a key and its colon. -/
def keyReach : Nat := 1024

/-- Whether a possible key lies too far back. -/
def isStale (lx : Lexer) (key : SimpleKey) : Bool :=
  key.mark.line != lx.mark.line || keyReach < lx.mark.index - key.mark.index

/-- Gives up the possible keys that lie too far back. -/
def dropStaleKeys (lx : Lexer) : Except Error Lexer :=
  match lx.keys.find? (fun entry => lx.isStale entry.2 && entry.2.required) with
  | some (_, key) => .error (.within .simpleKeyUnclosed key.mark lx.mark)
  | none => .ok { lx with keys := lx.keys.filter fun entry => !lx.isStale entry.2 }

/-- How many tokens are certain: those before the first possible key. -/
def certain (lx : Lexer) : Nat :=
  lx.keys.foldl (fun n entry => min n entry.2.tokenNumber) lx.count

/-! ## Indentation -/

/-- Closes the block collections that are indented more than a column; the list holds the columns
around the current one. -/
def unwindFrom (column : Int) : List Int → Lexer → Lexer
  | [], lx => lx
  | outer :: rest, lx =>
    if column < lx.indent then
      unwindFrom column rest { lx.pushHere .blockEnd with indent := outer, indents := rest }
    else lx

/-- Closes the block collections that are indented more than a column. -/
def unwind (lx : Lexer) (column : Int) : Lexer :=
  if lx.inFlow then lx else unwindFrom column lx.indents lx

/-- Opens a block collection at a column, if it is indented more than the current one; the flag
tells whether it was opened. -/
def addIndent (lx : Lexer) (column : Int) : Bool × Lexer :=
  if lx.indent < column then
    (true, { lx with indents := lx.indent :: lx.indents, indent := column })
  else (false, lx)

/-! ## Single tokens -/

/-- Skips blanks, comments and line ends. -/
def skipGap : Nat → Lexer → Lexer
  | 0, lx => lx
  | fuel + 1, lx =>
    let inp := lx.input.dropWhile (· == ' ')
    let inp := if inp.peek == '#' then inp.dropWhile (fun c => !(isBreakOrEnd c)) else inp
    if isBreak inp.peek then
      skipGap fuel { lx with
        input := inp.lineBreak.2
        allowKey := if lx.inFlow then lx.allowKey else true }
    else { lx with input := inp }

/-- The end of the text: all collections are closed. -/
def fetchEnd (lx : Lexer) : Except Error Lexer := do
  let lx ← (lx.unwind (-1)).dropKey
  return { lx.pushHere .streamEnd with allowKey := false, keys := [], done := true }

/-- A directive. -/
def fetchDirective (lx : Lexer) : Except Error Lexer := do
  let lx ← (lx.unwind (-1)).dropKey
  let (token, inp) ← lx.input.readDirective
  return { lx.push token with allowKey := false, input := inp }

/-- A document separator. -/
def fetchSeparator (lx : Lexer) (kind : TokenKind) : Except Error Lexer := do
  let lx ← (lx.unwind (-1)).dropKey
  return { lx.pushIndicator kind 3 with allowKey := false }

/-- An opening bracket. -/
def fetchFlowStart (lx : Lexer) (kind : TokenKind) : Except Error Lexer := do
  let lx ← lx.saveKey
  return { lx.pushIndicator kind 1 with allowKey := true, flowLevel := lx.flowLevel + 1 }

/-- A closing bracket. -/
def fetchFlowEnd (lx : Lexer) (kind : TokenKind) : Except Error Lexer := do
  let lx ← lx.dropKey
  return { lx.pushIndicator kind 1 with allowKey := false, flowLevel := lx.flowLevel - 1 }

/-- A comma between items. -/
def fetchFlowEntry (lx : Lexer) : Except Error Lexer := do
  let lx ← lx.dropKey
  return { lx.pushIndicator .flowEntry 1 with allowKey := true }

/-- The start of a block collection at the current position, where one has to be opened. -/
def openBlock (lx : Lexer) (kind : TokenKind) : Lexer :=
  let (opened, lx) := lx.addIndent lx.column
  if opened then lx.pushHere kind else lx

/-- The dash of a block item. -/
def fetchBlockEntry (lx : Lexer) : Except Error Lexer := do
  let lx ←
    if lx.inFlow then pure lx
    else if !lx.allowKey then throw (.here .sequenceEntryNotAllowed lx.mark)
    else pure (lx.openBlock .blockSequenceStart)
  let lx ← lx.dropKey
  return { lx.pushIndicator .blockEntry 1 with allowKey := true }

/-- The question mark of an announced key. -/
def fetchKey (lx : Lexer) : Except Error Lexer := do
  let lx ←
    if lx.inFlow then pure lx
    else if !lx.allowKey then throw (.here .mappingKeyNotAllowed lx.mark)
    else pure (lx.openBlock .blockMappingStart)
  let lx ← lx.dropKey
  return { lx.pushIndicator .key 1 with allowKey := !lx.inFlow }

/-- A colon: it turns the possible key into a key, or stands alone. -/
def fetchValue (lx : Lexer) : Except Error Lexer :=
  match lx.currentKey? with
  | some key =>
    let lx := lx.eraseKey.insertAt key.tokenNumber ⟨.key, key.mark, key.mark⟩
    let lx :=
      if lx.inFlow then lx
      else
        let (opened, lx) := lx.addIndent key.mark.column
        if opened then lx.insertAt key.tokenNumber ⟨.blockMappingStart, key.mark, key.mark⟩ else lx
    .ok { lx.pushIndicator .value 1 with allowKey := false }
  | none => do
    let lx ←
      if lx.inFlow then pure lx
      else if !lx.allowKey then throw (.here .mappingValueNotAllowed lx.mark)
      else pure (lx.openBlock .blockMappingStart)
    let lx ← lx.dropKey
    return { lx.pushIndicator .value 1 with allowKey := !lx.inFlow }

/-- An alias or an anchor. -/
def fetchAnchor (lx : Lexer) : Except Error Lexer := do
  let lx ← lx.saveKey
  let (token, inp) ← lx.input.readAnchor
  return { lx.push token with allowKey := false, input := inp }

/-- A tag. -/
def fetchTag (lx : Lexer) : Except Error Lexer := do
  let lx ← lx.saveKey
  let (token, inp) ← lx.input.readTag
  return { lx.push token with allowKey := false, input := inp }

/-- A block scalar. -/
def fetchBlockScalar (lx : Lexer) (folded : Bool) : Except Error Lexer := do
  let lx ← lx.dropKey
  let (token, inp) ← lx.input.readBlock folded lx.indent
  return { lx.push token with allowKey := true, input := inp }

/-- A quoted scalar. -/
def fetchQuoted (lx : Lexer) (double : Bool) : Except Error Lexer := do
  let lx ← lx.saveKey
  let (token, inp) ← lx.input.readQuoted double
  return { lx.push token with allowKey := false, input := inp }

/-- A plain scalar. -/
def fetchPlain (lx : Lexer) : Except Error Lexer := do
  let lx ← lx.saveKey
  let (token, lineEnded, inp) := lx.input.readPlain lx.inFlow lx.indent
  return { lx.push token with allowKey := lineEnded, input := inp }

/-- Whether a plain scalar can start here. -/
def startsPlain (lx : Lexer) : Bool :=
  let c := lx.input.peek
  !(isWhite c || "-?:,[]\x7b\x7d#&*!|>'\"%@\x60".toList.contains c)
    || (!(isWhite (lx.input.peekAt 1)) && (c == '-' || (!lx.inFlow && (c == '?' || c == ':'))))

/-- Whether a document separator of the given character starts here. -/
def atLineSeparator (lx : Lexer) (c : Char) : Bool :=
  lx.column == 0 && lx.input.rest.take 3 == [c, c, c] && isWhite (lx.input.peekAt 3)

/-- Reads the next token, together with the tokens that the indentation gives. -/
def fetch (lx : Lexer) : Except Error Lexer := do
  let gapFuel := lx.input.rest.length + 1
  let start := if lx.mark.index = 0 && lx.input.peek.toNat == 0xFEFF then
      { lx with input := lx.input.forward 1 } else lx
  let lx ← (skipGap gapFuel start).dropStaleKeys
  let lx := lx.unwind lx.column
  let c := lx.input.peek
  let white1 := isWhite (lx.input.peekAt 1)
  if c == endChar then lx.fetchEnd
  else if c == '%' && lx.column == 0 then lx.fetchDirective
  else if c == '-' && lx.atLineSeparator '-' then lx.fetchSeparator .documentStart
  else if c == '.' && lx.atLineSeparator '.' then lx.fetchSeparator .documentEnd
  else if c == '[' then lx.fetchFlowStart .flowSequenceStart
  else if c == '\x7b' then lx.fetchFlowStart .flowMappingStart
  else if c == ']' then lx.fetchFlowEnd .flowSequenceEnd
  else if c == '\x7d' then lx.fetchFlowEnd .flowMappingEnd
  else if c == ',' then lx.fetchFlowEntry
  else if c == '-' && white1 then lx.fetchBlockEntry
  else if c == '?' && (lx.inFlow || white1) then lx.fetchKey
  else if c == ':' && (lx.inFlow || white1) then lx.fetchValue
  else if c == '*' || c == '&' then lx.fetchAnchor
  else if c == '!' then lx.fetchTag
  else if c == '|' && !lx.inFlow then lx.fetchBlockScalar false
  else if c == '>' && !lx.inFlow then lx.fetchBlockScalar true
  else if c == '\'' then lx.fetchQuoted false
  else if c == '"' then lx.fetchQuoted true
  else if lx.startsPlain then lx.fetchPlain
  else throw (.problem ⟨.cannotStartToken c, none, some lx.mark⟩)

/-- What a run comes to by a step; `go` is what follows the step. Where the text breaks off for a
reason, a step that gets to its last character fails for that reason. -/
def runFrom (breakOff : Option Error) (go : Lexer → TokenStream) (lx : Lexer) : TokenStream :=
  let failed := fun e => ⟨(lx.tokens.drop (lx.count - lx.certain)).reverse, some e⟩
  match (do (← lx.fetch).dropStaleKeys), breakOff with
  | .ok lx', none => go lx'
  | .ok lx', some why => if lx'.input.rest.isEmpty then failed why else go lx'
  | .error e, none => failed e
  | .error e, some why =>
    failed (if e.isFrom (lx.mark.index + lx.input.rest.length) then why else e)

/-- Reads tokens until the end or an error. -/
def run (breakOff : Option Error) : Nat → Lexer → TokenStream
  | 0, lx => ⟨lx.tokens.reverse, none⟩
  | fuel + 1, lx =>
    if lx.done then ⟨lx.tokens.reverse, none⟩ else lx.runFrom breakOff (run breakOff fuel)

end Lexer

/-- The tokens of a passage. -/
def Token.scan (passage : Passage) : TokenStream :=
  let lx : Lexer := { input := .ofString passage.text }
  lx.run passage.breakOff (lx.input.rest.length + 2)

end PipelineAudit.Yaml
