import PipelineAudit.Assoc
import PipelineAudit.Yaml.Schema
import PipelineAudit.Yaml.Token.Lexer

/-!
# From tokens to nodes

`Node.parse` reads the one document of a text. Tokens are taken one at a time, so a complaint about
their order, an unknown alias or a repeated anchor comes before an error further on in the text. An
alias for a collection that is still being read has no node to stand for: nodes are trees.

The readers of nested nodes call each other; every call uses up one unit of fuel, and a text has
enough of it for all its tokens.
-/

namespace PipelineAudit.Yaml

/-- The state of reading nodes. -/
structure Composer where
  tokens : List Token
  failure : Option Error
  /-- The heads of tags by handle. -/
  handles : Assoc String String := []
  /-- Where each anchor was set, and its node once that is complete. -/
  anchors : Assoc String (Mark × Option Node) := []
  /-- The number for the next node. -/
  nextId : Nat := 0

/-- Reading nodes. -/
abbrev Compose := StateT Composer (Except Error)

namespace Compose

/-- The next token. -/
def peek : Compose Token := do
  let st ← get
  match st.tokens with
  | t :: _ => return t
  | [] => throw (st.failure.getD (.problem ⟨.tooDeep, none, none⟩))

/-- Moves past the next token. -/
def advance : Compose Unit := modify fun st => { st with tokens := st.tokens.drop 1 }

/-- Takes the next token. -/
def next : Compose Token := do
  let t ← peek
  advance
  return t

/-- Takes the next token if it is of a kind. -/
def nextIf (kind : TokenKind) : Compose (Option Token) := do
  let t ← peek
  if t.kind = kind then
    advance
    return some t
  else return none

/-- Whether the next token is of one of some kinds. -/
def atAny (kinds : List TokenKind) : Compose Bool := do
  let t ← peek
  return kinds.contains t.kind

/-- A number for a node. -/
def freshId : Compose Nat := do
  let st ← get
  set { st with nextId := st.nextId + 1 }
  return st.nextId

/-- Anchor and tag of a node, and where they are. -/
structure Properties where
  anchor : Option String := none
  tag : Option String := none
  start : Mark

/-- Reads the anchor and the tag before a node, in either order. -/
def properties : Compose Properties := do
  let first ← peek
  let (anchor, rawTag, tagMark) ←
    match first.kind with
    | .anchor name => do
      advance
      let t ← peek
      match t.kind with
      | .tag handle suffix =>
        advance
        pure (some name, some (handle, suffix), t.start)
      | _ => pure (some name, none, first.start)
    | .tag handle suffix => do
      advance
      let t ← peek
      match t.kind with
      | .anchor name =>
        advance
        pure (some name, some (handle, suffix), first.start)
      | _ => pure (none, some (handle, suffix), first.start)
    | _ => pure (none, none, first.start)
  match rawTag with
  | none => return ⟨anchor, none, first.start⟩
  | some (none, suffix) => return ⟨anchor, some suffix, first.start⟩
  | some (some handle, suffix) =>
    match (← get).handles.get? handle with
    | some head => return ⟨anchor, some (head ++ suffix), first.start⟩
    | none => throw (.within (.undefinedHandle handle) first.start tagMark)

/-- Notes the anchor of a node that starts; an error if it was set before. -/
def openAnchor (p : Properties) : Compose Unit := do
  match p.anchor with
  | none => return
  | some name =>
    match (← get).anchors.get? name with
    | some (mark, _) => throw (.within (.repeatedAnchor name) mark p.start)
    | none => modify fun st => { st with anchors := st.anchors.insert name (p.start, none) }

/-- Notes the node of an anchor. -/
def closeAnchor (p : Properties) (n : Node) : Compose Node := do
  match p.anchor with
  | none => return n
  | some name =>
    modify fun st => { st with anchors := st.anchors.insert name (p.start, some n) }
    return n

/-- A tag that is given and is not the lone exclamation mark. -/
def Properties.explicitTag? (p : Properties) : Option String :=
  p.tag.bind fun t => if t = "!" then none else some t

/-- A scalar with its properties. -/
def scalar (schema : Schema) (p : Properties) (text : String) (isPlain : Bool) : Compose Node := do
  openAnchor p
  let tag := match p.explicitTag? with
    | some t => t
    | none => if isPlain || p.tag.isSome then schema.resolve text else Tag.str
  closeAnchor p (.scalar ⟨← freshId, tag, p.start⟩ text)

/-- A scalar that is not written. -/
def emptyScalar (schema : Schema) (mark : Mark) : Compose Node :=
  scalar schema ⟨none, none, mark⟩ "" true

mutual

/-- Reads a node. -/
def node (schema : Schema) (fuel : Nat) (block indentless : Bool) : Compose Node :=
  match fuel with
  | 0 => throw (.problem ⟨.tooDeep, none, none⟩)
  | fuel + 1 => do
    let first ← peek
    match first.kind with
    | .aliasOf name =>
      advance
      match (← get).anchors.get? name with
      | some (_, some n) => return n
      | opened =>
        throw (.here (if opened.isSome then .openAlias name else .undefinedAlias name) first.start)
    | _ =>
      let p ← properties
      let t ← peek
      match t.kind, block, indentless with
      | .blockEntry, _, true =>
        openAnchor p
        let items ← indentlessItems schema fuel
        closeAnchor p (.sequence ⟨← freshId, p.explicitTag?.getD Tag.seq, p.start⟩ items)
      | .scalar text isPlain, _, _ =>
        advance
        scalar schema p text isPlain
      | .flowSequenceStart, _, _ =>
        openAnchor p
        advance
        let items ← flowItems schema fuel t.start true
        closeAnchor p (.sequence ⟨← freshId, p.explicitTag?.getD Tag.seq, p.start⟩ items)
      | .flowMappingStart, _, _ =>
        openAnchor p
        advance
        let entries ← flowEntries schema fuel t.start true
        closeAnchor p (.mapping ⟨← freshId, p.explicitTag?.getD Tag.map, p.start⟩ entries)
      | .blockSequenceStart, true, _ =>
        openAnchor p
        advance
        let items ← blockItems schema fuel t.start
        closeAnchor p (.sequence ⟨← freshId, p.explicitTag?.getD Tag.seq, p.start⟩ items)
      | .blockMappingStart, true, _ =>
        openAnchor p
        advance
        let entries ← blockEntries schema fuel t.start
        closeAnchor p (.mapping ⟨← freshId, p.explicitTag?.getD Tag.map, p.start⟩ entries)
      | kind, _, _ =>
        if p.anchor.isSome || p.tag.isSome then scalar schema p "" p.explicitTag?.isNone
        else throw (.within (.nodeContent block kind.label) p.start t.start)
termination_by structural fuel

/-- Reads the items of a block sequence. -/
def blockItems (schema : Schema) (fuel : Nat) (opened : Mark) : Compose (List Node) :=
  match fuel with
  | 0 => throw (.problem ⟨.tooDeep, none, none⟩)
  | fuel + 1 => do
    let t ← next
    match t.kind with
    | .blockEntry =>
      let item ←
        if ← atAny [.blockEntry, .blockEnd] then emptyScalar schema t.stop
        else node schema fuel true false
      return item :: (← blockItems schema fuel opened)
    | .blockEnd => return []
    | kind => throw (.within (.blockEnd true kind.label) opened t.start)
termination_by structural fuel

/-- Reads the items of a block sequence that is not indented under its key. -/
def indentlessItems (schema : Schema) (fuel : Nat) : Compose (List Node) :=
  match fuel with
  | 0 => throw (.problem ⟨.tooDeep, none, none⟩)
  | fuel + 1 => do
    match ← nextIf .blockEntry with
    | some t =>
      let item ←
        if ← atAny [.blockEntry, .key, .value, .blockEnd] then emptyScalar schema t.stop
        else node schema fuel true false
      return item :: (← indentlessItems schema fuel)
    | none => return []
termination_by structural fuel

/-- Reads the entries of a block mapping. -/
def blockEntries (schema : Schema) (fuel : Nat) (opened : Mark) : Compose (List (Node × Node)) :=
  match fuel with
  | 0 => throw (.problem ⟨.tooDeep, none, none⟩)
  | fuel + 1 => do
    let t ← next
    match t.kind with
    | .key =>
      let key ←
        if ← atAny [.key, .value, .blockEnd] then emptyScalar schema t.stop
        else node schema fuel true true
      let value ←
        match ← nextIf .value with
        | some v =>
          if ← atAny [.key, .value, .blockEnd] then emptyScalar schema v.stop
          else node schema fuel true true
        | none => emptyScalar schema (← peek).start
      return (key, value) :: (← blockEntries schema fuel opened)
    | .blockEnd => return []
    | kind => throw (.within (.blockEnd false kind.label) opened t.start)
termination_by structural fuel

/-- Reads the items of a flow sequence. -/
def flowItems (schema : Schema) (fuel : Nat) (opened : Mark) (isFirst : Bool) :
    Compose (List Node) :=
  match fuel with
  | 0 => throw (.problem ⟨.tooDeep, none, none⟩)
  | fuel + 1 => do
    if (← nextIf .flowSequenceEnd).isSome then return []
    if !isFirst then
      let t ← next
      if t.kind ≠ .flowEntry then throw (.within (.flowSequenceNext t.kind.label) opened t.start)
    let t ← peek
    match t.kind with
    | .key =>
      let item ← flowPair schema fuel
      return item :: (← flowItems schema fuel opened false)
    | .flowSequenceEnd =>
      advance
      return []
    | _ =>
      let item ← node schema fuel false false
      return item :: (← flowItems schema fuel opened false)
termination_by structural fuel

/-- Reads a single entry inside a flow sequence, which is a mapping of its own. -/
def flowPair (schema : Schema) (fuel : Nat) : Compose Node :=
  match fuel with
  | 0 => throw (.problem ⟨.tooDeep, none, none⟩)
  | fuel + 1 => do
    let t ← next
    let key ←
      if ← atAny [.value, .flowEntry, .flowSequenceEnd] then emptyScalar schema t.stop
      else node schema fuel false false
    let value ←
      match ← nextIf .value with
      | some v =>
        if ← atAny [.flowEntry, .flowSequenceEnd] then emptyScalar schema v.stop
        else node schema fuel false false
      | none => emptyScalar schema (← peek).start
    return .mapping ⟨← freshId, Tag.map, t.start⟩ [(key, value)]
termination_by structural fuel

/-- Reads the entries of a flow mapping. -/
def flowEntries (schema : Schema) (fuel : Nat) (opened : Mark) (isFirst : Bool) :
    Compose (List (Node × Node)) :=
  match fuel with
  | 0 => throw (.problem ⟨.tooDeep, none, none⟩)
  | fuel + 1 => do
    if (← nextIf .flowMappingEnd).isSome then return []
    if !isFirst then
      let t ← next
      if t.kind ≠ .flowEntry then throw (.within (.flowMappingNext t.kind.label) opened t.start)
    let t ← peek
    match t.kind with
    | .key =>
      advance
      let key ←
        if ← atAny [.value, .flowEntry, .flowMappingEnd] then emptyScalar schema t.stop
        else node schema fuel false false
      let value ←
        match ← nextIf .value with
        | some v =>
          if ← atAny [.flowEntry, .flowMappingEnd] then emptyScalar schema v.stop
          else node schema fuel false false
        | none => emptyScalar schema (← peek).start
      return (key, value) :: (← flowEntries schema fuel opened false)
    | .flowMappingEnd =>
      advance
      return []
    | _ =>
      let key ← node schema fuel false false
      let value ← emptyScalar schema (← peek).start
      return (key, value) :: (← flowEntries schema fuel opened false)
termination_by structural fuel

end

/-! ## Documents -/

/-- The handles that every document has. -/
def defaultHandles : Assoc String String := [("!", "!"), ("!!", "tag:yaml.org,2002:")]

/-- Reads the directives before a document; the flag tells that a version was given. -/
def directives : Nat → Bool → Compose Unit
  | 0, _ => return
  | fuel + 1, versioned => do
    let t ← peek
    match t.kind with
    | .directive d =>
      advance
      match d with
      | .version major _ =>
        if versioned then throw (.here .repeatedVersion t.start)
        if major ≠ 1 then throw (.here .incompatibleVersion t.start)
        directives fuel true
      | .handle handle head =>
        if (← get).handles.has handle then throw (.here (.repeatedHandle handle) t.start)
        modify fun st => { st with handles := st.handles.insert handle head }
        directives fuel versioned
      | .other _ => directives fuel versioned
    | _ => return

/-- Skips the ends of documents that precede a document. -/
def skipDocumentEnds : Nat → Compose Unit
  | 0 => return
  | fuel + 1 => do
    if (← nextIf .documentEnd).isSome then skipDocumentEnds fuel

/-- Whether the next token is a directive. -/
def atDirective : Compose Bool := do
  match (← peek).kind with
  | .directive _ => return true
  | _ => return false

/-- Adds the default handles that a document has not set itself. -/
def addDefaultHandles : Compose Unit :=
  modify fun st => { st with
    handles := defaultHandles.foldl
      (fun hs h => if hs.has h.1 then hs else hs.insert h.1 h.2) st.handles }

/-- Reads an announced document; none at the end of the text. Where it starts comes with it. -/
def announcedDocument? (schema : Schema) (fuel : Nat) : Compose (Option (Mark × Compose Node)) := do
  skipDocumentEnds fuel
  let first ← peek
  if first.kind = .streamEnd then return none
  modify fun st => { st with handles := [] }
  directives fuel false
  addDefaultHandles
  let t ← next
  if t.kind ≠ .documentStart then throw (.here (.documentStart t.kind.label) t.start)
  let content : Compose Node := do
    if (← atDirective) || (← atAny [.documentStart, .documentEnd, .streamEnd]) then
      emptyScalar schema (← peek).start
    else node schema fuel true false
  return some (first.start, content)

/-- Reads the document of a text that has at most one. -/
def document (schema : Schema) (fuel : Nat) : Compose (Option Node) := do
  let implicit := !(← atDirective) && !(← atAny [.documentStart, .streamEnd])
  let root? ←
    if implicit then do
      modify fun st => { st with handles := defaultHandles }
      pure (some (← node schema fuel true false))
    else
      match ← announcedDocument? schema fuel with
      | none => pure none
      | some (_, content) => pure (some (← content))
  match root? with
  | none => return none
  | some root =>
    let _ ← nextIf .documentEnd
    match ← announcedDocument? schema fuel with
    | none => return some root
    | some (mark, _) => throw (.within .anotherDocument root.start mark)

end Compose

/-- The root node of a passage; none if it has no document. -/
def Node.parse (schema : Schema) (passage : Passage) : Except Error (Option Node) :=
  let stream := Token.scan passage
  let fuel := 2 * stream.tokens.length + 2
  ((Compose.document schema fuel).run
    { tokens := stream.tokens, failure := stream.failure }).map Prod.fst

end PipelineAudit.Yaml
