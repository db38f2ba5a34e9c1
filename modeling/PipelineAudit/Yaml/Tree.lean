import PipelineAudit.Value.Anchored
import PipelineAudit.Yaml.Node.Compose
import PipelineAudit.Yaml.Position
import PipelineAudit.Yaml.Scalar

/-!
# From nodes to values

Scalars get their values as soon as they are met; collections wait in a queue and are filled in the
order in which they were met, each one once. Filling a mapping checks its keys, expands its merge
keys in place and meets its keys and values.

Expansion is remembered by node, so a mapping that was merged into another before its own turn comes
is already expanded when its keys are checked. `Builder.run` does the filling and reports the first
error; `Builder.value` then reads the values off the expanded nodes.

Under a schema with positions every mapping ends with three entries: the line and column where it
starts, and the line of each of its keys.

No value stands for a set, so reading ends at what is tagged as one (`tagRefusal`).
-/

namespace PipelineAudit.Yaml

/-- What is remembered while values are made. -/
structure Builder where
  /-- The entries of the mappings that have been expanded, by node. -/
  expanded : Assoc Nat (List (Node × Node)) := []
  /-- The keys `=` that have become texts, by node. -/
  retagged : List Nat := []
  /-- The values of the scalars that have been met, by node. -/
  scalars : List (Nat × Value) := []
  /-- The collections that have been met. -/
  met : List Nat := []
  /-- The collections that wait to be filled, in order. -/
  waiting : List Node := []

/-- Making values. -/
abbrev Build := StateT Builder (Except Error)

namespace Builder

/-- The tag of a node, a key `=` being a text once it has been expanded. -/
def tagOf (b : Builder) (n : Node) : String :=
  if b.retagged.contains n.id then Tag.str else n.tag

/-- The entries of a mapping, expanded if that has happened. -/
def entriesOf (b : Builder) (id : Nat) (own : List (Node × Node)) : List (Node × Node) :=
  (b.expanded.get? id).getD own

end Builder

/-- The tags of collections. -/
def collectionTags : List String := [Tag.map, Tag.seq, Tag.omap, Tag.pairs]

/-- The text of a scalar; a mapping with a key `=` stands for the value of that key. -/
def Node.scalarText (b : Builder) : Nat → Node → Except Error String
  | 0, n => .error (.here .tooDeep n.start)
  | _, .scalar _ text => .ok text
  | fuel + 1, .mapping info own =>
    match (b.entriesOf info.id own).find? fun e => b.tagOf e.1 = Tag.value with
    | some (_, value) => Node.scalarText b fuel value
    | none => .error (.here (.wrongKind .scalar .mapping) info.start)
  | _, .sequence info _ => .error (.here (.wrongKind .scalar .sequence) info.start)

/-- The value of a node with a scalar tag. A timestamp is written as a scalar, though a mapping with
a key `=` has a text as well. -/
def Builder.scalarValue (b : Builder) (n : Node) : Except Error Value := do
  let text ← n.scalarText b (n.id + 1)
  if b.tagOf n = Tag.timestamp && n.kind == .mapping then throw (.fault .timestampOfEntries)
  Scalar.construct (b.tagOf n) text n.id n.start

namespace Build

/-- Why a node with a tag has no value, if the tag is none of scalars and collections. -/
def tagRefusal (tag : String) : Cause := if tag = Tag.set then .setNode else .unknownTag tag

/-- Meets a node: a scalar gets its value at once, a collection is put into the queue. -/
def meetNode (n : Node) : Build Unit := do
  let b ← get
  if b.met.contains n.id || (b.scalars.lookup n.id).isSome then return
  let tag := b.tagOf n
  if collectionTags.contains tag then
    set { b with met := n.id :: b.met, waiting := b.waiting ++ [n] }
  else if Scalar.tags.contains tag then
    let value ← liftM (b.scalarValue n)
    set { b with scalars := (n.id, value) :: b.scalars }
  else throw (.here (tagRefusal tag) n.start)

/-- The entries that the value of a merge key contributes to a mapping: those of a mapping, or of
several, the last one first. `expandOne` expands a single mapping. -/
def mergedEntries (expandOne : NodeInfo → List (Node × Node) → Build (List (Node × Node)))
    (info : NodeInfo) : Node → Build (List (Node × Node))
  | .mapping vinfo ventries => expandOne vinfo ventries
  | .sequence _ items =>
    items.foldlM (fun merged item => do
      match item with
      | .mapping iinfo ientries => return (← expandOne iinfo ientries) ++ merged
      | _ => throw (.within (.mergeItem item.kind) info.start item.start)) []
  | .scalar vinfo _ => throw (.within (.mergeValue .scalar) info.start vinfo.start)

/-- Expands the merge keys of a mapping: the entries of the merged mappings go before its own. The
fuel bounds the nesting of merged mappings. -/
def expandWithin : Nat → NodeInfo → List (Node × Node) → Build (List (Node × Node))
  | 0, info, _ => throw (.here .tooDeep info.start)
  | fuel + 1, info, own => do
    let (merged, kept) ← ((← get).entriesOf info.id own).foldlM (fun (merged, kept) entry => do
      let tag := (← get).tagOf entry.1
      if tag = Tag.merge then
        return (merged ++ (← mergedEntries (expandWithin fuel) info entry.2), kept)
      else
        if tag = Tag.value then modify fun b => { b with retagged := entry.1.id :: b.retagged }
        return (merged, kept ++ [entry])) ([], [])
    let entries := merged ++ kept
    modify fun b => { b with expanded := b.expanded.insert info.id entries }
    return entries

/-- Expands the merge keys of a mapping. A mapping that is merged in has a smaller number, which
bounds the nesting. -/
def expand (info : NodeInfo) (own : List (Node × Node)) : Build (List (Node × Node)) :=
  expandWithin (info.id + 1) info own

/-- The first scalar key that repeats the text of an earlier one. -/
def repeatedKey? (b : Builder) : List String → List (Node × Node) → Option (String × Mark)
  | _, [] => none
  | seen, (.scalar info text, _) :: rest =>
    if b.tagOf (.scalar info text) = Tag.merge then repeatedKey? b seen rest
    else if seen.contains text then some (text, info.start)
    else repeatedKey? b (text :: seen) rest
  | seen, _ :: rest => repeatedKey? b seen rest

/-- Meets the keys and values of a mapping; a collection cannot be a key. -/
def meetEntries (info : NodeInfo) : List (Node × Node) → Build Unit
  | [] => return
  | (key, value) :: rest => do
    meetNode key
    if collectionTags.contains ((← get).tagOf key) then
      throw (.within .unhashableKey info.start key.start)
    meetNode value
    meetEntries info rest

/-- Fills a mapping. -/
def fillMapping (schema : Schema) (n : Node) : Build Unit := do
  match n with
  | .mapping info own =>
    let b ← get
    if schema.positions then
      match repeatedKey? b [] (b.entriesOf info.id own) with
      | some (text, mark) => throw (.within (.duplicateKey text) info.start mark)
      | none => pure ()
    let entries ← expand info own
    meetEntries info entries
  | .scalar info text =>
    if schema.positions && !text.isEmpty then throw (.fault .entriesOfText)
    throw (.here (.wrongKind .mapping .scalar) info.start)
  | .sequence info items =>
    if schema.positions && !items.isEmpty then throw (.fault .entriesOfItems)
    throw (.here (.wrongKind .mapping .sequence) info.start)

/-- Fills a sequence. -/
def fillSequence (n : Node) : Build Unit := do
  match n with
  | .sequence _ items => items.forM meetNode
  | _ => throw (.here (.wrongKind .sequence n.kind) n.start)

/-- Fills a list of pairs: a sequence of mappings with one entry each. -/
def fillPairs (ordered : Bool) (n : Node) : Build Unit := do
  match n with
  | .sequence info items =>
    items.forM fun item => do
      match item with
      | .mapping iinfo own =>
        match (← get).entriesOf iinfo.id own with
        | [(key, value)] =>
          meetNode key
          meetNode value
        | entries =>
          throw (.within (.pairsSize ordered entries.length) info.start iinfo.start)
      | _ => throw (.within (.pairsItem ordered item.kind) info.start item.start)
  | _ => throw (.within (.pairsKind ordered n.kind) n.start n.start)

/-- Fills a collection. -/
def fill (schema : Schema) (n : Node) : Build Unit := do
  let tag := (← get).tagOf n
  if tag = Tag.map then fillMapping schema n
  else if tag = Tag.seq then fillSequence n
  else fillPairs (tag = Tag.omap) n

/-- Fills the waiting collections until none is left; `rounds` bounds their number. -/
def fillAll (schema : Schema) : Nat → Build Unit
  | 0 => return
  | rounds + 1 => do
    match (← get).waiting with
    | [] => return
    | n :: rest =>
      modify fun b => { b with waiting := rest }
      fill schema n
      fillAll schema rounds

end Build

/-! ## Reading off the values -/

/-- The lines of the keys of a mapping; the first one of several equal keys counts. -/
def Builder.keyLines (b : Builder) (entries : List (Node × Node)) : Assoc String Nat :=
  entries.foldl (fun lines entry =>
    match entry.1 with
    | .scalar info text =>
      if b.tagOf entry.1 = Tag.merge || lines.has text then lines
      else lines.insert text (info.start.line + 1)
    | _ => lines) []

/-- Adds the position entries of a mapping. -/
def Builder.addPositions (b : Builder) (info : NodeInfo) (expanded : List (Node × Node))
    (entries : List (Value × Value)) : List (Value × Value) :=
  let lines := (b.keyLines expanded).map fun (k, n) => (Value.str k, Value.int n)
  let entries := Value.insertEntry entries (.str lineKey) (.int (info.start.line + 1))
  let entries := Value.insertEntry entries (.str columnKey) (.int info.start.column)
  Value.insertEntry entries (.str keyLinesKey) (.map lines)

/-- The value of a node whose collections have been filled. -/
def Builder.value (b : Builder) (schema : Schema) : Nat → Node → Except Error Value
  | 0, n => .error (.here .tooDeep n.start)
  | fuel + 1, n =>
    let tag := b.tagOf n
    if collectionTags.contains tag then
      match n with
      | .mapping info own => do
        let expanded := b.entriesOf info.id own
        let pairs ← expanded.mapM fun (k, v) => do
          return (← b.value schema fuel k, ← b.value schema fuel v)
        let entries := Value.entriesOf pairs
        return .map (if schema.positions then b.addPositions info expanded entries else entries)
      | .sequence _ items =>
        if tag = Tag.seq then do
          return .seq (← items.mapM (b.value schema fuel))
        else do
          let pairs ← items.mapM fun item => do
            match item with
            | .mapping info own =>
              match b.entriesOf info.id own with
              | [(k, v)] => return Value.pair (← b.value schema fuel k) (← b.value schema fuel v)
              | _ => return Value.null
            | _ => return Value.null
          return .seq pairs
      | .scalar _ _ => return .null
    else .ok ((b.scalars.lookup n.id).getD .null)

/-- The value of a node whose collections have been filled, under a schema without positions, with
the numbers of the nodes that can be shared: collections, and dates and times. -/
def Builder.anchored (b : Builder) : Nat → Node → Except Error Anchored
  | 0, n => .error (.here .tooDeep n.start)
  | fuel + 1, n =>
    let tag := b.tagOf n
    if collectionTags.contains tag then
      match n with
      | .mapping info own => do
        let pairs ← (b.entriesOf info.id own).mapM fun (k, v) => do
          return (← b.anchored fuel k, ← b.anchored fuel v)
        return .map (some info.id) (Anchored.entriesOf pairs)
      | .sequence info items =>
        if tag = Tag.seq then do
          return .seq (some info.id) (← items.mapM (b.anchored fuel))
        else do
          let pairs ← items.mapM fun item => do
            match item with
            | .mapping iinfo own =>
              match b.entriesOf iinfo.id own with
              | [(k, v)] => return Anchored.pair (← b.anchored fuel k) (← b.anchored fuel v)
              | _ => return .leaf none .null
            | _ => return .leaf none .null
          return .seq (some info.id) pairs
      | .scalar _ _ => return .leaf none .null
    else
      let v := (b.scalars.lookup n.id).getD .null
      .ok (.leaf (if tag = Tag.timestamp then some n.id else none) v)

/-- A bound on the number of nodes below and including a node. -/
def Node.reach (n : Node) : Nat := n.id + 1

/-- The builder that has met a node and filled all collections below it. -/
def Builder.ofRoot (schema : Schema) (root : Node) : Except Error Builder := do
  let ((), b) ← (do
    Build.meetNode root
    Build.fillAll schema root.reach).run {}
  return b

/-- The value of a passage under a schema; null if it has no document. -/
def Passage.load (schema : Schema) (passage : Passage) : Except Error Value := do
  match ← Node.parse schema passage with
  | none => return .null
  | some root => (← Builder.ofRoot schema root).value schema root.reach root

/-- The value of a passage under a schema without positions, with the numbers of its shared
parts. -/
def Passage.loadAnchored (schema : Schema) (passage : Passage) : Except Error Anchored := do
  match ← Node.parse schema passage with
  | none => return .leaf none .null
  | some root => (← Builder.ofRoot schema root).anchored root.reach root

/-- The value of a text under a schema; null if the text has no document. -/
def load (schema : Schema) (text : String) : Except Error Value := (Passage.ofText text).load schema

end PipelineAudit.Yaml
