import PipelineAudit.Calendar
import PipelineAudit.Number.Literal
import PipelineAudit.Text.Digit
import PipelineAudit.Text.Quoted
import PipelineAudit.Text.Utf8
import PipelineAudit.Yaml.Mark

/-!
# What can be wrong with a YAML text

A problem has a cause, the place where it was noticed, and often the place where the construct that
suffers from it began. The wording of every cause is in `Cause.context?` and `Cause.problem`. A
`Fault` is a scalar, tag, escape or encoded character that has the right form and no meaning.

Three causes are no mistakes (`Cause.isBeyond`): a collection that contains itself, a set, and half
of a surrogate pair are things that a text can stand for and that no value here holds. Reading ends
there.
-/

namespace PipelineAudit.Yaml

/-- The part of reading that noticed a problem. -/
inductive Stage where
  | reader
  | scanner
  | parser
  | composer
  | constructor
  deriving DecidableEq, Repr

/-- The kind of a node. -/
inductive NodeKind where
  | scalar
  | sequence
  | mapping
  deriving DecidableEq, Repr

/-- The word for a kind of node. -/
def NodeKind.word : NodeKind → String
  | scalar => "scalar"
  | sequence => "sequence"
  | mapping => "mapping"

/-- What is wrong. -/
inductive Cause where
  /-- A character that no text may hold, at a position. -/
  | specialCharacter (c : Char) (position : Nat)
  | simpleKeyUnclosed
  | cannotStartToken (c : Char)
  | sequenceEntryNotAllowed
  | mappingKeyNotAllowed
  | mappingValueNotAllowed
  | directiveName (c : Char)
  | versionDot (c : Char)
  | versionEnd (c : Char)
  | versionDigit (c : Char)
  | directiveBlank (c : Char)
  | directiveLineEnd (c : Char)
  | anchorName (word : String) (c : Char)
  | tagClosing (c : Char)
  | tagEnd (c : Char)
  | tagHandle (word : String) (c : Char)
  | uri (word : String) (c : Char)
  | uriEscape (word : String) (c : Char)
  | uriBytes (word : String) (reason : String)
  | blockIndentZero
  | blockIndicators (c : Char)
  | blockLineEnd (c : Char)
  | escapeDigits (count : Nat) (c : Char)
  | unknownEscape (c : Char)
  /-- An escape for half of a surrogate pair, which is no character. -/
  | surrogate (code : Nat)
  | quotedEnd
  | quotedSeparator
  | documentStart (found : String)
  | repeatedVersion
  | incompatibleVersion
  | repeatedHandle (handle : String)
  | undefinedHandle (handle : String)
  | nodeContent (block : Bool) (found : String)
  | blockEnd (sequence : Bool) (found : String)
  | flowSequenceNext (found : String)
  | flowMappingNext (found : String)
  | undefinedAlias (name : String)
  /-- An alias inside of the collection that it names, which would contain itself. -/
  | openAlias (name : String)
  | repeatedAnchor (name : String)
  | anotherDocument
  | duplicateKey (key : String)
  | unhashableKey
  | wrongKind (expected found : NodeKind)
  | unknownTag (tag : String)
  /-- A collection tagged as a set. -/
  | setNode
  | mergeItem (found : NodeKind)
  | mergeValue (found : NodeKind)
  /-- A list of pairs that is no sequence; the flag tells ordered maps from plain pairs. -/
  | pairsKind (ordered : Bool) (found : NodeKind)
  | pairsItem (ordered : Bool) (found : NodeKind)
  | pairsSize (ordered : Bool) (count : Nat)
  | binaryText (reason : String)
  | binaryData (reason : String)
  /-- The text nests deeper than was allowed for. -/
  | tooDeep
  deriving DecidableEq, Repr

namespace Cause

/-- The part of reading that notices a cause. -/
def stage : Cause → Stage
  | specialCharacter _ _ => .reader
  | documentStart _ | repeatedVersion | incompatibleVersion | repeatedHandle _ | undefinedHandle _
  | nodeContent _ _ | blockEnd _ _ | flowSequenceNext _ | flowMappingNext _ | tooDeep => .parser
  | undefinedAlias _ | openAlias _ | repeatedAnchor _ | anotherDocument => .composer
  | duplicateKey _ | unhashableKey | wrongKind _ _ | unknownTag _ | setNode
  | mergeItem _ | mergeValue _
  | pairsKind _ _ | pairsItem _ _ | pairsSize _ _ | binaryText _ | binaryData _ => .constructor
  | _ => .scanner

/-- What was being read. -/
def context? : Cause → Option String
  | simpleKeyUnclosed => some "while scanning a simple key"
  | cannotStartToken _ => some "while scanning for the next token"
  | directiveName _ | versionDot _ | versionEnd _ | versionDigit _ | directiveBlank _
  | directiveLineEnd _ => some "while scanning a directive"
  | anchorName word _ => some ("while scanning an " ++ word)
  | tagClosing _ => some "while parsing a tag"
  | tagEnd _ => some "while scanning a tag"
  | tagHandle word _ | uriEscape word _ | uriBytes word _ => some ("while scanning a " ++ word)
  | uri word _ => some ("while parsing a " ++ word)
  | blockIndentZero | blockIndicators _ | blockLineEnd _ => some "while scanning a block scalar"
  | escapeDigits _ _ | unknownEscape _ | surrogate _ => some "while scanning a double-quoted scalar"
  | quotedEnd | quotedSeparator => some "while scanning a quoted scalar"
  | undefinedHandle _ => some "while parsing a node"
  | nodeContent block _ =>
      some ("while parsing a " ++ (if block then "block" else "flow") ++ " node")
  | blockEnd sequence _ =>
    some (if sequence then "while parsing a block collection" else "while parsing a block mapping")
  | flowSequenceNext _ => some "while parsing a flow sequence"
  | flowMappingNext _ => some "while parsing a flow mapping"
  | repeatedAnchor name =>
      some ("found duplicate anchor " ++ Text.quoted name ++ "; first occurrence")
  | anotherDocument => some "expected a single document in the stream"
  | duplicateKey _ | unhashableKey | mergeItem _ | mergeValue _ =>
    some "while constructing a mapping"
  | pairsKind ordered _ | pairsItem ordered _ | pairsSize ordered _ =>
    some (if ordered then "while constructing an ordered map" else "while constructing pairs")
  | _ => none

/-- A character in quotes. -/
def shown (c : Char) : String := Text.quoted (String.ofList [c])

/-- What is wrong, in words. -/
def problem : Cause → String
  | specialCharacter c position =>
    "unacceptable character #x" ++ String.ofList (Text.hexDigits 4 c.toNat)
      ++ ": special characters are not allowed, position " ++ toString position
  | simpleKeyUnclosed => "could not find expected ':'"
  | cannotStartToken c => "found character " ++ shown c ++ " that cannot start any token"
  | sequenceEntryNotAllowed => "sequence entries are not allowed here"
  | mappingKeyNotAllowed => "mapping keys are not allowed here"
  | mappingValueNotAllowed => "mapping values are not allowed here"
  | directiveName c => "expected alphabetic or numeric character, but found " ++ shown c
  | versionDot c => "expected a digit or '.', but found " ++ shown c
  | versionEnd c => "expected a digit or ' ', but found " ++ shown c
  | versionDigit c => "expected a digit, but found " ++ shown c
  | directiveBlank c => "expected ' ', but found " ++ shown c
  | directiveLineEnd c => "expected a comment or a line break, but found " ++ shown c
  | anchorName _ c => "expected alphabetic or numeric character, but found " ++ shown c
  | tagClosing c => "expected '>', but found " ++ shown c
  | tagEnd c => "expected ' ', but found " ++ shown c
  | tagHandle _ c => "expected '!', but found " ++ shown c
  | uri _ c => "expected URI, but found " ++ shown c
  | uriEscape _ c =>
    "expected URI escape sequence of 2 hexadecimal numbers, but found " ++ shown c
  | uriBytes _ reason => reason
  | blockIndentZero => "expected indentation indicator in the range 1-9, but found 0"
  | blockIndicators c => "expected chomping or indentation indicators, but found " ++ shown c
  | blockLineEnd c => "expected a comment or a line break, but found " ++ shown c
  | escapeDigits count c =>
    "expected escape sequence of " ++ toString count
      ++ " hexadecimal numbers, but found " ++ shown c
  | unknownEscape c => "found unknown escape character " ++ shown c
  | surrogate code => "found half of a surrogate pair, #x" ++ String.ofList (Text.hexDigits 4 code)
  | quotedEnd => "found unexpected end of stream"
  | quotedSeparator => "found unexpected document separator"
  | documentStart found => "expected '<document start>', but found " ++ Text.quoted found
  | repeatedVersion => "found duplicate YAML directive"
  | incompatibleVersion => "found incompatible YAML document (version 1.* is required)"
  | repeatedHandle handle => "duplicate tag handle " ++ Text.quoted handle
  | undefinedHandle handle => "found undefined tag handle " ++ Text.quoted handle
  | nodeContent _ found => "expected the node content, but found " ++ Text.quoted found
  | blockEnd _ found => "expected <block end>, but found " ++ Text.quoted found
  | flowSequenceNext found => "expected ',' or ']', but got " ++ Text.quoted found
  | flowMappingNext found => "expected ',' or '\x7d', but got " ++ Text.quoted found
  | undefinedAlias name => "found undefined alias " ++ Text.quoted name
  | openAlias name => "found an alias inside of what it names, " ++ Text.quoted name
  | repeatedAnchor _ => "second occurrence"
  | anotherDocument => "but found another document"
  | duplicateKey key => "found duplicate key '" ++ key ++ "'"
  | unhashableKey => "found unhashable key"
  | wrongKind expected found => "expected a " ++ expected.word ++ " node, but found " ++ found.word
  | unknownTag tag => "could not determine a constructor for the tag " ++ Text.quoted tag
  | setNode => "found a set"
  | mergeItem found => "expected a mapping for merging, but found " ++ found.word
  | mergeValue found =>
    "expected a mapping or list of mappings for merging, but found " ++ found.word
  | pairsKind _ found => "expected a sequence, but found " ++ found.word
  | pairsItem _ found => "expected a mapping of length 1, but found " ++ found.word
  | pairsSize _ count => "expected a single mapping item, but found " ++ toString count ++ " items"
  | binaryText reason => "failed to convert base64 data into ascii: " ++ reason
  | binaryData reason => "failed to decode base64 data: " ++ reason
  | tooDeep => "found too deep a nesting"

/-- Whether a cause is a thing that no value holds. -/
def isBeyond : Cause → Bool
  | openAlias _ | setNode | surrogate _ => true
  | _ => false

end Cause

/-- A problem with its places. -/
structure Problem where
  cause : Cause
  contextMark : Option Mark
  mark : Option Mark
  deriving DecidableEq, Repr

/-- A scalar, tag, escape or encoded character without a meaning. -/
inductive Fault where
  /-- A number that cannot be read. -/
  | number (fault : NumberFault)
  /-- A date or time that does not exist. -/
  | calendar (fault : CalendarFault)
  /-- A number without a first character. -/
  | emptyNumber
  /-- A text tagged as a truth value that is none. -/
  | notABoolean (text : String)
  /-- A text tagged as a timestamp that is none. -/
  | notATimestamp (text : String)
  /-- A mapping tagged as a timestamp. -/
  | timestampOfEntries
  /-- A power of sixty that no floating-point number holds. -/
  | tooGreat
  /-- An escape beyond the last code point. -/
  | codePoint (n : Nat)
  /-- A text tagged as a mapping. -/
  | entriesOfText
  /-- A sequence tagged as a mapping. -/
  | entriesOfItems
  /-- Bytes that are no text. -/
  | encoding (fault : Text.Utf8Fault)
  deriving DecidableEq, Repr

/-- Why a text cannot be read. -/
inductive Error where
  | problem (p : Problem)
  | fault (f : Fault)
  deriving DecidableEq, Repr

namespace Error

/-- Whether an error was noticed at an index or behind it. -/
def isFrom (e : Error) (index : Nat) : Bool :=
  match e with
  | problem p => p.mark.any fun m => index ≤ m.index
  | fault _ => false

/-- An error at a place. -/
def here (cause : Cause) (mark : Mark) : Error := problem ⟨cause, none, some mark⟩

/-- An error at a place, inside a construct that began at another. -/
def within (cause : Cause) (start mark : Mark) : Error := problem ⟨cause, some start, some mark⟩

end Error

/-- A place in words: the name of the text, and line and column from one. -/
def Mark.describe (m : Mark) (name : String) : String :=
  "  in \"" ++ name ++ "\", line " ++ toString (m.line + 1) ++ ", column "
    ++ toString (m.column + 1)

/-- A whole problem in words, for a text with a name: context and problem, each followed by its
place. The place of the context is left out where it equals that of the problem. -/
def Problem.describe (p : Problem) (name : String) : String :=
  match p.cause with
  | .specialCharacter c position =>
    "unacceptable character #x" ++ String.ofList (Text.hexDigits 4 c.toNat)
      ++ ": special characters are not allowed\n  in \"" ++ name ++ "\", position "
      ++ toString position
  | cause =>
    let sameplace := match p.contextMark, p.mark with
      | some a, some b => a.line == b.line && a.column == b.column
      | _, _ => false
    Text.join "\n" (cause.context?.toList
      ++ (if sameplace then [] else (p.contextMark.map (·.describe name)).toList)
      ++ [cause.problem] ++ (p.mark.map (·.describe name)).toList)

/-- The name of a text that does not come from a file. -/
def textName : String := "<unicode string>"

/-- A problem in words, without its places, for a text with a name. -/
def Problem.messageIn (p : Problem) (name : String) : String :=
  match p.cause with
  | .specialCharacter _ _ => p.describe name
  | cause => cause.problem

/-- A problem in words, without its places. -/
def Problem.message (p : Problem) : String := p.messageIn textName

/-- The line of a problem, from one. -/
def Problem.line? (p : Problem) : Option Nat := (p.mark.or p.contextMark).map (·.line + 1)

/-- The message of a fault, where it has one. -/
def Fault.message? : Fault → Option String
  | number fault => some fault.message
  | calendar fault => some fault.message
  | encoding fault => some fault.message
  | codePoint n => if n < 0x80000000 then some "chr() arg not in range(0x110000)" else none
  | entriesOfText => some "not enough values to unpack (expected 2, got 1)"
  | emptyNumber | notABoolean _ | notATimestamp _ | timestampOfEntries | tooGreat
  | entriesOfItems => none

end PipelineAudit.Yaml
