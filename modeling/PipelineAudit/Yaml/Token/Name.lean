import PipelineAudit.Text.Utf8
import PipelineAudit.Yaml.Token

/-!
# Names, tags and directives

Readers for anchors and aliases, tags with their handles and escapes, and directives.
-/

namespace PipelineAudit.Yaml

/-- A character of an anchor, a handle or a directive name. -/
def isNameChar (c : Char) : Bool :=
  ('0' ≤ c && c ≤ '9') || ('A' ≤ c && c ≤ 'Z') || ('a' ≤ c && c ≤ 'z') || c == '-' || c == '_'

/-- A character of a tag, apart from the percent sign. -/
def isUriChar (c : Char) : Bool :=
  isNameChar c || ";/?:@&=+$,.!~*'()[]".toList.contains c

namespace Input

/-- Reads an anchor or an alias after its indicator. -/
def readAnchor (inp : Input) : Except Error (Token × Input) :=
  let start := inp.mark
  let aliased := inp.peek == '*'
  let word := if aliased then "alias" else "anchor"
  let (name, inp) := (inp.forward 1).takeWhile isNameChar
  if name.isEmpty then .error (.within (.anchorName word inp.peek) start inp.mark)
  else if !(isWhite inp.peek || "?:,]\x7d%@\x60".toList.contains inp.peek) then
    .error (.within (.anchorName word inp.peek) start inp.mark)
  else
    let name := String.ofList name
    .ok (⟨if aliased then .aliasOf name else .anchor name, start, inp.mark⟩, inp)

/-- Reads the two digits of each of a run of percent escapes. -/
def readEscapedBytes (word : String) (start : Mark) : Nat → Input → Except Error (List Nat × Input)
  | 0, inp => .ok ([], inp)
  | fuel + 1, inp =>
    if inp.peek != '%' then .ok ([], inp)
    else
      let inp := inp.forward 1
      match (inp.rest.take 2 ++ [endChar, endChar]).take 2 |>.find?
        (Text.hexValue? · |>.isNone) with
      | some c => .error (.within (.uriEscape word c) start inp.mark)
      | none =>
        let byte := Text.hexNumber (inp.rest.take 2)
        (readEscapedBytes word start fuel (inp.forward 2)).map fun (bytes, inp) =>
          (byte :: bytes, inp)

/-- Reads the characters of a tag, escapes resolved. -/
def readUriChars (word : String) (start : Mark) : Nat → Input → Except Error (List Char × Input)
  | 0, inp => .ok ([], inp)
  | fuel + 1, inp =>
    if inp.peek == '%' then do
      let mark := inp.mark
      let (bytes, inp) ← readEscapedBytes word start inp.rest.length inp
      match Text.ofUtf8 bytes with
      | .error fault => .error (.within (.uriBytes word fault.message) start mark)
      | .ok text =>
        let (more, inp) ← readUriChars word start fuel inp
        return (text.toList ++ more, inp)
    else if isUriChar inp.peek then do
      let (taken, inp) := inp.takeWhile isUriChar
      let (more, inp) ← readUriChars word start fuel inp
      return (taken ++ more, inp)
    else .ok ([], inp)

/-- Reads a tag or the head of one. -/
def readUri (word : String) (start : Mark) (inp : Input) : Except Error (String × Input) :=
  if inp.peek == '%' || isUriChar inp.peek then
    (readUriChars word start (inp.rest.length + 1) inp).map fun (cs, inp) => (String.ofList cs, inp)
  else .error (.within (.uri word inp.peek) start inp.mark)

/-- Reads a handle: an exclamation mark, or a name between two. -/
def readHandle (word : String) (start : Mark) (inp : Input) : Except Error (String × Input) :=
  if inp.peek != '!' then .error (.within (.tagHandle word inp.peek) start inp.mark)
  else if inp.peekAt 1 == ' ' then .ok ("!", inp.forward 1)
  else
    let (name, after) := (inp.forward 1).takeWhile isNameChar
    if after.peek != '!' then .error (.within (.tagHandle word after.peek) start after.mark)
    else .ok ("!" ++ String.ofList name ++ "!", after.forward 1)

/-- Reads a tag. -/
def readTag (inp : Input) : Except Error (Token × Input) := do
  let start := inp.mark
  let next := inp.peekAt 1
  let (handle, suffix, inp) ←
    if next == '<' then do
      let (suffix, inp) ← readUri "tag" start (inp.forward 2)
      if inp.peek != '>' then throw (.within (.tagClosing inp.peek) start inp.mark)
      pure ((none : Option String), suffix, inp.forward 1)
    else if isWhite next then pure (none, "!", inp.forward 1)
    else do
      let head := (inp.rest.drop 1).takeWhile fun c => !(isSpaceOrEnd c)
      let (handle, inp) ←
        if head.contains '!' then readHandle "tag" start inp else pure ("!", inp.forward 1)
      let (suffix, inp) ← readUri "tag" start inp
      pure (some handle, suffix, inp)
  if !(isSpaceOrEnd inp.peek) then throw (.within (.tagEnd inp.peek) start inp.mark)
  return (⟨.tag handle suffix, start, inp.mark⟩, inp)

/-- Reads a number of a version directive. It is read as an integer, so it may not have too many
digits. -/
def readVersionNumber (start : Mark) (inp : Input) : Except Error (Nat × Input) :=
  if !(Text.isAsciiDigit inp.peek) then .error (.within (.versionDigit inp.peek) start inp.mark)
  else
    let (digits, inp) := inp.takeWhile Text.isAsciiDigit
    if digitLimit < digits.length then .error (.fault (.number (.tooManyDigits digits.length)))
    else .ok (Literal.ofDigits 10 (digits.map fun c => c.toNat - '0'.toNat), inp)

/-- Reads a directive. -/
def readDirective (inp : Input) : Except Error (Token × Input) := do
  let start := inp.mark
  let (name, inp) := (inp.forward 1).takeWhile isNameChar
  if name.isEmpty || !(isSpaceOrEnd inp.peek) then
    throw (.within (.directiveName inp.peek) start inp.mark)
  let name := String.ofList name
  let (directive, stop, inp) ←
    if name = "YAML" then do
      let (major, inp) ← readVersionNumber start (inp.dropWhile (· == ' '))
      if inp.peek != '.' then throw (.within (.versionDot inp.peek) start inp.mark)
      let (minor, inp) ← readVersionNumber start (inp.forward 1)
      if !(isSpaceOrEnd inp.peek) then throw (.within (.versionEnd inp.peek) start inp.mark)
      pure (Directive.version major minor, inp.mark, inp)
    else if name = "TAG" then do
      let (handle, inp) ← readHandle "directive" start (inp.dropWhile (· == ' '))
      if inp.peek != ' ' then throw (.within (.directiveBlank inp.peek) start inp.mark)
      let (head, inp) ← readUri "directive" start (inp.dropWhile (· == ' '))
      if !(isSpaceOrEnd inp.peek) then throw (.within (.directiveBlank inp.peek) start inp.mark)
      pure (Directive.handle handle head, inp.mark, inp)
    else
      let stop := inp.mark
      pure (Directive.other name, stop, inp.dropWhile fun c => !(isBreakOrEnd c))
  let inp := inp.dropWhile (· == ' ')
  let inp := if inp.peek == '#' then inp.dropWhile (fun c => !(isBreakOrEnd c)) else inp
  if !(isBreakOrEnd inp.peek) then throw (.within (.directiveLineEnd inp.peek) start inp.mark)
  return (⟨.directive directive, start, stop⟩, inp.lineBreak.2)

end Input

end PipelineAudit.Yaml
