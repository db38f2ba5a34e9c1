import PipelineAudit.Yaml.Token

/-!
# Scalars

Readers for the five ways to write a scalar: literal and folded blocks, single and double quotes,
and plain text. Line ends inside a scalar are folded: one becomes a blank, and of several the first
is dropped.
-/

namespace PipelineAudit.Yaml

/-- What a backslash and one character stand for. -/
def escapeOf? (c : Char) : Option Char :=
  match c with
  | '0' => some (Char.ofNat 0)
  | 'a' => some (Char.ofNat 0x7)
  | 'b' => some (Char.ofNat 0x8)
  | 't' => some '\t'
  | '\t' => some '\t'
  | 'n' => some '\n'
  | 'v' => some (Char.ofNat 0xB)
  | 'f' => some (Char.ofNat 0xC)
  | 'r' => some '\r'
  | 'e' => some (Char.ofNat 0x1B)
  | ' ' => some ' '
  | '"' => some '"'
  | '\\' => some '\\'
  | '/' => some '/'
  | 'N' => some (Char.ofNat 0x85)
  | '_' => some (Char.ofNat 0xA0)
  | 'L' => some (Char.ofNat 0x2028)
  | 'P' => some (Char.ofNat 0x2029)
  | _ => none

/-- How many hexadecimal digits follow a backslash and one character. -/
def escapeLength? (c : Char) : Option Nat :=
  match c with
  | 'x' => some 2
  | 'u' => some 4
  | 'U' => some 8
  | _ => none

namespace Input

/-! ## Quoted scalars -/

/-- Reads the empty lines inside a quoted scalar. -/
def readQuotedBreaks (start : Mark) : Nat → Input → Except Error (List Char × Input)
  | 0, inp => .ok ([], inp)
  | fuel + 1, inp =>
    if inp.atSeparator then .error (.within .quotedSeparator start inp.mark)
    else
      let inp := inp.dropWhile fun c => c == ' ' || c == '\t'
      if isBreak inp.peek then do
        let (brk, inp) := inp.lineBreak
        let (more, inp) ← readQuotedBreaks start fuel inp
        return (brk ++ more, inp)
      else .ok ([], inp)

/-- Reads blanks or a folded line end inside a quoted scalar. -/
def readQuotedSpaces (start : Mark) (inp : Input) : Except Error (List Char × Input) := do
  let (blanks, inp) := inp.takeWhile fun c => c == ' ' || c == '\t'
  if inp.peek == endChar then throw (.within .quotedEnd start inp.mark)
  if isBreak inp.peek then
    let (brk, inp) := inp.lineBreak
    let (breaks, inp) ← readQuotedBreaks start (inp.rest.length + 1) inp
    let fold := if brk != ['\n'] then brk else if breaks.isEmpty then [' '] else []
    return (fold ++ breaks, inp)
  else return (blanks, inp)

/-- Reads the escape after a backslash. -/
def readEscape (start : Mark) (inp : Input) : Except Error (List Char × Input) := do
  let c := inp.peek
  match escapeOf? c, escapeLength? c with
  | some r, _ => return ([r], inp.forward 1)
  | none, some length =>
    let inp := inp.forward 1
    let digits := (List.range length).map inp.peekAt
    match digits.find? (Text.hexValue? · |>.isNone) with
    | some bad => throw (.within (.escapeDigits length bad) start inp.mark)
    | none =>
      let code := Text.hexNumber digits
      if 0x110000 ≤ code then throw (.fault (.codePoint code))
      if 0xD800 ≤ code && code ≤ 0xDFFF then throw (.within (.surrogate code) start inp.mark)
      return ([Char.ofNat code], inp.forward length)
  | none, none =>
    if isBreak c then
      let inp := inp.lineBreak.2
      readQuotedBreaks start (inp.rest.length + 1) inp
    else throw (.within (.unknownEscape c) start inp.mark)

/-- Whether a character stands for itself inside quotes, whatever the quotes. -/
def isQuotedText (c : Char) : Bool :=
  !(c == '\'' || c == '"' || c == '\\' || isWhite c)

/-- Reads the text of a quoted scalar up to the next blank, line end or closing quote. -/
def readQuotedText (double : Bool) (start : Mark) : Nat → Input → Except Error (List Char × Input)
  | 0, inp => .ok ([], inp)
  | fuel + 1, inp => do
    let (taken, inp) := inp.takeWhile isQuotedText
    let c := inp.peek
    if !double && c == '\'' && inp.peekAt 1 == '\'' then
      let (more, inp) ← readQuotedText double start fuel (inp.forward 2)
      return (taken ++ '\'' :: more, inp)
    else if (double && c == '\'') || (!double && (c == '"' || c == '\\')) then
      let (more, inp) ← readQuotedText double start fuel (inp.forward 1)
      return (taken ++ c :: more, inp)
    else if double && c == '\\' then
      let (escaped, inp) ← readEscape start (inp.forward 1)
      let (more, inp) ← readQuotedText double start fuel inp
      return (taken ++ escaped ++ more, inp)
    else return (taken, inp)

/-- Reads a quoted scalar up to its closing quote, blanks and text in turn. -/
def readQuotedRest (double : Bool) (start : Mark) : Nat → Input → Except Error (List Char × Input)
  | 0, inp => .ok ([], inp)
  | fuel + 1, inp =>
    if inp.peek == (if double then '"' else '\'') then .ok ([], inp)
    else do
      let (spaces, inp) ← readQuotedSpaces start inp
      let (text, inp) ← readQuotedText double start (inp.rest.length + 1) inp
      let (more, inp) ← readQuotedRest double start fuel inp
      return (spaces ++ text ++ more, inp)

/-- Reads a quoted scalar. -/
def readQuoted (double : Bool) (inp : Input) : Except Error (Token × Input) := do
  let start := inp.mark
  let inp := inp.forward 1
  let (text, inp) ← readQuotedText double start (inp.rest.length + 1) inp
  let (more, inp) ← readQuotedRest double start (inp.rest.length + 1) inp
  let inp := inp.forward 1
  return (⟨.scalar (String.ofList (text ++ more)) false, start, inp.mark⟩, inp)

/-! ## Block scalars -/

/-- What happens to the line ends at the end of a block scalar. -/
inductive Chomping where
  | strip
  | clip
  | keep
  deriving DecidableEq, Repr

/-- The chomping that an indicator asks for. -/
def chompingOf? (c : Char) : Option Chomping :=
  if c == '+' then some .keep else if c == '-' then some .strip else none

/-- Reads an indentation indicator, if there is one. -/
def readIndentIndicator (start : Mark) (inp : Input) : Except Error (Option Nat × Input) :=
  if Text.isAsciiDigit inp.peek then
    if inp.peek == '0' then .error (.within .blockIndentZero start inp.mark)
    else .ok (some (inp.peek.toNat - '0'.toNat), inp.forward 1)
  else .ok (none, inp)

/-- Reads the indicators of a block scalar, in either order. -/
def readBlockIndicators (start : Mark) (inp : Input) :
    Except Error (Chomping × Option Nat × Input) := do
  let (chomping, increment, inp) ←
    match chompingOf? inp.peek with
    | some chomping => do
      let (increment, inp) ← readIndentIndicator start (inp.forward 1)
      pure (chomping, increment, inp)
    | none => do
      let (increment, inp) ← readIndentIndicator start inp
      match increment, chompingOf? inp.peek with
      | some n, some chomping => pure (chomping, some n, inp.forward 1)
      | _, _ => pure (.clip, increment, inp)
  if !(isSpaceOrEnd inp.peek) then throw (.within (.blockIndicators inp.peek) start inp.mark)
  return (chomping, increment, inp)

/-- Reads the empty lines at the head of a block scalar: the line ends, the widest indentation, and
the place after the last line end. -/
def readBlockIndentation : Nat → Nat → Mark → Input → List Char × Nat × Mark × Input
  | 0, widest, stop, inp => ([], widest, stop, inp)
  | fuel + 1, widest, stop, inp =>
    if inp.peek == ' ' then
      let inp := inp.forward 1
      readBlockIndentation fuel (max widest inp.mark.column) stop inp
    else if isBreak inp.peek then
      let (brk, inp) := inp.lineBreak
      let (more, widest, stop, inp) := readBlockIndentation fuel widest inp.mark inp
      (brk ++ more, widest, stop, inp)
    else ([], widest, stop, inp)

/-- Skips the indentation of a line of a block scalar. -/
def skipIndent (indent : Int) : Nat → Input → Input
  | 0, inp => inp
  | fuel + 1, inp =>
    if (inp.mark.column : Int) < indent && inp.peek == ' ' then
      skipIndent indent fuel (inp.forward 1)
    else inp

/-- Reads empty lines of a block scalar: their line ends and the place after the last one. -/
def readBlockBreaks (indent : Int) : Nat → Mark → Input → List (List Char) × Mark × Input
  | 0, stop, inp => ([], stop, inp)
  | fuel + 1, stop, inp =>
    let inp := skipIndent indent inp.rest.length inp
    if isBreak inp.peek then
      let (brk, inp) := inp.lineBreak
      let (more, stop, inp) := readBlockBreaks indent fuel inp.mark inp
      (brk :: more, stop, inp)
    else ([], stop, inp)

/-- Reads the lines of a block scalar. `breaks` are the empty lines before the next line. The result
holds the text, the last line end, the empty lines after it and where the scalar ends. -/
def readBlockLines (folded : Bool) (indent : Int) :
    Nat → List (List Char) → Mark → Input →
      List Char × List Char × List (List Char) × Mark × Input
  | 0, breaks, stop, inp => ([], [], breaks, stop, inp)
  | fuel + 1, breaks, stop, inp =>
    let more := fun i : Input => (i.mark.column : Int) == indent && i.peek != endChar
    if !(more inp) then ([], [], breaks, stop, inp)
    else
      let blankLead := inp.peek == ' ' || inp.peek == '\t'
      let (line, inp) := inp.takeWhile fun c => !(isBreakOrEnd c)
      let (brk, inp) := inp.lineBreak
      let (next, stop, inp) := readBlockBreaks indent (inp.rest.length + 1) inp.mark inp
      if more inp then
        let glue :=
          if folded && brk == ['\n'] && !blankLead && !(inp.peek == ' ' || inp.peek == '\t') then
            if next.isEmpty then [' '] else []
          else brk
        let (text, lastBreak, after, stop, inp) := readBlockLines folded indent fuel next stop inp
        (breaks.flatten ++ line ++ glue ++ text, lastBreak, after, stop, inp)
      else (breaks.flatten ++ line, brk, next, stop, inp)

/-- Reads a block scalar under the given indentation of its parent. -/
def readBlock (folded : Bool) (parent : Int) (inp : Input) : Except Error (Token × Input) := do
  let start := inp.mark
  let (chomping, increment, inp) ← readBlockIndicators start (inp.forward 1)
  let inp := inp.dropWhile (· == ' ')
  let inp := if inp.peek == '#' then inp.dropWhile (fun c => !(isBreakOrEnd c)) else inp
  if !(isBreakOrEnd inp.peek) then throw (.within (.blockLineEnd inp.peek) start inp.mark)
  let inp := inp.lineBreak.2
  let least := max 1 (parent + 1)
  let (indent, breaks, stop, inp) :=
    match increment with
    | none =>
      let (breaks, widest, stop, inp) := readBlockIndentation (inp.rest.length + 1) 0 inp.mark inp
      (max least (widest : Int), [breaks], stop, inp)
    | some n =>
      let indent := least + n - 1
      let (breaks, stop, inp) := readBlockBreaks indent (inp.rest.length + 1) inp.mark inp
      (indent, breaks, stop, inp)
  let (text, lastBreak, after, stop, inp) :=
    readBlockLines folded indent (inp.rest.length + 1) breaks stop inp
  let tail := match chomping with
    | .strip => []
    | .clip => lastBreak
    | .keep => lastBreak ++ after.flatten
  return (⟨.scalar (String.ofList (text ++ tail)) false, start, stop⟩, inp)

/-! ## Plain scalars -/

/-- The length of a piece of plain text. -/
def plainLength (flow : Bool) : List Char → Nat
  | [] => 0
  | c :: rest =>
    let next := rest.headD endChar
    if isWhite c
        || (c == ':' && (isWhite next || (flow && ",[]\x7b\x7d".toList.contains next)))
        || (flow && ",?[]\x7b\x7d".toList.contains c)
    then 0
    else plainLength flow rest + 1

/-- Reads the lines after the first line end between two pieces of plain text; none if a document
separator follows. -/
def readPlainBreaks : Nat → Input → Option (List Char) × Input
  | 0, inp => (some [], inp)
  | fuel + 1, inp =>
    if inp.peek == ' ' then readPlainBreaks fuel (inp.forward 1)
    else if isBreak inp.peek then
      let (brk, inp) := inp.lineBreak
      if inp.atSeparator then (none, inp)
      else
        let (more, inp) := readPlainBreaks fuel inp
        (more.map (brk ++ ·), inp)
    else (some [], inp)

/-- Reads what may stand between two pieces of plain text: the text it folds to, whether a line
ended, and the rest. -/
def readPlainSpaces (inp : Input) : List Char × Bool × Input :=
  let (blanks, inp) := inp.takeWhile (· == ' ')
  if isBreak inp.peek then
    let (brk, inp) := inp.lineBreak
    if inp.atSeparator then ([], true, inp)
    else
      match readPlainBreaks (inp.rest.length + 1) inp with
      | (none, inp) => ([], true, inp)
      | (some breaks, inp) =>
        let fold := if brk != ['\n'] then brk else if breaks.isEmpty then [' '] else []
        (fold ++ breaks, true, inp)
  else (blanks, false, inp)

/-- What was read of a plain scalar. -/
structure PlainRun where
  text : List Char
  stop : Mark
  /-- Whether a line ended after the last piece. -/
  lineEnded : Bool
  rest : Input

/-- Reads pieces of plain text. `spaces` stands between the last piece and the next. -/
def readPlainFrom (flow : Bool) (indent : Int) :
    Nat → List Char → PlainRun → PlainRun
  | 0, _, run => run
  | fuel + 1, spaces, run =>
    let inp := run.rest
    if inp.peek == '#' then run
    else
      let length := plainLength flow inp.rest
      if length = 0 then run
      else
        let piece := inp.rest.take length
        let inp := inp.forward length
        let stop := inp.mark
        let (gap, ended, inp) := readPlainSpaces inp
        let run : PlainRun := ⟨run.text ++ spaces ++ piece, stop, ended, inp⟩
        if gap.isEmpty || inp.peek == '#' || (!flow && (inp.mark.column : Int) < indent) then run
        else readPlainFrom flow indent fuel gap run

/-- Reads a plain scalar; the flag tells whether a line ended after it. -/
def readPlain (flow : Bool) (parent : Int) (inp : Input) : Token × Bool × Input :=
  let start := inp.mark
  let run := readPlainFrom flow (parent + 1) (inp.rest.length + 1) [] ⟨[], start, false, inp⟩
  (⟨.scalar (String.ofList run.text) true, start, run.stop⟩, run.lineEnded, run.rest)

end Input

end PipelineAudit.Yaml
