import PipelineAudit.Text.Digit
import PipelineAudit.Value.Anchored
import PipelineAudit.Value.Display
import PipelineAudit.Yaml.Schema

/-!
# Printing values

Values in block style: mappings and sequences over several lines, empty ones as `{}` and `[]`, and
scalars plain where they read back as they are, else in quotes. Long scalars are folded at blanks,
and other characters than those of ASCII are escaped. A part that stands in several places is
written at the first one, with a name, and referred to at the others.
-/

namespace PipelineAudit.Yaml.Printer

/-! ## The pen -/

/-- A text in the making. -/
structure Pen where
  /-- What has been written, last character first. -/
  written : List Char := []
  column : Nat := 0
  /-- Whether a blank, or the start of a line, comes last. -/
  afterBlank : Bool := true
  /-- Whether nothing but indentation and indicators stands on the line. -/
  atIndent : Bool := true
  /-- The shared parts that have been written. -/
  named : List Nat := []

namespace Pen

/-- Writes characters. -/
def put (cs : List Char) (p : Pen) : Pen :=
  { p with written := cs.reverse ++ p.written, column := p.column + cs.length }

/-- Marks that the last thing written is no blank. -/
def inScalar (p : Pen) : Pen := { p with afterBlank := false, atIndent := false }

/-- Ends the line. -/
def newline (p : Pen) : Pen :=
  { p with written := '\n' :: p.written, column := 0, afterBlank := true, atIndent := true }

/-- Writes blanks up to a column. -/
def fill (column : Nat) (p : Pen) : Pen :=
  if p.column < column then
    { p.put (List.replicate (column - p.column) ' ') with afterBlank := true }
  else p

/-- Goes to an indentation, on a new line if that is needed. -/
def indent (column : Nat) (p : Pen) : Pen :=
  let p := if !p.atIndent || column < p.column || (p.column == column && !p.afterBlank) then
    p.newline else p
  p.fill column

/-- Writes an indicator, after a blank if it needs one. -/
def indicator (mark : String) (needsBlank leavesBlank keepsIndent : Bool) (p : Pen) : Pen :=
  let cs := if p.afterBlank || !needsBlank then mark.toList else ' ' :: mark.toList
  { p.put cs with afterBlank := leavesBlank, atIndent := p.atIndent && keepsIndent }

/-- Starts an item of a sequence. -/
def dash (column : Nat) (p : Pen) : Pen := (p.indent column).indicator "-" true false true

/-- What has been written. -/
def text (p : Pen) : String := String.ofList p.written.reverse

end Pen

/-- The column after which a line is folded. -/
def width : Nat := 80

/-- The columns of one level of nesting. -/
def step : Nat := 2

/-! ## Scalars -/

/-- What matters of a text for the way it is written. -/
structure Analysis where
  isEmpty : Bool
  isMultiline : Bool
  allowsPlain : Bool
  allowsSingle : Bool
  deriving DecidableEq, Repr

/-- A character that ends a word in an indicator's sense. -/
def isGap (c : Option Char) : Bool :=
  match c with
  | none => true
  | some c => "\x00 \t\r\n\u0085\u2028\u2029".toList.contains c

/-- A character that breaks a line. -/
def isBreak (c : Char) : Bool := "\n\u0085\u2028\u2029".toList.contains c

/-- A character that is written as it is. -/
def isPrinted (c : Char) : Bool := '\x20' ≤ c && c ≤ '\x7e'

/-- Whether a text starts like something else than a plain scalar. -/
def startsMarked (cs : List Char) : Bool :=
  "---".toList.isPrefixOf cs || "...".toList.isPrefixOf cs
    || match cs with
      | [] => false
      | c :: rest =>
        "#,[]\x7b\x7d&*!|>'\"%@`".toList.contains c || ("?:-".toList.contains c && isGap rest.head?)

/-- Whether a later character of a text is an indicator, given the character before. -/
def hasIndicator : Char → List Char → Bool
  | _, [] => false
  | before, c :: rest =>
    (c == ':' && isGap rest.head?) || (c == '#' && isGap (some before)) || hasIndicator c rest

/-- Whether one kind of character comes directly before another. -/
def hasPair (p q : Char → Bool) : List Char → Bool
  | a :: b :: rest => (p a && q b) || hasPair p q (b :: rest)
  | _ => false

/-- Whether a character at either end satisfies a test. -/
def atEnds (p : Char → Bool) (cs : List Char) : Bool := cs.head?.any p || cs.getLast?.any p

/-- The analysis of a text. -/
def analyze (cs : List Char) : Analysis :=
  let isBlank := fun c => c == ' '
  let special := cs.any fun c => !(c == '\n' || isPrinted c)
  let breakSpace := hasPair isBreak isBlank cs
  let spaceBreak := hasPair isBlank isBreak cs
  let marked := startsMarked cs || match cs with
    | [] => false
    | c :: rest => hasIndicator c rest
  let multiline := cs.any isBreak
  { isEmpty := cs.isEmpty
    isMultiline := multiline
    allowsPlain :=
      !(atEnds (fun c => isBlank c || isBreak c) cs || breakSpace || spaceBreak || special
      || multiline || marked)
    allowsSingle := !(breakSpace || spaceBreak || special) }

/-- How a scalar is written. -/
inductive Style where
  | plain
  | single
  | double
  deriving DecidableEq, Repr

/-- The way to write a text, which may be a key on one line and may read back plainly. -/
def chooseStyle (a : Analysis) (simpleKey readsBack : Bool) : Style :=
  if readsBack && !(simpleKey && (a.isEmpty || a.isMultiline)) && a.allowsPlain then .plain
  else if a.allowsSingle && !(simpleKey && a.isMultiline) then .single
  else .double

/-- The runs of a text: blanks, breaks, and everything else. -/
def runs (cs : List Char) : List (List Char) :=
  cs.splitBy fun a b => (a == ' ') == (b == ' ') && isBreak a == isBreak b

/-- Writes a run of blanks: a single one folds the line if the line is full. -/
def putBlanks (column : Nat) (mayFold : Bool) (run : List Char) (p : Pen) : Pen :=
  if run.length == 1 && decide (width < p.column) && mayFold then p.indent column else p.put run

/-- Writes a run of breaks: one more line end than breaks, then the indentation. -/
def putBreaks (column : Nat) (run : List Char) (p : Pen) : Pen :=
  (run.foldl (fun p _ => p.newline) p.newline).indent column

/-- Writes a plain scalar. -/
def putPlain (column : Nat) (mayFold : Bool) (cs : List Char) (p : Pen) : Pen :=
  let p := (if p.afterBlank then p else p.put [' ']).inScalar
  (runs cs).foldl (fun p run =>
    if run.head? == some ' ' then
      (putBlanks column mayFold run p).inScalar
    else p.put run) p

/-- Doubles the quotes in a run. -/
def doubled (run : List Char) : List Char :=
  run.flatMap fun c => if c == '\'' then ['\'', '\''] else [c]

/-- Writes the runs of a scalar in single quotes; only blanks inside it may fold a line. -/
def putSingleRuns (column : Nat) (mayFold : Bool) (first : Bool) : List (List Char) → Pen → Pen
  | [], p => p
  | run :: rest, p =>
    let p :=
      if run.head? == some ' ' then
        putBlanks column (mayFold && !first && !rest.isEmpty) run p
      else if run.head?.any isBreak then putBreaks column run p
      else p.put (doubled run)
    putSingleRuns column mayFold false rest p

/-- Writes a scalar in single quotes. -/
def putSingle (column : Nat) (mayFold : Bool) (cs : List Char) (p : Pen) : Pen :=
  (putSingleRuns column mayFold true (runs cs) (p.indicator "'" true false false)).indicator "'"
    false false false

/-- The short escapes. -/
def shortEscapes : List (Char × Char) := [
  ('\x00', '0'), ('\x07', 'a'), ('\x08', 'b'), ('\t', 't'), ('\n', 'n'),
    ('\x0b', 'v'), ('\x0c', 'f'),
  ('\r', 'r'), ('\x1b', 'e'), ('"', '"'), ('\\', '\\'), ('\u0085', 'N'), ('\u00a0', '_'),
  ('\u2028', 'L'), ('\u2029', 'P')]

/-- Hexadecimal digits in capitals. -/
def capitalHex (digits n : Nat) : List Char := (Text.hexDigits digits n).map Char.toUpper

/-- A character in double quotes. -/
def escaped (c : Char) : List Char :=
  match shortEscapes.lookup c with
  | some e => ['\\', e]
  | none =>
    let n := c.toNat
    if isPrinted c then [c]
    else if n ≤ 0xFF then '\\' :: 'x' :: capitalHex 2 n
    else if n ≤ 0xFFFF then '\\' :: 'u' :: capitalHex 4 n
    else '\\' :: 'U' :: capitalHex 8 n

/-- Whether a character is written as it is in double quotes. -/
def isVerbatim (c : Char) : Bool := escaped c == [c]

/-- Folds a line by a backslash; a blank that follows is marked by another one. -/
def foldDouble (column : Nat) (pending : List Char) (blankNext : Bool) (p : Pen) : Pen :=
  let p := ((p.put (pending.reverse ++ ['\\'])).indent column).inScalar
  if blankNext then p.put ['\\'] else p

/-- Writes the characters of a scalar in double quotes. Unescaped characters wait in `pending`, last
one first, until an escape or the end. A full line is folded at a blank or next to an escape, but
not at either end of the scalar. `first` says that no character precedes. -/
def putDoubleFrom (column : Nat) (mayFold : Bool) (first : Bool) (pending : List Char) :
    List Char → Pen → Pen
  | [], p => p.put pending.reverse
  | c :: rest, p =>
    let inside := mayFold && !first && !rest.isEmpty
    if isVerbatim c then
      if inside && (c == ' ' || pending.isEmpty) && decide (width < p.column + pending.length) then
        putDoubleFrom column mayFold false [c] rest (foldDouble column pending (c == ' ') p)
      else putDoubleFrom column mayFold false (c :: pending) rest p
    else
      let p := (p.put pending.reverse).put (escaped c)
      let p := if inside && decide (width + 1 < p.column) then
          foldDouble column [] (rest.head? == some ' ') p
        else p
      putDoubleFrom column mayFold false [] rest p

/-- Writes a scalar in double quotes. -/
def putDouble (column : Nat) (mayFold : Bool) (cs : List Char) (p : Pen) : Pen :=
  (putDoubleFrom column mayFold true [] cs (p.indicator "\"" true false false)).indicator "\""
    false false false

/-- Writes a scalar. -/
def putScalar (column : Nat) (simpleKey readsBack : Bool) (s : String) (p : Pen) : Pen :=
  let cs := s.toList
  match chooseStyle (analyze cs) simpleKey readsBack with
  | .plain => if cs.isEmpty then p else putPlain column (!simpleKey) cs p
  | .single => putSingle column (!simpleKey) cs p
  | .double => putDouble column (!simpleKey) cs p

/-! ## Bytes -/

/-- The digits of base 64. -/
def base64Digits : List Char :=
  "ABCDEFGHIJKLMNOPQRSTUVWXYZabcdefghijklmnopqrstuvwxyz0123456789+/".toList

/-- A digit of base 64. -/
def base64Digit (n : Nat) : Char := base64Digits.getD (n % 64) '='

/-- Bytes in base 64. -/
def base64 : List UInt8 → List Char
  | a :: b :: c :: rest =>
    let n := (a.toNat * 256 + b.toNat) * 256 + c.toNat
    base64Digit (n / 64 ^ 3) :: base64Digit (n / 64 ^ 2) :: base64Digit (n / 64) :: base64Digit n
      :: base64 rest
  | [a, b] =>
    let n := (a.toNat * 256 + b.toNat) * 4
    [base64Digit (n / 64 ^ 2), base64Digit (n / 64), base64Digit n, '=']
  | [a] =>
    let n := a.toNat * 16
    [base64Digit (n / 64), base64Digit n, '=', '=']
  | [] => []

/-- The number of characters of base 64 on a line. -/
def base64Width : Nat := 76

/-- Pieces of a list, all of one length but the last. The fuel bounds their number. -/
def pieces (length : Nat) : Nat → List Char → List (List Char)
  | 0, _ => []
  | _, [] => []
  | fuel + 1, cs => cs.take length :: pieces length fuel (cs.drop length)

/-- Writes bytes as a tagged block of base 64. -/
def putBytes (column : Nat) (bs : List UInt8) (p : Pen) : Pen :=
  let cs := base64 bs
  let p := p.indicator "!!binary" true false false
  if cs.isEmpty then putDouble column false [] p
  else
    (pieces base64Width cs.length cs).foldl (fun p line => ((p.indent column).put line).newline)
      (p.indicator "|" true false false).newline

/-! ## Values -/

/-- A floating-point number with a point before its exponent. -/
def floatText (x : Binary64) : String :=
  let s := x.text
  if x.isNaN then ".nan"
  else if x.isInfinite then (if x.isNegative then "-.inf" else ".inf")
  else if s.toList.contains '.' || !s.toList.contains 'e' then s
  else
    let (mantissa, exponent) := Text.cut 'e' s
    mantissa ++ ".0e" ++ exponent

/-- The text of a value that is no text, sequence or mapping. -/
def atomText : Value → String
  | .null => "null"
  | .bool b => if b then "true" else "false"
  | .float x => floatText x
  | .moment t => t.text " "
  | v => v.display

/-- The length of the short tag that counts when a key is measured. -/
def tagLength : Value → Nat
  | .null | .bool _ => 6
  | .float _ => 7
  | .date _ | .moment _ => 11
  | .bytes _ => 8
  | _ => 5

/-- Whether a text reads back as a text when it is written plainly. -/
def readsAsText (s : String) : Bool := Schema.plain.resolve s == Tag.str

/-- The length from which on a key does not stand on one line with its value. -/
def simpleKeyLimit : Nat := 128

/-! ## Shared parts -/

/-- How a part is mentioned: it has no name, it gets its name here, or it is referred to. -/
inductive Mention where
  | unnamed
  | first (number : Nat) (name : String)
  | again (name : String)
  deriving DecidableEq, Repr

/-- The name of the shared part with a place among all. -/
def anchorName (place : Nat) : String := "id" ++ Text.padZero 3 (place + 1)

/-- How a part is mentioned next, given the shared parts. -/
def mention (shared : List Nat) (anchor : Option Nat) (p : Pen) : Mention :=
  match anchor.bind fun n => (shared.idxOf? n).map fun place => (n, anchorName place) with
  | none => .unnamed
  | some (n, name) => if p.named.contains n then .again name else .first n name

namespace Mention

/-- Whether the part itself is left out. -/
def isReference : Mention → Bool
  | again _ => true
  | _ => false

/-- The length of the name that counts when a key is measured. -/
def length : Mention → Nat
  | unnamed => 0
  | first _ name | again name => name.length

/-- Writes the mark of a name. -/
def put (m : Mention) (p : Pen) : Pen :=
  match m with
  | unnamed => p
  | first n name => { p.indicator ("&" ++ name) true false false with named := n :: p.named }
  | again name => p.indicator ("*" ++ name) true false false

end Mention

/-- The anchor of a value. -/
def anchorOf : Anchored → Option Nat
  | .leaf anchor _ => anchor
  | .seq anchor _ => anchor
  | .pair _ _ => none
  | .map anchor _ => anchor

/-- Whether a key that is not referred to stands on one line with its value. -/
def isSimple (nameLength : Nat) : Anchored → Bool
  | .seq _ items => items.isEmpty
  | .map _ entries => entries.isEmpty
  | .pair _ _ => false
  | .leaf _ (.bytes _) => false
  | .leaf _ (.str s) =>
    let a := analyze s.toList
    decide (nameLength + tagLength (.str s) + s.length < simpleKeyLimit) &&
      !a.isEmpty && !a.isMultiline
  | .leaf _ v => decide (nameLength + tagLength v + (atomText v).length < simpleKeyLimit)

/-- Whether a key stands on one line with its value. -/
def isSimpleKey (shared : List Nat) (key : Anchored) (p : Pen) : Bool :=
  let m := mention shared (anchorOf key) p
  m.isReference || isSimple m.length key

/-- The tag of a pair. -/
def pairTag : String := "!!python/tuple"

/-- The indentation one level below another; the outermost level starts at zero. -/
def deeper : Option Nat → Nat
  | none => 0
  | some n => n + step

/-- The indentation of the lines that a scalar goes on with. -/
def scalarColumn : Option Nat → Nat
  | none => step
  | some n => n + step

/-- Writes a leaf. -/
def putLeaf (column : Nat) (simpleKey : Bool) (v : Value) (p : Pen) : Pen :=
  match v with
  | .str s => putScalar column simpleKey (readsAsText s) s p
  | .bytes bs => putBytes column bs p
  | v => putScalar column simpleKey true (atomText v) p

/-- The column of the items of a sequence: inside a mapping they need no further indentation. -/
def itemColumn (outer : Option Nat) (inMapping : Bool) (p : Pen) : Nat :=
  if inMapping && !p.atIndent then outer.getD 0 else deeper outer

mutual

/-- Writes a value. `outer` is the indentation around it, `inMapping` says that it is the key or
value of a mapping, and `simpleKey` that it is a key on one line with its value. -/
def putValue (shared : List Nat) (outer : Option Nat) (inMapping simpleKey : Bool) :
    Anchored → Pen → Pen
  | .leaf anchor v, p =>
    let m := mention shared anchor p
    let p := m.put p
    if m.isReference then p else putLeaf (scalarColumn outer) simpleKey v p
  | .seq anchor items, p =>
    let m := mention shared anchor p
    let p := m.put p
    if m.isReference then p
    else if items.isEmpty then (p.indicator "[" true true false).indicator "]" false false false
    else putItems shared (itemColumn outer inMapping p) items p
  | .pair a b, p =>
    let p := p.indicator pairTag true false false
    let column := itemColumn outer inMapping p
    let p := putValue shared (some column) false false a (p.dash column)
    putValue shared (some column) false false b (p.dash column)
  | .map anchor entries, p =>
    let m := mention shared anchor p
    let p := m.put p
    if m.isReference then p
    else if entries.isEmpty then
      (p.indicator "\x7b" true true false).indicator "\x7d" false false false
    else putEntries shared (deeper outer) entries p
termination_by structural v => v

/-- Writes the items of a sequence. -/
def putItems (shared : List Nat) (column : Nat) : List Anchored → Pen → Pen
  | [], p => p
  | v :: rest, p =>
    putItems shared column rest (putValue shared (some column) false false v (p.dash column))
termination_by structural vs => vs

/-- Writes an entry of a mapping. -/
def putEntry (shared : List Nat) (column : Nat) : Anchored × Anchored → Pen → Pen
  | (key, value), p =>
    let p := p.indent column
    if isSimpleKey shared key p then
      putValue shared (some column) true false value
        ((putValue shared (some column) true true key p).indicator ":" false false false)
    else
      let p := putValue shared (some column) true false key (p.indicator "?" true false true)
      putValue shared (some column) true false value
        ((p.indent column).indicator ":" true false true)
termination_by structural e => e

/-- Writes the entries of a mapping. -/
def putEntries (shared : List Nat) (column : Nat) : List (Anchored × Anchored) → Pen → Pen
  | [], p => p
  | e :: rest, p => putEntries shared column rest (putEntry shared column e p)
termination_by structural es => es

end

/-- Whether a document that is a single scalar is written plainly, so that its end has to be
marked. -/
def endsOpen : Anchored → Bool
  | .leaf _ (.bytes _) => false
  | .leaf _ (.str s) => chooseStyle (analyze s.toList) false (readsAsText s) == .plain
  | .leaf _ _ => true
  | _ => false

/-- A value as a document. -/
def print (v : Anchored) : String :=
  let p := (putValue v.shared none false false v {}).indent 0
  if endsOpen v then p.text ++ "...\n" else p.text

end PipelineAudit.Yaml.Printer
