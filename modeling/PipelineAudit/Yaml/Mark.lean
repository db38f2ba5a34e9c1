/-!
# Positions in a YAML text

A mark is a position: the number of characters before it, its line and its column, all from zero. An
`Input` is what is left of a text, with the mark where it starts. A line ends at a newline, a
carriage return, both together, the next-line character, or a line or paragraph separator.
-/

namespace PipelineAudit.Yaml

/-- A position in a text. -/
structure Mark where
  index : Nat
  line : Nat
  column : Nat
  deriving DecidableEq, Repr, Inhabited

/-- The rest of a text and the position where it starts. -/
structure Input where
  rest : List Char
  mark : Mark
  deriving Repr

/-- The character that stands for the end of the text. -/
def endChar : Char := Char.ofNat 0

/-- A character that ends a line. -/
def isBreak (c : Char) : Bool :=
  c == '\n' || c == '\r' || c.toNat == 0x85 || c.toNat == 0x2028 || c.toNat == 0x2029

/-- A line end or the end of the text. -/
def isBreakOrEnd (c : Char) : Bool := c == endChar || isBreak c

/-- A blank, a line end or the end of the text. -/
def isSpaceOrEnd (c : Char) : Bool := c == ' ' || isBreakOrEnd c

/-- A blank, a tab, a line end or the end of the text. -/
def isWhite (c : Char) : Bool := c == '\t' || isSpaceOrEnd c

namespace Input

/-- The start of a text. -/
def ofString (s : String) : Input := ⟨s.toList, ⟨0, 0, 0⟩⟩

/-- The character some places ahead. -/
def peekAt (inp : Input) (k : Nat) : Char := inp.rest.getD k endChar

/-- The next character. -/
def peek (inp : Input) : Char := inp.rest.headD endChar

/-- The mark after a character, given what follows it. -/
def markAfter (m : Mark) (c : Char) (rest : List Char) : Mark :=
  if isBreak c && !(c == '\r' && rest.head? == some '\n') then ⟨m.index + 1, m.line + 1, 0⟩
  else if c.toNat == 0xFEFF then ⟨m.index + 1, m.line, m.column⟩
  else ⟨m.index + 1, m.line, m.column + 1⟩

/-- The input after some characters. -/
def forward : Nat → Input → Input
  | 0, inp => inp
  | n + 1, ⟨[], m⟩ => forward n ⟨[], m⟩
  | n + 1, ⟨c :: rest, m⟩ => forward n ⟨rest, markAfter m c rest⟩

/-- The characters at the head that satisfy a test, and the input after them. -/
def takeWhile (p : Char → Bool) (inp : Input) : List Char × Input :=
  let taken := inp.rest.takeWhile p
  (taken, inp.forward taken.length)

/-- The input after the characters at its head that satisfy a test. -/
def dropWhile (p : Char → Bool) (inp : Input) : Input := (inp.takeWhile p).2

/-- The input after a line end, and the text that the line end stands for: a newline, or the
separator itself. -/
def lineBreak (inp : Input) : List Char × Input :=
  let c := inp.peek
  if c == '\r' && inp.peekAt 1 == '\n' then (['\n'], inp.forward 2)
  else if c == '\r' || c == '\n' || c.toNat == 0x85 then (['\n'], inp.forward 1)
  else if isBreak c then ([c], inp.forward 1)
  else ([], inp)

/-- Whether three given characters, followed by white space or the end, come next. -/
def atSeparator (inp : Input) : Bool :=
  ((inp.rest.take 3 == ['-', '-', '-']) || (inp.rest.take 3 == ['.', '.', '.']))
    && isWhite (inp.peekAt 3)

end Input

end PipelineAudit.Yaml
