/-!
# Lines

A source text is cut into lines at every line boundary a text can hold, not only at the newline. A
boundary ends a line and does not start another, so a text that ends in one has no empty last line.
-/

namespace PipelineAudit.Text

/-- A character that ends a line. -/
def isLineBreak (c : Char) : Bool :=
  let n := c.toNat
  (0xA ≤ n && n ≤ 0xD) || (0x1C ≤ n && n ≤ 0x1E) || n == 0x85 || n == 0x2028 || n == 0x2029

/-- The lines of a text, given the characters of the current line, last first. -/
def linesFrom (current : List Char) : List Char → List (List Char)
  | [] => if current.isEmpty then [] else [current.reverse]
  | '\r' :: '\n' :: rest => current.reverse :: linesFrom [] rest
  | c :: rest =>
    if isLineBreak c then current.reverse :: linesFrom [] rest else linesFrom (c :: current) rest

/-- The lines of a text. -/
def lines (s : String) : List String := (linesFrom [] s.toList).map String.ofList

/-- Texts joined with a separator between them. -/
def join (sep : String) (parts : List String) : String := sep.intercalate parts

/-- Whether one list of characters occurs inside another. -/
def occursIn (needle : List Char) : List Char → Bool
  | [] => needle.isEmpty
  | c :: rest => needle.isPrefixOf (c :: rest) || occursIn needle rest

/-- Whether one text occurs inside another. -/
def contains (text needle : String) : Bool := occursIn needle.toList text.toList

/-- Whether a text starts with another. -/
def startsWith (text head : String) : Bool := head.toList.isPrefixOf text.toList

/-- Whether a text ends with another. -/
def endsWith (text tail : String) : Bool := tail.toList.reverse.isPrefixOf text.toList.reverse

/-- The pieces of a text between the occurrences of a character. -/
def splitChars (sep : Char) : List Char → List (List Char)
  | [] => [[]]
  | c :: rest =>
    if c = sep then [] :: splitChars sep rest
    else match splitChars sep rest with
      | [] => [[c]]
      | piece :: pieces => (c :: piece) :: pieces

/-- The pieces of a text between the occurrences of a character. -/
def splitOn (sep : Char) (s : String) : List String := (splitChars sep s.toList).map String.ofList

/-- What stands before the first occurrence of a character, and what stands after it. -/
def cut (sep : Char) (s : String) : String × String :=
  let cs := s.toList
  (String.ofList (cs.takeWhile (· ≠ sep)), String.ofList ((cs.dropWhile (· ≠ sep)).drop 1))

/-- A text padded with blanks on the left to a width. -/
def padLeft (width : Nat) (s : String) : String :=
  String.ofList (List.replicate (width - s.length) ' ') ++ s

/-- A natural number padded with zeros on the left to a width. -/
def padZero (width : Nat) (n : Nat) : String :=
  let digits := toString n
  String.ofList (List.replicate (width - digits.length) '0') ++ digits

end PipelineAudit.Text
