import PipelineAudit.Text.Alphanumeric
import PipelineAudit.Text.Blank
import PipelineAudit.Text.Case
import PipelineAudit.Text.Digit

/-!
# Text patterns

Patterns are data: sets of characters, sequence, ordered choice, bounded and unbounded repetition
(greedy or lazy), numbered groups and conditions on the neighbouring characters. `Regex.run` tries
the alternatives of a pattern in order and hands each position it reaches to a continuation, so the
first success is the match: earlier alternatives win, greedy repetition prefers more and lazy
repetition prefers less.

`Regex.matchAt` matches at the start of a text, `Regex.search` anywhere in it, and
`Regex.findAll` lists the matches from left to right, each one starting where the last one ended.
-/

namespace PipelineAudit

/-! ## Sets of characters -/

/-- A set of characters. -/
inductive CharSet where
  /-- Any character. -/
  | any
  /-- The characters between two bounds, both included. -/
  | range (lo hi : Char)
  /-- The listed characters. -/
  | oneOf (cs : List Char)
  /-- The decimal digits of every script. -/
  | digit
  /-- Letters, numerals and the underscore. -/
  | word
  /-- White space. -/
  | blank
  /-- What lies in either set. -/
  | union (a b : CharSet)
  /-- What lies outside a set. -/
  | compl (a : CharSet)
  /-- What lies in a set when case is ignored. -/
  | caseless (a : CharSet)
  deriving Repr

namespace CharSet

/-- Whether a character lies in a set. -/
def contains : CharSet → Char → Bool
  | any, _ => true
  | range lo hi, c => lo ≤ c && c ≤ hi
  | oneOf cs, c => cs.contains c
  | digit, c => Text.isDigit c
  | word, c => Text.isWord c
  | blank, c => Text.isBlank c
  | union a b, c => a.contains c || b.contains c
  | compl a, c => !a.contains c
  | caseless a, c =>
    let folded := Text.foldCase c
    a.contains folded || a.contains folded.toUpper

instance : OrOp CharSet := ⟨union⟩

/-- The set that holds the characters of a text. -/
def ofString (s : String) : CharSet := oneOf s.toList

/-- The letters of ASCII. -/
def letter : CharSet := range 'A' 'Z' ||| range 'a' 'z'

/-- The digits of ASCII. -/
def decimal : CharSet := range '0' '9'

/-- The letters and digits of ASCII. -/
def alnum : CharSet := letter ||| decimal

/-- The hexadecimal digits of ASCII. -/
def hex : CharSet := decimal ||| range 'a' 'f' ||| range 'A' 'F'

/-- Everything but the newline. -/
def dot : CharSet := compl (oneOf ['\n'])

end CharSet

/-! ## Patterns -/

/-- A pattern for texts. -/
inductive Regex where
  /-- The empty text. -/
  | empty
  /-- One character of a set. -/
  | char (s : CharSet)
  /-- One pattern after another. -/
  | seq (a b : Regex)
  /-- The first pattern or else the second. -/
  | alt (a b : Regex)
  /-- At least `least` repetitions, at most `most` if that is given. -/
  | many (least : Nat) (most : Option Nat) (lazy : Bool) (a : Regex)
  /-- A pattern whose text is remembered under a number. -/
  | group (number : Nat) (a : Regex)
  /-- The border between a word character and something else. -/
  | boundary
  /-- The start of the text. -/
  | start
  /-- The end of the text, or just before a newline that ends it. -/
  | finish
  /-- The end of a line. -/
  | lineEnd
  /-- The character before is not in the set. -/
  | notAfter (s : CharSet)
  /-- The character that follows is not in the set. -/
  | notBefore (s : CharSet)
  deriving Repr

/-- A position in a text: the character before it, what follows, and how many characters precede. -/
structure Cursor where
  before : Option Char
  rest : List Char
  offset : Nat
  deriving Repr, DecidableEq

/-- The start of a text. -/
def Cursor.ofChars (cs : List Char) : Cursor := ⟨none, cs, 0⟩

/-- The position after the next character, if there is one. -/
def Cursor.next? : Cursor → Option (Char × Cursor)
  | ⟨_, [], _⟩ => none
  | ⟨_, c :: rest, offset⟩ => some (c, ⟨some c, rest, offset + 1⟩)

/-- Remembered groups: number, start and end offset, the latest first. -/
abbrev Groups := List (Nat × Nat × Nat)

namespace Regex

instance : Append Regex := ⟨seq⟩

instance : OrOp Regex := ⟨alt⟩

/-- A continuation of a match: what follows a position. -/
abbrev Next (β : Type) := Cursor → Groups → Option β

/-- Repeats a step. The fuel bounds the number of repetitions beyond the required ones; a repetition
that does not advance ends the loop. -/
def repeatStep {β : Type} (step : Cursor → Groups → Next β → Option β) (lazy : Bool)
    (next : Next β) : Nat → Nat → Option Nat → Cursor → Groups → Option β
  | 0, _, _, _, _ => none
  | fuel + 1, least + 1, most, cur, groups =>
    step cur groups fun cur' groups' =>
      repeatStep step lazy next fuel least (most.map (· - 1)) cur' groups'
  | fuel + 1, 0, most, cur, groups =>
    let more := fun (_ : Unit) =>
      if most = some 0 then none
      else step cur groups fun cur' groups' =>
        if cur.offset < cur'.offset then
          repeatStep step lazy next fuel 0 (most.map (· - 1)) cur' groups'
        else none
    if lazy then (next cur groups).or (more ()) else (more ()).or (next cur groups)

/-- Whether a position is the border of a word. -/
def atBoundary (cur : Cursor) : Bool :=
  (cur.before.map Text.isWord).getD false != (cur.rest.head?.map Text.isWord).getD false

/-- Matches a pattern at a position and goes on with the continuation; the alternatives of the
pattern are tried in order until the continuation succeeds. -/
def run {β : Type} : Regex → Cursor → Groups → Next β → Option β
  | empty, cur, groups, next => next cur groups
  | char s, cur, groups, next =>
    match cur.next? with
    | some (c, cur') => if s.contains c then next cur' groups else none
    | none => none
  | seq a b, cur, groups, next => a.run cur groups fun cur' groups' => b.run cur' groups' next
  | alt a b, cur, groups, next =>
    match a.run cur groups next with
    | some r => some r
    | none => b.run cur groups next
  | many least most lazy a, cur, groups, next =>
    repeatStep (fun c g k => a.run c g k) lazy next (cur.rest.length + least + 1) least most cur
      groups
  | group number a, cur, groups, next =>
    a.run cur groups fun cur' groups' => next cur' ((number, cur.offset, cur'.offset) :: groups')
  | boundary, cur, groups, next => if atBoundary cur then next cur groups else none
  | start, cur, groups, next => if cur.before.isNone then next cur groups else none
  | finish, cur, groups, next =>
    if cur.rest.isEmpty || cur.rest == ['\n'] then next cur groups else none
  | lineEnd, cur, groups, next =>
    if cur.rest.isEmpty || cur.rest.head? == some '\n' then next cur groups else none
  | notAfter s, cur, groups, next =>
    if (cur.before.map s.contains).getD false then none else next cur groups
  | notBefore s, cur, groups, next =>
    if (cur.rest.head?.map s.contains).getD false then none else next cur groups

/-! ## Building patterns -/

/-- A literal list of characters. -/
def ofChars : List Char → Regex
  | [] => empty
  | [c] => char (.oneOf [c])
  | c :: rest => seq (char (.oneOf [c])) (ofChars rest)

/-- A literal text. -/
def lit (s : String) : Regex := ofChars s.toList

/-- One character of a text. -/
def oneOf (s : String) : Regex := char (.ofString s)

/-- One character outside a text. -/
def noneOf (s : String) : Regex := char (.compl (.ofString s))

/-- The first of several patterns that matches. -/
def choice : List Regex → Regex
  | [] => char (.oneOf [])
  | [a] => a
  | a :: rest => alt a (choice rest)

/-- The first of several texts that matches. -/
def words (ws : List String) : Regex := choice (ws.map lit)

/-- Zero or more, as many as possible. -/
def star (a : Regex) : Regex := many 0 none false a

/-- Zero or more, as few as possible. -/
def lazyStar (a : Regex) : Regex := many 0 none true a

/-- One or more. -/
def plus (a : Regex) : Regex := many 1 none false a

/-- Zero or one, one if possible. -/
def opt (a : Regex) : Regex := many 0 (some 1) false a

/-- Exactly `n`. -/
def exactly (n : Nat) (a : Regex) : Regex := many n (some n) false a

/-- At least `n`. -/
def atLeast (n : Nat) (a : Regex) : Regex := many n none false a

/-- Blanks, possibly none. -/
def blanks : Regex := star (char .blank)

/-- At least one blank. -/
def blanks1 : Regex := plus (char .blank)

/-- The pattern that ignores case. -/
def caseless : Regex → Regex
  | char s => char s.caseless
  | seq a b => seq a.caseless b.caseless
  | alt a b => alt a.caseless b.caseless
  | many least most lazy a => many least most lazy a.caseless
  | group n a => group n a.caseless
  | notAfter s => notAfter s.caseless
  | notBefore s => notBefore s.caseless
  | r => r

/-! ## Matches -/

/-- A match: the text it was found in, its start and end, and its groups. -/
structure Match where
  text : List Char
  first : Nat
  last : Nat
  groups : Groups
  deriving Repr, DecidableEq

/-- The text between two offsets. -/
def slice (cs : List Char) (first last : Nat) : String :=
  String.ofList ((cs.drop first).take (last - first))

/-- The matched text. -/
def Match.whole (m : Match) : String := slice m.text m.first m.last

/-- The text of a group, if the group took part in the match. -/
def Match.group? (m : Match) (number : Nat) : Option String :=
  (m.groups.find? (·.1 == number)).map fun g => slice m.text g.2.1 g.2.2

/-- The match of a pattern that starts at a position. -/
def matchFrom (r : Regex) (text : List Char) (cur : Cursor) : Option Match :=
  r.run cur [] fun cur' groups => some ⟨text, cur.offset, cur'.offset, groups⟩

/-- The leftmost match at or after a position: `more` bounds the positions that are tried. -/
def searchFrom (r : Regex) (text : List Char) : Nat → Cursor → Option (Match × Cursor)
  | 0, _ => none
  | more + 1, cur =>
    match r.run cur [] fun cur' groups => some (⟨text, cur.offset, cur'.offset, groups⟩, cur') with
    | some found => some found
    | none =>
      match cur.next? with
      | some (_, cur') => searchFrom r text more cur'
      | none => none

/-- The matches at or after a position, each starting where the previous one ended. -/
def findAllFrom (r : Regex) (text : List Char) : Nat → Cursor → List Match
  | 0, _ => []
  | fuel + 1, cur =>
    match searchFrom r text (cur.rest.length + 1) cur with
    | none => []
    | some (found, cur') =>
      if found.first < found.last then found :: findAllFrom r text fuel cur'
      else match cur'.next? with
        | some (_, cur'') => found :: findAllFrom r text fuel cur''
        | none => [found]

/-- The match at the start of a text. -/
def matchAt (r : Regex) (s : String) : Option Match :=
  let cs := s.toList
  r.matchFrom cs (.ofChars cs)

/-- The leftmost match in a text. -/
def search (r : Regex) (s : String) : Option Match :=
  let cs := s.toList
  (r.searchFrom cs (cs.length + 1) (.ofChars cs)).map (·.1)

/-- All matches in a text, from left to right. -/
def findAll (r : Regex) (s : String) : List Match :=
  let cs := s.toList
  r.findAllFrom cs (cs.length + 1) (.ofChars cs)

/-- Whether a pattern matches at the start of a text. -/
def matchesStart (r : Regex) (s : String) : Bool := (r.matchAt s).isSome

/-- Whether a pattern matches somewhere in a text. -/
def occursIn (r : Regex) (s : String) : Bool := (r.search s).isSome

end Regex

end PipelineAudit
