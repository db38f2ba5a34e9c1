import PipelineAudit.Yaml.Error

/-!
# Readable text

A `Passage` is the part of a text that can be read, with the reason why no more of it can. A text
at hand is checked as a whole before reading begins. The text of a file is fetched in portions as
reading goes on, so a part that cannot be read is noticed only when reading gets to its portion:
what is wrong before that is reported first.
-/

namespace PipelineAudit.Yaml

/-- A character that a text may hold. -/
def isTextChar (c : Char) : Bool :=
  let n := c.toNat
  n == 0x9 || n == 0xA || n == 0xD || (0x20 ≤ n && n ≤ 0x7E) || n == 0x85
    || (0xA0 ≤ n && n ≤ 0xFFFD) || 0x10000 ≤ n

/-- The first character that no text may hold, with its position. -/
def specialChar? (cs : List Char) : Option (Char × Nat) :=
  cs.zipIdx.find? fun (c, _) => !(isTextChar c)

/-- The part of a text that can be read. -/
structure Passage where
  text : String
  /-- Why the text breaks off, if it does not end there. -/
  breakOff : Option Error
  deriving Repr

namespace Passage

/-- Characters that break off at an index. -/
def upTo (cs : List Char) (index : Nat) (why : Error) : Passage :=
  ⟨String.ofList (cs.take index), some why⟩

/-- An error for a character that no text may hold. -/
def special (c : Char) (position : Nat) : Error :=
  .problem ⟨.specialCharacter c position, none, none⟩

/-- A text at hand. -/
def ofText (text : String) : Passage :=
  match specialChar? text.toList with
  | some (c, i) => ⟨"", some (special c i)⟩
  | none => ⟨text, none⟩

/-- How many characters of a file are fetched at a time. -/
def portionSize : Nat := 4096

/-- How far reading has to get before the character at an index is fetched: to the start of its
portion, but the first two portions are fetched before reading begins. -/
def fetchedFrom (index : Nat) : Nat :=
  if index < 2 * portionSize then 0 else index / portionSize * portionSize

/-- Characters with every line break in one form. Where more is to follow, a carriage return at the
end is held back. -/
def unified (cs : List Char) (more : Bool) : List Char :=
  Text.unifyChars (if more && cs.getLast? == some '\r' then cs.dropLast else cs)

/-- The text of a file. Bytes that are no text are noticed before characters of the same portion. -/
def ofBytes (bytes : List Nat) : Passage :=
  let (text, fault?) := Text.ofUtf8Pieces bytes
  let cs := unified text.toList fault?.isSome
  let last := fetchedFrom cs.length
  match specialChar? cs, fault? with
  | none, none => ⟨String.ofList cs, none⟩
  | none, some f => upTo cs last (.fault (.encoding f))
  | some (c, i), none => upTo cs (fetchedFrom i) (special c i)
  | some (c, i), some f =>
    if fetchedFrom i < last then upTo cs (fetchedFrom i) (special c i)
    else upTo cs last (.fault (.encoding f))

end Passage

end PipelineAudit.Yaml
