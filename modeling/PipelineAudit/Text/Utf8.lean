import PipelineAudit.Text.Digit

/-!
# Texts from bytes

Decoding of UTF-8. A fault names the first bad byte, or the span of a sequence that is cut short,
and why it is bad. `ofUtf8` decodes all bytes at once, `ofUtf8Pieces` those of a file that is read
piece by piece.
-/

namespace PipelineAudit.Text

/-- How many continuation bytes a lead byte asks for, and the bounds of the first of them; none if
the byte leads no sequence. -/
def utf8Shape (b : Nat) : Option (Nat × Nat × Nat) :=
  if b < 0x80 then some (0, 0x80, 0xBF)
  else if b < 0xC2 then none
  else if b < 0xE0 then some (1, 0x80, 0xBF)
  else if b < 0xF0 then some (2, if b = 0xE0 then 0xA0 else 0x80, if b = 0xED then 0x9F else 0xBF)
  else if b < 0xF5 then some (3, if b = 0xF0 then 0x90 else 0x80, if b = 0xF4 then 0x8F else 0xBF)
  else none

/-- The continuation bytes at the head of a list, at most `count`, the first within bounds. -/
def continuation : Nat → Nat → Nat → List Nat → List Nat
  | 0, _, _, _ => []
  | _, _, _, [] => []
  | count + 1, lo, hi, b :: rest =>
    if lo ≤ b && b ≤ hi then b :: continuation count 0x80 0xBF rest else []

/-- What is wrong with a sequence of bytes. -/
inductive Utf8Cause where
  /-- No character starts with the byte. -/
  | start
  /-- A byte that should go on with a character does not. -/
  | continuation
  /-- The bytes end inside a character. -/
  | truncated
  deriving DecidableEq, Repr

/-- The words for a cause. -/
def Utf8Cause.words : Utf8Cause → String
  | start => "invalid start byte"
  | continuation => "invalid continuation byte"
  | truncated => "unexpected end of data"

/-- Why bytes are no UTF-8. -/
structure Utf8Fault where
  /-- Where the bad sequence starts. -/
  position : Nat
  /-- Its bytes up to the fault. -/
  bytes : List Nat
  cause : Utf8Cause
  deriving DecidableEq, Repr

/-- The message for a fault. -/
def Utf8Fault.message (f : Utf8Fault) : String :=
  let place := match f.bytes with
    | [b] => "byte 0x" ++ String.ofList (hexDigits 2 b) ++ " in position " ++ toString f.position
    | bs =>
        "bytes in position " ++ toString f.position ++ "-" ++ toString (f.position + bs.length - 1)
  "'utf-8' codec can't decode " ++ place ++ ": " ++ f.cause.words

/-- Decodes bytes that start at a position. The fuel bounds the number of characters. -/
def decodeUtf8 : Nat → Nat → List Nat → Except Utf8Fault (List Char)
  | 0, _, _ => .ok []
  | _, _, [] => .ok []
  | fuel + 1, position, b :: rest =>
    match utf8Shape b with
    | none => .error ⟨position, [b], .start⟩
    | some (count, lo, hi) =>
      let more := continuation count lo hi rest
      if more.length < count then
        let cause := if more.length = rest.length then .truncated else .continuation
        .error ⟨position, b :: more, cause⟩
      else
        let lead := if count = 0 then b else b % 2 ^ (6 - count)
        let c := Char.ofNat (more.foldl (fun n x => n * 64 + x % 64) lead)
        (decodeUtf8 fuel (position + count + 1) (rest.drop count)).map (c :: ·)

/-- The text of bytes. -/
def ofUtf8 (bytes : List Nat) : Except Utf8Fault String :=
  (decodeUtf8 bytes.length 0 bytes).map String.ofList

/-- How many bytes of a file are decoded at a time. -/
def pieceSize : Nat := 8192

/-- The bytes that have arrived before a fault is noticed: those of the pieces before the one with
the byte that starts no character or does not go on with one. That a character is cut off is noticed
only when all bytes have arrived. -/
def Utf8Fault.arrived (f : Utf8Fault) (bytes : List Nat) : List Nat :=
  match f.cause with
  | .start => bytes.take (f.position / pieceSize * pieceSize)
  | .continuation => bytes.take ((f.position + f.bytes.length) / pieceSize * pieceSize)
  | .truncated => bytes

/-- Bytes without a character that is cut off at their end. -/
def wholeCharacters (bytes : List Nat) : List Nat :=
  match ofUtf8 bytes with
  | .error f => bytes.take f.position
  | .ok _ => bytes

/-- The text of bytes that arrive piece by piece. With a fault comes the text of the characters that
were complete before its piece arrived; the place of the fault counts from the end of that text. -/
def ofUtf8Pieces (bytes : List Nat) : String × Option Utf8Fault :=
  match ofUtf8 bytes with
  | .ok text => (text, none)
  | .error f =>
    let known := wholeCharacters (f.arrived bytes)
    ((ofUtf8 known).toOption.getD "", some { f with position := f.position - known.length })

/-- Characters with every line break in one form. -/
def unifyChars : List Char → List Char
  | '\r' :: '\n' :: rest => '\n' :: unifyChars rest
  | '\r' :: rest => '\n' :: unifyChars rest
  | c :: rest => c :: unifyChars rest
  | [] => []

/-- A text whose line breaks are all newlines. -/
def unifyBreaks (s : String) : String := String.ofList (unifyChars s.toList)

end PipelineAudit.Text
