import Mathlib.Tactic.Lemma
import PipelineAudit.Yaml.Tree

/-!
# Texts that are covered

Two kinds of texts are read here otherwise than by the tool. A text may stand for a thing that no
value holds: a collection that contains itself, a set, or half of a surrogate pair
(`Cause.isBeyond`); reading it ends in a problem here, and the tool goes on. And a text may nest so
deep that the tool runs out of stack, which has no bound here. Statements about how reading ends are
made for the other texts, those that are covered (`Passage.IsCovered`). Statements about what was
read need no such condition: of a text of the first kind nothing is read here, and of one for which
there is no room the tool reads nothing.

Reading, cleaning and writing go down level by level, with less than five calls for each, and the
stack has room for a thousand of them; so a hundred levels are allowed for. What is open at once is
counted over the tokens, since a text may be refused before it has nodes, and the levels of nodes
are counted with aliases followed, since an alias brings a whole collection along.
-/

namespace PipelineAudit.Yaml

/-- How many levels a text may have to be covered. -/
def nestingLimit : Nat := 100

/-- Whether a token opens a collection. -/
def TokenKind.opens : TokenKind → Bool
  | blockSequenceStart | blockMappingStart | flowSequenceStart | flowMappingStart => true
  | _ => false

/-- Whether a token closes a collection. -/
def TokenKind.closes : TokenKind → Bool
  | blockEnd | flowSequenceEnd | flowMappingEnd => true
  | _ => false

/-- Whether there is room for what tokens open, where some collections are open already. -/
def Token.nestWithin (room : Nat) : Nat → List Token → Bool
  | _, [] => true
  | opened, t :: rest =>
    if t.kind.opens then decide (opened < room) && nestWithin room (opened + 1) rest
    else nestWithin room (if t.kind.closes then opened - 1 else opened) rest

/-- Whether there is room for the levels of a node. -/
def Node.nestsWithin : Nat → Node → Bool
  | _, .scalar _ _ => true
  | 0, _ => false
  | room + 1, .sequence _ items => items.all (nestsWithin room)
  | room + 1, .mapping _ entries =>
      entries.all fun e => nestsWithin room e.1 && nestsWithin room e.2

/-- Whether there is room for the levels of a passage. -/
def Passage.nestsWithin (schema : Schema) (room : Nat) (p : Passage) : Bool :=
  Token.nestWithin room 0 (Token.scan p).tokens
    && (Node.parse schema p).toOption.join.all (Node.nestsWithin room)

/-- Whether an error is a thing that no value holds. -/
def Error.isBeyond : Error → Bool
  | problem p => p.cause.isBeyond
  | fault _ => false

/-- A passage nests no deeper than is allowed for, and no thing in it is one that no value holds. -/
structure Passage.IsCovered (schema : Schema) (p : Passage) : Prop where
  nests : p.nestsWithin schema nestingLimit = true
  not_beyond : ∀ error, p.load schema = .error error → error.isBeyond = false

/-- A text at hand is covered. -/
def IsCovered (schema : Schema) (text : String) : Prop := (Passage.ofText text).IsCovered schema

/-- A covered text is read as a tree. -/
structure Reads (schema : Schema) (text : String) (tree : Value) : Prop where
  covered : IsCovered schema text
  load_eq : load schema text = .ok tree

/-- A passage that is read is covered if it does not nest too deep. -/
lemma Passage.isCovered_of_load {schema : Schema} {p : Passage} {v : Value}
    (h : p.load schema = .ok v) (hnests : p.nestsWithin schema nestingLimit = true) :
    p.IsCovered schema :=
  ⟨hnests, fun _ herror => by cases h.symm.trans herror⟩

-- an alias inside of what it names, a set, and half of a surrogate pair
example : ["&a [*a]", "!!set \x7bx\x7d", "\"\\ud83d\""].map (fun text =>
    match load .plain text with
    | .error error => error.isBeyond
    | .ok _ => false) = [true, true, true] := by
  decide +kernel

end PipelineAudit.Yaml
