import PipelineAudit.Value.Basic

/-!
# Values with shared parts

In a data file one part can stand in several places. `Anchored` is a value in which such a part
carries the same number in all of them, so that it can be written once and referred to later.
`Anchored.value` forgets the numbers.
-/

namespace PipelineAudit

/-- A value whose parts can carry numbers; a leaf holds no other values. -/
inductive Anchored where
  | leaf (anchor : Option Nat) (value : Value)
  | seq (anchor : Option Nat) (items : List Anchored)
  | pair (key value : Anchored)
  | map (anchor : Option Nat) (entries : List (Anchored × Anchored))
  deriving Inhabited

namespace Anchored

mutual

/-- The value without the numbers. -/
def value : Anchored → Value
  | leaf _ v => v
  | seq _ items => .seq (itemValues items)
  | pair a b => .pair (value a) (value b)
  | map _ es => .map (entryValues es)
termination_by structural v => v

/-- The items of a list without the numbers. -/
def itemValues : List Anchored → List Value
  | [] => []
  | v :: rest => value v :: itemValues rest
termination_by structural vs => vs

/-- The entries of a mapping without the numbers. -/
def entryValues : List (Anchored × Anchored) → List (Value × Value)
  | [] => []
  | e :: rest => entryValue e :: entryValues rest
termination_by structural es => es

/-- An entry of a mapping without the numbers. -/
def entryValue : Anchored × Anchored → Value × Value
  | (k, v) => (value k, value v)
termination_by structural e => e

end

mutual

/-- A value none of whose parts is shared. -/
def ofValue : Value → Anchored
  | .seq items => seq none (ofItems items)
  | .pair a b => pair (ofValue a) (ofValue b)
  | .map es => map none (ofEntries es)
  | v => leaf none v
termination_by structural v => v

/-- Items none of whose parts is shared. -/
def ofItems : List Value → List Anchored
  | [] => []
  | v :: rest => ofValue v :: ofItems rest
termination_by structural vs => vs

/-- Entries none of whose parts is shared. -/
def ofEntries : List (Value × Value) → List (Anchored × Anchored)
  | [] => []
  | e :: rest => ofEntry e :: ofEntries rest
termination_by structural es => es

/-- An entry none of whose parts is shared. -/
def ofEntry : Value × Value → Anchored × Anchored
  | (k, v) => (ofValue k, ofValue v)
termination_by structural e => e

end

/-- A text. -/
def ofString (s : String) : Anchored := leaf none (.str s)

/-- The entries of a mapping; none for other values. -/
def entries : Anchored → List (Anchored × Anchored)
  | map _ es => es
  | _ => []

/-- The value of a key in a list of entries. -/
def lookup : List (Anchored × Anchored) → Value → Option Anchored
  | [], _ => none
  | (k, v) :: rest, key => if k.value.sameKey key then some v else lookup rest key

/-- Writes an entry: the value of a key that is present is replaced, a new key goes to the end. -/
def insertEntry : List (Anchored × Anchored) → Anchored → Anchored → List (Anchored × Anchored)
  | [], key, v => [(key, v)]
  | (k, old) :: rest, key, v =>
    if k.value.sameKey key.value then (k, v) :: rest else (k, old) :: insertEntry rest key v

/-- The entries that result from writing pairs one after another. -/
def entriesOf (pairs : List (Anchored × Anchored)) : List (Anchored × Anchored) :=
  pairs.foldl (fun es p => insertEntry es p.1 p.2) []

/-! ## Numbering -/

/-- The numbers that have been met, and those that have been met again, in the order in which that
happened. -/
structure Encounters where
  once : List Nat := []
  again : List Nat := []

/-- Meets a number again. -/
def Encounters.meetAgain (e : Encounters) (n : Nat) : Encounters :=
  if e.again.contains n then e else { e with again := e.again ++ [n] }

mutual

/-- Meets the parts of a value, keys before values. Shared parts are entered once. -/
def meetAll (e : Encounters) : Anchored → Encounters
  | leaf anchor _ =>
    match anchor with
    | none => e
    | some n => if e.once.contains n then e.meetAgain n else { e with once := n :: e.once }
  | seq anchor items =>
    match anchor with
    | none => meetItems e items
    | some n =>
        if e.once.contains n then e.meetAgain n else meetItems { e with once := n :: e.once } items
  | pair a b => meetAll (meetAll e a) b
  | map anchor es =>
    match anchor with
    | none => meetEntries e es
    | some n =>
        if e.once.contains n then e.meetAgain n else meetEntries { e with once := n :: e.once } es
termination_by structural v => v

/-- Meets the items of a list. -/
def meetItems (e : Encounters) : List Anchored → Encounters
  | [] => e
  | v :: rest => meetItems (meetAll e v) rest
termination_by structural vs => vs

/-- Meets the entries of a mapping. -/
def meetEntries (e : Encounters) : List (Anchored × Anchored) → Encounters
  | [] => e
  | entry :: rest => meetEntries (meetEntry e entry) rest
termination_by structural es => es

/-- Meets the key and the value of an entry. -/
def meetEntry (e : Encounters) : Anchored × Anchored → Encounters
  | (k, v) => meetAll (meetAll e k) v
termination_by structural entry => entry

end

/-- The numbers of the parts that stand in several places, in the order in which they repeat
first. -/
def shared (v : Anchored) : List Nat := (meetAll {} v).again

end Anchored

end PipelineAudit
