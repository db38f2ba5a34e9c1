/-!
# Ordered associations

A list of keys with values, in the order in which the keys were first written. Writing a key that is
present replaces its value in place; a new key goes to the end.
-/

namespace PipelineAudit

/-- Keys with values, in insertion order. -/
abbrev Assoc (κ β : Type) := List (κ × β)

namespace Assoc

variable {κ β γ : Type}

/-- The keys, in order. -/
def keys (m : Assoc κ β) : List κ := m.map Prod.fst

/-- The values, in order. -/
def values (m : Assoc κ β) : List β := m.map Prod.snd

variable [BEq κ]

/-- The value of a key. -/
def get? : Assoc κ β → κ → Option β
  | [], _ => none
  | (k, v) :: rest, key => if k == key then some v else get? rest key

/-- Whether a key is present. -/
def has (m : Assoc κ β) (key : κ) : Bool := (m.get? key).isSome

/-- Writes the value of a key. -/
def insert : Assoc κ β → κ → β → Assoc κ β
  | [], key, value => [(key, value)]
  | (k, v) :: rest, key, value =>
    if k == key then (k, value) :: rest else (k, v) :: insert rest key value

/-- The association that results from writing pairs one after another. -/
def ofList (pairs : List (κ × β)) : Assoc κ β :=
  pairs.foldl (fun m p => m.insert p.1 p.2) []

/-- The values under a function, keys unchanged. -/
def mapValues (f : β → γ) (m : Assoc κ β) : Assoc κ γ := m.map fun p => (p.1, f p.2)

end Assoc

end PipelineAudit
