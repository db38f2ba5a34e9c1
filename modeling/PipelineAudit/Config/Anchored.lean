import PipelineAudit.Config.Basic
import PipelineAudit.Value.Anchored

/-!
# Configurations with shared parts

A configuration that was read from a file remembers which of its parts are shared, and keeps that
when it is merged, put under a profile or changed otherwise. Mappings that are merged become new
ones, so that they are no longer shared; what is in them still is.
-/

namespace PipelineAudit.Anchored

/-! ## Merging -/

mutual

/-- Lays entries over others. -/
def mergeEntries (base : List (Anchored × Anchored)) :
    List (Anchored × Anchored) → List (Anchored × Anchored)
  | [] => base
  | e :: rest => mergeEntries (mergeEntry base e) rest
termination_by structural es => es

/-- Lays one entry over others. -/
def mergeEntry (base : List (Anchored × Anchored)) :
    Anchored × Anchored → List (Anchored × Anchored)
  | (key, v) => insertEntry base key (mergeValue (lookup base key.value) v)
termination_by structural e => e

/-- Lays a value over what was there before. -/
def mergeValue (old : Option Anchored) : Anchored → Anchored
  | map anchor entries =>
    match old with
    | some (map _ base) => map none (mergeEntries base entries)
    | _ => map anchor entries
  | v => v
termination_by structural v => v

end

/-- The position in a list that a key stands for: an integer, from the end if it is negative. -/
def position (length : Nat) (key : Value) : Except SettingFault Nat :=
  match Numeral.ofValue? key with
  | none => .error .notUsable
  | some n =>
    let index := if n.number < 0 then n.number + length else n.number
    if index < 0 || (length : Int) ≤ index then .error .missingItem else .ok index.toNat

/-- Lays one entry over the items of a list, its key being a position. A mapping is merged into
another one only if the key is also an item. -/
def mergeItem (items : List Anchored) (entry : Anchored × Anchored) :
    Except SettingFault (List Anchored) := do
  let index ← position items.length entry.1.value
  let old := if items.any fun item => item.value.sameKey entry.1.value then items[index]? else none
  return items.set index (mergeValue old entry.2)

/-- Lays a mapping over another one, or over a list. -/
def merge (base override : Anchored) : Except SettingFault Anchored :=
  match base, override with
  | map _ b, map _ o => .ok (map none (mergeEntries b o))
  | seq _ items, map _ o => (o.foldlM mergeItem items).map (seq none)
  | _, _ => .error .notAMapping

/-! ## Profiles and rules -/

/-- The value under a text key, if there is one. -/
def get? (v : Anchored) (name : String) : Option Anchored := lookup v.entries (.str name)

/-- Sets the value of a text key. -/
def set (es : List (Anchored × Anchored)) (name : String) (v : Anchored) :
    List (Anchored × Anchored) :=
  insertEntry es (ofString name) v

/-- The analysis options under a profile: defaults, then the profile, then what differs from the
defaults. -/
def profiledAnalysis (profile : Assoc String Value) (analysis : List (Anchored × Anchored)) :
    Anchored :=
  let known := (ofValue (Config.profiledAnalysis profile [])).entries
  let explicit := analysis.filter fun e => !(Config.analysisDefault e.1.value).same e.2.value
  map none (mergeEntries known explicit)

/-- The configuration under a profile. -/
def withProfile (config : Anchored) (name : String) : Except Config.ProfileFault Anchored :=
  match Config.profiles.get? name with
  | none => .error (.unknown name)
  | some profile =>
    match (Engine.sectionOf config.value "analysis").map Value.isMap with
    | .ok true =>
      let analysis := ((config.get? "analysis").map entries).getD []
      let named := set config.entries "profile" (ofString name)
      .ok (map none (set named "analysis" (profiledAnalysis profile analysis)))
    | _ => .error (.setting .notAMapping)

/-- Switches rules off. -/
def withoutRules (config : Anchored) (rules : List String) : Except SettingFault Anchored :=
  match config with
  | map _ es =>
    match (config.get? "rules").getD (map none []) with
    | map _ toggles =>
      let toggles := rules.foldl (fun es r => set es r (leaf none (.bool false))) toggles
      .ok (map none (set es "rules" (map none toggles)))
    | _ => if rules.isEmpty then .ok config else .error .notUsable
  | _ => .error .notAMapping

end PipelineAudit.Anchored
